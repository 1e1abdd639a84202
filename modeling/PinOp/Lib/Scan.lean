import Mathlib.Data.List.Basic

/-!
# Scanners of a text

A scanner is a loop over a text with a bound on its rounds, a place and a state that it carries.
`Scans` is the way of a scanner from one place and state to another; it does not name the rounds:
as many as there are units up to `stop` are enough at both ends. `Stands text i units` says that
`units` stand in the text from `i` on.
-/

namespace PinOp.Lib

section Scans

variable {σ α : Type} {scan : ℕ → ℕ → σ → α} {stop i j k : ℕ} {s t u : σ}

def Scans (scan : ℕ → ℕ → σ → α) (stop i : ℕ) (s : σ) (j : ℕ) (t : σ) : Prop :=
  ∀ rounds, stop - i ≤ rounds → ∃ rounds', stop - j ≤ rounds' ∧ scan rounds i s = scan rounds' j t

theorem Scans.refl (scan : ℕ → ℕ → σ → α) (stop i : ℕ) (s : σ) : Scans scan stop i s i s :=
  fun rounds h => ⟨rounds, h, rfl⟩

theorem Scans.trans (h1 : Scans scan stop i s j t) (h2 : Scans scan stop j t k u) :
    Scans scan stop i s k u := by
  intro rounds h
  obtain ⟨rounds', h', e1⟩ := h1 rounds h
  obtain ⟨rounds'', h'', e2⟩ := h2 rounds' h'
  exact ⟨rounds'', h'', e1.trans e2⟩

/-- One round that goes on by at least one unit. -/
theorem Scans.step (hi : i < stop) (hj : i < j)
    (h : ∀ rounds, scan (rounds + 1) i s = scan rounds j t) : Scans scan stop i s j t := by
  intro rounds hrounds
  obtain ⟨rounds', rfl⟩ : ∃ rounds', rounds = rounds' + 1 := ⟨rounds - 1, by omega⟩
  exact ⟨rounds', by omega, h rounds'⟩

/-- What the scanner answers where it comes to is what it answers where it starts. -/
theorem Scans.answer {a : α} (h : Scans scan stop i s j t)
    (hend : ∀ rounds, stop - j ≤ rounds → scan rounds j t = a) {rounds : ℕ}
    (hrounds : stop - i ≤ rounds) : scan rounds i s = a := by
  obtain ⟨rounds', h', e⟩ := h rounds hrounds
  exact e.trans (hend rounds' h')

/-- The scanner needs no more rounds than there are units up to `stop`. -/
def Settles (scan : ℕ → ℕ → σ → α) (stop : ℕ) : Prop :=
  ∀ (rounds rounds' i : ℕ) (s : σ), stop - i ≤ rounds → stop - i ≤ rounds' →
    scan rounds i s = scan rounds' i s

/-- It is enough that behind `stop` it has its answer and before it a round answers or goes on. -/
theorem settles (hend : ∀ i s, stop ≤ i → ∃ a, ∀ rounds, scan rounds i s = a)
    (hround : ∀ i s, i < stop → (∃ a, ∀ rounds, scan (rounds + 1) i s = a) ∨
      ∃ j t, i < j ∧ ∀ rounds, scan (rounds + 1) i s = scan rounds j t) :
    Settles scan stop := by
  intro rounds
  induction rounds with
  | zero =>
    intro rounds' i s h _
    obtain ⟨a, ha⟩ := hend i s (by omega)
    rw [ha, ha]
  | succ rounds ih =>
    intro rounds' i s h h'
    rcases Nat.lt_or_ge i stop with hi | hi
    · obtain ⟨rounds', rfl⟩ : ∃ n, rounds' = n + 1 := ⟨rounds' - 1, by omega⟩
      rcases hround i s hi with ⟨a, ha⟩ | ⟨j, t, hj, hgoes⟩
      · rw [ha, ha]
      · rw [hgoes, hgoes]
        exact ih rounds' j t (by omega) (by omega)
    · obtain ⟨a, ha⟩ := hend i s hi
      rw [ha, ha]

/-- From every state of the one kind at `i` the scanner gets to a state of the other kind at `j`. -/
def Passes (scan : ℕ → ℕ → σ → α) (stop : ℕ) (I : σ → Prop) (i : ℕ) (J : σ → Prop) (j : ℕ) : Prop :=
  ∀ s, I s → ∃ t, J t ∧ Scans scan stop i s j t

variable {I J K : σ → Prop}

theorem Passes.refl (scan : ℕ → ℕ → σ → α) (stop : ℕ) (I : σ → Prop) (i : ℕ) :
    Passes scan stop I i I i :=
  fun s h => ⟨s, h, .refl scan stop i s⟩

theorem Passes.trans (h1 : Passes scan stop I i J j) (h2 : Passes scan stop J j K k) :
    Passes scan stop I i K k := by
  intro s hs
  obtain ⟨t, ht, e1⟩ := h1 s hs
  obtain ⟨u, hu, e2⟩ := h2 t ht
  exact ⟨u, hu, e1.trans e2⟩

/-- A way from one state is a passage of it. -/
theorem Scans.passes (h : Scans scan stop i s j t) (ht : J t) : Passes scan stop (· = s) i J j := by
  rintro _ rfl
  exact ⟨t, ht, h⟩

theorem Passes.scans (h : Passes scan stop (· = s) i (· = t) j) : Scans scan stop i s j t := by
  obtain ⟨_, rfl, hscan⟩ := h s rfl
  exact hscan

/-- Over units each of which the scanner goes over in its own round. -/
theorem passes_units {text us : List ℕ}
    (hstep : ∀ j u, i ≤ j → j < stop → text[j]? = some u → u ∈ us → Passes scan stop I j I (j + 1))
    (h : us <+: text.drop i) (hstop : i + us.length ≤ stop) :
    Passes scan stop I i I (i + us.length) := by
  induction us generalizing i with
  | nil => exact Passes.refl scan stop I i
  | cons u us ih =>
    rw [List.length_cons] at hstop ⊢
    obtain ⟨rest, e⟩ := h
    have hunit : text[i]? = some u := by
      rw [← Nat.add_zero i, ← List.getElem?_drop, ← e]
      rfl
    have htail : us <+: text.drop (i + 1) := ⟨rest, by rw [← List.drop_drop, ← e]; rfl⟩
    have hrest := ih (fun j v hij hj hv hmem =>
      hstep j v (Nat.le_of_succ_le hij) hj hv (List.mem_cons_of_mem u hmem)) htail (by omega)
    rw [show i + 1 + us.length = i + (us.length + 1) by omega] at hrest
    exact (hstep i u (Nat.le_refl i) (by omega) hunit List.mem_cons_self).trans hrest

end Scans

section Stands

variable {α : Type} {text us vs : List α} {u : α} {i : ℕ}

def Stands (text : List α) (i : ℕ) (us : List α) : Prop := us <+: text.drop i

theorem Stands.left (h : Stands text i (us ++ vs)) : Stands text i us :=
  (List.prefix_append us vs).trans h

theorem Stands.right (h : Stands text i (us ++ vs)) : Stands text (i + us.length) vs := by
  obtain ⟨rest, e⟩ := h
  refine ⟨rest, ?_⟩
  rw [← List.drop_drop, ← e, List.append_assoc, List.drop_left]

theorem Stands.head (h : Stands text i (u :: us)) : text[i]? = some u := by
  obtain ⟨rest, e⟩ := h
  rw [← Nat.add_zero i, ← List.getElem?_drop, ← e]
  rfl

theorem Stands.tail (h : Stands text i (u :: us)) : Stands text (i + 1) us :=
  @Stands.right α text [u] us i h

/-- What stands behind `us` when one unit more does. -/
theorem Stands.next (h : Stands text i (us ++ u :: vs)) : text[i + us.length]? = some u :=
  h.right.head

theorem Stands.upto (h : Stands text i (us ++ u :: vs)) : Stands text i (us ++ [u]) := by
  rw [List.append_cons] at h
  exact h.left

theorem Stands.get (h : Stands text i us) {j : ℕ} (hj : j < us.length) :
    text[i + j]? = us[j]? := by
  obtain ⟨rest, e⟩ := h
  rw [← List.getElem?_drop, ← e, List.getElem?_append_left hj]

theorem Stands.stop_le (h : Stands text i us) (hne : us ≠ []) : i + us.length ≤ text.length := by
  have hle := List.IsPrefix.length_le h
  rw [List.length_drop] at hle
  have hpos := List.length_pos_iff.2 hne
  omega

theorem Stands.head?_eq (h : Stands text i us) (hne : us ≠ []) : text[i]? = us.head? := by
  obtain _ | ⟨u, us⟩ := us
  · exact absurd rfl hne
  · exact h.head

/-- What is cut out of the text between the ends of `us`. -/
theorem Stands.slice (h : Stands text i us) : (text.take (i + us.length)).drop i = us := by
  obtain ⟨rest, e⟩ := h
  rw [List.drop_take, ← e, Nat.add_sub_cancel_left, List.take_left]

theorem stands_append (before us after : List α) :
    Stands (before ++ us ++ after) before.length us := by
  refine ⟨after, ?_⟩
  rw [List.append_assoc, List.drop_left]

end Stands

end PinOp.Lib
