import PinOp.Lib.Scan
import PinOp.Php.PrintedMarkup

/-!
# Reading the parts of written markup

What the scanners do over text with blocks, over attributes and over tags, wherever they stand.
-/

namespace PinOp.Php

open PinOp.Lib

variable {text us more needle c : List ℕ} {i j x u : ℕ} {p : ℕ → Bool}

/-! ## Units and blocks -/

theorem startsWith_iff : startsWith text i needle = true ↔ Stands text i needle :=
  List.isPrefixOf_iff_prefix

/-- Whether a needle stands is told by as many units. -/
theorem startsWith_eq (h : Stands text i us) (hlen : needle.length ≤ us.length) :
    startsWith text i needle = needle.isPrefixOf us := by
  obtain ⟨rest, hrest⟩ := h
  have hiff : needle <+: text.drop i ↔ needle <+: us := by
    rw [← hrest]
    constructor
    · exact fun h => List.prefix_of_prefix_length_le h (List.prefix_append us rest) hlen
    · exact fun h => h.trans (List.prefix_append us rest)
  rw [startsWith, Bool.eq_iff_iff, List.isPrefixOf_iff_prefix, List.isPrefixOf_iff_prefix]
  exact hiff

theorem block_length (c : List ℕ) : (block c).length = c.length + 4 := by
  simp only [block, List.length_append]
  have h : (ascii "<?").length = 2 ∧ (ascii "?>").length = 2 := by decide
  omega

theorem opens_block (h : Stands text i (block c)) : startsWith text i (ascii "<?") = true := by
  refine startsWith_iff.2 ?_
  rw [block, List.append_assoc] at h
  exact h.left

theorem skipPhpBlock_block (hc : NoClose c) (h : Stands text i (block c)) :
    skipPhpBlock text i = i + (block c).length := by
  obtain ⟨rest, hrest⟩ := h
  have hdrop : text.drop (i + 2) = c ++ 0x3f :: 0x3e :: rest := by
    rw [← List.drop_drop, ← hrest]
    simp [block, ascii]
  rw [skipPhpBlock, indexOf, hdrop, findIn_close hc, block_length]
  show i + 2 + c.length + 2 = _
  omega

/-- No block is opened at a unit of text that is clear. -/
theorem not_opens_clear (hclear : Clear (u :: us)) (hx : x ≠ 0x3f)
    (h : Stands text i (u :: (us ++ [x]))) : startsWith text i (ascii "<?") = false := by
  rw [startsWith_eq h (by simp [ascii])]
  cases hopens : (ascii "<?").isPrefixOf (u :: (us ++ [x])) with
  | false => rfl
  | true =>
    obtain ⟨rest, hrest⟩ := List.isPrefixOf_iff_prefix.1 hopens
    have hu : 0x3c = u := (List.cons.inj hrest).1
    cases us with
    | nil => exact absurd (List.cons.inj (List.cons.inj hrest).2).1.symm hx
    | cons v us =>
      have hv : 0x3f = v := (List.cons.inj (List.cons.inj hrest).2).1
      refine absurd ⟨[], us, ?_⟩ hclear
      rw [← hu, ← hv]
      rfl

theorem Clear.tail (h : Clear (u :: us)) : Clear us := fun hin =>
  h (hin.trans (List.suffix_cons u us).isInfix)

/-! ## Text with blocks -/

section Mixed

variable {σ α : Type} {scan : ℕ → ℕ → σ → α} {onUnit : σ → ℕ → σ} {onBlock : σ → σ} {stop : ℕ}

/-- A unit of the kind that opens no block takes a round; what follows is a block, a unit of the
kind, or the end. -/
def UnitRound (text : List ℕ) (p : ℕ → Bool) (scan : ℕ → ℕ → σ → α) (onUnit : σ → ℕ → σ)
    (stop : ℕ) : Prop :=
  ∀ j s u, text[j]? = some u → p u = true → startsWith text j (ascii "<?") = false →
    (∀ v, text[j + 1]? = some v → v = 0x3c ∨ p v = true ∨ j + 1 = stop) →
      Scans scan text.length j s (j + 1) (onUnit s u)

def BlockRound (text : List ℕ) (scan : ℕ → ℕ → σ → α) (onBlock : σ → σ) : Prop :=
  ∀ j s, startsWith text j (ascii "<?") = true →
    Scans scan text.length j s (skipPhpBlock text j) (onBlock s)

theorem scans_clear (hunit : UnitRound text p scan onUnit stop) (hclear : Clear us)
    (hus : ∀ u ∈ us, p u = true) (hx : x ≠ 0x3f) (hend : x = 0x3c ∨ i + us.length = stop)
    (h : Stands text i (us ++ [x])) (s : σ) :
    Scans scan text.length i s (i + us.length) (us.foldl onUnit s) := by
  induction us generalizing i s with
  | nil => exact .refl scan text.length i s
  | cons u us ih =>
    have htail : Stands text (i + 1) (us ++ [x]) := h.tail
    have hnext : ∀ v, text[i + 1]? = some v → v = 0x3c ∨ p v = true ∨ i + 1 = stop := by
      intro v hv
      cases us with
      | nil =>
        have hxv : x = v := Option.some.inj (htail.head.symm.trans hv)
        rcases hend with hend | hend
        · exact .inl (hxv ▸ hend)
        · exact .inr (.inr hend)
      | cons w us =>
        have hwv : w = v := Option.some.inj (htail.head.symm.trans hv)
        exact .inr (.inl (hwv ▸ hus w (by simp)))
    have hfirst := hunit i s u h.head (hus u List.mem_cons_self) (not_opens_clear hclear hx h) hnext
    have hlen : i + (u :: us).length = i + 1 + us.length := by
      rw [List.length_cons]
      omega
    rw [hlen] at hend ⊢
    exact hfirst.trans (ih hclear.tail (fun v hv => hus v (List.mem_cons_of_mem _ hv)) hend htail _)

/-- What a scanner carries over text with blocks. -/
def Mixed.fold (onUnit : σ → ℕ → σ) (onBlock : σ → σ) (s : σ) (m : Mixed) : σ :=
  m.rest.foldl (fun s q => q.2.foldl onUnit (onBlock s)) (m.first.foldl onUnit s)

theorem scans_mixed (hunit : UnitRound text p scan onUnit stop)
    (hblock : BlockRound text scan onBlock) {m : Mixed} (hm : m.Fits p) (hx : x ≠ 0x3f)
    (hend : i + m.units.length = stop) (h : Stands text i (m.units ++ [x])) (s : σ) :
    Scans scan text.length i s (i + m.units.length) (m.fold onUnit onBlock s) := by
  obtain ⟨first, rest⟩ := m
  induction rest generalizing i first s with
  | nil =>
    have hunits : (⟨first, []⟩ : Mixed).units = first := by simp [Mixed.units]
    rw [hunits] at hend h ⊢
    exact scans_clear hunit hm.1.1 hm.1.2 hx (.inr hend) h s
  | cons q rest ih =>
    have hq := hm.2 q List.mem_cons_self
    have hunits : (⟨first, q :: rest⟩ : Mixed).units =
        first ++ (block q.1 ++ (⟨q.2, rest⟩ : Mixed).units) := by
      simp [Mixed.units, List.append_assoc]
    rw [hunits, List.append_assoc, List.append_assoc] at h
    have hfirst : Stands text i (first ++ [0x3c]) := by
      have hb : block q.1 = 0x3c :: (block q.1).tail := rfl
      rw [hb, List.cons_append] at h
      exact h.upto
    have hbehind := h.right
    have hopen := opens_block hbehind.left
    have hskip := skipPhpBlock_block hq.1 hbehind.left
    have hlater := hbehind.right
    have hlen : i + (⟨first, q :: rest⟩ : Mixed).units.length =
        i + first.length + (block q.1).length + (⟨q.2, rest⟩ : Mixed).units.length := by
      rw [hunits, List.length_append, List.length_append]
      omega
    rw [hlen] at hend ⊢
    have h₁ := scans_clear hunit hm.1.1 hm.1.2 (by decide) (.inl rfl) hfirst s
    have h₂ := hblock (i + first.length) (first.foldl onUnit s) hopen
    rw [hskip] at h₂
    have hrest : (⟨q.2, rest⟩ : Mixed).Fits p :=
      ⟨⟨hq.2.1, hq.2.2⟩, fun r hr => hm.2 r (List.mem_cons_of_mem _ hr)⟩
    exact (h₁.trans h₂).trans (ih _ q.2 hrest hend hlater)

end Mixed

/-! ## The end of a tag -/

theorem lt_length_of_opens (h : startsWith text i (ascii "<?") = true) : i < text.length :=
  startsWith_lt (by decide) h

theorem skipToTagEnd_mixed {m : Mixed} (hm : m.Fits fun u => u ≠ 0x3e)
    (h : Stands text i (m.units ++ [0x3e])) : skipToTagEnd text i = i + m.units.length + 1 := by
  have hunit : UnitRound text (fun u => u ≠ 0x3e)
      (fun rounds i (_ : Unit) => skipToTagEndFrom text rounds i) (fun s _ => s)
      (i + m.units.length) := by
    intro j s u hu hp hopens _
    have hj := (List.getElem?_eq_some_iff.1 hu).1
    refine Scans.step hj (Nat.lt_succ_self j) fun rounds => ?_
    have hne : u ≠ 0x3e := by simpa using hp
    rw [skipToTagEndFrom, if_neg (by omega), hopens, hu]
    simp [hne]
  have hblock : BlockRound text (fun rounds i (_ : Unit) => skipToTagEndFrom text rounds i) id := by
    intro j s hopens
    have hj := lt_length_of_opens hopens
    refine Scans.step hj (lt_skipPhpBlock hopens) fun rounds => ?_
    rw [skipToTagEndFrom, if_neg (by omega), if_pos hopens]
  have hscans := scans_mixed hunit hblock hm (by decide) rfl h ()
  refine hscans.answer (a := i + m.units.length + 1) (fun rounds hrounds => ?_) (Nat.le_refl _)
  have hend := h.next
  have hlt := (List.getElem?_eq_some_iff.1 hend).1
  obtain ⟨rounds, rfl⟩ : ∃ n, rounds = n + 1 := ⟨rounds - 1, by omega⟩
  show skipToTagEndFrom text (rounds + 1) (i + m.units.length) = _
  rw [skipToTagEndFrom, if_neg (by omega), not_opens (by decide) hend, hend]
  rfl

/-! ## Values -/

/-- A unit that is read and the mark of a block. -/
def readUnit (s : List ℕ × Bool) (u : ℕ) : List ℕ × Bool := (s.1 ++ [u], s.2)

def readBlock (s : List ℕ × Bool) : List ℕ × Bool := (s.1, true)

theorem foldl_readUnit (us : List ℕ) (s : List ℕ × Bool) :
    us.foldl readUnit s = (s.1 ++ us, s.2) := by
  induction us generalizing s with
  | nil => simp
  | cons u us ih =>
    rw [List.foldl_cons, ih]
    simp [readUnit]

theorem fold_value (m : Mixed) :
    m.fold readUnit readBlock ([], false) = (m.literal, m.dynamic) := by
  have hrest : ∀ (rest : List (List ℕ × List ℕ)) (s : List ℕ × Bool),
      rest.foldl (fun s q => q.2.foldl readUnit (readBlock s)) s =
        (s.1 ++ rest.flatMap (fun q => q.2), s.2 || !rest.isEmpty) := by
    intro rest
    induction rest with
    | nil => simp
    | cons q rest ih =>
      intro s
      rw [List.foldl_cons, ih, foldl_readUnit]
      simp [readBlock]
  rw [Mixed.fold, foldl_readUnit, hrest]
  simp [Mixed.literal, Mixed.dynamic]

theorem blockRound_value (quote : Option ℕ) :
    BlockRound text (fun rounds i (s : List ℕ × Bool) => readValueFrom text quote rounds i s.1 s.2)
      readBlock := by
  intro j s hopens
  refine Scans.step (lt_length_of_opens hopens) (lt_skipPhpBlock hopens) fun rounds => ?_
  rw [readValueFrom, if_pos hopens]
  rfl

theorem unitRound_quoted (quote stop : ℕ) :
    UnitRound text (fun u => u ≠ quote)
      (fun rounds i (s : List ℕ × Bool) => readValueFrom text (some quote) rounds i s.1 s.2)
      readUnit stop := by
  intro j s u hu hp hopens _
  refine Scans.step (List.getElem?_eq_some_iff.1 hu).1 (Nat.lt_succ_self j) fun rounds => ?_
  have hne : u ≠ quote := by simpa using hp
  rw [readValueFrom, hopens, hu]
  simp [hne, readUnit]

/-- A slash before the end of the tag ends the value. -/
theorem unitRound_unquoted {stop : ℕ}
    (hslash : text[stop]? = some 0x3e → ∀ j, j + 1 = stop → text[j]? ≠ some 0x2f) :
    UnitRound text Value.isUnquotedUnit
      (fun rounds i (s : List ℕ × Bool) => readValueFrom text none rounds i s.1 s.2)
      readUnit stop := by
  intro j s u hu hp hopens hnext
  refine Scans.step (List.getElem?_eq_some_iff.1 hu).1 (Nat.lt_succ_self j) fun rounds => ?_
  have hkinds : isWhitespace u = false ∧ u ≠ 0x3e := by
    simp only [Value.isUnquotedUnit, Bool.and_eq_true, decide_eq_true_eq, Bool.not_eq_true'] at hp
    exact ⟨hp.1.1, hp.1.2⟩
  have hend : (u = 0x2f && text[j + 1]? = some 0x3e : Bool) = false := by
    by_cases hu' : u = 0x2f
    · have hne : text[j + 1]? ≠ some 0x3e := by
        intro hgt
        rcases hnext 0x3e hgt with h | h | h
        · cases h
        · cases h
        · exact hslash (h ▸ hgt) j h (hu' ▸ hu)
      simp [hne]
    · simp [hu']
  rw [readValueFrom, hopens, hu]
  simp only [Bool.false_eq_true, if_false, hkinds.1, Bool.false_or, hend, Bool.or_false,
    decide_eq_true_eq, if_neg hkinds.2]
  rfl

theorem readAttributeValue_value {v : Value} (hv : v.Fits) (h : Stands text i (v.units ++ x :: more))
    (hends : v.endsBefore (x :: more) = true) :
    readAttributeValue text i =
      ⟨trim v.mixed.literal, v.mixed.dynamic, i + v.units.length⟩ := by
  cases v with
  | quoted quote m =>
    obtain ⟨hquote, hm⟩ := hv
    have hstart : (text[i]?.filter fun code => code = 0x22 || code = 0x27) = some quote := by
      have hunits : (Value.quoted quote m).units ++ x :: more =
          quote :: (m.units ++ [quote] ++ x :: more) := rfl
      rw [hunits] at h
      rw [h.head]
      rcases hquote with rfl | rfl <;> rfl
    have hbody : Stands text (i + 1) (m.units ++ [quote]) := by
      have : Stands text i (quote :: (m.units ++ [quote])) := h.left
      exact this.tail
    have hx : quote ≠ 0x3f := by
      rcases hquote with rfl | rfl <;> decide
    have hscans := scans_mixed (unitRound_quoted quote _) (blockRound_value (some quote)) hm hx rfl
      hbody ([], false)
    rw [fold_value] at hscans
    have hend := hbody.next
    have hlt := (List.getElem?_eq_some_iff.1 hend).1
    have hread : readValueFrom text (some quote) (text.length - (i + 1)) (i + 1) [] false =
        ⟨m.literal, m.dynamic, i + 1 + m.units.length⟩ := by
      refine hscans.answer (fun rounds hrounds => ?_) (Nat.le_refl _)
      obtain ⟨rounds, rfl⟩ : ∃ n, rounds = n + 1 := ⟨rounds - 1, by omega⟩
      have hopens : startsWith text (i + 1 + m.units.length) (ascii "<?") = false := by
        refine not_opens ?_ hend
        rcases hquote with rfl | rfl <;> decide
      show readValueFrom text (some quote) (rounds + 1) (i + 1 + m.units.length) _ _ = _
      rw [readValueFrom, hopens, hend]
      simp
    have hlen : (Value.quoted quote m).units.length = m.units.length + 2 := by
      simp [Value.units]
    unfold readAttributeValue
    simp only [hstart, Option.isSome_some, if_true, hread, hlt, decide_true, Bool.and_self]
    rw [hlen, show i + 1 + m.units.length + 1 = i + (m.units.length + 2) by omega]
    rfl
  | unquoted m =>
    obtain ⟨hm, hne, hhead⟩ := hv
    have hunits : (Value.unquoted m).units = m.units := rfl
    rw [hunits] at h
    have hgt : ∀ v, more.head? = some v → text[i + m.units.length + 1]? = some v := by
      intro v hv
      cases more with
      | nil => cases hv
      | cons w more =>
        rw [← Option.some.inj hv]
        exact h.right.tail.head
    have hfollow : isWhitespace x = true ∨ (x = 0x3e ∧ m.units.getLast? ≠ some 0x2f) ∨
        (x = 0x2f ∧ text[i + m.units.length + 1]? = some 0x3e) := by
      simp only [Value.endsBefore, Bool.or_eq_true, Bool.and_eq_true, decide_eq_true_eq] at hends
      rcases hends with (hends | hends) | hends
      · exact .inl hends
      · exact .inr (.inl hends)
      · exact .inr (.inr ⟨hends.1, hgt _ hends.2⟩)
    have hstart : (text[i]?.filter fun code => code = 0x22 || code = 0x27) = none := by
      rw [h.left.head?_eq hne]
      cases hfirst : m.units.head? with
      | none => rfl
      | some u =>
        have hu := hhead u hfirst
        simp [hu.1, hu.2]
    have hend := h.next
    have hstop : text[i + m.units.length]? = some 0x3e →
        ∀ j, j + 1 = i + m.units.length → text[j]? ≠ some 0x2f := by
      intro hgt j hj hslashUnit
      have hx : x = 0x3e := Option.some.inj (hend.symm.trans hgt)
      have hlast : m.units.getLast? = some 0x2f := by
        have hpos := List.length_pos_iff.2 hne
        have hget : text[i + (m.units.length - 1)]? = m.units[m.units.length - 1]? :=
          h.left.get (by omega)
        rw [List.getLast?_eq_getElem?, ← hget, ← hslashUnit]
        congr 1
        omega
      subst hx
      rcases hfollow with hfollow | hfollow | hfollow
      · cases hfollow
      · exact hfollow.2 hlast
      · cases hfollow.1
    have hx : x ≠ 0x3f := by
      rintro rfl
      rcases hfollow with hfollow | hfollow | hfollow
      · cases hfollow
      · cases hfollow.1
      · cases hfollow.1
    have hscans := scans_mixed (unitRound_unquoted hstop) (blockRound_value none) hm hx rfl h.upto
      ([], false)
    rw [fold_value] at hscans
    have hlt := (List.getElem?_eq_some_iff.1 hend).1
    have hread : readValueFrom text none (text.length - i) i [] false =
        ⟨m.literal, m.dynamic, i + m.units.length⟩ := by
      refine hscans.answer (fun rounds hrounds => ?_) (Nat.le_refl _)
      obtain ⟨rounds, rfl⟩ : ∃ n, rounds = n + 1 := ⟨rounds - 1, by omega⟩
      have hopens : startsWith text (i + m.units.length) (ascii "<?") = false := by
        refine not_opens ?_ hend
        rintro rfl
        rcases hfollow with hfollow | hfollow | hfollow
        · cases hfollow
        · cases hfollow.1
        · cases hfollow.1
      show readValueFrom text none (rounds + 1) (i + m.units.length) _ _ = _
      rw [readValueFrom, hopens, hend]
      rcases hfollow with hfollow | ⟨rfl, -⟩ | ⟨rfl, hgt⟩
      · simp [hfollow]
      · rfl
      · rw [hgt]
        rfl
    unfold readAttributeValue
    simp only [hstart, Option.isSome_none, Bool.false_eq_true, if_false, hread, Bool.false_and]
    rfl

end PinOp.Php
