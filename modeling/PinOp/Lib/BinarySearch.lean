import Mathlib.Data.List.TakeWhile

/-!
# Binary search for a boundary

`search before count low high` halves `[low, high)` until it is empty. When `before` says of each
place whether it is in front of a boundary, the search ends at the boundary; in a list whose
elements with a property come first, the boundary is where they end.
-/

namespace PinOp.Lib

/-- `count` is how often the loop may still go round. -/
def search (before : ℕ → Bool) : ℕ → ℕ → ℕ → ℕ
  | 0, low, _ => low
  | count + 1, low, high =>
    if low < high then
      let middle := (low + high) / 2
      if before middle then search before count (middle + 1) high
      else search before count low middle
    else low

/-- As many rounds as there are places are enough. -/
theorem search_eq {before : ℕ → Bool} {boundary n : ℕ}
    (hbefore : ∀ i < n, before i = decide (i < boundary)) :
    ∀ {count low high : ℕ}, low ≤ boundary → boundary ≤ high → high ≤ n → high - low ≤ count →
      search before count low high = boundary := by
  intro count
  induction count with
  | zero =>
    intro low high hlow hhigh _ hcount
    show low = boundary
    omega
  | succ count ih =>
    intro low high hlow hhigh hn hcount
    unfold search
    by_cases hlt : low < high
    · have hmiddle := hbefore ((low + high) / 2) (by omega)
      simp only [if_pos hlt, hmiddle, decide_eq_true_eq]
      by_cases hb : (low + high) / 2 < boundary
      · rw [if_pos hb]
        exact ih (by omega) hhigh hn (by omega)
      · rw [if_neg hb]
        exact ih hlow (by omega) (by omega) (by omega)
    · rw [if_neg hlt]
      omega

section List

variable {α : Type} {p : α → Bool} {xs : List α}

/-- Where the elements with `p` come first, a place has one of them exactly up to their end. -/
theorem any_getElem?_eq (h : xs.Pairwise fun a b => p b = true → p a = true) :
    ∀ i < xs.length, xs[i]?.any p = decide (i < (xs.takeWhile p).length) := by
  induction xs with
  | nil => exact fun i hi => absurd hi (Nat.not_lt_zero i)
  | cons x xs ih =>
    obtain ⟨hx, hxs⟩ := List.pairwise_cons.1 h
    intro i hi
    cases hp : p x with
    | true =>
      rw [List.takeWhile_cons_of_pos hp]
      cases i with
      | zero => simp [hp]
      | succ i =>
        have := ih hxs i (Nat.lt_of_succ_lt_succ hi)
        simpa using this
    | false =>
      rw [List.takeWhile_cons_of_neg (by simp [hp])]
      have hall : ∀ y ∈ x :: xs, p y = false := by
        intro y hy
        rcases List.mem_cons.1 hy with rfl | hy
        · exact hp
        · by_contra hne
          have := hx y hy (by simpa using hne)
          rw [hp] at this
          cases this
      have hat := hall (x :: xs)[i] (List.getElem_mem hi)
      rw [List.getElem?_eq_getElem hi]
      simpa using hat

/-- The search in such a list ends behind the elements with `p`. -/
theorem search_list (h : xs.Pairwise fun a b => p b = true → p a = true) :
    search (fun i => xs[i]?.any p) xs.length 0 xs.length = (xs.takeWhile p).length :=
  search_eq (any_getElem?_eq h) (Nat.zero_le _) (List.takeWhile_sublist p).length_le
    (Nat.le_refl _) (Nat.le_refl _)

theorem drop_length_takeWhile (p : α → Bool) (xs : List α) :
    xs.drop (xs.takeWhile p).length = xs.dropWhile p := by
  induction xs with
  | nil => rfl
  | cons x xs ih =>
    cases hp : p x with
    | true =>
      rw [List.takeWhile_cons_of_pos hp, List.dropWhile_cons_of_pos hp]
      exact ih
    | false =>
      have hneg : ¬p x = true := by simp [hp]
      rw [List.takeWhile_cons_of_neg hneg, List.dropWhile_cons_of_neg hneg]
      rfl

/-- Where the elements with `p` come first, they are all in the initial segment. -/
theorem not_of_mem_dropWhile (h : xs.Pairwise fun a b => p b = true → p a = true) :
    ∀ x ∈ xs.dropWhile p, p x = false := by
  induction xs with
  | nil => exact fun x hx => absurd hx List.not_mem_nil
  | cons y ys ih =>
    obtain ⟨hy, hys⟩ := List.pairwise_cons.1 h
    cases hp : p y with
    | true =>
      rw [List.dropWhile_cons_of_pos hp]
      exact ih hys
    | false =>
      rw [List.dropWhile_cons_of_neg (by simp [hp])]
      intro x hx
      rcases List.mem_cons.1 hx with rfl | hx
      · exact hp
      · cases hx' : p x with
        | false => rfl
        | true => exact absurd (hy x hx hx') (by simp [hp])

theorem filter_eq_takeWhile (h : xs.Pairwise fun a b => p b = true → p a = true) :
    xs.filter p = xs.takeWhile p := by
  have hrest : (xs.dropWhile p).filter p = [] := by
    rw [List.filter_eq_nil_iff]
    intro x hx
    simp [not_of_mem_dropWhile h x hx]
  have hfirst : (xs.takeWhile p).filter p = xs.takeWhile p :=
    List.filter_eq_self.2 fun x hx => List.mem_takeWhile_imp hx
  calc xs.filter p = (xs.takeWhile p ++ xs.dropWhile p).filter p := by
        rw [List.takeWhile_append_dropWhile]
    _ = xs.takeWhile p := by rw [List.filter_append, hfirst, hrest, List.append_nil]

end List

end PinOp.Lib
