import Mathlib.Data.List.DropRight
import Mathlib.Data.List.Sort
import Mathlib.Order.Defs.Unbundled

/-!
# A bounded list of the best

`insertBest le limit best x` puts `x` into a sorted list of at most `limit` elements, from
the far end, and drops what no longer fits. Folding it over any list keeps its best
elements: `BestOf` says so, and `BestOf.mem_take_or_le` is the form in which a search that
looks at no more than the kept elements uses it.
-/

namespace PinOp.Lib

variable {α : Type*} (le : α → α → Prop)

section
variable [DecidableRel le]

/-- `x` goes before every element at the end that is not `le` it. -/
def insertBest (limit : ℕ) (best : List α) (x : α) : List α :=
  let kept := best.rdropWhile fun b => ¬ le b x
  if limit ≤ kept.length then best
  else
    let longer := kept ++ x :: best.drop kept.length
    if limit < longer.length then longer.dropLast else longer

def keepBest (limit : ℕ) (xs : List α) : List α := xs.foldl (insertBest le limit) []

end

/-- The kept elements are sorted, and everything dropped comes after all of them. -/
structure BestOf (limit : ℕ) (seen best : List α) : Prop where
  sorted : best.Pairwise le
  length_le : best.length ≤ limit
  rest : ∃ dropped, seen.Perm (best ++ dropped) ∧ (dropped ≠ [] → best.length = limit) ∧
    ∀ b ∈ best, ∀ d ∈ dropped, le b d

namespace BestOf

variable {le} {limit : ℕ} {seen best longer : List α} {x y : α}

theorem nil : BestOf le limit [] [] :=
  ⟨.nil, Nat.zero_le _, [], .nil, fun h => absurd rfl h, List.forall_mem_nil _⟩

theorem subset (h : BestOf le limit seen best) : best ⊆ seen := by
  obtain ⟨dropped, hperm, -, -⟩ := h.rest
  exact fun b hb => hperm.mem_iff.2 (List.mem_append_left _ hb)

theorem nodup (h : BestOf le limit seen best) (hnd : seen.Nodup) : best.Nodup := by
  obtain ⟨dropped, hperm, -, -⟩ := h.rest
  exact (hperm.nodup_iff.1 hnd).of_append_left

theorem perm {seen' : List α} (h : BestOf le limit seen best) (hp : seen'.Perm seen) :
    BestOf le limit seen' best := by
  obtain ⟨dropped, hperm, hlen, hle⟩ := h.rest
  exact ⟨h.sorted, h.length_le, dropped, hp.trans hperm, hlen, hle⟩

/-- Whoever looks at the first `n` of `n + 1` kept elements has seen everything that does not
come after the next one. -/
theorem mem_take_or_le [Std.Total le] {n : ℕ} (h : BestOf le (n + 1) seen best) (hy : y ∈ seen) :
    y ∈ best.take n ∨ ∃ u, best[n]? = some u ∧ le u y := by
  obtain ⟨dropped, hperm, hfull, hle⟩ := h.rest
  have hlen := h.length_le
  rcases List.mem_append.1 (hperm.mem_iff.1 hy) with hy | hy
  · obtain ⟨i, hi, rfl⟩ := List.mem_iff_getElem.1 hy
    by_cases hin : i < n
    · exact .inl (List.mem_take_iff_getElem.2 ⟨i, by omega, rfl⟩)
    · obtain rfl : i = n := by omega
      exact .inr ⟨_, List.getElem?_eq_getElem hi, (Std.Total.total _ _).elim id id⟩
  · have hbest := hfull (List.ne_nil_of_mem hy)
    have hn : n < best.length := by omega
    exact .inr ⟨best[n], List.getElem?_eq_getElem hn, hle _ (List.getElem_mem hn) y hy⟩

variable [IsTrans α le]

/-- Cutting a sorted list with one element more back to the limit. -/
theorem take_cons (h : BestOf le limit seen best) (hsorted : longer.Pairwise le)
    (hperm : longer.Perm (x :: best)) : BestOf le limit (x :: seen) (longer.take limit) := by
  obtain ⟨dropped, hseen, hfull, hle⟩ := h.rest
  have hlen : longer.length = best.length + 1 := by simpa using hperm.length_eq
  have hmem : longer.take limit ++ longer.drop limit = longer := List.take_append_drop _ _
  have hcross : ∀ b ∈ longer.take limit, ∀ d ∈ longer.drop limit, le b d := by
    rw [← hmem] at hsorted
    exact (List.pairwise_append.1 hsorted).2.2
  refine ⟨hsorted.sublist (List.take_sublist _ _), List.length_take_le _ _,
    longer.drop limit ++ dropped, ?_, ?_, ?_⟩
  · rw [← List.append_assoc, hmem]
    exact (hseen.cons x).trans (hperm.symm.append_right dropped)
  · intro hne
    rw [List.length_take]
    by_cases hd : dropped = []
    · have hdrop : longer.drop limit ≠ [] := by simpa [hd] using hne
      have hlt : limit < longer.length := by simpa using hdrop
      omega
    · have hbest := hfull hd
      omega
  · intro b hb d hd
    rcases List.mem_append.1 hd with hd | hd
    · exact hcross b hb d hd
    -- something was dropped before, so the list is full and one element falls off now
    have hbest := hfull (List.ne_nil_of_mem hd)
    obtain ⟨last, hlast⟩ : ∃ last, longer.drop limit = [last] := by
      rw [← List.length_eq_one_iff, List.length_drop]; omega
    have hlastmem : last ∈ x :: best := by
      rw [← hperm.mem_iff, ← hmem, hlast]; simp
    rcases List.mem_cons.1 hlastmem with rfl | hlastmem
    · have htake : (longer.take limit).Perm best := by
        have hsplit : (longer.take limit ++ [last]).Perm (last :: best) := by
          rw [← hlast, hmem]; exact hperm
        exact (List.perm_cons last).1 ((List.perm_append_singleton last _).symm.trans hsplit)
      exact hle b (htake.mem_iff.1 hb) d hd
    · exact IsTrans.trans b last d (hcross b hb last (by rw [hlast]; simp)) (hle last hlastmem d hd)

/-- Putting `x` before the elements it is not after keeps the list sorted. -/
theorem sorted_insert (hsorted : best.Pairwise le) {kept tail : List α}
    (hbest : kept ++ tail = best) (hkept : ∀ b, kept.getLast? = some b → le b x)
    (htail : ∀ b ∈ tail, le x b) : (kept ++ x :: tail).Pairwise le := by
  subst hbest
  obtain ⟨hk, ht, hcross⟩ := List.pairwise_append.1 hsorted
  have hkx : ∀ b ∈ kept, le b x := by
    intro b hb
    obtain ⟨init, last, rfl⟩ := List.eq_nil_or_concat kept |>.resolve_left (List.ne_nil_of_mem hb)
    have hlast : le last x := hkept last (by simp)
    rw [List.concat_eq_append] at hk hb
    rcases List.mem_append.1 hb with hb | hb
    · exact IsTrans.trans b last x ((List.pairwise_append.1 hk).2.2 b hb last (by simp)) hlast
    · rw [List.mem_singleton.1 hb]; exact hlast
  refine List.pairwise_append.2 ⟨hk, List.pairwise_cons.2 ⟨htail, ht⟩, ?_⟩
  intro b hb d hd
  rcases List.mem_cons.1 hd with rfl | hd
  · exact hkx b hb
  · exact hcross b hb d hd

variable [DecidableRel le] [Std.Total le]

theorem insertBest (h : BestOf le limit seen best) :
    BestOf le limit (x :: seen) (PinOp.Lib.insertBest le limit best x) := by
  have hlen := h.length_le
  obtain ⟨kept, tail, hkept, hbest, hlast, htail⟩ : ∃ kept tail,
      best.rdropWhile (fun b => ¬ le b x) = kept ∧ kept ++ tail = best ∧
      (∀ b, kept.getLast? = some b → le b x) ∧ ∀ b ∈ tail, le x b := by
    refine ⟨_, best.rtakeWhile (fun b => ¬ le b x), rfl, ?_, ?_, ?_⟩
    · exact List.rdropWhile_append_rtakeWhile
    · intro b hb
      have hne : best.rdropWhile (fun b => ¬ le b x) ≠ [] := by
        intro hnil
        rw [hnil] at hb
        cases hb
      have hnot := List.rdropWhile_last_not _ _ hne
      rw [List.getLast?_eq_getLast_of_ne_nil hne, Option.some.injEq] at hb
      rw [hb] at hnot
      simpa using hnot
    · intro b hb
      have hnot : ¬ le b x := by simpa using List.mem_rtakeWhile_imp hb
      exact (Std.Total.total x b).resolve_right hnot
  have hdrop : best.drop kept.length = tail := by rw [← hbest, List.drop_left]
  have hlonger := sorted_insert h.sorted hbest hlast htail
  have hperm : (kept ++ x :: tail).Perm (x :: best) := by
    rw [← hbest]; exact List.perm_middle
  have hcut : PinOp.Lib.insertBest le limit best x = (kept ++ x :: tail).take limit := by
    have hsize : kept.length + tail.length = best.length := by
      rw [← hbest, List.length_append]
    simp only [PinOp.Lib.insertBest, hkept, hdrop]
    split
    · next hle =>
      have htail : tail = [] := List.length_eq_zero_iff.1 (by omega)
      have hk : kept.length = limit := by omega
      subst htail
      rw [← hbest, List.append_nil, ← hk, List.take_left]
    · split
      · next hlt =>
        rw [List.dropLast_eq_take]
        congr 1
        simp only [List.length_append, List.length_cons] at hlt ⊢
        omega
      · next hle => rw [List.take_of_length_le (not_lt.1 hle)]
  rw [hcut]
  exact h.take_cons hlonger hperm

/-- Keeping the best of a list keeps its best elements. -/
theorem keepBest (limit : ℕ) (xs : List α) : BestOf le limit xs (PinOp.Lib.keepBest le limit xs) := by
  have hgo : ∀ (xs seen best : List α), BestOf le limit seen best →
      BestOf le limit (xs.reverse ++ seen) (xs.foldl (PinOp.Lib.insertBest le limit) best) := by
    intro xs
    induction xs with
    | nil => exact fun seen best h => h
    | cons x xs ih =>
      intro seen best h
      rw [List.foldl_cons, List.reverse_cons, List.append_assoc]
      exact ih _ _ h.insertBest
  have h := hgo xs [] [] .nil
  rw [List.append_nil] at h
  exact h.perm (List.reverse_perm xs).symm

end BestOf

end PinOp.Lib
