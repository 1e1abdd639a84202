import Mathlib.Data.List.Basic

/-!
# Keys in the order of their last use

Uses are listed newest first. What was never used counts as used longest ago.
-/

namespace PinOp.Lib

variable {κ : Type*} [DecidableEq κ] {uses : List κ} {a b c : κ} {keys keys' : List κ}

def UsedBefore (uses : List κ) (a b : κ) : Prop := uses.idxOf b < uses.idxOf a

theorem usedBefore_self (uses : List κ) (h : a ≠ c) : UsedBefore (c :: uses) a c := by
  unfold UsedBefore
  rw [List.idxOf_cons_self, List.idxOf_cons_ne uses h.symm]
  omega

theorem UsedBefore.cons (h : UsedBefore uses a b) (ha : a ≠ c) : UsedBefore (c :: uses) a b := by
  by_cases hb : b = c
  · rw [hb]
    exact usedBefore_self uses ha
  · unfold UsedBefore at h ⊢
    rw [List.idxOf_cons_ne uses (Ne.symm ha), List.idxOf_cons_ne uses (Ne.symm hb)]
    omega

/-- The key used longest ago comes first. -/
def ByRecency (uses keys : List κ) : Prop := keys.Pairwise (UsedBefore uses)

namespace ByRecency

theorem sublist (h : ByRecency uses keys) (hs : keys'.Sublist keys) : ByRecency uses keys' :=
  List.Pairwise.sublist hs h

/-- A key that is used goes last. -/
theorem use (h : ByRecency uses keys) (hc : c ∉ keys) : ByRecency (c :: uses) (keys ++ [c]) := by
  have hne (a) (ha : a ∈ keys) : a ≠ c := fun he => hc (he ▸ ha)
  refine List.pairwise_append.mpr ⟨?_, List.pairwise_singleton _ _, fun a ha b hb => ?_⟩
  · exact h.imp_of_mem fun ha _ hab => hab.cons (hne _ ha)
  · rw [List.mem_singleton.mp hb]
    exact usedBefore_self uses (hne a ha)

end ByRecency

end PinOp.Lib
