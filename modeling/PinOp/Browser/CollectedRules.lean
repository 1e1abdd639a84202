import PinOp.Browser.DeclaredLonghands

/-!
# The rules the collector lists

The collector gives every matched rule an order of its own, in the order of the document, and the
style attribute the greatest safe integer; it lists the style attribute first. `Collected` is what
holds of these rules in any order, `Listed` holds of them in the collector's.
-/

namespace PinOp.Browser

open PinOp.Lib

structure Collected (drafts : List RuleDraft) : Prop where
  distinct : (drafts.map RuleDraft.sourceOrder).Nodup
  /-- All numbers but those of the style attribute are exact. -/
  exact : ∀ rule ∈ drafts, rule.sourceOrder ≠ maxSafeInteger →
    rule.sourceOrder * declarationsPerRule + longhandCount drafts ≤ 2 ^ 53
  /-- A style attribute has each longhand once. -/
  inline : ∀ rule ∈ drafts, rule.sourceOrder = maxSafeInteger →
    (rule.declared.map fun declared => declared.part.property).Nodup

theorem longhandCount_perm {drafts drafts' : List RuleDraft} (h : drafts.Perm drafts') :
    longhandCount drafts = longhandCount drafts' := (h.map _).sum_nat

theorem Collected.perm {drafts drafts' : List RuleDraft} (h : Collected drafts)
    (hperm : drafts.Perm drafts') : Collected drafts' where
  distinct := (hperm.map _).nodup_iff.mp h.distinct
  exact rule hrule hne := by
    rw [← longhandCount_perm hperm]
    exact h.exact rule (hperm.mem_iff.mpr hrule) hne
  inline rule hrule := h.inline rule (hperm.mem_iff.mpr hrule)

/-! ## Orders in doubles -/

namespace Collected

variable {drafts : List RuleDraft}

end Collected

end PinOp.Browser
