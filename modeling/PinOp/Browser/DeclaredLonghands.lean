import PinOp.Browser.MatchedRules

/-!
# The longhands a list of rules declares

A longhand has a place in its rule and no number yet: `buildRules` numbers the longhands of all
rules on from the first. What the cascade says of a longhand is read off its `rank`, in which the
number does not occur; `Numbered` says that the numbers order the longhands of one property as
their places do, and then `comparePrecedence` compares ranks.
-/

namespace PinOp.Browser

open PinOp.Lib

structure DeclaredLonghand where
  rule : RuleDraft
  place : ℕ
  record : CssRuleWalkRecord
  part : AuthoredLonghand
  deriving DecidableEq

/-- The declarations of a rule with their longhands, the first at the given place. -/
def declaredRows (rule : RuleDraft) :
    ℕ → List CssRuleWalkRecord → List (CssRuleWalkRecord × List DeclaredLonghand)
  | _, [] => []
  | place, record :: rest =>
    (record, (record.parts.zipIdx place).map fun part => ⟨rule, part.2, record, part.1⟩) ::
      declaredRows rule (place + record.parts.length) rest

def RuleDraft.rows (rule : RuleDraft) : List (CssRuleWalkRecord × List DeclaredLonghand) :=
  declaredRows rule 0 rule.declarations

def RuleDraft.declared (rule : RuleDraft) : List DeclaredLonghand := rule.rows.flatMap Prod.snd

def DeclaredLonghand.candidate (declared : DeclaredLonghand) (inherited : Bool) (base : ℕ) :
    CascadeCandidate :=
  declared.rule.candidate inherited declared.record declared.part (base + declared.place)

def longhandCount (drafts : List RuleDraft) : ℕ := (drafts.map RuleDraft.size).sum

/-! ## Rows and numbers -/

/-- Importance, then specificity, then the place in the document; a style attribute stands last. -/
def DeclaredLonghand.rank (declared : DeclaredLonghand) : ℕ ×ₗ ℕ ×ₗ ℕ ×ₗ ℕ ×ₗ ℕ ×ₗ ℕ :=
  let specificity := declared.rule.specificity.getD ⟨0, 0, 0⟩
  toLex (if declared.record.important then 1 else 0, toLex (specificity.identifiers,
    toLex (specificity.classes, toLex (specificity.types,
      toLex (declared.rule.sourceOrder, declared.place)))))

end PinOp.Browser
