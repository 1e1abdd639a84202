import PinOp.Browser.AuthoredDeclarations
import PinOp.Browser.CascadeClassifier

/-!
# The rules that match an element

`matchingSelectors` finds the branches of a rule's selector list that match an element and weighs
them. `buildRules` has every declaration of the matched rules classified against all others, and
presents the rules with what wins first. Parsing a selector list and asking an element whether it
matches belong to the host; both may fail, and an element that cannot be asked does not match.
-/

namespace PinOp.Browser

open PinOp.Lib
open PinOp.Css (CssRuleContextRecord)

/-! ## Specificity -/

inductive SelectorNodeType where
  | id
  | className
  | attribute
  | tag
  | pseudo
  | universal
  | combinator
  | comment
  | selector
  | other
  deriving DecidableEq, Repr

inductive SpecificityNode where
  | mk (type : SelectorNodeType) (value : Option String) (nodes : Option (List SpecificityNode))

def SelectorSpecificity.zero : SelectorSpecificity := ⟨0, 0, 0⟩

def SelectorSpecificity.add (left right : SelectorSpecificity) : SelectorSpecificity :=
  ⟨left.identifiers + right.identifiers, left.classes + right.classes, left.types + right.types⟩

mutual

/-- The loop over the nodes of a branch; `weight` is what has been added up. -/
def specificityFrom : SelectorSpecificity → List SpecificityNode → Option SelectorSpecificity
  | weight, [] => some weight
  | weight, node :: rest =>
    match nodeSpecificity node with
    | none => none
    | some own => specificityFrom (weight.add own) rest

def nodeSpecificity : SpecificityNode → Option SelectorSpecificity
  | .mk .id _ _ => some ⟨1, 0, 0⟩
  | .mk .className _ _ | .mk .attribute _ _ => some ⟨0, 1, 0⟩
  | .mk .tag _ _ => some ⟨0, 0, 1⟩
  | .mk .universal _ _ | .mk .combinator _ _ | .mk .comment _ _ => some .zero
  | .mk .pseudo value nodes =>
    let value := jsToLowerCase (value.getD "")
    if value = ":host" || value = ":host-context" || value = "::slotted" then none
    else if value.startsWith "::" then some ⟨0, 0, 1⟩
    else
      match nodes with
      | some (node :: rest) =>
        if value = ":where" then some .zero
        else if value ≠ ":is" && value ≠ ":not" && value ≠ ":has" then none
        else maximumSpecificity none (node :: rest)
      | _ => some ⟨0, 1, 0⟩
  | .mk .selector _ _ | .mk .other _ _ => none

/-- The loop over the branches inside a function; there is at least one. -/
def maximumSpecificity : Option SelectorSpecificity → List SpecificityNode →
    Option SelectorSpecificity
  | maximum, [] => maximum
  | maximum, .mk .selector _ (some nodes) :: rest =>
    match specificityFrom .zero nodes with
    | none => none
    | some nested =>
      maximumSpecificity
        (if maximum.all fun maximum => 0 < compareSpecificity nested maximum then some nested
          else maximum) rest
  | _, _ :: _ => none

end

def specificityForNodes (nodes : List SpecificityNode) : Option SelectorSpecificity :=
  specificityFrom .zero nodes

/-- What the selector parser and the element answer. -/
structure SelectorHost where
  /-- the branches of a selector list, trimmed -/
  branches : String → Option (List String)
  /-- the nodes of each branch -/
  nodes : String → Option (List (List SpecificityNode))
  /-- `safeMatches`, or `pseudoAwareMatches` where markers are set -/
  «matches» : String → Bool

def specificityFor (host : SelectorHost) (selector : String) : Option SelectorSpecificity :=
  match host.nodes selector with
  | some [nodes] => specificityForNodes nodes
  | _ => none

structure CssRuleWalkRecord where
  property : String
  value : String
  important : Bool
  valueTruncated : Bool
  longhands : Option (List AuthoredLonghand)
  deriving DecidableEq, Repr

structure GeneratedMatchedRuleSource where
  sourceUrl : Option String
  startLine : Option ℕ
  startColumn : Option ℕ
  endLine : Option ℕ
  endColumn : Option ℕ
  rulePath : String
  deriving DecidableEq, Repr

structure RuleDraft where
  ruleRef : String
  selectorText : String
  matchingSelectorIndices : List ℕ
  specificity : Option SelectorSpecificity
  contexts : List CssRuleContextRecord
  contextsTruncated : Bool
  mediaTruncated : Bool
  declarationsTruncated : Bool
  active : Option Bool
  source : GeneratedMatchedRuleSource
  sourceOrder : ℕ
  declarations : List CssRuleWalkRecord
  deriving DecidableEq

structure MatchedDeclaration where
  ruleRef : String
  property : String
  value : String
  important : Bool
  valueTruncated : Bool
  classification : CascadeClassification
  deriving DecidableEq, Repr

structure MatchedRule where
  ruleRef : String
  selectorText : String
  matchingSelectorIndices : List ℕ
  declarations : List MatchedDeclaration
  contexts : List CssRuleContextRecord
  declarationsTruncated : Bool
  contextsTruncated : Bool
  mediaTruncated : Bool
  source : GeneratedMatchedRuleSource
  deriving DecidableEq

def declarationsPerRule : ℕ := 128

def maxSafeInteger : ℕ := 2 ^ 53 - 1

/-- A declaration that is not a shorthand cascades as itself. -/
def CssRuleWalkRecord.parts (record : CssRuleWalkRecord) : List AuthoredLonghand :=
  record.longhands.getD [⟨record.property, record.value⟩]

/-- `rule.sourceOrder * declarationsPerRule + declarationOrder`, in doubles. -/
def candidateOrder (rule : RuleDraft) (declarationOrder : ℕ) : ℕ :=
  toDouble (toDouble (rule.sourceOrder * declarationsPerRule) + declarationOrder)

def RuleDraft.candidate (rule : RuleDraft) (inherited : Bool) (record : CssRuleWalkRecord)
    (part : AuthoredLonghand) (declarationOrder : ℕ) : CascadeCandidate where
  property := part.property
  value := part.value
  important := record.important
  specificity := rule.specificity
  sourceOrder := candidateOrder rule declarationOrder
  contexts := rule.contexts
  active := rule.active
  inherited := inherited

def RuleDraft.size (rule : RuleDraft) : ℕ :=
  (rule.declarations.map fun record => record.parts.length).sum

end PinOp.Browser
