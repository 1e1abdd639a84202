import PinOp.Lib.Comparator
import PinOp.Lib.Doubles
import PinOp.Lib.Regex
import PinOp.Css.CssRuleWalker

/-!
# One declaration against the others

`classifyCascade` sets a declaration against the declarations of one snapshot: it wins, or it is
overridden, unless something about it or about the others makes the cascade undecidable here. A
declaration is known by its place in the snapshot, which its `sourceOrder` tells.
-/

namespace PinOp.Browser

open PinOp.Lib
open PinOp.Css (CssRuleContextKind CssRuleContextRecord)

structure SelectorSpecificity where
  identifiers : ℕ
  classes : ℕ
  types : ℕ
  deriving DecidableEq, Repr

structure CascadeCandidate where
  property : String
  value : String
  important : Bool
  specificity : Option SelectorSpecificity
  sourceOrder : ℕ
  contexts : List CssRuleContextRecord
  active : Option Bool
  inherited : Bool
  deriving DecidableEq

inductive MatchedDeclarationState where
  | winningKnownAuthor
  | overriddenKnownAuthor
  | inactive
  | unknown
  deriving DecidableEq, Repr

inductive MatchedDeclarationReason where
  | highestPrecedenceKnownAuthorDeclaration
  | lowerPrecedenceAuthorDeclaration
  | inactiveGroupCondition
  | unsupportedCascadeLayer
  | unsupportedCascadeScope
  | unsupportedContainerQuery
  | unsupportedStartingStyle
  | unsupportedGroupContext
  | unknownGroupApplicability
  | customPropertyCascade
  | variableDependentValue
  | animationOrTransitionCascade
  | unsupportedShorthand
  | inheritedAuthorDeclaration
  | unsupportedSelectorSpecificity
  deriving DecidableEq, Repr

structure CascadeClassification where
  state : MatchedDeclarationState
  reason : MatchedDeclarationReason
  deriving DecidableEq, Repr

def shorthandProperties : List String :=
  ["all", "animation", "background", "border", "border-block", "border-color", "border-image",
    "border-inline", "border-radius", "border-style", "border-width", "columns", "flex",
    "flex-flow", "font", "gap", "grid", "grid-area", "grid-column", "grid-row", "grid-template",
    "inset", "inset-block", "inset-inline", "list-style", "margin", "margin-block",
    "margin-inline", "mask", "offset", "outline", "overflow", "padding", "padding-block",
    "padding-inline", "place-content", "place-items", "place-self", "text-decoration",
    "text-emphasis", "transition"]

def isShorthand (property : String) : Bool := shorthandProperties.contains (jsToLowerCase property)

def isAnimationOrTransition (property : String) : Bool :=
  let normalized := jsToLowerCase property
  normalized = "animation" || normalized.startsWith "animation-" || normalized = "transition" ||
    normalized.startsWith "transition-"

def isUnsupportedKind : CssRuleContextKind → Bool
  | .layer | .scope | .container | .startingStyle | .unknown => true
  | .media | .supports => false

def hasUnsupportedContext (contexts : List CssRuleContextRecord) : Bool :=
  contexts.any fun context => isUnsupportedKind context.kind

/-! ## `/\bvar\s*\(/i` -/

def isWordCharacter (c : Char) : Bool := c.isAlphanum || c = '_'

/-- `var\s*\(` from here on. -/
def startsVar : List Char → Bool
  | v :: a :: r :: rest =>
    (v = 'v' || v = 'V') && (a = 'a' || a = 'A') && (r = 'r' || r = 'R') &&
      (rest.dropWhile isJsSpace).head? = some '('
  | _ => false

def hasVarFrom : Bool → List Char → Bool
  | _, [] => false
  | afterWord, c :: rest =>
    (!afterWord && startsVar (c :: rest)) || hasVarFrom (isWordCharacter c) rest

def hasVar (value : String) : Bool := hasVarFrom false value.toList

/-! ## What cannot be decided -/

def compareSpecificity (left right : SelectorSpecificity) : ℤ :=
  orNext ((left.identifiers : ℤ) - right.identifiers)
    (orNext ((left.classes : ℤ) - right.classes) ((left.types : ℤ) - right.types))

theorem compareSpecificity_isComparator : IsComparator compareSpecificity :=
  (IsComparator.ascending fun s : SelectorSpecificity => (s.identifiers : ℤ)).orNext
    ((IsComparator.ascending fun s : SelectorSpecificity => (s.classes : ℤ)).orNext
      (IsComparator.ascending fun s : SelectorSpecificity => (s.types : ℤ)))

theorem compareSpecificity_eq_zero {left right : SelectorSpecificity} :
    compareSpecificity left right = 0 ↔ left = right := by
  cases left
  cases right
  simp only [compareSpecificity, orNext, SelectorSpecificity.mk.injEq]
  split
  · omega
  · split <;> omega

end PinOp.Browser
