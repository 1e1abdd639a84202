import PinOp.Lib.Comparator
import PinOp.Lib.OrderedMap
import PinOp.Lib.Regex

/-!
# Fingerprints of declarations

A rule is known by its declarations, each brought to one spelling. How one value is spelled,
and which longhands it sets, is a parameter: nothing here depends on the tables of
shorthands, on the locale, or on how the selector parser prints a selector.
-/

namespace PinOp.Css

open PinOp.Lib

structure CssDeclarationEvidence where
  property : String
  value : String
  important : Option Bool
  valueComplete : Option Bool
  deriving DecidableEq

structure NormalizedDeclaration where
  property : String
  value : String
  important : Bool
  deriving DecidableEq

/-- The spelling of selectors, values and properties. `longhands` is what a property that is no
custom one and its normalised value expand to. -/
structure CssSpelling where
  toLowerCase : String → String
  localeCompare : String → String → ℤ
  normalizeSelector : String → Option String
  normalizeCssValue : String → String
  longhands : String → String → List (String × String)

namespace CssSpelling

variable (spelling : CssSpelling)

def normalizeCondition (value : String) : String := spelling.normalizeCssValue value

end CssSpelling

/-! ## Importance -/

/-- `\s*!\s*important\s*$`, under the flag `i` -/
def importantSuffix : Regex :=
  .cat [.star .space, .lit "!", .star .space, .litFold "important", .star .space, .eos]

def endsImportant (value : String) : Bool := (importantSuffix.beforeMatch value.toList).isSome

/-- `value.replace(IMPORTANT_SUFFIX, "")` -/
def withoutImportant (value : String) : String :=
  ((importantSuffix.beforeMatch value.toList).map String.ofList).getD value

def isImportant (declaration : CssDeclarationEvidence) : Bool :=
  declaration.important.getD (endsImportant declaration.value)

/-! ## Normalised declarations -/

def normalizeDeclaration (spelling : CssSpelling) (declaration : CssDeclarationEvidence) :
    List NormalizedDeclaration :=
  if declaration.valueComplete = some false then []
  else
    let rawProperty := jsTrim declaration.property
    let customProperty := rawProperty.startsWith "--"
    let property := if customProperty then rawProperty else spelling.toLowerCase rawProperty
    if property = "" then []
    else
      let suffixImportant := endsImportant declaration.value
      if suffixImportant && declaration.important = some false then []
      else
        let unprioritizedValue := withoutImportant declaration.value
        let important := declaration.important.getD suffixImportant
        if customProperty then [⟨property, jsTrim unprioritizedValue, important⟩]
        else
          (spelling.longhands property (spelling.normalizeCssValue unprioritizedValue)).map
            fun longhand => ⟨longhand.1, longhand.2, important⟩

/-- The last declaration of a property wins, unless an earlier one is important. -/
def settleOverlaps (declarations : List NormalizedDeclaration) : List NormalizedDeclaration :=
  let winners := declarations.foldl (fun (winners : OrderedMap String NormalizedDeclaration) d =>
    if (winners.get? d.property).any NormalizedDeclaration.important && !d.important then winners
    else winners.set d.property d) ∅
  winners.entries.map Prod.snd

def compareDeclarations (spelling : CssSpelling) (left right : NormalizedDeclaration) : ℤ :=
  orNext (orNext (spelling.localeCompare left.property right.property)
    (spelling.localeCompare left.value right.value))
    ((if left.important then 1 else 0) - (if right.important then 1 else 0))

/-- The loop of `declarationFingerprint`; `none` where it returns early. -/
def normalizeEach (spelling : CssSpelling) :
    List String → List CssDeclarationEvidence → Option (List NormalizedDeclaration)
  | _, [] => some []
  | declared, declaration :: rest =>
    match normalizeDeclaration spelling declaration with
    | [] => none
    | entries =>
      let name := spelling.toLowerCase (jsTrim declaration.property)
      if declared.contains name then none
      else (normalizeEach spelling (name :: declared) rest).map (entries ++ ·)

def declarationFingerprint (spelling : CssSpelling) (declarations : List CssDeclarationEvidence) :
    List NormalizedDeclaration :=
  match normalizeEach spelling [] declarations with
  | none => []
  | some normalized =>
    (settleOverlaps normalized).mergeSort fun left right =>
      decide (compareDeclarations spelling left right ≤ 0)

def completeDeclarationFingerprint (spelling : CssSpelling)
    (declarations : List CssDeclarationEvidence) : Option (List NormalizedDeclaration) :=
  if declarations.any fun declaration => declaration.valueComplete = some false then none
  else
    let fingerprint := declarationFingerprint spelling declarations
    if declarations.length = 0 then some fingerprint
    else if 0 < fingerprint.length then some fingerprint
    else none

/-- The cascade inside one rule. -/
def declarationsAfterInRuleCascade (spelling : CssSpelling)
    (declarations : List CssDeclarationEvidence) : List CssDeclarationEvidence :=
  let winners := declarations.foldl (fun (winners : OrderedMap String CssDeclarationEvidence) d =>
    let rawProperty := jsTrim d.property
    let key := if rawProperty.startsWith "--" then rawProperty else spelling.toLowerCase rawProperty
    if (winners.get? key).any isImportant && !isImportant d then winners
    else winners.set key d) ∅
  winners.entries.map Prod.snd

def declarationMatches (evidence candidate : NormalizedDeclaration) : Bool :=
  evidence.property = candidate.property && evidence.important = candidate.important &&
    candidate.value = evidence.value

/-- The loop of `declarationsContainEvidence` over what is left of a candidate. -/
def containsEach : List NormalizedDeclaration → List NormalizedDeclaration → Bool
  | _, [] => true
  | unused, expected :: rest =>
    unused.any (declarationMatches expected) &&
      containsEach (unused.eraseP (declarationMatches expected)) rest

def declarationsContainEvidence (candidate evidence : List NormalizedDeclaration) : Bool :=
  evidence.length ≠ 0 && containsEach candidate evidence

/-! ## Comparing with what the browser reports -/

/-- `^-(?:webkit|moz|ms|o)-` -/
def vendorPrefix : Regex :=
  .cat [.lit "-", .alt (.lit "webkit") (.alt (.lit "moz") (.alt (.lit "ms") (.lit "o"))), .lit "-"]

/-- `^-?(?:\d+|\d*\.\d+)px$` -/
def pixelLength : Regex :=
  let digit := Regex.chars Char.isDigit
  .cat [.opt (.lit "-"), .alt (.plus digit) (.cat [.star digit, .lit ".", .plus digit]), .lit "px"]

/-- A bare number is read as pixels in quirks mode. -/
def readsAsPixels (reported declared : String) : Bool :=
  pixelLength.test reported && String.ofList reported.toList.dropLast.dropLast = declared

/-- A prefixed declaration that is not reported was dropped by the browser. -/
def declarationsBrowsersKeep (reported declared : List NormalizedDeclaration) :
    List NormalizedDeclaration :=
  let reportedProperties := reported.map NormalizedDeclaration.property
  declared.filter fun d =>
    (vendorPrefix.execPrefix d.property).isNone || reportedProperties.contains d.property

def sameReported (entry candidate : NormalizedDeclaration) : Bool :=
  entry.property = candidate.property && entry.important = candidate.important &&
    (entry.value = candidate.value || readsAsPixels entry.value candidate.value)

def equalReportedDeclarations (reported declared : List NormalizedDeclaration) : Bool :=
  let retained := declarationsBrowsersKeep reported declared
  reported.length = retained.length &&
    (reported.zip retained).all fun (entry, candidate) => sameReported entry candidate

end PinOp.Css
