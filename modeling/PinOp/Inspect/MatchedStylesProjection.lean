import PinOp.Css.CssRuleWalker
import PinOp.Inspect.PublicStylesheetUrl
import PinOp.Lib.Json
import PinOp.Lib.JsNumber

/-!
# What the rows of the Rules pane send

`projectMatchedStylesToCssFacts` goes through rows of matched rules and turns each into a unit: the
evidence of the rule, and its declarations as facts. Units draw on a budget of bytes that several
projections share; a row that yields no unit is counted.
-/

namespace PinOp.Inspect

open PinOp.Lib
open PinOp.Css (CssRuleContextKind)

/-! ## Matched styles -/

structure MatchedDeclaration where
  property : List ℕ
  value : List ℕ
  important : Bool
  valueTruncated : Bool
  deriving DecidableEq

structure CssRuleContextRecord where
  kind : CssRuleContextKind
  text : List ℕ
  deriving DecidableEq

structure GeneratedMatchedRuleSource where
  sourceUrl : Option (List ℕ)
  startLine : Option JsNumber
  startColumn : Option JsNumber
  endLine : Option JsNumber
  endColumn : Option JsNumber
  rulePath : List ℕ
  deriving DecidableEq

structure MatchedRule where
  /-- which object it is -/
  id : ℕ
  ruleRef : List ℕ
  selectorText : List ℕ
  declarations : List MatchedDeclaration
  declarationsTruncated : Bool
  contexts : List CssRuleContextRecord
  contextsTruncated : Bool
  mediaTruncated : Bool
  source : Option GeneratedMatchedRuleSource
  deriving DecidableEq

structure InheritedMatchedRules where
  ancestorIndex : ℕ
  rules : List MatchedRule
  deriving DecidableEq

structure MatchedStyles where
  domParentAncestorIndex : Option ℕ
  inline : Option MatchedRule
  rules : List MatchedRule
  inherited : List InheritedMatchedRules
  inaccessibleStylesheetCount : ℕ
  deriving DecidableEq

/-! ## Limits -/

namespace Limits

def rules : ℕ := 256
def declarationsPerRule : ℕ := 32
def contextsPerRule : ℕ := 16
def contextTextLength : ℕ := 2048
def ruleRefLength : ℕ := 128
def rulePathLength : ℕ := 512
def factsPerTarget : ℕ := 256
def selectorLength : ℕ := 2048
def propertyNameLength : ℕ := 256
def valueLength : ℕ := 16384
def line : ℕ := 10000000
def column : ℕ := 1000000

end Limits

/-! ## What is sent -/

structure InspectRuleDeclaration where
  property : List ℕ
  value : List ℕ
  important : Bool
  valueTruncated : Bool
  deriving DecidableEq

inductive InspectContextKind where
  | media
  | supports
  deriving DecidableEq

structure InspectRuleContext where
  kind : InspectContextKind
  conditionText : List ℕ
  deriving DecidableEq

/-- Lines and columns come in pairs. -/
structure InspectGeneratedSource where
  sourceUrl : List ℕ
  start : Option (ℕ × ℕ)
  stop : Option (ℕ × ℕ)
  rulePath : Option (List ℕ)
  contexts : List InspectRuleContext
  contextsTruncated : Bool
  unsupportedGroupContext : Bool
  deriving DecidableEq

structure InspectRuleEvidence where
  ruleRef : List ℕ
  selector : List ℕ
  declarations : List InspectRuleDeclaration
  declarationsTruncated : Bool
  generatedSource : Option InspectGeneratedSource
  deriving DecidableEq

structure CssRuleFact where
  ruleRef : List ℕ
  declaration : InspectRuleDeclaration
  deriving DecidableEq

structure InspectRuleEvidenceBatch where
  rules : List InspectRuleEvidence
  omittedRuleCount : ℕ
  deriving DecidableEq

structure CorrelatedRuleUnit where
  evidence : InspectRuleEvidence
  facts : List CssRuleFact
  deriving DecidableEq

/-! ## How it is written -/

def InspectRuleDeclaration.members (declaration : InspectRuleDeclaration) : List (List ℕ × Json) :=
  [(units "property", .string declaration.property), (units "value", .string declaration.value),
    (units "important", .bool declaration.important),
    (units "valueTruncated", .bool declaration.valueTruncated)]

def InspectContextKind.text : InspectContextKind → List ℕ
  | media => units "media"
  | supports => units "supports"

def InspectRuleContext.toJson (context : InspectRuleContext) : Json :=
  .object [(units "kind", .string context.kind.text),
    (units "conditionText", .string context.conditionText)]

/-- The members of a pair that may be missing. -/
def pairMembers (line column : String) : Option (ℕ × ℕ) → List (List ℕ × Json)
  | none => []
  | some pair => [(units line, .number pair.1), (units column, .number pair.2)]

def InspectGeneratedSource.toJson (source : InspectGeneratedSource) : Json :=
  .object ((units "sourceUrl", .string source.sourceUrl) ::
    (pairMembers "startLine" "startColumn" source.start ++
    pairMembers "endLine" "endColumn" source.stop ++
    (source.rulePath.map fun path => (units "rulePath", Json.string path)).toList ++
    [(units "contexts", .array (source.contexts.map InspectRuleContext.toJson)),
      (units "contextsTruncated", .bool source.contextsTruncated),
      (units "unsupportedGroupContext", .bool source.unsupportedGroupContext)]))

def InspectRuleEvidence.toJson (evidence : InspectRuleEvidence) : Json :=
  .object ([(units "ruleRef", .string evidence.ruleRef),
    (units "selector", .string evidence.selector),
    (units "declarations", .array (evidence.declarations.map fun d => .object d.members)),
    (units "declarationsTruncated", .bool evidence.declarationsTruncated)] ++
    (evidence.generatedSource.map fun source => (units "generatedSource", source.toJson)).toList)

def CssRuleFact.toJson (fact : CssRuleFact) : Json :=
  .object ([(units "type", .string (units "css-rule")), (units "ruleRef", .string fact.ruleRef)] ++
    fact.declaration.members ++ [(units "metadata", .object [])])

def CorrelatedRuleUnit.toJson (unit : CorrelatedRuleUnit) : Json :=
  .object [(units "evidence", unit.evidence.toJson),
    (units "facts", .array (unit.facts.map CssRuleFact.toJson))]

/-! ## Schemas -/

def lengthWithin (low high : ℕ) (text : List ℕ) : Bool := low ≤ text.length ∧ text.length ≤ high

/-- `0`, or digits that do not start with one. -/
def isPathSegment : List ℕ → Bool
  | [48] => true
  | first :: rest => 49 ≤ first && first ≤ 57 && rest.all isDigitUnit
  | [] => false

def digitsValue (digits : List ℕ) : ℕ := digits.foldl (fun value u => 10 * value + (u - 48)) 0

/-- The pattern of a rule path, with segments that are safe integers. -/
def isRulePath (path : List ℕ) : Bool :=
  (path.splitOn 46).all fun segment => isPathSegment segment && digitsValue segment ≤ 2 ^ 53 - 1

def InspectRuleDeclaration.valid (declaration : InspectRuleDeclaration) : Bool :=
  lengthWithin 1 Limits.propertyNameLength declaration.property &&
    lengthWithin 0 Limits.valueLength declaration.value

def InspectRuleContext.valid (context : InspectRuleContext) : Bool :=
  lengthWithin 1 Limits.contextTextLength context.conditionText

def positionWithin (position : ℕ × ℕ) : Bool :=
  1 ≤ position.1 ∧ position.1 ≤ Limits.line ∧ 1 ≤ position.2 ∧ position.2 ≤ Limits.column

def InspectGeneratedSource.valid (host : UrlHost) (source : InspectGeneratedSource) : Bool :=
  isPublicStylesheetUrl host source.sourceUrl && source.start.all positionWithin &&
    source.stop.all positionWithin &&
    (source.rulePath.all fun path => lengthWithin 1 Limits.rulePathLength path && isRulePath path) &&
    source.contexts.length ≤ Limits.contextsPerRule && source.contexts.all InspectRuleContext.valid &&
    (source.stop.isNone || source.start.isSome) && (source.start.isSome || source.rulePath.isSome) &&
    match source.start, source.stop with
    | some start, some stop => !(stop.1 < start.1 || (stop.1 = start.1 && stop.2 < start.2))
    | _, _ => true

def InspectRuleEvidence.valid (host : UrlHost) (evidence : InspectRuleEvidence) : Bool :=
  lengthWithin 1 Limits.ruleRefLength evidence.ruleRef &&
    lengthWithin 1 Limits.selectorLength evidence.selector &&
    evidence.declarations.all InspectRuleDeclaration.valid &&
    evidence.declarations.length ≤ Limits.declarationsPerRule &&
    evidence.generatedSource.all (InspectGeneratedSource.valid host)

/-! ## The budget -/

/-- Whether the value was accepted, and what remains; a value that is not accepted takes all. -/
def consumeJsonBudget (budget : ℕ) (value : Json) : Bool × ℕ :=
  if budget < value.bytes then (false, 0) else (true, budget - value.bytes)

/-! ## One row -/

def validPosition (value : Option JsNumber) (maximum : ℕ) : Option ℕ :=
  (value.bind JsNumber.integer?).bind fun n => if 1 ≤ n ∧ n ≤ maximum then some n.toNat else none

def validPair (line column : Option JsNumber) : Option (ℕ × ℕ) :=
  (validPosition line Limits.line).bind fun line =>
    (validPosition column Limits.column).map fun column => (line, column)

def validRulePath (path : List ℕ) : Bool :=
  path ≠ [] ∧ path.length ≤ Limits.rulePathLength ∧ isRulePath path

/-- `value.trim()` -/
def normalizeContextTrivia (text : List ℕ) : List ℕ :=
  let isSpace (u : ℕ) := isJsSpace (Char.ofNat u)
  ((text.dropWhile isSpace).reverse.dropWhile isSpace).reverse

def groupKind : CssRuleContextKind → Option InspectContextKind
  | .media => some .media
  | .supports => some .supports
  | _ => none

structure Contexts where
  contexts : List InspectRuleContext
  contextsTruncated : Bool
  unsupportedGroupContext : Bool

def addContext (seen : Contexts) (context : CssRuleContextRecord) : Contexts :=
  match groupKind context.kind with
  | none => { seen with unsupportedGroupContext := true }
  | some kind =>
    if Limits.contextsPerRule ≤ seen.contexts.length then { seen with contextsTruncated := true }
    else
      let normalized := normalizeContextTrivia context.text
      if normalized = [] then { seen with contextsTruncated := true }
      else
        { seen with
          contextsTruncated := seen.contextsTruncated || Limits.contextTextLength < normalized.length
          contexts := seen.contexts ++ [⟨kind, normalized.take Limits.contextTextLength⟩] }

def generatedSourceFor (host : UrlHost) (rule : MatchedRule) (pageUrl : List ℕ) :
    Option InspectGeneratedSource :=
  rule.source.bind fun source =>
    ((source.sourceUrl.filter fun url => url ≠ []).bind fun url =>
      (canonicalizePublicStylesheetUrl host url (some pageUrl)).filter fun url => url ≠ []).bind
    fun sourceUrl =>
      let seen := rule.contexts.foldl addContext
        ⟨[], rule.contextsTruncated || rule.mediaTruncated, false⟩
      let start := validPair source.startLine source.startColumn
      let stop := validPair source.endLine source.endColumn
      let rulePath := if validRulePath source.rulePath then some source.rulePath else none
      if start.isNone ∧ rulePath.isNone then none
      else
        let candidate : InspectGeneratedSource :=
          ⟨sourceUrl, start, if start.isSome then stop else none, rulePath, seen.contexts,
            seen.contextsTruncated, seen.unsupportedGroupContext⟩
        if candidate.valid host then some candidate else none

def MatchedDeclaration.sent (declaration : MatchedDeclaration) : InspectRuleDeclaration :=
  ⟨declaration.property, declaration.value, declaration.important, declaration.valueTruncated⟩

def createCorrelatedRuleUnit (host : UrlHost) (rule : MatchedRule) (declarationLimit : ℕ)
    (pageUrl : List ℕ) (inline includeFacts : Bool) : Option CorrelatedRuleUnit :=
  let declarations := (rule.declarations.take declarationLimit).map MatchedDeclaration.sent
  let evidence : InspectRuleEvidence :=
    ⟨rule.ruleRef, rule.selectorText, declarations,
      rule.declarationsTruncated || declarations.length < rule.declarations.length,
      if inline then none else generatedSourceFor host rule pageUrl⟩
  if evidence.valid host then
    some ⟨evidence,
      if includeFacts then evidence.declarations.map (CssRuleFact.mk evidence.ruleRef) else []⟩
  else none

/-! ## All rows -/

structure MatchedStylesProjectionOptions where
  inheritedAncestorIndex : Option ℕ
  pageUrl : List ℕ
  evidenceOnly : Bool

def selectedRules (matchedStyles : MatchedStyles) (options : MatchedStylesProjectionOptions) :
    List MatchedRule :=
  match options.inheritedAncestorIndex with
  | some index =>
    ((matchedStyles.inherited.find? fun group => group.ancestorIndex = index).map
      InheritedMatchedRules.rules).getD []
  | none => matchedStyles.inline.toList ++ matchedStyles.rules

/-- The loop's variables, and the budget. -/
structure ProjectionState where
  facts : List CssRuleFact
  evidenceRules : List InspectRuleEvidence
  omittedRuleCount : ℕ
  remainingBytes : ℕ

def ProjectionState.full (s : ProjectionState) (evidenceOnly : Bool) : Bool :=
  Limits.rules ≤ s.evidenceRules.length ||
    (!evidenceOnly && Limits.factsPerTarget ≤ s.facts.length) || s.remainingBytes = 0

/-- The unit of the next row. -/
def nextUnit (host : UrlHost) (matchedStyles : MatchedStyles)
    (options : MatchedStylesProjectionOptions) (s : ProjectionState) (rule : MatchedRule) :
    Option CorrelatedRuleUnit :=
  let remainingFacts :=
    if options.evidenceOnly then Limits.declarationsPerRule
    else Limits.factsPerTarget - s.facts.length
  createCorrelatedRuleUnit host rule (min Limits.declarationsPerRule remainingFacts)
    options.pageUrl (some rule.id = matchedStyles.inline.map MatchedRule.id) (!options.evidenceOnly)

def projectRows (host : UrlHost) (matchedStyles : MatchedStyles)
    (options : MatchedStylesProjectionOptions) : List MatchedRule → ProjectionState → ProjectionState
  | [], s => s
  | rule :: rest, s =>
    if s.full options.evidenceOnly then
      { s with omittedRuleCount := s.omittedRuleCount + (rest.length + 1) }
    else
      match nextUnit host matchedStyles options s rule with
      | none =>
        projectRows host matchedStyles options rest
          { s with omittedRuleCount := s.omittedRuleCount + 1 }
      | some unit =>
        match consumeJsonBudget s.remainingBytes unit.toJson with
        | (false, remainingBytes) =>
          { s with
            omittedRuleCount := s.omittedRuleCount + (rest.length + 1)
            remainingBytes }
        | (true, remainingBytes) =>
          projectRows host matchedStyles options rest
            ⟨s.facts ++ unit.facts, s.evidenceRules ++ [unit.evidence], s.omittedRuleCount,
              remainingBytes⟩

def projectMatchedStylesToCssFacts (host : UrlHost) (matchedStyles : MatchedStyles) (budget : ℕ)
    (options : MatchedStylesProjectionOptions) : ProjectionState :=
  projectRows host matchedStyles options (selectedRules matchedStyles options) ⟨[], [], 0, budget⟩

end PinOp.Inspect
