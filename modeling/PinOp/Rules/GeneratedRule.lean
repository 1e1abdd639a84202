import PinOp.Css.ParsedRules

/-!
# The generated rule that the browser reported

A rule is found where the browser says it stands, if what it carries agrees with the
report; else it is the only rule of the file that carries what was reported. Rules under
at-rules other than media and supports conditions are beyond either way.
-/

namespace PinOp.Rules

open PinOp.Lib PinOp.Css

/-! ## Evidence -/

structure InspectRuleDeclaration where
  property : String
  value : String
  important : Bool
  valueTruncated : Bool

/-- Where the browser saw a rule; lines and columns count from one. -/
structure InspectGeneratedSource where
  startLine : Option ℤ
  startColumn : Option ℤ
  endLine : Option ℤ
  endColumn : Option ℤ
  rulePath : Option String
  contexts : List StylesheetRuleContext

structure InspectRuleEvidence where
  selector : String
  declarations : List InspectRuleDeclaration
  generatedSource : Option InspectGeneratedSource

def declarationEvidence (evidence : InspectRuleEvidence) : List CssDeclarationEvidence :=
  evidence.declarations.map fun entry =>
    ⟨entry.property, entry.value, some entry.important, some !entry.valueTruncated⟩

/-! ## What a rule carries -/

variable (spelling : CssSpelling)

def equalContexts (evidence actual : List StylesheetRuleContext) : Bool :=
  evidence.length = actual.length && (evidence.zip actual).all fun (entry, candidate) =>
    entry.kind = candidate.kind &&
      spelling.normalizeCondition entry.conditionText = candidate.conditionText

def ruleMatchesEvidence (rule : ParsedRule) (evidence : InspectRuleEvidence) : Bool :=
  if rule.hasUnsupportedGroupingContext || !rule.hasCompleteDeclarationFingerprint then false
  else if spelling.normalizeSelector evidence.selector ≠ rule.comparedSelector then false
  else
    match completeDeclarationFingerprint spelling (declarationEvidence evidence) with
    | none => false
    | some declarations =>
      if equalReportedDeclarations declarations rule.fingerprint.declarations then
        equalContexts spelling ((evidence.generatedSource.map InspectGeneratedSource.contexts).getD [])
          rule.contexts
      else false

/-! ## Where a rule stands -/

def exactProtocolRangeMatchesRule (generated : InspectGeneratedSource) (rule : ParsedRule) : Bool :=
  let hasCompleteStart := generated.startLine.isSome && generated.startColumn.isSome
  if hasCompleteStart && (generated.startLine ≠ some (rule.range.start.line + 1) ||
      generated.startColumn ≠ some (rule.range.start.character + 1)) then false
  else
    let hasAnyEnd := generated.endLine.isSome || generated.endColumn.isSome
    if !hasAnyEnd then true
    else if !hasCompleteStart then false
    else
      generated.endLine = some (rule.range.stop.line + 1) &&
        generated.endColumn = some (rule.range.stop.character + 1)

/-- Candidates are the same object when their nodes are. -/
def exactIdentityCandidate (generated : InspectGeneratedSource)
    (byPosition byPath : Option ParsedRule) : Option ParsedRule :=
  let hasAnyStart := generated.startLine.isSome || generated.startColumn.isSome
  let hasCompleteStart := generated.startLine.isSome && generated.startColumn.isSome
  if hasAnyStart && (!hasCompleteStart || byPosition.isNone) then none
  else if generated.rulePath.isSome && byPath.isNone then none
  else
    let candidates := (if hasAnyStart then byPosition.toList else []) ++
      (if generated.rulePath.isSome then byPath.toList else [])
    match candidates.head? with
    | none => none
    | some candidate =>
      if candidates.any fun entry => entry.node ≠ candidate.node then none
      else if exactProtocolRangeMatchesRule generated candidate then some candidate
      else none

/-! ## The match -/

structure GeneratedRuleMatch where
  rule : ParsedRule
  corroborated : Bool
  deriving DecidableEq

def matchGeneratedRule (stylesheet : CssFile) (evidence : InspectRuleEvidence) :
    Option GeneratedRuleMatch :=
  match evidence.generatedSource with
  | none => none
  | some generated =>
    let byPosition := match generated.startLine, generated.startColumn with
      | some startLine, some startColumn =>
        stylesheet.findRuleAtProtocolPosition spelling startLine startColumn
      | _, _ => none
    let byPath := match generated.rulePath with
      | none => none
      | some rulePath => stylesheet.findRuleByBrowserPath spelling rulePath
    let relocated := (stylesheet.findUniqueRuleByCompleteFingerprint spelling
      ⟨evidence.selector, declarationEvidence evidence, generated.contexts⟩).map
        fun rule => ⟨rule, false⟩
    match exactIdentityCandidate generated byPosition byPath with
    | some identityCandidate =>
      if ruleMatchesEvidence spelling identityCandidate evidence then
        some ⟨identityCandidate, true⟩
      else relocated
    | none => relocated

def verifyGeneratedRule (stylesheet : CssFile) (evidence : InspectRuleEvidence) :
    Option ParsedRule :=
  (matchGeneratedRule spelling stylesheet evidence).map GeneratedRuleMatch.rule

end PinOp.Rules
