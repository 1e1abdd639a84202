import PinOp.Css.DeclarationFingerprint
import PinOp.Css.IndexedRules
import PinOp.Css.TextDocument

/-!
# Rules as they are compared with a report

A file parsed as CSS, and what a report is compared with of each of its rules: where it
stands, its selector, the conditions around it and the fingerprint of its declarations.
The declarations of each rule node come with the syntax tree.
-/

namespace PinOp.Css

open PinOp.Lib

/-! ## The at-rules around a rule -/

inductive RuleContextKind where
  | media
  | supports
  deriving DecidableEq

structure StylesheetRuleContext where
  kind : RuleContextKind
  conditionText : String
  deriving DecidableEq

mutual

def Node.atRulesAround (id : NodeId) : Node → Option (List AtRule)
  | .rule node nodes => if node.id = id then some [] else atRulesAround id nodes
  | .atrule rule nodes => (atRulesAround id nodes).map (rule :: ·)
  | _ => none

/-- The at-rules that hold the rule of this id, the outermost first. -/
def atRulesAround (id : NodeId) : List Node → Option (List AtRule)
  | [] => none
  | node :: rest =>
    match node.atRulesAround id with
    | some around => some around
    | none => atRulesAround id rest

end

/-- The kinds of at-rules that are conditions. -/
def contextKind (rule : AtRule) : Option RuleContextKind :=
  if jsToLowerCase rule.name = "media" then some .media
  else if jsToLowerCase rule.name = "supports" then some .supports
  else none

def containingRuleContexts (spelling : CssSpelling) (around : List AtRule) :
    List StylesheetRuleContext :=
  around.filterMap fun rule =>
    (contextKind rule).map fun kind => ⟨kind, spelling.normalizeCondition rule.params⟩

/-- In a file of the syntax `css`, where no at-rule belongs to a preprocessor. -/
def hasUnsupportedGroupingContext (around : List AtRule) : Bool :=
  around.any fun rule => (contextKind rule).isNone

/-! ## Rules -/

structure RuleFingerprint where
  selector : Option String
  declarations : List NormalizedDeclaration
  deriving DecidableEq

structure ParsedRule extends StylesheetRule where
  expandedSelector : Option String
  range : SourceRange
  contexts : List StylesheetRuleContext
  hasUnsupportedGroupingContext : Bool
  hasCompleteDeclarationFingerprint : Bool
  fingerprint : RuleFingerprint
  deriving DecidableEq

/-- `rule.expandedSelector ?? rule.fingerprint.selector` -/
def ParsedRule.comparedSelector (rule : ParsedRule) : Option String :=
  rule.expandedSelector.or rule.fingerprint.selector

/-- A file that parses as CSS; `directDeclarations` are those of each rule node. -/
structure CssFile where
  parser : SelectorParser
  text : String
  tree : SyntaxTree
  directDeclarations : NodeId → List CssDeclarationEvidence
  maxRules : Option ℕ
  stylesheet : ParsedStylesheet
  parsed : parseStylesheet parser .css text tree maxRules = some stylesheet

namespace CssFile

variable (spelling : CssSpelling) (file : CssFile)

def positionAt (offset : ℕ) : SourcePosition := PinOp.Css.positionAt (codeUnits file.text) offset

/-- What `ruleFromNode` makes of the node of a rule. -/
def ruleOf (rule : StylesheetRule) : ParsedRule :=
  let around := (atRulesAround rule.node file.tree.nodes).getD []
  let declarations := declarationsAfterInRuleCascade spelling (file.directDeclarations rule.node)
  let normalizedDeclarations := declarationFingerprint spelling declarations
  { toStylesheetRule := rule
    expandedSelector := spelling.normalizeSelector rule.selector
    range := ⟨file.positionAt rule.startOffset, file.positionAt rule.endOffset⟩
    contexts := containingRuleContexts spelling around
    hasUnsupportedGroupingContext := PinOp.Css.hasUnsupportedGroupingContext around
    hasCompleteDeclarationFingerprint :=
      declarations.length = 0 || 0 < normalizedDeclarations.length
    fingerprint := ⟨spelling.normalizeSelector rule.selector, normalizedDeclarations⟩ }

def rules : List ParsedRule := file.stylesheet.rules.map (file.ruleOf spelling)

theorem nodup_rules : ((file.rules spelling).map fun rule => rule.node).Nodup := by
  rw [rules, List.map_map]
  exact parsed_rules_distinct file.parsed

/-- Rules of a file with one node are one rule. -/
theorem eq_of_node {spelling : CssSpelling} {file : CssFile} {rule other : ParsedRule}
    (hrule : rule ∈ file.rules spelling) (hother : other ∈ file.rules spelling)
    (h : rule.node = other.node) : rule = other :=
  List.inj_on_of_nodup_map (file.nodup_rules spelling) hrule hother h

/-! ## Looking a rule up -/

def findRuleByBrowserPath (path : String) : Option ParsedRule :=
  (PinOp.Css.findRuleByBrowserPath file.stylesheet path).map (file.ruleOf spelling)

def validSourcePosition (line column : ℤ) : Bool :=
  line ≤ maxSafeInteger && column ≤ maxSafeInteger && 1 ≤ line && 1 ≤ column

/-- `matches.length === 1 ? matches[0] : undefined` -/
def onlyMatch {α : Type} : List α → Option α
  | [found] => some found
  | _ => none

def findRuleAtProtocolPosition (line column : ℤ) : Option ParsedRule :=
  if validSourcePosition line column then
    let position : SourcePosition := ⟨line - 1, column - 1⟩
    let offset := offsetAt (codeUnits file.text) position
    if PinOp.Css.positionAt (codeUnits file.text) offset = position then
      onlyMatch ((file.rules spelling).filter fun rule =>
        rule.startOffset = offset && rule.range.start = position)
    else none
  else none

structure CompleteRuleFingerprintEvidence where
  selector : String
  declarations : List CssDeclarationEvidence
  contexts : List StylesheetRuleContext

def equalRuleContexts (left right : List StylesheetRuleContext) : Bool :=
  left.length = right.length && (left.zip right).all fun (entry, candidate) =>
    entry.kind = candidate.kind && entry.conditionText = candidate.conditionText

/-- The conditions of a report as those of a file are written. -/
def normalizedContexts (contexts : List StylesheetRuleContext) : List StylesheetRuleContext :=
  contexts.map fun context => ⟨context.kind, spelling.normalizeCondition context.conditionText⟩

def findUniqueRuleByCompleteFingerprint (evidence : CompleteRuleFingerprintEvidence) :
    Option ParsedRule :=
  match spelling.normalizeSelector evidence.selector,
    completeDeclarationFingerprint spelling evidence.declarations with
  | some selector, some declarations =>
    let contexts := normalizedContexts spelling evidence.contexts
    let compatible := (file.rules spelling).filter fun rule =>
      !rule.hasUnsupportedGroupingContext && rule.comparedSelector = some selector &&
        equalRuleContexts contexts rule.contexts
    if compatible.any fun rule => !rule.hasCompleteDeclarationFingerprint then none
    else onlyMatch (compatible.filter fun rule =>
      equalReportedDeclarations declarations rule.fingerprint.declarations)
  | _, _ => none

theorem equalRuleContexts_iff {left right : List StylesheetRuleContext} :
    equalRuleContexts left right = true ↔ left = right := by
  induction left generalizing right with
  | nil => cases right <;> simp [equalRuleContexts]
  | cons entry rest ih =>
    cases right with
    | nil => simp [equalRuleContexts]
    | cons candidate more =>
      have hentry : entry = candidate ↔
          entry.kind = candidate.kind ∧ entry.conditionText = candidate.conditionText := by
        cases entry
        cases candidate
        simp
      rw [List.cons.injEq, ← ih, hentry]
      simp only [equalRuleContexts, List.length_cons, List.zip_cons_cons, List.all_cons,
        Bool.and_eq_true, decide_eq_true_eq, Nat.add_right_cancel_iff]
      tauto

theorem onlyMatch_eq_some {α : Type} {found : List α} {a : α} :
    onlyMatch found = some a ↔ found = [a] := by
  rcases found with - | ⟨b, - | ⟨c, rest⟩⟩
  · simp [onlyMatch]
  · simp [onlyMatch]
  · simp [onlyMatch]

variable {spelling file} {rule : ParsedRule}

theorem mem_of_path {path : String} (h : file.findRuleByBrowserPath spelling path = some rule) :
    rule ∈ file.rules spelling := by
  obtain ⟨found, hfound, rfl⟩ := Option.map_eq_some_iff.1 h
  exact List.mem_map_of_mem (findRuleByBrowserPath_mem file.parsed hfound)

theorem mem_of_position {line column : ℤ}
    (h : file.findRuleAtProtocolPosition spelling line column = some rule) :
    rule ∈ file.rules spelling := by
  unfold findRuleAtProtocolPosition at h
  split at h
  · simp only at h
    split at h
    · have hmem : rule ∈ [rule] := List.mem_singleton_self rule
      rw [← onlyMatch_eq_some.1 h] at hmem
      exact List.mem_of_mem_filter hmem
    · cases h
  · cases h

end CssFile

end PinOp.Css
