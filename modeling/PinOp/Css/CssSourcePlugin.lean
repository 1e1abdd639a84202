import PinOp.Css.FallbackIndex
import PinOp.Presenter.SourceMatch

/-!
# The CSS source plugin

Where the rules that are reported of an inspect stand in a CSS document. A fact with the
position or the path of its rule is matched exactly; one whose position or path does not
resolve is looked up in the fallback index, and what it finds there is a heuristic match.
How two URIs are compared and how a folder is labelled are parameters.
-/

namespace PinOp.Css

open PinOp.Lib PinOp.Protocol
open PinOp.Presenter (SourceTargetRole SourceConfidence)

/-! ## Facts -/

def urlLengthLimit : ℕ := 8192

structure FactSource where
  uri : String
  line : ℤ
  column : ℤ
  deriving DecidableEq

/-- A fact with what its evidence says of the rule. -/
structure CssResolutionFact where
  selector : String
  source : Option FactSource
  rulePath : Option String
  media : List String
  mediaTruncated : Bool
  deriving DecidableEq

structure TargetCssFact where
  targetRole : SourceTargetRole
  fact : CssResolutionFact
  sourceUrl : String
  declarations : List CssDeclarationEvidence
  deriving DecidableEq

/-- The conditions of a fact, normalised; `none` where they are not all known. -/
def factMedia (spelling : CssSpelling) (fact : CssResolutionFact) : Option (List String) :=
  if fact.mediaTruncated then none
  else if InspectLimits.mediaConditions < fact.media.length ||
      !fact.media.all (fun entry =>
        0 < jsLength (jsTrim entry) && jsLength entry ≤ InspectLimits.valueLength) then none
  else some (fact.media.map spelling.normalizeCondition)

/-- `stableCssRuleIdentity(fact) !== undefined` -/
def hasStableIdentity (fact : CssResolutionFact) : Bool :=
  match fact.source with
  | some source =>
    CssFile.validSourcePosition source.line source.column &&
      0 < jsLength source.uri && jsLength source.uri ≤ urlLengthLimit
  | none => (fact.rulePath.bind parseBrowserRulePath).isSome

namespace CssFile

variable (spelling : CssSpelling) (file : CssFile)

/-- The position of a source, if the document has it. -/
def offsetOf (source : FactSource) : Option ℤ :=
  let requested : SourcePosition := ⟨source.line - 1, source.column - 1⟩
  let offset := offsetAt (codeUnits file.text) requested
  if PinOp.Css.positionAt (codeUnits file.text) offset = requested then some offset else none

/-- `document` is missing where the file is not known to be the one of the fact. -/
def canFingerprintFallback (fact : CssResolutionFact) (document : Bool) : Bool :=
  hasStableIdentity fact && (factMedia spelling fact).isSome &&
    match fact.source with
    | some source =>
      validSourcePosition source.line source.column &&
        (!document || (file.offsetOf source).isSome)
    | none => fact.rulePath.all fun path => (parseBrowserRulePath path).isSome

def smallestRule (rules : List ParsedRule) : Option ParsedRule :=
  (rules.mergeSort fun left right =>
    decide (left.endOffset - left.startOffset ≤ right.endOffset - right.startOffset)).head?

def findExactCssRules (fact : CssResolutionFact) : List ParsedRule :=
  match fact.source with
  | some source =>
    if validSourcePosition source.line source.column then
      match file.offsetOf source with
      | none => []
      | some offset =>
        (smallestRule ((file.rules spelling).filter fun rule =>
          (rule.startOffset : ℤ) ≤ offset && offset < rule.endOffset)).toList
    else []
  | none =>
    match fact.rulePath with
    | none => []
    | some path => (file.findRuleByBrowserPath spelling path).toList

def fingerprintBucket (fact : CssResolutionFact) : List ParsedRule :=
  match fallbackSelectorKey spelling fact.selector, factMedia spelling fact with
  | some selector, some media =>
    (((file.fallbackIndexes spelling).mediaIndex.get? (selector, media)).join).getD []
  | _, _ => []

def findRulesByFingerprint (fact : CssResolutionFact)
    (declarations : List CssDeclarationEvidence) : List ParsedRule :=
  if file.canFingerprintFallback spelling fact false then
    let bucket := file.fingerprintBucket spelling fact
    let evidence := declarationFingerprint spelling declarations
    if evidence.length = 0 then []
    else bucket.filter fun rule =>
      declarationsContainEvidence rule.fingerprint.declarations evidence
  else []

end CssFile

/-! ## Sources -/

inductive SourceUriStatus where
  | exact
  | uniqueBasename
  | notFound
  | ambiguous
  deriving DecidableEq

inductive SourceResolutionStrategy where
  | automatic
  | workspaceBound
  deriving DecidableEq

structure SourceUriResolution where
  uris : List String
  status : SourceUriStatus
  strategy : SourceResolutionStrategy
  workspaceFolderUri : Option String
  deriving DecidableEq

inductive ActiveDocumentSourceKind where
  | activeDocument
  | notFound
  | otherDocument
  | ambiguous
  deriving DecidableEq

def classifyActiveDocumentSource (sameCanonicalUri : String → String → Bool)
    (resolution : SourceUriResolution) (activeDocumentUri : String) : ActiveDocumentSourceKind :=
  if resolution.status = .ambiguous then .ambiguous
  else if 1 < resolution.uris.length then .ambiguous
  else
    let same := resolution.uris.head?.any fun candidate =>
      sameCanonicalUri candidate activeDocumentUri
    match resolution.status with
    | .notFound => if resolution.uris.length = 0 then .notFound else .otherDocument
    | .uniqueBasename => if same then .notFound else .otherDocument
    | .exact => if same then .activeDocument else .otherDocument
    | .ambiguous => .otherDocument

/-! ## Results -/

inductive ResolutionStatus where
  | matched
  | error
  | sourceAmbiguous
  | sourceNotActiveDocument
  | sourceNotFound
  | ruleMatchAmbiguous
  | noRuleMatch
  deriving DecidableEq

structure PluginDiagnostic where
  code : String
  message : String
  severity : String
  sourceUrl : Option String
  deriving DecidableEq

structure SourceMatch where
  targetRole : SourceTargetRole
  range : SourceRange
  label : String
  kind : String
  relation : String
  confidence : SourceConfidence
  sourceUrl : String
  deriving DecidableEq

structure PluginResult where
  status : ResolutionStatus
  found : List SourceMatch
  diagnostics : List PluginDiagnostic
  deriving DecidableEq

def sourceMatch (entry : TargetCssFact) (range : SourceRange) (confidence : SourceConfidence) :
    SourceMatch :=
  ⟨entry.targetRole, range, entry.fact.selector, "style-rule", "styles", confidence,
    entry.sourceUrl⟩

def parseDiagnostic (message : String) : PluginDiagnostic :=
  ⟨"css.parseFailed", "CSS could not be parsed: " ++ message, "error", none⟩

def ambiguousSourceDiagnostic (sourceUrl : String) : PluginDiagnostic :=
  ⟨"css.sourceAmbiguous", "CSS source maps to more than one workspace file: " ++ sourceUrl,
    "warning", some sourceUrl⟩

def otherDocumentDiagnostic (sourceUrl : String) : PluginDiagnostic :=
  ⟨"css.sourceNotActiveDocument", "CSS source resolves outside the active document: " ++ sourceUrl,
    "info", some sourceUrl⟩

def missingSourceDiagnostic (sourceUrl : String) : PluginDiagnostic :=
  ⟨"css.sourceNotFound", "CSS source is not in the workspace: " ++ sourceUrl, "info",
    some sourceUrl⟩

def ambiguousRuleDiagnostic (selector : String) : PluginDiagnostic :=
  ⟨"css.ruleMatchAmbiguous",
    "More than one CSS rule matches the available evidence: " ++ selector, "warning", none⟩

def failureStatus (failures : List ResolutionStatus) : ResolutionStatus :=
  ([ResolutionStatus.sourceAmbiguous, .sourceNotActiveDocument, .sourceNotFound,
    .ruleMatchAmbiguous, .noRuleMatch].find? failures.contains).getD .noRuleMatch

def abortedResult : PluginResult := ⟨.noRuleMatch, [], []⟩

/-! ## Resolving -/

/-- A fact that is resolved, with what the workspace answers of its source; `aborted` says that the
signal was found aborted on the way. -/
structure Asked where
  entry : TargetCssFact
  resolution : SourceUriResolution
  aborted : Bool

/-- The variables of one run of `resolve`. -/
structure ResolveState where
  found : List SourceMatch
  diagnostics : List PluginDiagnostic
  ambiguousUrls : List String
  otherDocumentUrls : List String
  missingUrls : List String
  ambiguousRules : List String
  failures : List ResolutionStatus
  strategyDiagnostics : OrderedMap (String × String) PluginDiagnostic

def ResolveState.empty : ResolveState := ⟨[], [], [], [], [], [], [], ∅⟩

/-- A document of the workspace, and how the workspace compares and labels what it holds. -/
structure ActiveDocument where
  uri : String
  file : CssFile
  sameCanonicalUri : String → String → Bool
  workspaceFolderLabel : SourceUriResolution → String

/-- The diagnostics after `addOnce`. -/
def addOnce (seen : List String) (key : String) (diagnostics : List PluginDiagnostic)
    (create : String → PluginDiagnostic) : List PluginDiagnostic :=
  if seen.contains key then diagnostics else diagnostics ++ [create key]

namespace ActiveDocument

variable (spelling : CssSpelling) (document : ActiveDocument)

def sourceStrategyDiagnostic (resolution : SourceUriResolution) : PluginDiagnostic :=
  match resolution.strategy with
  | .automatic => ⟨"css.sourceAutomatic", "Automatic source matching", "info", none⟩
  | .workspaceBound =>
    ⟨"css.sourceWorkspaceBound", "Workspace-bound: " ++ document.workspaceFolderLabel resolution,
      "info", none⟩

def sourceKind (resolution : SourceUriResolution) : ActiveDocumentSourceKind :=
  classifyActiveDocumentSource document.sameCanonicalUri resolution document.uri

/-- `exactRules` -/
def exactRules (asked : Asked) : List ParsedRule :=
  if document.sourceKind asked.resolution = .activeDocument then
    document.file.findExactCssRules spelling asked.entry.fact
  else []

def canFallback (asked : Asked) : Bool :=
  if document.sourceKind asked.resolution = .notFound then
    asked.resolution.strategy = .automatic &&
      document.file.canFingerprintFallback spelling asked.entry.fact false
  else document.file.canFingerprintFallback spelling asked.entry.fact true

/-- `rules` -/
def rulesFor (asked : Asked) : List ParsedRule :=
  if 0 < (document.exactRules spelling asked).length then document.exactRules spelling asked
  else if document.canFallback spelling asked then
    document.file.findRulesByFingerprint spelling asked.entry.fact asked.entry.declarations
  else []

def noteStrategy (resolution : SourceUriResolution) (s : ResolveState) : ResolveState :=
  let diagnostic := document.sourceStrategyDiagnostic resolution
  let key := (diagnostic.code, diagnostic.message)
  if s.strategyDiagnostics.has key then s
  else { s with strategyDiagnostics := s.strategyDiagnostics.set key diagnostic }

/-- One round of the loop over the facts, from where its source is resolved. -/
def resolveFact (s : ResolveState) (asked : Asked) : ResolveState :=
  let s := document.noteStrategy asked.resolution s
  let entry := asked.entry
  match document.sourceKind asked.resolution with
  | .ambiguous =>
    { s with
      failures := s.failures ++ [.sourceAmbiguous]
      diagnostics :=
        addOnce s.ambiguousUrls entry.sourceUrl s.diagnostics ambiguousSourceDiagnostic
      ambiguousUrls := entry.sourceUrl :: s.ambiguousUrls }
  | .otherDocument =>
    { s with
      failures := s.failures ++ [.sourceNotActiveDocument]
      diagnostics :=
        addOnce s.otherDocumentUrls entry.sourceUrl s.diagnostics otherDocumentDiagnostic
      otherDocumentUrls := entry.sourceUrl :: s.otherDocumentUrls }
  | kind =>
    match document.rulesFor spelling asked with
    | [rule] =>
      let confidence : SourceConfidence :=
        if 0 < (document.exactRules spelling asked).length then .exact else .heuristic
      { s with found := s.found ++ [sourceMatch entry rule.range confidence] }
    | [] =>
      if kind = .notFound then
        { s with
          failures := s.failures ++ [.sourceNotFound]
          diagnostics :=
            addOnce s.missingUrls entry.sourceUrl s.diagnostics missingSourceDiagnostic
          missingUrls := entry.sourceUrl :: s.missingUrls }
      else { s with failures := s.failures ++ [.noRuleMatch] }
    | _ =>
      { s with
        failures := s.failures ++ [.ruleMatchAmbiguous]
        diagnostics :=
          addOnce s.ambiguousRules entry.fact.selector s.diagnostics ambiguousRuleDiagnostic
        ambiguousRules := entry.fact.selector :: s.ambiguousRules }

def ended (s : ResolveState) : PluginResult :=
  ⟨if 0 < s.found.length then .matched else failureStatus s.failures, s.found,
    s.diagnostics ++ s.strategyDiagnostics.entries.map Prod.snd⟩

def resolve (aborted : Bool) (facts : List Asked) : PluginResult :=
  if aborted || facts.any Asked.aborted then abortedResult
  else ended (facts.foldl (document.resolveFact spelling) .empty)

end ActiveDocument

/-- A document that does not parse. -/
def resolveUnparsed (aborted : Bool) (message : String) : PluginResult :=
  if aborted then abortedResult else ⟨.error, [], [parseDiagnostic message]⟩

end PinOp.Css
