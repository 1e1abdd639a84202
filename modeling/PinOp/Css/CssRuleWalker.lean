import PinOp.Css.Cssom

/-!
# The walk over the page's CSSOM

`walkCssRules` goes through the stylesheets of a page, their imports and their nested rules,
and reports the style rules and nested declarations it meets with their rule paths. Everything
it does is bounded by a budget that other walks share. Strings are measured in code units and
charged in UTF-8 bytes. Reading a property of a rule does not fail here, reading the rules of
a stylesheet may; reading authored declarations from a rule's text and asking the page's
elements and URLs belong to the host. Rule references and the callback for unavailable
selectors are left out: nothing of the walk depends on them.
-/

namespace PinOp.Css

open PinOp.Lib PinOp.Protocol

/-! ## What is reported -/

inductive CssRuleContextKind where
  | media
  | supports
  | layer
  | scope
  | container
  | startingStyle
  | unknown
  deriving DecidableEq

structure CssRuleContextRecord where
  kind : CssRuleContextKind
  text : String
  deriving DecidableEq

structure BoundedValues (α : Type) where
  values : List α
  truncated : Bool

structure BoundedValue (α : Type) where
  value : α
  truncated : Bool
  sourceBytes : ℕ

structure PresentedDeclaration where
  property : String
  value : String
  important : Bool
  valueTruncated : Bool
  longhands : List (String × String)

/-- By which record a rule is reported. -/
inductive ReportKind where
  /-- `onStyleRuleCandidate` -/
  | candidate
  /-- `onMatchedRule` -/
  | matched (declarationsTruncated : Bool)
  /-- a `CssRuleWalkRecord` -/
  | record (declaration : PresentedDeclaration)

structure StyleSelectorContext where
  sourceSelector : String
  resolvedSelector : String

structure StylesheetWalkContext where
  sourceUrl : String
  stylesheetIdentity : String
  nativeStylesheet : SheetId

structure WalkReport where
  kind : ReportKind
  nativeRule : RuleSource
  selector : StyleSelectorContext
  stylesheet : StylesheetWalkContext
  rulePath : String
  media : BoundedValues String
  contexts : BoundedValues CssRuleContextRecord

inductive TruncationReason where
  | factsPerTargetLimit
  | cssRulesLimit
  | byteLimit
  | declarationsPerRuleLimit
  | stylesheetsLimit
  | runtimeArtifactExclusionFailed
  | ruleDepthLimit
  | contextLimit
  deriving DecidableEq

structure InaccessibleStylesheet where
  sourceUrl : String
  reason : String

/-! ## The state of a walk -/

structure CssRuleWalkBudget where
  remainingStylesheets : ℤ
  remainingRules : ℤ
  remainingDeclarations : ℤ
  remainingBytes : ℤ

structure WalkState where
  rulesVisited : ℕ
  stylesheetsVisited : ℕ
  recordsEmitted : ℕ
  nextStylesheetIdentity : ℕ
  nextRootIndex : ℕ
  runtimeBoundaryProbes : ℕ
  stylesheetBoundaryClosed : Bool
  inaccessibleStylesheets : List InaccessibleStylesheet
  truncationReasons : List TruncationReason
  workBudget : CssRuleWalkBudget
  reports : List WalkReport

structure WalkHost where
  /-- `element.matches`, which may throw -/
  matchesSelector : String → Option Bool
  stylesheet : SheetId → StylesheetSource
  /-- the option of that name, which may throw -/
  isRuntimeStylesheet : Option (SheetId → Option Bool)
  /-- `new URL(value, base)`, and `decodeURIComponent` of its path -/
  isUrl : String → Bool
  readAuthoredDeclarations : String → List PresentedDeclaration → Option (List PresentedDeclaration)

structure CssDocumentSource where
  styleSheets : List SheetId
  adoptedStyleSheets : Option (List SheetId)

def urlLength : ℕ := 8192

/-- `truncate`; a surrogate pair that is cut is left out. -/
def truncateFrom : ℕ → List Char → List Char
  | _, [] => []
  | limit, c :: rest =>
    let units := if c.toNat < 0x10000 then 1 else 2
    if units ≤ limit then c :: truncateFrom (limit - units) rest else []

def truncate (value : String) (limit : ℕ) : String :=
  if jsLength value ≤ limit then value else String.ofList (truncateFrom limit value.toList)

def exactBoundedUrl (host : WalkHost) (value : String) : Option String :=
  if urlLength < jsLength value then none else if host.isUrl value then some value else none

/-- `exactBoundedUrl`, where an empty URL is as good as none. -/
def usableUrl (host : WalkHost) (value : String) : Option String :=
  (exactBoundedUrl host value).filter fun url => url ≠ ""

def boundedLength (value : ℕ) (limit : ℤ) : ℕ := (min (value : ℤ) limit).toNat

namespace WalkState

def markTruncation (s : WalkState) (reason : TruncationReason) : WalkState :=
  if s.truncationReasons.contains reason then s
  else { s with truncationReasons := s.truncationReasons ++ [reason] }

def markIf (s : WalkState) (mark : Bool) (reason : TruncationReason) : WalkState :=
  if mark then s.markTruncation reason else s

def reachedWalkLimit (s : WalkState) : Bool × WalkState :=
  let factsLimit := InspectLimits.factsPerTarget ≤ s.recordsEmitted ||
    s.workBudget.remainingDeclarations ≤ 0
  let rulesLimit := InspectLimits.cssRules ≤ s.rulesVisited || s.workBudget.remainingRules ≤ 0
  let byteLimit := s.workBudget.remainingBytes ≤ 0
  (factsLimit || rulesLimit || byteLimit,
    ((s.markIf factsLimit .factsPerTargetLimit).markIf rulesLimit .cssRulesLimit).markIf byteLimit
      .byteLimit)

def stylesheetLimit (s : WalkState) : Bool :=
  InspectLimits.stylesheets ≤ s.stylesheetsVisited || s.workBudget.remainingStylesheets ≤ 0

/-- `stylesheetLimitReached`, which marks. -/
def stylesheetLimitReached (s : WalkState) : Bool × WalkState :=
  (s.stylesheetLimit, s.markIf s.stylesheetLimit .stylesheetsLimit)

def consumeStylesheetAuthority (s : WalkState) : WalkState :=
  { s with
    stylesheetsVisited := s.stylesheetsVisited + 1
    workBudget :=
      { s.workBudget with remainingStylesheets := s.workBudget.remainingStylesheets - 1 } }

def reserveStylesheetIdentity (s : WalkState) : String × WalkState :=
  ("sheet-" ++ s.nextStylesheetIdentity.repr,
    { s with nextStylesheetIdentity := s.nextStylesheetIdentity + 1 })

def consumeWalkByteCount (s : WalkState) (bytes : ℕ) : Bool × WalkState :=
  if s.workBudget.remainingBytes < bytes then
    (false, markTruncation { s with workBudget := { s.workBudget with remainingBytes := 0 } }
      .byteLimit)
  else
    (true, { s with
      workBudget :=
        { s.workBudget with remainingBytes := s.workBudget.remainingBytes - bytes } })

def consumeWalkBytes (s : WalkState) (value : String) : Bool × WalkState :=
  s.consumeWalkByteCount value.utf8ByteSize

def offerWalkBytes (s : WalkState) (value : String) : Bool × WalkState :=
  if s.workBudget.remainingBytes < value.utf8ByteSize then (false, s)
  else s.consumeWalkBytes value

def visitRule (s : WalkState) : WalkState :=
  { s with
    rulesVisited := s.rulesVisited + 1
    workBudget := { s.workBudget with remainingRules := s.workBudget.remainingRules - 1 } }

def visitDeclaration (s : WalkState) : WalkState :=
  { s with
    workBudget :=
      { s.workBudget with remainingDeclarations := s.workBudget.remainingDeclarations - 1 } }

def reportInaccessible (s : WalkState) (sourceUrl reason : String) : WalkState :=
  if InspectLimits.inaccessibleStylesheets ≤ s.inaccessibleStylesheets.length then s
  else
    { s with
      inaccessibleStylesheets := s.inaccessibleStylesheets ++
        [⟨sourceUrl, truncate reason InspectLimits.valueLength⟩] }

def report (s : WalkState) (report : WalkReport) : WalkState :=
  { s with reports := s.reports ++ [report] }

end WalkState

/-! ## Selectors -/

/-- Where a scan of a selector is. -/
structure SelectorScan where
  quote : Option Char := none
  escaped : Bool := false
  parentheses : ℕ := 0
  brackets : ℕ := 0

def SelectorScan.closed (s : SelectorScan) : Bool :=
  !s.escaped && s.quote.isNone && s.parentheses = 0 && s.brackets = 0

/-- One character; `none` is a bracket that closes nothing. -/
def SelectorScan.next (s : SelectorScan) (c : Char) : Option SelectorScan :=
  if s.escaped then some { s with escaped := false }
  else if c = '\\' then some { s with escaped := true }
  else if s.quote.isSome then some (if s.quote = some c then { s with quote := none } else s)
  else if c = '"' || c.toNat = 0x27 then some { s with quote := some c }
  else if c = '(' then some { s with parentheses := s.parentheses + 1 }
  else if c = ')' then
    if s.parentheses = 0 then none else some { s with parentheses := s.parentheses - 1 }
  else if c = '[' then some { s with brackets := s.brackets + 1 }
  else if c = ']' then
    if s.brackets = 0 then none else some { s with brackets := s.brackets - 1 }
  else some s

def lexicallyValidFrom : SelectorScan → List Char → Bool
  | s, [] => s.closed
  | s, c :: rest =>
    match s.next c with
    | none => false
    | some s => lexicallyValidFrom s rest

def lexicallyValidSelector (selector : String) : Bool := lexicallyValidFrom {} selector.toList

/-- What `resolveNestedSelector` has read: the scan, the text so far, whether `&` was replaced, and
whether a comma stood outside of all brackets. -/
structure NestedScan where
  scan : SelectorScan
  result : String
  nestingSelectorFound : Bool
  topLevelComma : Bool

def resolveNestedFrom (replacement : String) : NestedScan → List Char → Option NestedScan
  | s, [] => some s
  | s, c :: rest =>
    match s.scan.next c with
    | none => none
    | some scan =>
      -- quoted and escaped text is copied, and so is what opens it
      let plain := s.scan.escaped || s.scan.quote.isSome || c = '\\' || c = '"' || c.toNat = 0x27
      if plain then
        if InspectLimits.selectorLength ≤ jsLength s.result then none
        else resolveNestedFrom replacement { s with scan := scan, result := s.result.push c } rest
      else
        let comma := c = ',' && scan.parentheses = 0 && scan.brackets = 0
        let addition := if c = '&' then replacement else String.singleton c
        if InspectLimits.selectorLength < jsLength s.result + jsLength addition then none
        else
          resolveNestedFrom replacement
            ⟨scan, s.result ++ addition, s.nestingSelectorFound || c = '&',
              s.topLevelComma || comma⟩ rest

def resolveNestedSelector (selector parentSelector : String) : Option String :=
  let replacement := ":is(" ++ parentSelector ++ ")"
  match resolveNestedFrom replacement ⟨{}, "", false, false⟩ selector.toList with
  | none => none
  | some s =>
    if !s.scan.closed then none
    else if s.nestingSelectorFound then some s.result
    else if s.topLevelComma then none
    else
      let descendantSelector := replacement ++ " " ++ jsTrim selector
      if jsLength descendantSelector ≤ InspectLimits.selectorLength then some descendantSelector
      else none

def resolveStyleSelector (selector : String) (parent : Option StyleSelectorContext) :
    Option StyleSelectorContext :=
  if jsLength selector = 0 || InspectLimits.selectorLength < jsLength selector then none
  else
    let resolved := match parent with
      | some parent => resolveNestedSelector selector parent.resolvedSelector
      | none => if lexicallyValidSelector selector then some selector else none
    match resolved with
    | none => none
    | some resolved => if resolved = "" then none else some ⟨selector, resolved⟩

/-! ## Contexts -/

namespace RuleView

def isStyleRule (rule : RuleView) : Bool := rule.selectorText.isSome && rule.style.isSome

def isImportRuleCandidate (rule : RuleView) : Bool :=
  rule.selectorText.isNone && !rule.hasCssRules && rule.styleSheet.isSome

def isNestedDeclarationsRule (rule : RuleView) : Bool :=
  rule.selectorText.isNone && !rule.hasCssRules && rule.style.isSome &&
    (rule.constructorName.isNone || rule.constructorName = some "Object" ||
      rule.constructorName = some "CSSNestedDeclarations")

def readCssHeader (rule : RuleView) : String :=
  jsTrim (String.ofList ((rule.cssText.getD "").toList.takeWhile fun c => c ≠ '\x7b'))

def readMediaCondition (rule : RuleView) : Option (BoundedValue String) :=
  (rule.conditionText.or rule.mediaText).map fun rawText =>
    ⟨jsTrim (truncate rawText InspectLimits.valueLength),
      InspectLimits.valueLength < jsLength rawText, rawText.utf8ByteSize⟩

def contextKind (rule : RuleView) : CssRuleContextKind :=
  match rule.constructorName.getD "" with
  | "CSSSupportsRule" => .supports
  | "CSSLayerBlockRule" => .layer
  | "CSSScopeRule" => .scope
  | "CSSContainerRule" => .container
  | "CSSStartingStyleRule" => .startingStyle
  | _ => if rule.type = 12 then .supports else .unknown

def readRuleContext (rule : RuleView) : BoundedValue CssRuleContextRecord :=
  let isMedia := rule.constructorName = some "CSSMediaRule"
  let mediaCondition := if isMedia || rule.mediaText.isSome then rule.readMediaCondition else none
  if isMedia || mediaCondition.isSome then
    let condition := mediaCondition.getD ⟨"", false, 0⟩
    ⟨⟨.media, condition.value⟩, condition.truncated, condition.sourceBytes⟩
  else
    let kind := rule.contextKind
    let rawText := match kind with
      | .startingStyle => ""
      | .layer => rule.name.getD rule.readCssHeader
      | _ => rule.conditionText.getD rule.readCssHeader
    ⟨⟨kind, jsTrim (truncate rawText InspectLimits.valueLength)⟩,
      InspectLimits.valueLength < jsLength rawText, rawText.utf8ByteSize⟩

def readImportMediaContext (rule : RuleView) : Option (BoundedValue CssRuleContextRecord) :=
  match rule.readMediaCondition with
  | none => none
  | some condition =>
    if condition.value = "" then none
    else some ⟨⟨.media, condition.value⟩, condition.truncated, condition.sourceBytes⟩

end RuleView

def appendBounded {α : Type} (current : BoundedValues α) (next : BoundedValue α) (limit : ℕ) :
    BoundedValues α :=
  let dropped := limit ≤ current.values.length
  ⟨if dropped then current.values else current.values ++ [next.value],
    current.truncated || next.truncated || dropped⟩

/-! ## Declarations -/

/-- Where the walk is in a stylesheet. -/
structure WalkFrame where
  stylesheet : StylesheetWalkContext
  parentPath : String
  media : BoundedValues String
  contexts : BoundedValues CssRuleContextRecord
  parentSelector : Option StyleSelectorContext
  activeStylesheets : List SheetId

/-- The report of a rule at the place of this frame. -/
def WalkFrame.reportOf (frame : WalkFrame) (rule : RuleSource) (rulePath : String)
    (selector : StyleSelectorContext) (kind : ReportKind) : WalkReport :=
  ⟨kind, rule, selector, frame.stylesheet, rulePath, frame.media, frame.contexts⟩

/-- The names of the declarations; `none` once the bytes do not suffice. -/
def readDeclarationNames : List String → List String → WalkState → Option (List String) × WalkState
  | [], names, s => (some names, s)
  | property :: rest, names, s =>
    let (fits, s) := s.visitDeclaration.consumeWalkBytes property
    if !fits then (none, s)
    else
      readDeclarationNames rest
        (if property ≠ "" && jsLength property ≤ InspectLimits.propertyNameLength then
          names ++ [property] else names) s

def readLonghands (style : StyleDeclarationSource) : List String → List PresentedDeclaration →
    WalkState → List PresentedDeclaration × WalkState
  | [], longhands, s => (longhands, s)
  | property :: rest, longhands, s =>
    let priority := style.getPropertyPriority property
    let (fits, s) := s.consumeWalkBytes priority
    if !fits then (longhands, s)
    else if priority ≠ "" && priority ≠ "important" then readLonghands style rest longhands s
    else
      let rawValue := style.getPropertyValue property
      let (fits, s) := s.consumeWalkBytes rawValue
      if !fits then (longhands, s)
      else
        readLonghands style rest
          (longhands ++ [⟨property, jsTrim (truncate rawValue InspectLimits.valueLength),
            priority = "important", InspectLimits.valueLength < jsLength rawValue, []⟩]) s

/-- What an authored declaration is presented as. -/
def presentAuthored (declaration : PresentedDeclaration) : PresentedDeclaration :=
  let covers := declaration.longhands.length ≠ 1 ||
    declaration.longhands.head?.map Prod.fst ≠ some declaration.property
  { declaration with
    value := jsTrim (truncate declaration.value InspectLimits.valueLength)
    valueTruncated := InspectLimits.valueLength < jsLength declaration.value
    longhands := if covers then declaration.longhands else [] }

def authoredForm (host : WalkHost) (style : StyleDeclarationSource)
    (longhands : List PresentedDeclaration) (s : WalkState) :
    Option (List PresentedDeclaration) × WalkState :=
  match style.cssText with
  | none => (none, s)
  | some cssText =>
    if cssText = "" then (none, s)
    else
      let (offered, s) := s.offerWalkBytes cssText
      if !offered then (none, s)
      else ((host.readAuthoredDeclarations cssText longhands).map fun declarations =>
        declarations.map presentAuthored, s)

def walkDeclarations (host : WalkHost) (frame : WalkFrame) (rule : RuleSource)
    (style : StyleDeclarationSource) (selector : StyleSelectorContext) (rulePath : String)
    (s : WalkState) : WalkState :=
  let remainingRecords := min ((InspectLimits.factsPerTarget : ℤ) - s.recordsEmitted)
    s.workBudget.remainingDeclarations
  let declarationLimit := min (InspectLimits.declarationsPerRule : ℤ) remainingRecords
  let declaredLength := style.items.length
  let declarationCount := boundedLength declaredLength declarationLimit
  let s := (s.markIf (InspectLimits.declarationsPerRule < declaredLength)
    .declarationsPerRuleLimit).markIf (remainingRecords < declaredLength) .factsPerTargetLimit
  match readDeclarationNames (style.items.take declarationCount) [] s with
  | (none, s) => s
  | (some names, s) =>
    let (longhands, s) := readLonghands style names [] s
    let (authored, s) := if longhands.length = declaredLength then authoredForm host style longhands s
      else (none, s)
    let presented := authored.getD longhands
    let records := presented.take (InspectLimits.factsPerTarget - s.recordsEmitted)
    let truncated := records.length < presented.length ||
      (authored.isNone && records.length < declaredLength)
    let s := { s with recordsEmitted := s.recordsEmitted + records.length }
    let s := s.report (frame.reportOf rule rulePath selector (.matched truncated))
    records.foldl (fun s declaration =>
      s.report (frame.reportOf rule (truncate rulePath InspectLimits.selectorLength) selector
        (.record declaration))) s

/-! ## Rules -/

/-- How the loop goes on after it has looked at a rule's own declarations. -/
inductive RuleOutcome where
  | stop
  | skip
  | descend (childSelector : Option StyleSelectorContext) (nestedStyleRule : Bool)

def walkStyleRule (host : WalkHost) (frame : WalkFrame) (rule : RuleSource) (sourceSelector : String)
    (style : StyleDeclarationSource) (rulePath : String) (s : WalkState) : RuleOutcome × WalkState :=
  let (fits, s) := s.consumeWalkBytes sourceSelector
  if !fits then (.stop, s)
  else
    match resolveStyleSelector sourceSelector frame.parentSelector with
    | none => (.skip, s)
    | some selector =>
      let s := s.report (frame.reportOf rule rulePath selector .candidate)
      match host.matchesSelector selector.resolvedSelector with
      | none => (.skip, s)
      | some matched =>
        let s := if matched then walkDeclarations host frame rule style selector rulePath s else s
        let (reached, s) := s.reachedWalkLimit
        if reached then (.stop, s) else (.descend (some selector) true, s)

/-- The rule's own declarations. -/
def walkOwnDeclarations (host : WalkHost) (frame : WalkFrame) (rule : RuleSource)
    (rulePath : String) (s : WalkState) : RuleOutcome × WalkState :=
  match rule.view.selectorText, rule.view.style with
  | some sourceSelector, some style =>
    walkStyleRule host frame rule sourceSelector style rulePath s
  | none, some style =>
    match frame.parentSelector with
    | none => (.descend none false, s)
    | some selector =>
      if rule.view.isNestedDeclarationsRule then
        match host.matchesSelector selector.resolvedSelector with
        | none => (.skip, s)
        | some matched =>
          (.descend (some selector) false,
            if matched then walkDeclarations host frame rule style selector rulePath s else s)
      else (.descend (some selector) false, s)
  | _, none => (.descend frame.parentSelector false, s)

/-- The walk over the rules below, which there is none of at the greatest depth. -/
abbrev WalkBelow := WalkFrame → List RuleSource → WalkState → WalkState

/-- The rest of a round for a rule with rules below it: whether the loop goes on. -/
def walkGroup (below : Option WalkBelow) (frame : WalkFrame) (rule : RuleSource) (rulePath : String)
    (childSelector : Option StyleSelectorContext) (nestedStyleRule : Bool) (s : WalkState) :
    Bool × WalkState :=
  match below with
  | none => (true, s.markTruncation .ruleDepthLimit)
  | some walkBelow =>
    let context := if nestedStyleRule then none else some rule.view.readRuleContext
    let (fits, s) := match context with
      | none => (true, s)
      | some context => s.consumeWalkByteCount context.sourceBytes
    if !fits then (false, s)
    else
      let (reached, s) := if context.isSome then s.reachedWalkLimit else (false, s)
      if reached then (false, s)
      else
        let contexts := match context with
          | none => frame.contexts
          | some context => appendBounded frame.contexts context InspectLimits.mediaConditions
        let media := match context with
          | none => frame.media
          | some context =>
            if context.value.kind = .media then
              appendBounded frame.media ⟨context.value.text, context.truncated, 0⟩
                InspectLimits.mediaConditions
            else frame.media
        let s := s.markIf ((!frame.contexts.truncated && contexts.truncated) ||
          (!frame.media.truncated && media.truncated)) .contextLimit
        let s := walkBelow
          { frame with
            parentPath := rulePath
            media := media
            contexts := contexts
            parentSelector := childSelector } rule.cssRules s
        let (reached, s) := s.reachedWalkLimit
        (!reached, s)

def isRuntimeStylesheet (host : WalkHost) (sheet : SheetId) (s : WalkState) : Bool × WalkState :=
  match host.isRuntimeStylesheet with
  | none => (false, s)
  | some isRuntime =>
    match isRuntime sheet with
    | some answer => (answer, s)
    | none => (true, (s.markTruncation .runtimeArtifactExclusionFailed).reportInaccessible
        "runtime-artifact://stylesheet-classification" "")

/-- An import when no stylesheet may be visited any more. -/
def walkBoundaryImport (host : WalkHost) (frame : WalkFrame) (candidate : Option SheetId)
    (s : WalkState) : WalkState :=
  if s.stylesheetBoundaryClosed then s.stylesheetLimitReached.2
  else if host.isRuntimeStylesheet.isSome && s.runtimeBoundaryProbes < InspectLimits.stylesheets then
    let s := { s with runtimeBoundaryProbes := s.runtimeBoundaryProbes + 1 }
    match candidate with
    | none => { s with stylesheetBoundaryClosed := true }.stylesheetLimitReached.2
    | some sheet =>
      let (runtime, s) := isRuntimeStylesheet host sheet s
      if runtime || frame.activeStylesheets.contains sheet then s
      else { s with stylesheetBoundaryClosed := true }.stylesheetLimitReached.2
  else { s with stylesheetBoundaryClosed := true }.stylesheetLimitReached.2

/-- The rules of an imported stylesheet, whose paths begin with a namespace of their own. -/
def walkImportedRules (host : WalkHost) (walkBelow : WalkBelow) (frame : WalkFrame)
    (rule : RuleSource) (sheet : SheetId) (s : WalkState) : WalkState :=
  let stylesheetNamespace := s.stylesheetsVisited
  let (stylesheetIdentity, s) := s.consumeStylesheetAuthority.reserveStylesheetIdentity
  let source := host.stylesheet sheet
  match (source.href.or rule.view.href).bind (usableUrl host) with
  | none => s
  | some sourceUrl =>
    let (fits, s) := s.consumeWalkBytes sourceUrl
    if !fits then s
    else
      let importContext := rule.view.readImportMediaContext
      let (fits, s) := match importContext with
        | none => (true, s)
        | some context => s.consumeWalkByteCount context.sourceBytes
      if !fits then s
      else
        let (reached, s) := if importContext.isSome then s.reachedWalkLimit else (false, s)
        if reached then s
        else
          match source.cssRules with
          | .error reason => s.reportInaccessible sourceUrl reason
          | .ok importedRules =>
            walkBelow
              ⟨⟨sourceUrl, stylesheetIdentity, sheet⟩, stylesheetNamespace.repr,
                (match importContext with
                  | none => frame.media
                  | some context => appendBounded frame.media
                      ⟨context.value.text, context.truncated, 0⟩ InspectLimits.mediaConditions),
                (match importContext with
                  | none => frame.contexts
                  | some context =>
                    appendBounded frame.contexts context InspectLimits.mediaConditions),
                none, sheet :: frame.activeStylesheets⟩ importedRules s

def walkImportedStylesheet (host : WalkHost) (below : Option WalkBelow) (frame : WalkFrame)
    (rule : RuleSource) (s : WalkState) : WalkState :=
  match below with
  | none => s
  | some walkBelow =>
    let (reached, s) := s.reachedWalkLimit
    if reached then s
    else if s.stylesheetLimit then walkBoundaryImport host frame rule.view.styleSheet.join s
    else
      match rule.view.styleSheet.join with
      | none => s
      | some sheet =>
        let (runtime, s) := isRuntimeStylesheet host sheet s
        if runtime || frame.activeStylesheets.contains sheet then s
        else walkImportedRules host walkBelow frame rule sheet s

/-- One round of the loop: whether it goes on. -/
def walkRule (host : WalkHost) (below : Option WalkBelow) (frame : WalkFrame) (ruleIndex : ℕ)
    (rule : RuleSource) (s : WalkState) : Bool × WalkState :=
  let rulePath := frame.parentPath ++ "." ++ ruleIndex.repr
  if rule.view.isImportRuleCandidate then
    let s := walkImportedStylesheet host below frame rule s
    let (reached, s) := s.reachedWalkLimit
    (!reached, s)
  else
    match walkOwnDeclarations host frame rule rulePath s with
    | (.stop, s) => (false, s)
    | (.skip, s) => (true, s)
    | (.descend childSelector nestedStyleRule, s) =>
      if !rule.view.hasCssRules then (true, s)
      else walkGroup below frame rule rulePath childSelector nestedStyleRule s

def walkEach (host : WalkHost) (below : Option WalkBelow) (frame : WalkFrame) :
    ℕ → List RuleSource → WalkState → WalkState
  | _, [], s => s
  | ruleIndex, rule :: rest, s =>
    let (reached, s) := s.reachedWalkLimit
    if reached then s
    else
      match walkRule host below frame ruleIndex rule s.visitRule with
      | (false, s) => s
      | (true, s) => walkEach host below frame (ruleIndex + 1) rest s

/-- `walkRules`; `levels` are left below this one until the greatest depth. -/
def walkRules (host : WalkHost) : ℕ → WalkBelow
  | levels, frame, rules, s =>
    let below := match levels with
      | 0 => none
      | levels + 1 => some (walkRules host levels)
    let (reached, s) := s.reachedWalkLimit
    if reached then s
    else
      let remainingRules := min ((InspectLimits.cssRules : ℤ) - s.rulesVisited)
        s.workBudget.remainingRules
      let s := s.markIf (remainingRules < rules.length) .cssRulesLimit
      walkEach host below frame 0 (rules.take remainingRules.toNat) s

/-! ## Stylesheets -/

/-- One root stylesheet: whether the loop goes on, and the next root index. -/
def walkRootStylesheet (host : WalkHost) (rootIndex : ℕ) (sheet : SheetId) (s : WalkState) :
    Bool × ℕ × WalkState :=
  let (runtime, s) := isRuntimeStylesheet host sheet s
  if runtime then (true, rootIndex, s)
  else
    let (reached, s) := s.stylesheetLimitReached
    if reached then (false, rootIndex, s)
    else
      let s := { s with nextRootIndex := rootIndex + 1 }
      let (stylesheetIdentity, s) := s.consumeStylesheetAuthority.reserveStylesheetIdentity
      let source := host.stylesheet sheet
      match usableUrl host
          (source.href.getD ("inline-style://document/" ++ rootIndex.repr)) with
      | none => (true, rootIndex + 1, s)
      | some sourceUrl =>
        let (fits, s) := s.consumeWalkBytes sourceUrl
        if !fits then (false, rootIndex, s)
        else
          match source.cssRules with
          | .error reason => (true, rootIndex + 1, s.reportInaccessible sourceUrl reason)
          | .ok rules =>
            (true, rootIndex + 1,
              walkRules host InspectLimits.cssRuleDepth
                ⟨⟨sourceUrl, stylesheetIdentity, sheet⟩, rootIndex.repr, ⟨[], false⟩,
                  ⟨[], false⟩, none, [sheet]⟩ rules s)

def rawPullLimit : ℕ := InspectLimits.stylesheets * 2

/-- The loop over the root stylesheets, of which `rawPulls` were taken. -/
def walkRootStylesheetsFrom (host : WalkHost) : ℕ → ℕ → List SheetId → WalkState → WalkState
  | rawPulls, rootIndex, sheets, s =>
    let done : WalkState → WalkState := fun s => { s with nextRootIndex := rootIndex }
    let (reached, s) := s.reachedWalkLimit
    if reached || rawPullLimit ≤ rawPulls then
      done (s.markIf (rawPullLimit ≤ rawPulls) .stylesheetsLimit)
    else
      let (reached, s) := if host.isRuntimeStylesheet.isNone then s.stylesheetLimitReached
        else (false, s)
      if reached then done s
      else
        match sheets with
        | [] => done s
        | sheet :: rest =>
          match walkRootStylesheet host rootIndex sheet s with
          | (false, rootIndex, s) =>
            { s.markIf (rawPullLimit ≤ rawPulls + 1) .stylesheetsLimit with
              nextRootIndex := rootIndex }
          | (true, rootIndex, s) =>
            walkRootStylesheetsFrom host (rawPulls + 1) rootIndex rest s

def walkDocument (host : WalkHost) (document : CssDocumentSource) (s : WalkState) : WalkState :=
  let s := walkRootStylesheetsFrom host 0 0 document.styleSheets s
  let (reached, s) := s.reachedWalkLimit
  if reached then s
  else
    match document.adoptedStyleSheets with
    | none => s
    | some sheets => walkRootStylesheetsFrom host 0 s.nextRootIndex sheets s

def WalkState.start (workBudget : CssRuleWalkBudget) : WalkState :=
  ⟨0, 0, 0, 0, 0, 0, false, [], [], workBudget, []⟩

/-- A walk whose records are all consumed. -/
def walkCssRules (host : WalkHost) (document : CssDocumentSource) (workBudget : CssRuleWalkBudget) :
    WalkState :=
  walkDocument host document (.start workBudget)

end PinOp.Css
