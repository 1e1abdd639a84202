import PinOp.Lib.FirstByKey
import PinOp.Lib.Runs
import PinOp.Protocol.Schema
import PinOp.Presenter.ExcerptText
import PinOp.Presenter.SourceMatch

/-!
# Source excerpts and what they let open

`SourceExcerptRegistry` turns the matches of an inspect into the excerpts of one message, and keeps
for each of them the range it may open. Documents belong to the editor; what is read of one may
throw, and is `none` then. How documents and matches are named, how pieces of text are collated,
where match ids come from and how large a message gets is given by `ExcerptHost`.
-/

namespace PinOp.Presenter

open PinOp.Lib PinOp.Protocol
open PinOp.Css (SourcePosition SourceRange lineOffsets searchLine)

/-- A document of the editor. -/
structure TextDocumentLike where
  uri : Option String
  languageId : Option String
  version : Option ℤ
  text : Option (List ℕ)
  deriving DecidableEq

/-- A document as plugins see it. -/
structure AdaptedDocument where
  uri : String
  languageId : String
  version : ℤ
  text : Option (List ℕ)
  positionAt : ℤ → Option SourcePosition
  offsetAt : SourcePosition → Option ℤ

/-! ## Offsets of a document -/

namespace TextOffsetIndex

def lineContentEnd (text : List ℕ) (line : ℕ) : ℤ :=
  match (lineOffsets text)[line + 1]? with
  | none => text.length
  | some nextLineStart =>
    let lineFeed : ℤ := nextLineStart - 1
    if 2 ≤ nextLineStart ∧ text[nextLineStart - 2]? = some 13 then lineFeed - 1 else lineFeed

def positionAt (text : List ℕ) (offset : ℤ) : SourcePosition :=
  let lineStarts := lineOffsets text
  let boundedOffset := min (max offset 0) text.length
  let low := searchLine lineStarts boundedOffset lineStarts.length 0 lineStarts.length
  let line := low - 1
  ⟨line, min boundedOffset (lineContentEnd text line) - lineStarts.getD line 0⟩

def offsetAt (text : List ℕ) (position : SourcePosition) : ℤ :=
  let lineStarts := lineOffsets text
  let line := (min (max position.line 0) lineStarts.length).toNat
  match lineStarts[line]? with
  | none => text.length
  | some lineStart =>
    lineStart + min (max position.character 0) (lineContentEnd text line - lineStart)

end TextOffsetIndex

def adaptSourceDocument (document : TextDocumentLike) : Option AdaptedDocument := do
  let text ← document.text
  let uri ← document.uri
  let languageId ← document.languageId
  let version ← document.version
  some {
    uri := uri
    languageId := languageId
    version := version
    text := some text
    positionAt := fun offset => some (TextOffsetIndex.positionAt text offset)
    offsetAt := fun position => some (TextOffsetIndex.offsetAt text position)
  }

/-! ## Publications -/

structure SourceAuthority where
  matchId : String
  inspectMessageId : String
  resolutionGeneration : ℕ
  documentUri : String
  documentVersion : ℤ
  range : SourceRange
  deriving DecidableEq

structure SourceExcerpt where
  matchId : String
  targetRole : SourceTargetRole
  label : String
  kind : String
  relation : String
  confidence : SourceConfidence
  startLine : ℤ
  endLine : ℤ
  text : List ℕ
  truncated : Bool
  deriving DecidableEq

structure SourceMatchesInput where
  inspectMessageId : String
  resolutionGeneration : ℕ
  document : SourceDocument
  «matches» : List SourceExcerpt
  omittedMatchCount : ℕ
  deriving DecidableEq

structure SourceExcerptNavigationMatch where
  matchId : String
  targetRole : SourceTargetRole
  range : SourceRange
  deriving DecidableEq

structure SourceExcerptPublication where
  message : SourceMatchesInput
  navigationMatches : List SourceExcerptNavigationMatch
  excerptReadFailed : Bool
  deriving DecidableEq

structure SourceResolution where
  selectionMessageId : String
  documentUri : String
  documentVersion : ℤ
  «matches» : List ResolvedSourceMatch
  deriving DecidableEq

structure SourceExcerptPublicationInput where
  inspectMessageId : String
  resolutionGeneration : ℕ
  activeDocument : TextDocumentLike
  sourceDocument : Option AdaptedDocument
  resolution : SourceResolution

structure SourceExcerptInvalidation where
  inspectMessageId : String
  resolutionGeneration : ℕ
  activeDocument : Option TextDocumentLike
  deriving DecidableEq

structure SourceOpenMessage where
  inspectMessageId : String
  resolutionGeneration : ℕ
  matchId : String
  deriving DecidableEq, Repr

structure CurrentSourceState where
  inspectMessageId : String
  resolutionGeneration : ℕ
  document : SourceDocument
  deriving DecidableEq

structure ValidMatch where
  «match» : ResolvedSourceMatch
  startOffset : ℕ
  endOffset : ℕ
  deriving DecidableEq

structure PublicationCandidate where
  excerpt : SourceExcerpt
  authority : SourceAuthority
  navigationMatch : SourceExcerptNavigationMatch
  deriving DecidableEq

/-- What the registry is given. `matchLabel` is `none` where reading the match throws,
`createMatchId` where its call does, and `measureEnvelopeBytes` also for a size that is not
finite. -/
structure ExcerptHost where
  sourceDocumentLabel : String → String
  normalizeLanguageId : String → String
  matchLabel : ResolvedSourceMatch → String → String → String → Option String
  localeCompare : String → String → ℤ
  createMatchId : ℕ → Option String
  measureEnvelopeBytes : SourceMatchesInput → Option ℤ

/-- The registry, with the number of match ids that were asked for. -/
structure SourceExcerptRegistry where
  authorities : OrderedMap String SourceAuthority
  current : Option CurrentSourceState
  idCalls : ℕ
  deriving DecidableEq

/-! ## Matches -/

def sourceExcerptKinds : List String :=
  ["component", "fixture", "rule", "source", "style-rule", "template"]

def sourceExcerptRelations : List String :=
  ["applies", "contains", "declared-in", "matches", "parent", "renders", "selected", "styles",
    "templates"]

def normalizeSourceKind (value : String) : String :=
  if sourceExcerptKinds.contains value then value else "source"

def normalizeSourceRelation (value : String) : String :=
  if sourceExcerptRelations.contains value then value else "matches"

def confidencePriority : SourceConfidence → ℤ
  | .exact => 0
  | .sourcemap => 1
  | .instrumented => 2
  | .heuristic => 3
  | .unknown => 4

def rolePriority : SourceTargetRole → ℤ
  | .selected => 0
  | .parent => 1

def validPosition (position : SourcePosition) : Bool := 0 ≤ position.line ∧ 0 ≤ position.character

def validOffsets (range : SourceRange) (document : AdaptedDocument) : Option (ℕ × ℕ) :=
  if !validPosition range.start || !validPosition range.stop then none
  else do
    let startOffset ← document.offsetAt range.start
    let endOffset ← document.offsetAt range.stop
    if startOffset < 0 ∨ endOffset ≤ startOffset then none
    else
      let start ← document.positionAt startOffset
      let stop ← document.positionAt endOffset
      if samePosition start range.start && samePosition stop range.stop then
        some (startOffset.toNat, endOffset.toNat)
      else none

def validMatches («matches» : List ResolvedSourceMatch) (document : AdaptedDocument) :
    List ValidMatch :=
  «matches».filterMap fun «match» =>
    (validOffsets «match».range document).map fun offsets => ⟨«match», offsets.1, offsets.2⟩

def compareValidMatches (localeCompare : String → String → ℤ) (left right : ValidMatch) : ℤ :=
  orNext (rolePriority left.match.targetRole - rolePriority right.match.targetRole)
    (orNext (compareRanges left.match.range right.match.range)
      (orNext (confidencePriority left.match.confidence - confidencePriority right.match.confidence)
        (localeCompare left.match.pluginId right.match.pluginId)))

def excerptKey (range : SourceRange) : ℤ × ℤ × ℤ × ℤ :=
  (range.start.line, range.start.character, range.stop.line, range.stop.character)

def deduplicateAndOrder (localeCompare : String → String → ℤ) («matches» : List ValidMatch) :
    List ValidMatch :=
  let ordered := «matches».mergeSort fun left right =>
    compareValidMatches localeCompare left right ≤ 0
  (firstByKey (fun entry => excerptKey entry.match.range) ordered).entries.map Prod.snd

/-! ## The registry -/

def unknownDocument : SourceDocument := ⟨"untitled", "unknown"⟩

def matchesActiveDocumentIdentity (input : SourceExcerptPublicationInput) : Bool :=
  input.resolution.selectionMessageId = input.inspectMessageId ∧
    input.activeDocument.uri = some input.resolution.documentUri ∧
    input.activeDocument.version = some input.resolution.documentVersion

def matchesSourceDocument (resolution : SourceResolution) (sourceDocument : AdaptedDocument) :
    Bool :=
  resolution.documentUri = sourceDocument.uri ∧
    resolution.documentVersion = sourceDocument.version

def CurrentSourceState.message (current : CurrentSourceState) («matches» : List SourceExcerpt)
    (omittedMatchCount : ℕ) : SourceMatchesInput :=
  ⟨current.inspectMessageId, current.resolutionGeneration, current.document, «matches»,
    omittedMatchCount⟩

def CurrentSourceState.emptyPublication (current : CurrentSourceState) (excerptReadFailed : Bool)
    (omittedMatchCount : ℕ) : SourceExcerptPublication :=
  ⟨current.message [] omittedMatchCount, [], excerptReadFailed⟩

def matchIdGenerationAttempts : ℕ := 16

section Host

variable (host : ExcerptHost)

def publicDocument (document : TextDocumentLike) : Option SourceDocument := do
  let uri ← document.uri
  let languageId ← document.languageId
  some ⟨host.sourceDocumentLabel uri, host.normalizeLanguageId languageId⟩

def publicAdaptedDocument (document : AdaptedDocument) : SourceDocument :=
  ⟨host.sourceDocumentLabel document.uri, host.normalizeLanguageId document.languageId⟩

/-- The document `sourceState` is of. -/
def sourceStateDocument (input : SourceExcerptPublicationInput) : Option SourceDocument :=
  match input.sourceDocument with
  | some sourceDocument => some (publicAdaptedDocument host sourceDocument)
  | none => publicDocument host input.activeDocument

/-- The loop over the attempts; `calls` counts the ids asked for. -/
def allocateMatchId (used : List String) : ℕ → ℕ → Option String × ℕ
  | 0, calls => (none, calls)
  | attempts + 1, calls =>
    match host.createMatchId calls with
    | none => allocateMatchId used attempts (calls + 1)
    | some candidate =>
      if !isOpaqueId candidate || used.contains candidate then
        allocateMatchId used attempts (calls + 1)
      else (some candidate, calls + 1)

def createCandidate (input : SourceExcerptPublicationInput) (current : CurrentSourceState)
    (entry : ValidMatch) (documentText : List ℕ) (matchId : String) : Option PublicationCandidate :=
  let completeText := (documentText.take entry.endOffset).drop entry.startOffset
  let bounded := boundedExcerpt completeText
  let kind := normalizeSourceKind entry.match.kind
  let relation := normalizeSourceRelation entry.match.relation
  (host.matchLabel entry.match current.document.label kind relation).map fun label => {
    excerpt := {
      matchId := matchId
      targetRole := entry.match.targetRole
      label := label
      kind := kind
      relation := relation
      confidence := entry.match.confidence
      startLine := entry.match.range.start.line + 1
      endLine := entry.match.range.stop.line + 1
      text := bounded.text
      truncated := bounded.truncated
    }
    authority := {
      matchId := matchId
      inspectMessageId := input.inspectMessageId
      resolutionGeneration := input.resolutionGeneration
      documentUri := input.resolution.documentUri
      documentVersion := input.resolution.documentVersion
      range := entry.match.range
    }
    navigationMatch := ⟨matchId, entry.match.targetRole, entry.match.range⟩
  }

/-- The loop over the entries; `none` where no id is found or a match throws. -/
def createCandidates (input : SourceExcerptPublicationInput) (current : CurrentSourceState)
    (documentText : List ℕ) :
    List String → ℕ → List ValidMatch → Option (List PublicationCandidate) × ℕ
  | _, calls, [] => (some [], calls)
  | used, calls, entry :: rest =>
    match allocateMatchId host used matchIdGenerationAttempts calls with
    | (none, calls) => (none, calls)
    | (some matchId, calls) =>
      match createCandidate host input current entry documentText matchId with
      | none => (none, calls)
      | some candidate =>
        let (candidates, calls) :=
          createCandidates input current documentText (matchId :: used) calls rest
        (candidates.map (candidate :: ·), calls)

def fitsEnvelope (current : CurrentSourceState) (candidates : List PublicationCandidate)
    (omittedMatchCount : ℕ) : Bool :=
  (host.measureEnvelopeBytes
      (current.message (candidates.map PublicationCandidate.excerpt) omittedMatchCount)).any
    fun bytes => bytes ≤ (PresentationLimits.envelopeMaxBytes : ℤ)

/-- The loop that gives candidates up; `count` is how often it may still go round. -/
def shrinkToFit (current : CurrentSourceState) :
    ℕ → List PublicationCandidate → ℕ → List PublicationCandidate × ℕ
  | 0, included, omittedMatchCount => (included, omittedMatchCount)
  | count + 1, included, omittedMatchCount =>
    if 0 < included.length && !fitsEnvelope host current included omittedMatchCount then
      shrinkToFit current count included.dropLast (omittedMatchCount + 1)
    else (included, omittedMatchCount)

/-- What is left of the candidates of `total` entries. -/
def includeCandidates (current : CurrentSourceState) (total : ℕ)
    (candidates : List PublicationCandidate) : List PublicationCandidate × ℕ :=
  let (included, omittedMatchCount) :=
    shrinkToFit host current candidates.length candidates (total - candidates.length)
  if fitsEnvelope host current included omittedMatchCount then (included, omittedMatchCount)
  else ([], total)

namespace SourceExcerptRegistry

def empty : SourceExcerptRegistry := ⟨∅, none, 0⟩

/-- From the matches that are valid on. -/
def publishMatches (r : SourceExcerptRegistry) (input : SourceExcerptPublicationInput)
    (current : CurrentSourceState) (text : List ℕ) (valid : List ValidMatch) :
    SourceExcerptPublication × SourceExcerptRegistry :=
  let unique := deduplicateAndOrder host.localeCompare valid
  match createCandidates host input current text [] r.idCalls
      (unique.take PresentationLimits.matches) with
  | (none, calls) => (current.emptyPublication false unique.length, { r with idCalls := calls })
  | (some candidates, calls) =>
    let (included, omittedMatchCount) := includeCandidates host current unique.length candidates
    ({ message := current.message (included.map PublicationCandidate.excerpt) omittedMatchCount
       navigationMatches := included.map PublicationCandidate.navigationMatch
       excerptReadFailed := false },
      { r with
        authorities := included.foldl (fun authorities candidate =>
          authorities.set candidate.authority.matchId candidate.authority) r.authorities
        idCalls := calls })

def publish (r : SourceExcerptRegistry) (input : SourceExcerptPublicationInput) :
    SourceExcerptPublication × SourceExcerptRegistry :=
  let document := sourceStateDocument host input
  let current : CurrentSourceState :=
    ⟨input.inspectMessageId, input.resolutionGeneration, document.getD unknownDocument⟩
  let r := { r with authorities := ∅, current := some current }
  if document.isNone then (current.emptyPublication false 0, r)
  else if !matchesActiveDocumentIdentity input then (current.emptyPublication false 0, r)
  else
    match input.sourceDocument.or (adaptSourceDocument input.activeDocument) with
    | none => (current.emptyPublication true 0, r)
    | some sourceDocument =>
      if !matchesSourceDocument input.resolution sourceDocument then
        (current.emptyPublication false 0, r)
      else
        match validMatches input.resolution.matches sourceDocument with
        | [] => (current.emptyPublication false 0, r)
        | valid =>
          match if input.sourceDocument.isSome then input.activeDocument.text
              else sourceDocument.text with
          | none => (current.emptyPublication true 0, r)
          | some text => r.publishMatches host input current text valid

def invalidate (r : SourceExcerptRegistry) (invalidation : Option SourceExcerptInvalidation) :
    Option SourceMatchesInput × SourceExcerptRegistry :=
  let current := match invalidation with
    | some invalidation => some ⟨invalidation.inspectMessageId, invalidation.resolutionGeneration,
        (invalidation.activeDocument.bind (publicDocument host)).getD unknownDocument⟩
    | none => r.current
  (current.map fun current => current.message [] 0, { r with authorities := ∅, current := current })

end SourceExcerptRegistry

end Host

/-- A document whose URI or version throws opens nothing. -/
def SourceExcerptRegistry.resolveOpen (r : SourceExcerptRegistry) (message : SourceOpenMessage)
    (activeDocument : TextDocumentLike) : Option SourceAuthority :=
  match r.current with
  | none => none
  | some current =>
    if message.inspectMessageId ≠ current.inspectMessageId ∨
        message.resolutionGeneration ≠ current.resolutionGeneration then none
    else
      match r.authorities.get? message.matchId with
      | none => none
      | some authority =>
        if authority.inspectMessageId ≠ message.inspectMessageId ∨
            authority.resolutionGeneration ≠ message.resolutionGeneration ∨
            some authority.documentUri ≠ activeDocument.uri ∨
            some authority.documentVersion ≠ activeDocument.version then none
        else some authority

end PinOp.Presenter
