import PinOp.Lib.OrderedMap
import PinOp.Protocol.Schema

/-!
# The inspect correlation store

`InspectCorrelationStore` remembers, for every inspect a panel sent, where its answers
belong and what the IDE has authorised: matches whose source may be opened, and rules.
Correlations and peer contexts are objects the source compares by identity, so both carry
an `objectId`. The two authority families are stamped with revisions drawn from one
counter. An input that is not a parsed value of its type is refused before anything is
looked up, so the operations take parsed values here.
-/

namespace PinOp.Browser

open PinOp.Lib PinOp.Protocol

/-- A frozen context object; `trusted` is its membership in the set of contexts that the
transport created. -/
structure PeerContext where
  objectId : ℕ
  windowId : ℤ
  sessionId : String
  sourceId : String
  trusted : Bool
  deriving DecidableEq, Repr

structure InspectCorrelation where
  objectId : ℕ
  channel : String
  tabId : ℤ
  windowId : ℤ
  expectedRuleRefs : Finset String
  sourceAuthorityRevision : ℕ
  rulesAuthorityRevision : ℕ
  resolutionGeneration : ℤ
  rulesGeneration : ℤ
  sessionId : Option String
  sourceId : Option String
  document : Option SourceDocument
  sourcePeerContext : Option PeerContext
  rulesPeerContext : Option PeerContext
  matchIds : Finset String
  ruleOpenAuthorityIds : Finset String
  deriving DecidableEq

structure SourceOpenAuthority where
  channel : String
  inspectMessageId : String
  resolutionGeneration : ℤ
  matchId : String
  tabId : ℤ
  windowId : ℤ
  context : PeerContext
  revision : ℕ
  deriving DecidableEq

structure PresentationSettingsAuthority where
  channel : String
  inspectMessageId : String
  resolutionGeneration : ℤ
  tabId : ℤ
  windowId : ℤ
  context : PeerContext
  revision : ℕ
  deriving DecidableEq

structure RulesOpenAuthority where
  channel : String
  inspectMessageId : String
  rulesGeneration : ℤ
  openAuthorityId : String
  tabId : ℤ
  windowId : ℤ
  context : PeerContext
  revision : ℕ
  deriving DecidableEq

/-- What the two closures of a prepared rules publication captured. -/
structure PreparedRulesSources where
  channel : String
  parsed : RulesSourcesMessage
  peerContext : PeerContext
  correlation : ℕ
  previousRulesGeneration : ℤ
  previousRulesAuthorityRevision : ℕ
  pending : Bool
  deriving DecidableEq

structure InspectCorrelationStore where
  maximumSize : ℕ+
  correlations : OrderedMap String InspectCorrelation
  authorityRevisionSequence : ℕ
  nextObjectId : ℕ
  deriving DecidableEq

/-! ## Checks -/

def isAsciiAlphanumeric (c : Char) : Bool :=
  ('A' ≤ c ∧ c ≤ 'Z') ∨ ('a' ≤ c ∧ c ≤ 'z') ∨ ('0' ≤ c ∧ c ≤ '9')

/-- `/^[A-Za-z0-9._-]+$/`, at most 128 long -/
def isValidDevtoolsChannel (value : String) : Bool :=
  0 < jsLength value ∧ jsLength value ≤ 128 ∧
    value.toList.all fun c => isAsciiAlphanumeric c ∨ c = '.' ∨ c = '_' ∨ c = '-'

def isSafeInteger (value : ℤ) : Bool := -(2 ^ 53 - 1) ≤ value ∧ value ≤ 2 ^ 53 - 1

def isBrowserId (value : ℤ) : Bool := isSafeInteger value ∧ 0 ≤ value

def isResolutionGeneration (value : ℤ) : Bool :=
  isSafeInteger value ∧ 0 ≤ value ∧ value ≤ Limits.generation

/-- `trustedIdePeerMatchesPayload` -/
def payloadMatchesPeer (sessionId : String) (source : ResolutionSource)
    (peerContext : PeerContext) : Bool :=
  peerContext.trusted ∧ peerContext.sessionId = sessionId ∧ peerContext.sourceId = source.id

def correlationMatchesPeer (correlation : InspectCorrelation) (peerContext : PeerContext) : Bool :=
  correlation.windowId = peerContext.windowId ∧
    correlation.sessionId = some peerContext.sessionId ∧
    correlation.sourceId = some peerContext.sourceId

/-- `correlation.sourceId` is set and the correlation belongs to another peer. -/
def ownedByOtherPeer (correlation : InspectCorrelation) (peerContext : PeerContext) : Bool :=
  correlation.sourceId ≠ none ∧ (correlation.sourceId ≠ some peerContext.sourceId ∨
    correlation.sessionId ≠ some peerContext.sessionId)

def matchesCurrentAuthority (message : SourceMatchesMessage) (correlation : InspectCorrelation)
    (peerContext : PeerContext) : Bool :=
  correlation.resolutionGeneration = message.resolutionGeneration ∧
    correlation.sourcePeerContext.isSome ∧ correlationMatchesPeer correlation peerContext ∧
    payloadMatchesPeer message.sessionId message.source peerContext ∧
    correlation.document.any fun document =>
      document.label = message.document.label ∧ document.languageId = message.document.languageId

def rulesSourcesCoverExpectedRefs (message : RulesSourcesMessage)
    (expectedRuleRefs : Finset String) : Bool :=
  message.sources.length + message.unresolvedRuleCount = expectedRuleRefs.card ∧
    ∀ source ∈ message.sources, source.ruleRef ∈ expectedRuleRefs

/-- The first publication has generation 1, each later one a larger one. -/
def rulesGenerationStale (correlation : InspectCorrelation) (message : RulesSourcesMessage) :
    Bool :=
  if correlation.rulesGeneration < 0 then message.rulesGeneration ≠ 1
  else (message.rulesGeneration : ℤ) ≤ correlation.rulesGeneration

/-- The loop over the published matches: their ids, unless one is repeated. -/
def collectMatchIds : Finset String → List SourceExcerpt → Option (Finset String)
  | matchIds, [] => some matchIds
  | matchIds, m :: rest =>
    if m.matchId ∈ matchIds then none else collectMatchIds (insert m.matchId matchIds) rest

namespace InspectCorrelationStore

def empty (maximumSize : ℕ+) : InspectCorrelationStore where
  maximumSize := maximumSize
  correlations := ∅
  authorityRevisionSequence := 0
  nextObjectId := 0

/-- The constructor: the limit is 256 unless one is given. -/
def new (maximumSize : Option ℤ) : Except String InspectCorrelationStore :=
  let limit := maximumSize.getD 256
  if h : 0 < limit ∧ limit ≤ 1024 then
    .ok (empty ⟨limit.toNat, by omega⟩)
  else
    .error "Inspect correlation limit is invalid"

/-- The loop that drops the oldest correlations; `fuel` bounds its rounds by the size. -/
def evictOldest (maximumSize : ℕ) :
    ℕ → OrderedMap String InspectCorrelation → OrderedMap String InspectCorrelation
  | 0, correlations => correlations
  | fuel + 1, correlations =>
    if maximumSize < correlations.size then
      match correlations.firstKey? with
      | none => correlations
      | some oldest => evictOldest maximumSize fuel (correlations.delete oldest)
    else
      correlations

/-- A correlation as `record` makes it, with the next two revisions. -/
def recorded (store : InspectCorrelationStore) (channel : String) (tabId windowId : ℤ)
    (expectedRuleRefs : Finset String) : InspectCorrelation where
  objectId := store.nextObjectId
  channel := channel
  tabId := tabId
  windowId := windowId
  expectedRuleRefs := expectedRuleRefs
  sourceAuthorityRevision := store.authorityRevisionSequence + 1
  rulesAuthorityRevision := store.authorityRevisionSequence + 2
  resolutionGeneration := -1
  rulesGeneration := -1
  sessionId := none
  sourceId := none
  document := none
  sourcePeerContext := none
  rulesPeerContext := none
  matchIds := ∅
  ruleOpenAuthorityIds := ∅

def validRecord (channel inspectMessageId : String) (tabId windowId : ℤ)
    (ruleEvidence : InspectRuleEvidenceBatch) : Bool :=
  isValidDevtoolsChannel channel ∧ isOpaqueId inspectMessageId ∧ isBrowserId tabId ∧
    isBrowserId windowId ∧ ruleEvidence.valid

def record (store : InspectCorrelationStore) (channel inspectMessageId : String)
    (tabId windowId : ℤ) (ruleEvidence : InspectRuleEvidenceBatch) :
    Except String InspectCorrelationStore :=
  if ¬ validRecord channel inspectMessageId tabId windowId ruleEvidence then
    .error "Invalid inspect correlation"
  else
    let expectedRuleRefs := (ruleEvidence.rules.map InspectRuleEvidence.ruleRef).toFinset
    let kept := store.correlations.filter fun _ correlation =>
      ¬ (correlation.channel = channel ∨ correlation.tabId = tabId)
    let correlations := (kept.delete inspectMessageId).set inspectMessageId
      (store.recorded channel tabId windowId expectedRuleRefs)
    .ok { store with
      correlations := evictOldest store.maximumSize correlations.size correlations
      authorityRevisionSequence := store.authorityRevisionSequence + 2
      nextObjectId := store.nextObjectId + 1 }

/-- Write through a correlation and move it to the end. -/
def writeLast (store : InspectCorrelationStore) (inspectMessageId : String)
    (correlation : InspectCorrelation) : InspectCorrelationStore :=
  { store with
    correlations := (store.correlations.delete inspectMessageId).set inspectMessageId correlation
    authorityRevisionSequence := store.authorityRevisionSequence + 1 }

/-- Write through a correlation in its place. -/
def writeInPlace (store : InspectCorrelationStore) (inspectMessageId : String)
    (correlation : InspectCorrelation) : InspectCorrelationStore :=
  { store with
    correlations := store.correlations.set inspectMessageId correlation
    authorityRevisionSequence := store.authorityRevisionSequence + 1 }

/-- A correlation after an accepted resolution. -/
def resolvedBy (correlation : InspectCorrelation) (message : ResolutionMessage)
    (peerContext : PeerContext) (revision : ℕ) : InspectCorrelation :=
  { correlation with
    resolutionGeneration := message.resolutionGeneration
    sessionId := some peerContext.sessionId
    sourceId := some peerContext.sourceId
    document := message.document
    sourcePeerContext := some peerContext
    matchIds := ∅
    sourceAuthorityRevision := revision }

def accept (store : InspectCorrelationStore) (message : ResolutionMessage)
    (peerContext : PeerContext) : Option String × InspectCorrelationStore :=
  if ¬ peerContext.trusted ∨ ¬ message.valid then
    (none, store)
  else
    match store.correlations.get? message.inspectMessageId with
    | none => (none, store)
    | some correlation =>
      if correlation.windowId ≠ peerContext.windowId ∨
          ¬ payloadMatchesPeer message.sessionId message.source peerContext ∨
          (message.resolutionGeneration : ℤ) ≤ correlation.resolutionGeneration ∨
          ownedByOtherPeer correlation peerContext then
        (none, store)
      else
        (some correlation.channel, store.writeLast message.inspectMessageId
          (resolvedBy correlation message peerContext (store.authorityRevisionSequence + 1)))

def prepareRulesSources (store : InspectCorrelationStore) (message : RulesSourcesMessage)
    (peerContext : PeerContext) : Option PreparedRulesSources :=
  if ¬ peerContext.trusted ∨ ¬ message.valid then
    none
  else
    match store.correlations.get? message.inspectMessageId with
    | none => none
    | some correlation =>
      if correlation.windowId ≠ peerContext.windowId ∨
          ¬ payloadMatchesPeer message.sessionId message.source peerContext ∨
          ownedByOtherPeer correlation peerContext ∨
          rulesGenerationStale correlation message ∨
          ¬ rulesSourcesCoverExpectedRefs message correlation.expectedRuleRefs then
        none
      else
        some
          { channel := correlation.channel
            parsed := message
            peerContext
            correlation := correlation.objectId
            previousRulesGeneration := correlation.rulesGeneration
            previousRulesAuthorityRevision := correlation.rulesAuthorityRevision
            pending := true }

/-- A correlation after a committed rules publication. -/
def publishedBy (correlation : InspectCorrelation) (message : RulesSourcesMessage)
    (peerContext : PeerContext) (revision : ℕ) : InspectCorrelation :=
  { correlation with
    sessionId := some peerContext.sessionId
    sourceId := some peerContext.sourceId
    rulesGeneration := message.rulesGeneration
    rulesPeerContext := some peerContext
    ruleOpenAuthorityIds := (message.sources.map RulesSource.openAuthorityId).toFinset
    rulesAuthorityRevision := revision }

def commitRulesSources (store : InspectCorrelationStore) (prepared : PreparedRulesSources) :
    Bool × InspectCorrelationStore :=
  if ¬ prepared.pending then (false, store)
  else
    match store.correlations.get? prepared.parsed.inspectMessageId with
    | none => (false, store)
    | some current =>
      if current.objectId ≠ prepared.correlation ∨
          current.rulesGeneration ≠ prepared.previousRulesGeneration ∨
          current.rulesAuthorityRevision ≠ prepared.previousRulesAuthorityRevision ∨
          current.windowId ≠ prepared.peerContext.windowId ∨
          ¬ payloadMatchesPeer prepared.parsed.sessionId prepared.parsed.source
            prepared.peerContext ∨
          ownedByOtherPeer current prepared.peerContext then
        (false, store)
      else
        (true, store.writeLast prepared.parsed.inspectMessageId
          (publishedBy current prepared.parsed prepared.peerContext
            (store.authorityRevisionSequence + 1)))

end InspectCorrelationStore

/-- The handle after `commit` or `rollback`. -/
def PreparedRulesSources.settle (prepared : PreparedRulesSources) : PreparedRulesSources :=
  { prepared with pending := false }

namespace InspectCorrelationStore

/-- `prepareRulesSources`, committed at once. -/
def acceptRulesSources (store : InspectCorrelationStore) (message : RulesSourcesMessage)
    (peerContext : PeerContext) : Option String × InspectCorrelationStore :=
  match store.prepareRulesSources message peerContext with
  | none => (none, store)
  | some prepared =>
    let (committed, store) := store.commitRulesSources prepared
    (if committed then some prepared.channel else none, store)

/-- It only tells where a navigation state goes. -/
def acceptNavigationState (store : InspectCorrelationStore)
    (message : SourceNavigationStateMessage) (peerContext : PeerContext) : Option String :=
  if ¬ peerContext.trusted ∨ ¬ message.valid then
    none
  else
    match store.correlations.get? message.inspectMessageId with
    | none => none
    | some correlation =>
      if ¬ correlationMatchesPeer correlation peerContext ∨
          ¬ payloadMatchesPeer message.sessionId message.source peerContext ∨
          correlation.resolutionGeneration ≠ message.resolutionGeneration ∨
          correlation.sessionId = none ∨ correlation.sourceId = none then
        none
      else
        some correlation.channel

/-- A correlation whose matches were taken back before any resolution. -/
def clearedBy (correlation : InspectCorrelation) (revision : ℕ) : InspectCorrelation :=
  { correlation with matchIds := ∅, sourceAuthorityRevision := revision }

/-- A correlation after accepted matches. -/
def matchedBy (correlation : InspectCorrelation) (message : SourceMatchesMessage)
    (peerContext : PeerContext) (matchIds : Finset String) (revision : ℕ) : InspectCorrelation :=
  { correlation with
    matchIds := matchIds
    sourcePeerContext :=
      if 0 < message.matches.length then some peerContext else correlation.sourcePeerContext
    sourceAuthorityRevision := revision }

def acceptSourceMatches (store : InspectCorrelationStore) (message : SourceMatchesMessage)
    (peerContext : PeerContext) : Option String × InspectCorrelationStore :=
  if ¬ peerContext.trusted ∨ ¬ message.valid then
    (none, store)
  else
    match store.correlations.get? message.inspectMessageId with
    | none => (none, store)
    | some correlation =>
      if correlation.windowId ≠ peerContext.windowId ∨
          ¬ payloadMatchesPeer message.sessionId message.source peerContext ∨
          (correlation.sourceId ≠ none ∧ ¬ correlationMatchesPeer correlation peerContext) then
        (none, store)
      else if message.matches.length = 0 ∧ correlation.resolutionGeneration < 0 then
        (some correlation.channel, store.writeInPlace message.inspectMessageId
          (clearedBy correlation (store.authorityRevisionSequence + 1)))
      else if ¬ matchesCurrentAuthority message correlation peerContext then
        (none, store)
      else
        match collectMatchIds ∅ message.matches with
        | none => (none, store)
        | some matchIds =>
          (some correlation.channel, store.writeInPlace message.inspectMessageId
            (matchedBy correlation message peerContext matchIds
              (store.authorityRevisionSequence + 1)))

/-! ## Authorisation -/

/-- The lookup the three authorisations share: valid routing facts that are exactly those of
the correlation. -/
def routed (store : InspectCorrelationStore) (channel : String) (tabId windowId : ℤ)
    (inspectMessageId : String) : Option InspectCorrelation :=
  if ¬ isValidDevtoolsChannel channel ∨ ¬ isBrowserId tabId ∨ ¬ isBrowserId windowId ∨
      ¬ isOpaqueId inspectMessageId then
    none
  else
    (store.correlations.get? inspectMessageId).filter fun correlation =>
      correlation.channel = channel ∧ correlation.tabId = tabId ∧ correlation.windowId = windowId

def authorizeSourceOpen (store : InspectCorrelationStore) (channel : String)
    (tabId windowId : ℤ) (inspectMessageId : String) (resolutionGeneration : ℤ)
    (matchId : String) : Option SourceOpenAuthority := do
  if ¬ isResolutionGeneration resolutionGeneration ∨ ¬ isOpaqueId matchId then none
  let correlation ← store.routed channel tabId windowId inspectMessageId
  let context ← correlation.sourcePeerContext
  if ¬ context.trusted ∨ correlation.resolutionGeneration ≠ resolutionGeneration ∨
      matchId ∉ correlation.matchIds then none
  return {
    channel := correlation.channel
    inspectMessageId
    resolutionGeneration := correlation.resolutionGeneration
    matchId
    tabId := correlation.tabId
    windowId := correlation.windowId
    context
    revision := correlation.sourceAuthorityRevision }

def authorizePresentationSettings (store : InspectCorrelationStore) (channel : String)
    (tabId windowId : ℤ) (inspectMessageId : String) :
    Option PresentationSettingsAuthority := do
  let correlation ← store.routed channel tabId windowId inspectMessageId
  let context ← correlation.sourcePeerContext
  if ¬ context.trusted ∨ correlation.resolutionGeneration < 0 then none
  return {
    channel := correlation.channel
    inspectMessageId
    resolutionGeneration := correlation.resolutionGeneration
    tabId := correlation.tabId
    windowId := correlation.windowId
    context
    revision := correlation.sourceAuthorityRevision }

def authorizeRulesOpen (store : InspectCorrelationStore) (channel : String)
    (tabId windowId : ℤ) (inspectMessageId : String) (rulesGeneration : ℤ)
    (openAuthorityId : String) : Option RulesOpenAuthority := do
  if ¬ isResolutionGeneration rulesGeneration ∨ ¬ isOpaqueId openAuthorityId then none
  let correlation ← store.routed channel tabId windowId inspectMessageId
  let context ← correlation.rulesPeerContext
  if ¬ context.trusted ∨ correlation.rulesGeneration ≠ rulesGeneration ∨
      openAuthorityId ∉ correlation.ruleOpenAuthorityIds then none
  return {
    channel := correlation.channel
    inspectMessageId
    rulesGeneration := correlation.rulesGeneration
    openAuthorityId
    tabId := correlation.tabId
    windowId := correlation.windowId
    context
    revision := correlation.rulesAuthorityRevision }

/-- It only tells whether a navigation request is current. -/
def authorizeNavigation (store : InspectCorrelationStore) (channel inspectMessageId : String)
    (resolutionGeneration tabId : ℤ) : Bool :=
  isValidDevtoolsChannel channel ∧ isOpaqueId inspectMessageId ∧
    isResolutionGeneration resolutionGeneration ∧ isBrowserId tabId ∧
    (store.correlations.get? inspectMessageId).any fun correlation =>
      correlation.channel = channel ∧ correlation.resolutionGeneration = resolutionGeneration ∧
        correlation.tabId = tabId

end InspectCorrelationStore

/-- The two kinds of authority over the source of an inspect. -/
inductive SourceAuthority where
  | sourceOpen (authority : SourceOpenAuthority)
  | presentationSettings (authority : PresentationSettingsAuthority)
  deriving DecidableEq

namespace SourceAuthority

def channel : SourceAuthority → String
  | .sourceOpen a => a.channel
  | .presentationSettings a => a.channel

def inspectMessageId : SourceAuthority → String
  | .sourceOpen a => a.inspectMessageId
  | .presentationSettings a => a.inspectMessageId

def resolutionGeneration : SourceAuthority → ℤ
  | .sourceOpen a => a.resolutionGeneration
  | .presentationSettings a => a.resolutionGeneration

def tabId : SourceAuthority → ℤ
  | .sourceOpen a => a.tabId
  | .presentationSettings a => a.tabId

def windowId : SourceAuthority → ℤ
  | .sourceOpen a => a.windowId
  | .presentationSettings a => a.windowId

def context : SourceAuthority → PeerContext
  | .sourceOpen a => a.context
  | .presentationSettings a => a.context

def revision : SourceAuthority → ℕ
  | .sourceOpen a => a.revision
  | .presentationSettings a => a.revision

end SourceAuthority

namespace InspectCorrelationStore

/-! ## Removal -/

def delete (store : InspectCorrelationStore) (inspectMessageId : String) :
    InspectCorrelationStore :=
  { store with correlations := store.correlations.delete inspectMessageId }

def dispose (store : InspectCorrelationStore) (gone : InspectCorrelation → Bool) :
    InspectCorrelationStore :=
  { store with correlations := store.correlations.filter fun _ correlation => !gone correlation }

def discardSourcePresentationAuthority (store : InspectCorrelationStore)
    (authority : SourceAuthority) : Bool × InspectCorrelationStore :=
  match store.correlations.get? authority.inspectMessageId with
  | none => (false, store)
  | some correlation =>
    if correlation.channel ≠ authority.channel ∨ correlation.tabId ≠ authority.tabId ∨
        correlation.windowId ≠ authority.windowId ∨
        correlation.resolutionGeneration ≠ authority.resolutionGeneration ∨
        correlation.sourcePeerContext ≠ some authority.context ∨
        correlation.sourceAuthorityRevision ≠ authority.revision then
      (false, store)
    else
      (true, store.delete authority.inspectMessageId)

def discardRulesOpenAuthority (store : InspectCorrelationStore) (authority : RulesOpenAuthority) :
    Bool × InspectCorrelationStore :=
  match store.correlations.get? authority.inspectMessageId with
  | none => (false, store)
  | some correlation =>
    if correlation.channel ≠ authority.channel ∨ correlation.tabId ≠ authority.tabId ∨
        correlation.windowId ≠ authority.windowId ∨
        correlation.rulesGeneration ≠ authority.rulesGeneration ∨
        correlation.rulesPeerContext ≠ some authority.context ∨
        authority.openAuthorityId ∉ correlation.ruleOpenAuthorityIds ∨
        correlation.rulesAuthorityRevision ≠ authority.revision then
      (false, store)
    else
      (true, store.delete authority.inspectMessageId)

def discard (store : InspectCorrelationStore) (inspectMessageId : String) :
    InspectCorrelationStore :=
  store.delete inspectMessageId

def disposeChannel (store : InspectCorrelationStore) (channel : String) :
    InspectCorrelationStore :=
  store.dispose fun correlation => correlation.channel = channel

def disposeTab (store : InspectCorrelationStore) (tabId : ℤ) : InspectCorrelationStore :=
  if ¬ isBrowserId tabId then store
  else store.dispose fun correlation => correlation.tabId = tabId

def disposeWindow (store : InspectCorrelationStore) (windowId : ℤ) : InspectCorrelationStore :=
  if ¬ isBrowserId windowId then store
  else store.dispose fun correlation => correlation.windowId = windowId

end InspectCorrelationStore

end PinOp.Browser
