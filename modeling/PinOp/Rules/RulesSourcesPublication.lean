import PinOp.Lib.Program
import PinOp.Rules.RulesOpenAuthorityRegistry

/-!
# The payload of a rules publication

A resolution of the rules of an inspect becomes a payload for the panel and authorities for the
registry, one of each for every rule that was resolved and fits into the envelope. How long an
envelope is, how a document is called, and the ids of authorities come from the host.
-/

namespace PinOp.Rules

open PinOp.Lib PinOp.Protocol PinOp.Css
open PinOp.Browser (RulesLanguage RulesSourceConfidence RulesOpenDeclaration)

/-! ## Resolutions -/

structure RuleSourceDocument where
  uri : String
  languageId : RulesLanguage
  version : ℤ
  deriving DecidableEq, Repr

structure ResolvedRuleSource where
  ruleRef : String
  document : RuleSourceDocument
  range : SourceRange
  confidence : RulesSourceConfidence
  dependencies : List RuleSourceDependencySnapshot
  deriving DecidableEq

inductive RuleSourceResolution where
  | resolved (source : ResolvedRuleSource)
  | unresolved (ruleRef reason : String)
  deriving DecidableEq

def RuleSourceResolution.ruleRef : RuleSourceResolution → String
  | resolved source => source.ruleRef
  | unresolved ruleRef _ => ruleRef

structure RulesSourceResolutionBatch where
  selectionMessageId : String
  results : List RuleSourceResolution
  deriving DecidableEq

/-! ## Payloads -/

structure RulesSourceProjection where
  ruleRef : String
  label : String
  languageId : RulesLanguage
  startLine : ℤ
  startColumn : ℤ
  confidence : RulesSourceConfidence
  deriving DecidableEq, Repr

structure PublishedRulesSource extends RulesSourceProjection where
  openAuthorityId : String
  deriving DecidableEq, Repr

structure RulesSourcesPublicationPayload where
  inspectMessageId : String
  rulesGeneration : ℕ
  sources : List PublishedRulesSource
  unresolvedRuleCount : ℕ
  deriving DecidableEq, Repr

structure RulesSourcesPublicationRequest where
  inspectMessageId : String
  rulesGeneration : ℕ
  ruleEvidence : InspectRuleEvidenceBatch
  resolution : RulesSourceResolutionBatch
  workspaceGeneration : ℤ
  deriving DecidableEq

/-- What the publication asks its host for; a measurement may fail. -/
structure PublicationHost where
  sourceDocumentLabel : String → String
  measureEnvelopeBytes : RulesSourcesPublicationPayload → Option ℤ
  envelopeMaxBytes : ℤ
  validUri : String → Bool

def ruleOpenAuthorityPlaceholder : String := "00000000-0000-4000-8000-000000000000"

/-! ## The schema of a source -/

def rulesSourceLine : ℤ := 10000000

def rulesSourceColumn : ℤ := 1000000

def isForbiddenLabelChar (c : Char) : Bool :=
  c = '/' || c = ':' || c.toNat = 0x5c || c.toNat ≤ 0x1f || (0x7f ≤ c.toNat && c.toNat ≤ 0x9f) ||
    c.toNat = 0x61c || c.toNat = 0x200e || c.toNat = 0x200f ||
    (0x2028 ≤ c.toNat && c.toNat ≤ 0x202e) || (0x2066 ≤ c.toNat && c.toNat ≤ 0x2069)

/-- A colon is forbidden anyway, so no label starts with a scheme. -/
def isSafeBasename (label : String) : Bool :=
  label ≠ "." && label ≠ ".." && !label.toList.any isForbiddenLabelChar

def PublishedRulesSource.parse (source : PublishedRulesSource) : Option PublishedRulesSource :=
  if boundedText Limits.ruleRefLength source.ruleRef ∧
      boundedText Limits.authorityIdLength source.openAuthorityId ∧
      boundedText Limits.labelLength source.label ∧ isSafeBasename source.label ∧
      1 ≤ source.startLine ∧ source.startLine ≤ rulesSourceLine ∧
      1 ≤ source.startColumn ∧ source.startColumn ≤ rulesSourceColumn then
    some source
  else none

/-! ## Ids of authorities -/

def isHexDigit (c : Char) : Bool :=
  ('0' ≤ c && c ≤ '9') || ('a' ≤ c && c ≤ 'f') || ('A' ≤ c && c ≤ 'F')

/-- The characters of a UUID, one class for each place. -/
def uuidPattern : List (Char → Bool) :=
  let hex (n : ℕ) := List.replicate n isHexDigit
  let dash : Char → Bool := fun c => c = '-'
  hex 8 ++ [dash] ++ hex 4 ++ [dash] ++ [fun c => '1' ≤ c && c ≤ '5'] ++ hex 3 ++ [dash] ++
    [fun c => ['8', '9', 'a', 'b', 'A', 'B'].contains c] ++ hex 3 ++ [dash] ++ hex 12

def isUuid (value : String) : Bool :=
  value.toList.length = uuidPattern.length &&
    (uuidPattern.zip value.toList).all fun (accepts, c) => accepts c

/-! ## Preparing -/

namespace RulesSourcesPublication

def validateRequest (request : RulesSourcesPublicationRequest) : Except String Unit :=
  if request.inspectMessageId ≠ request.resolution.selectionMessageId ∨
      jsLength request.inspectMessageId < 1 ∨ 128 < jsLength request.inspectMessageId then
    .error "Rules source resolution inspect ID does not match"
  else if request.rulesGeneration < 1 ∨ 2 ^ 53 - 1 < request.rulesGeneration then
    .error "Rules source generation is invalid"
  else if !validNonnegativeInteger request.workspaceGeneration then
    .error "Rules source workspace generation is invalid"
  else .ok ()

def orderedUniqueRuleRefs (evidence : InspectRuleEvidenceBatch) : List String :=
  evidence.rules.foldl (fun ordered rule =>
    if ordered.contains rule.ruleRef then ordered else ordered ++ [rule.ruleRef]) []

structure UniqueResolved where
  resolved : OrderedMap String ResolvedRuleSource
  seen : List String

def UniqueResolved.add (expected : List String) (unique : UniqueResolved)
    (result : RuleSourceResolution) : UniqueResolved :=
  if !expected.contains result.ruleRef then unique
  else if unique.seen.contains result.ruleRef then
    { unique with resolved := unique.resolved.delete result.ruleRef }
  else
    let seen := result.ruleRef :: unique.seen
    match result with
    | .resolved source => ⟨unique.resolved.set source.ruleRef source, seen⟩
    | .unresolved _ _ => { unique with seen := seen }

def uniqueResolvedByRuleRef (batch : RulesSourceResolutionBatch) (expected : List String) :
    OrderedMap String ResolvedRuleSource :=
  (batch.results.foldl (UniqueResolved.add expected) ⟨∅, []⟩).resolved

variable (host : PublicationHost)

def projectRulesSource (source : ResolvedRuleSource) : RulesSourceProjection where
  ruleRef := source.ruleRef
  label := host.sourceDocumentLabel source.document.uri
  languageId := source.document.languageId
  startLine := source.range.start.line + 1
  startColumn := source.range.start.character + 1
  confidence := source.confidence

def measure (payload : RulesSourcesPublicationPayload) : Except String ℤ :=
  match host.measureEnvelopeBytes payload with
  | none => .error "Rules sources envelope could not be measured"
  | some bytes =>
    if validNonnegativeInteger bytes then .ok bytes
    else .error "Rules sources envelope measurement is invalid"

def assertEnvelope (payload : RulesSourcesPublicationPayload) : Except String Unit := do
  let bytes ← measure host payload
  if host.envelopeMaxBytes < bytes then .error "Rules sources envelope exceeds its byte budget"
  else .ok ()

structure PackedSource where
  source : RulesSourceProjection
  resolved : ResolvedRuleSource
  deriving DecidableEq

structure Packing where
  packed : List PackedSource
  omittedTail : Bool

def withPlaceholder (source : RulesSourceProjection) : PublishedRulesSource :=
  { source with openAuthorityId := ruleOpenAuthorityPlaceholder }

/-- One turn of the loop that packs what fits; the first source that does not ends it. -/
def pack (request : RulesSourcesPublicationRequest) (expectedRuleRefs : List String)
    (resolved : OrderedMap String ResolvedRuleSource) (packing : Packing) (ruleRef : String) :
    Except String Packing :=
  if packing.omittedTail then .ok packing
  else
    match resolved.get? ruleRef with
    | none => .ok packing
    | some entry =>
      let source := projectRulesSource host entry
      let candidateSources := packing.packed.map (fun entry => withPlaceholder entry.source) ++
        [withPlaceholder source]
      if Limits.rulesSources < candidateSources.length then
        .ok { packing with omittedTail := true }
      else do
        let bytes ← measure host {
          inspectMessageId := request.inspectMessageId
          rulesGeneration := request.rulesGeneration
          sources := candidateSources
          unresolvedRuleCount := expectedRuleRefs.length - candidateSources.length
        }
        if host.envelopeMaxBytes < bytes then .ok { packing with omittedTail := true }
        else .ok { packing with packed := packing.packed ++ [⟨source, entry⟩] }

def authorityOf (request : RulesSourcesPublicationRequest) (openAuthorityId : String)
    (resolved : ResolvedRuleSource) : StoredRuleOpenAuthority where
  openAuthorityId := openAuthorityId
  inspectMessageId := request.inspectMessageId
  rulesGeneration := request.rulesGeneration
  ruleRef := resolved.ruleRef
  documentUri := resolved.document.uri
  documentVersion := resolved.document.version
  range := resolved.range
  workspaceGeneration := request.workspaceGeneration
  dependencies := resolved.dependencies

/-- The sources with their authorities, each with the next id; where the ids end, creating the next
one failed. -/
def authorize (request : RulesSourcesPublicationRequest) :
    List PackedSource → List String →
      Except String (List (PublishedRulesSource × StoredRuleOpenAuthority))
  | [], _ => .ok []
  | _ :: _, [] => .error "Rules open authority ID could not be created"
  | entry :: packed, openAuthorityId :: openAuthorityIds =>
    if jsLength openAuthorityId ≠ jsLength ruleOpenAuthorityPlaceholder ∨ !isUuid openAuthorityId then
      .error "Rules open authority ID must be a fixed-length UUID"
    else
      match PublishedRulesSource.parse { entry.source with openAuthorityId := openAuthorityId } with
      | none => .error "Rules source is invalid"
      | some source => do
        let rest ← authorize request packed openAuthorityIds
        .ok ((source, authorityOf request openAuthorityId entry.resolved) :: rest)

structure PreparedRulesSourcesPublication where
  payload : RulesSourcesPublicationPayload
  preparation : ℕ
  deriving DecidableEq

def prepare (registry : RulesOpenAuthorityRegistry) (request : RulesSourcesPublicationRequest)
    (openAuthorityIds : List String) :
    Except String (PreparedRulesSourcesPublication × RulesOpenAuthorityRegistry) := do
  validateRequest request
  let expectedRuleRefs := orderedUniqueRuleRefs request.ruleEvidence
  let resolved := uniqueResolvedByRuleRef request.resolution expectedRuleRefs
  assertEnvelope host {
    inspectMessageId := request.inspectMessageId
    rulesGeneration := request.rulesGeneration
    sources := []
    unresolvedRuleCount := expectedRuleRefs.length
  }
  let packing ← expectedRuleRefs.foldlM (pack host request expectedRuleRefs resolved) ⟨[], false⟩
  let entries ← authorize request packing.packed openAuthorityIds
  let sources := entries.map Prod.fst
  let payload : RulesSourcesPublicationPayload := {
    inspectMessageId := request.inspectMessageId
    rulesGeneration := request.rulesGeneration
    sources := sources
    unresolvedRuleCount := expectedRuleRefs.length - sources.length
  }
  if payload.sources.length + payload.unresolvedRuleCount ≠ expectedRuleRefs.length then
    .error "Rules sources publication is incomplete"
  else
    assertEnvelope host payload
    let (preparation, registry) ← registry.prepare host.validUri {
      inspectMessageId := request.inspectMessageId
      rulesGeneration := request.rulesGeneration
      authorities := entries.map Prod.snd
    }
    .ok (⟨payload, preparation⟩, registry)

/-! ## What is prepared -/

theorem parse_eq {source parsed : PublishedRulesSource} (h : source.parse = some parsed) :
    parsed = source := by
  unfold PublishedRulesSource.parse at h
  split at h
  · exact (Option.some.inj h).symm
  · cases h

/-- A source and its authority share their id. -/
theorem authorize_ids {request : RulesSourcesPublicationRequest} {packed : List PackedSource} :
    ∀ {ids : List String} {entries : List (PublishedRulesSource × StoredRuleOpenAuthority)},
      authorize request packed ids = .ok entries →
      (entries.map Prod.snd).map StoredRuleOpenAuthority.openAuthorityId =
        (entries.map Prod.fst).map PublishedRulesSource.openAuthorityId := by
  induction packed with
  | nil =>
    intro ids entries h
    cases h
    rfl
  | cons entry packed ih =>
    intro ids entries h
    cases ids with
    | nil => cases h
    | cons id ids =>
      unfold authorize at h
      split at h
      · cases h
      · split at h
        · cases h
        · rename_i source hparse
          obtain ⟨rest, hrest, h⟩ := bind_eq_ok.1 h
          cases h
          have hid : source.openAuthorityId = id := by rw [parse_eq hparse]
          simp only [List.map_cons, authorityOf, hid, ih hrest]

variable {host : PublicationHost}

/-- A publication is prepared in the registry with the ids of its payload. -/
theorem prepare_spec {registry registry' : RulesOpenAuthorityRegistry}
    {request : RulesSourcesPublicationRequest} {ids : List String}
    {prepared : PreparedRulesSourcesPublication}
    (h : prepare host registry request ids = .ok (prepared, registry')) :
    prepared.payload.inspectMessageId = request.inspectMessageId ∧
      prepared.payload.rulesGeneration = request.rulesGeneration ∧
      ∃ input state, RulesOpenAuthorityRegistry.Prepared registry input prepared.preparation registry'
          state ∧
        input.inspectMessageId = request.inspectMessageId ∧
        input.rulesGeneration = request.rulesGeneration ∧
        input.authorities.map StoredRuleOpenAuthority.openAuthorityId =
          prepared.payload.sources.map PublishedRulesSource.openAuthorityId := by
  unfold prepare at h
  obtain ⟨_, -, h⟩ := bind_eq_ok.1 h
  obtain ⟨_, -, h⟩ := bind_eq_ok.1 h
  obtain ⟨packing, -, h⟩ := bind_eq_ok.1 h
  obtain ⟨entries, hentries, h⟩ := bind_eq_ok.1 h
  dsimp only at h
  split at h
  · cases h
  · obtain ⟨_, -, h⟩ := bind_eq_ok.1 h
    obtain ⟨⟨preparation, _⟩, hprepare, h⟩ := bind_eq_ok.1 h
    obtain ⟨rfl, rfl⟩ := Prod.mk.inj (Except.ok.inj h)
    obtain ⟨state, hstate⟩ := RulesOpenAuthorityRegistry.prepare_spec hprepare
    exact ⟨rfl, rfl, _, state, hstate, rfl, rfl, authorize_ids hentries⟩

end RulesSourcesPublication

end PinOp.Rules
