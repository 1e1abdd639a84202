import PinOp.Css.TextDocument
import PinOp.Browser.RulesSourcesController

/-!
# Which places of the workspace a panel may open

`RulesOpenAuthorityRegistry` holds the authorities of the rules sources that were sent last. A new
generation is prepared, made active before it is sent, and committed or rolled back with the answer.
Objects that the source compares by identity carry their place in the order of creation; a URL is
checked by the host.
-/

namespace PinOp.Rules

open PinOp.Lib PinOp.Protocol PinOp.Css
open PinOp.Browser (RulesLanguage RulesSourceConfidence RulesOpenDeclaration)

inductive RuleSourceDependencyKind where
  | generatedCss
  | externalSourceMap
  | originalSource
  deriving DecidableEq, Repr

structure RuleSourceDependencySnapshot where
  kind : RuleSourceDependencyKind
  uri : String
  documentVersion : Option ℤ
  contentHash : String
  deriving DecidableEq, Repr

structure StoredRuleOpenAuthority where
  openAuthorityId : String
  inspectMessageId : String
  rulesGeneration : ℕ
  ruleRef : String
  documentUri : String
  documentVersion : ℤ
  range : SourceRange
  workspaceGeneration : ℤ
  dependencies : List RuleSourceDependencySnapshot
  deriving DecidableEq

structure RuleOpenAuthorityGenerationInput where
  inspectMessageId : String
  rulesGeneration : ℕ
  authorities : List StoredRuleOpenAuthority
  deriving DecidableEq

structure RuleOpenAuthorityTuple where
  inspectMessageId : String
  rulesGeneration : ℕ
  openAuthorityId : String
  deriving DecidableEq, Repr

structure AuthorityGeneration where
  object : ℕ
  inspectMessageId : String
  rulesGeneration : ℕ
  authorities : OrderedMap String StoredRuleOpenAuthority
  dependencyUris : List String
  deriving DecidableEq

inductive PreparationStatus where
  | prepared
  | active
  | committed
  | rolledBack
  deriving DecidableEq, Repr

structure PreparationState where
  candidate : AuthorityGeneration
  previous : Option AuthorityGeneration
  preparedAtMutation : ℕ
  status : PreparationStatus
  deriving DecidableEq

/-- A preparation is known by its place among all of them. -/
structure RulesOpenAuthorityRegistry where
  active : Option AuthorityGeneration
  highWatermarks : OrderedMap String ℕ
  mutation : ℕ
  preparations : List PreparationState
  deriving DecidableEq

/-! ## Checks -/

def routeHistoryLimit : ℕ := Limits.rulesSources

def validNonnegativeInteger (value : ℤ) : Bool := 0 ≤ value ∧ value ≤ 2 ^ 53 - 1

def validRange (range : SourceRange) : Bool :=
  [range.start, range.stop].all (fun position =>
    validNonnegativeInteger position.line && validNonnegativeInteger position.character) &&
  decide (range.start.line < range.stop.line ∨
    range.stop.line = range.start.line ∧ range.start.character < range.stop.character)

/-- `/^[0-9a-f]{64}$/` -/
def isContentHash (value : String) : Bool :=
  value.toList.length = 64 && value.toList.all fun c =>
    ('0' ≤ c && c ≤ '9') || ('a' ≤ c && c ≤ 'f')

section Validation

variable (validUri : String → Bool)

def validDependency (dependency : RuleSourceDependencySnapshot) : Bool :=
  validUri dependency.uri && dependency.documentVersion.all validNonnegativeInteger &&
    isContentHash dependency.contentHash

/-- The dependencies of each kind that were seen so far. -/
structure DependencyShape where
  keys : List (RuleSourceDependencyKind × String)
  generatedCss : Option RuleSourceDependencySnapshot
  externalSourceMap : Option RuleSourceDependencySnapshot
  originalSource : Option RuleSourceDependencySnapshot

def DependencyShape.add (shape : DependencyShape) (dependency : RuleSourceDependencySnapshot) :
    Except String DependencyShape :=
  if !validDependency validUri dependency || shape.keys.contains (dependency.kind, dependency.uri) then
    .error "Rules authority dependency is invalid or duplicate"
  else
    let shape := { shape with keys := (dependency.kind, dependency.uri) :: shape.keys }
    match dependency.kind with
    | .generatedCss =>
      if shape.generatedCss.isSome then .error "Rules authority dependency shape is invalid"
      else .ok { shape with generatedCss := some dependency }
    | .externalSourceMap =>
      if shape.externalSourceMap.isSome then .error "Rules authority dependency shape is invalid"
      else .ok { shape with externalSourceMap := some dependency }
    | .originalSource =>
      if shape.originalSource.isSome then .error "Rules authority dependency shape is invalid"
      else .ok { shape with originalSource := some dependency }

def validateAuthority (authority : StoredRuleOpenAuthority) (inspectMessageId : String)
    (rulesGeneration : ℕ) : Except String Unit :=
  if authority.inspectMessageId ≠ inspectMessageId ∨ authority.rulesGeneration ≠ rulesGeneration ∨
      !isOpaqueId authority.openAuthorityId ∨ !isOpaqueId authority.ruleRef ∨
      !validUri authority.documentUri ∨ !validNonnegativeInteger authority.documentVersion ∨
      !validNonnegativeInteger authority.workspaceGeneration ∨ !validRange authority.range ∨
      authority.dependencies.length < 1 ∨ 3 < authority.dependencies.length then
    .error "Rules authority is invalid"
  else do
    let shape ← authority.dependencies.foldlM (DependencyShape.add validUri) ⟨[], none, none, none⟩
    match shape.generatedCss with
    | none => .error "Rules authority dependency shape is invalid"
    | some generatedCss =>
      if shape.externalSourceMap.isSome && shape.originalSource.isNone then
        .error "Rules authority dependency shape is invalid"
      else
        let targetDependency := shape.originalSource.getD generatedCss
        if targetDependency.uri ≠ authority.documentUri ∨
            targetDependency.documentVersion ≠ some authority.documentVersion then
          .error "Rules authority target dependency is missing"
        else .ok ()

/-- The loop over the authorities; what was seen are their ids and the rules they stand for. -/
def validateAuthorities (inspectMessageId : String) (rulesGeneration : ℕ) :
    List String → List String → List StoredRuleOpenAuthority → Except String Unit
  | _, _, [] => .ok ()
  | authorityIds, ruleRefs, authority :: rest => do
    validateAuthority validUri authority inspectMessageId rulesGeneration
    if authorityIds.contains authority.openAuthorityId || ruleRefs.contains authority.ruleRef then
      .error "Rules authority generation contains a duplicate"
    else
      validateAuthorities inspectMessageId rulesGeneration
        (authority.openAuthorityId :: authorityIds) (authority.ruleRef :: ruleRefs) rest

def validateGenerationInput (input : RuleOpenAuthorityGenerationInput) (highWatermark : ℕ) :
    Except String Unit :=
  if !isOpaqueId input.inspectMessageId then .error "Rules authority inspect ID is invalid"
  else if input.rulesGeneration < 1 ∨ Limits.generation < input.rulesGeneration ∨
      input.rulesGeneration ≤ highWatermark then
    .error "Rules authority generation must be newer"
  else if Limits.rulesSources < input.authorities.length then
    .error "Rules authority generation exceeds capacity"
  else
    validateAuthorities validUri input.inspectMessageId input.rulesGeneration [] [] input.authorities

end Validation

/-! ## The registry -/

namespace RulesOpenAuthorityRegistry

def empty : RulesOpenAuthorityRegistry := ⟨none, ∅, 0, []⟩

def freezeGeneration (object : ℕ) (input : RuleOpenAuthorityGenerationInput) : AuthorityGeneration where
  object := object
  inspectMessageId := input.inspectMessageId
  rulesGeneration := input.rulesGeneration
  authorities := input.authorities.foldl
    (fun authorities authority => authorities.set authority.openAuthorityId authority) ∅
  dependencyUris := input.authorities.foldl (fun uris authority =>
    authority.dependencies.foldl (fun uris dependency =>
      if uris.contains dependency.uri then uris else uris ++ [dependency.uri]) uris) []

/-- A full history gives up its oldest inspect, save the active one and the one just written. -/
def rememberHighWatermark (r : RulesOpenAuthorityRegistry) (inspectMessageId : String)
    (rulesGeneration : ℕ) : OrderedMap String ℕ :=
  let highWatermarks := (r.highWatermarks.delete inspectMessageId).set inspectMessageId rulesGeneration
  if highWatermarks.size ≤ routeHistoryLimit then highWatermarks
  else
    match highWatermarks.keys.find? fun retained =>
        r.active.map AuthorityGeneration.inspectMessageId ≠ some retained ∧
          retained ≠ inspectMessageId with
    | some retained => highWatermarks.delete retained
    | none => highWatermarks

def prepare (validUri : String → Bool) (r : RulesOpenAuthorityRegistry)
    (input : RuleOpenAuthorityGenerationInput) : Except String (ℕ × RulesOpenAuthorityRegistry) := do
  let routeHighWatermark := (r.highWatermarks.get? input.inspectMessageId).getD 0
  validateGenerationInput validUri input routeHighWatermark
  let candidate := freezeGeneration r.preparations.length input
  let mutation := r.mutation + 1
  let preparation : PreparationState := {
    candidate := candidate
    previous := r.active.filter fun active => active.inspectMessageId = input.inspectMessageId
    preparedAtMutation := mutation
    status := .prepared
  }
  .ok (r.preparations.length, { r with
    highWatermarks := r.rememberHighWatermark input.inspectMessageId input.rulesGeneration
    mutation := mutation
    preparations := r.preparations ++ [preparation] })

def setStatus (r : RulesOpenAuthorityRegistry) (prepared : ℕ) (status : PreparationStatus) :
    RulesOpenAuthorityRegistry :=
  { r with preparations := r.preparations.modify prepared fun state => { state with status := status } }

def preparation (r : RulesOpenAuthorityRegistry) (prepared : ℕ) (expected : PreparationStatus) :
    Except String PreparationState :=
  match r.preparations[prepared]? with
  | some state =>
    if state.status = expected then .ok state
    else .error "Rules authority preparation is not current"
  | none => .error "Rules authority preparation is not current"

def activate (r : RulesOpenAuthorityRegistry) (prepared : ℕ) :
    Except String Unit × RulesOpenAuthorityRegistry :=
  match r.preparation prepared .prepared with
  | .error error => (.error error, r)
  | .ok state =>
    if state.preparedAtMutation ≠ r.mutation then
      (.error "Rules authority preparation is stale", r.setStatus prepared .rolledBack)
    else
      (.ok (), { r.setStatus prepared .active with
        active := some state.candidate
        mutation := r.mutation + 1 })

def isActive (r : RulesOpenAuthorityRegistry) (candidate : AuthorityGeneration) : Bool :=
  r.active.map AuthorityGeneration.object = some candidate.object

def commit (r : RulesOpenAuthorityRegistry) (prepared : ℕ) :
    Except String Unit × RulesOpenAuthorityRegistry :=
  match r.preparation prepared .active with
  | .error error => (.error error, r)
  | .ok state =>
    if r.isActive state.candidate then (.ok (), r.setStatus prepared .committed)
    else (.error "Rules authority activation is stale", r.setStatus prepared .rolledBack)

def rollback (r : RulesOpenAuthorityRegistry) (prepared : ℕ) :
    Except String Unit × RulesOpenAuthorityRegistry :=
  match r.preparations[prepared]? with
  | none => (.error "Rules authority preparation cannot be rolled back", r)
  | some state =>
    match state.status with
    | .rolledBack | .committed => (.error "Rules authority preparation cannot be rolled back", r)
    | .active =>
      if r.isActive state.candidate then
        (.ok (), { r.setStatus prepared .rolledBack with
          active := state.previous
          mutation := r.mutation + 1 })
      else (.error "Rules authority activation is stale", r.setStatus prepared .rolledBack)
    | .prepared => (.ok (), r.setStatus prepared .rolledBack)

def authorize (r : RulesOpenAuthorityRegistry) (tuple : RuleOpenAuthorityTuple) :
    Option StoredRuleOpenAuthority :=
  match r.active with
  | none => none
  | some active =>
    if active.inspectMessageId ≠ tuple.inspectMessageId ∨
        active.rulesGeneration ≠ tuple.rulesGeneration then none
    else active.authorities.get? tuple.openAuthorityId

def dependencyUris (r : RulesOpenAuthorityRegistry) : List String :=
  (r.active.map AuthorityGeneration.dependencyUris).getD []

def clear (r : RulesOpenAuthorityRegistry) : RulesOpenAuthorityRegistry :=
  { r with active := none, mutation := r.mutation + 1 }

end RulesOpenAuthorityRegistry

/-! ## What the operations do -/

section Validation

variable {validUri : String → Bool} {inspectMessageId : String} {rulesGeneration : ℕ}

/-- Authorities that are let through have ids of their own. -/
theorem validateAuthorities_nodup {authorities : List StoredRuleOpenAuthority} :
    ∀ {authorityIds ruleRefs : List String},
      validateAuthorities validUri inspectMessageId rulesGeneration authorityIds ruleRefs authorities =
        .ok () →
      (authorities.map StoredRuleOpenAuthority.openAuthorityId).Nodup ∧
        ∀ authority ∈ authorities, authority.openAuthorityId ∉ authorityIds := by
  induction authorities with
  | nil => exact fun _ => ⟨List.nodup_nil, List.forall_mem_nil _⟩
  | cons authority rest ih =>
    intro authorityIds ruleRefs h
    unfold validateAuthorities at h
    cases hv : validateAuthority validUri authority inspectMessageId rulesGeneration with
    | error error =>
      rw [hv] at h
      cases h
    | ok _ =>
      rw [hv] at h
      change (if _ then _ else _) = _ at h
      split at h
      · cases h
      · rename_i hnew
        obtain ⟨hnodup, hout⟩ := ih h
        have hfresh : authority.openAuthorityId ∉ authorityIds := by
          intro hin
          simp [hin] at hnew
        refine ⟨?_, ?_⟩
        · rw [List.map_cons, List.nodup_cons]
          refine ⟨?_, hnodup⟩
          intro hin
          obtain ⟨other, hother, heq⟩ := List.mem_map.1 hin
          exact hout other hother (heq ▸ List.mem_cons_self)
        · intro other hother
          rcases List.mem_cons.1 hother with rfl | hother
          · exact hfresh
          · exact fun hin => hout other hother (List.mem_cons_of_mem _ hin)

theorem validateGenerationInput_spec {input : RuleOpenAuthorityGenerationInput} {highWatermark : ℕ}
    (h : validateGenerationInput validUri input highWatermark = .ok ()) :
    highWatermark < input.rulesGeneration ∧
      (input.authorities.map StoredRuleOpenAuthority.openAuthorityId).Nodup := by
  unfold validateGenerationInput at h
  split at h
  · cases h
  · split at h
    · cases h
    · split at h
      · cases h
      · refine ⟨by omega, (validateAuthorities_nodup h).1⟩

end Validation

namespace RulesOpenAuthorityRegistry

variable {r r' : RulesOpenAuthorityRegistry} {input : RuleOpenAuthorityGenerationInput}
  {prepared : ℕ} {validUri : String → Bool}

theorem keys_foldl_set (authorities : List StoredRuleOpenAuthority) :
    ∀ {m : OrderedMap String StoredRuleOpenAuthority},
      (m.keys ++ authorities.map StoredRuleOpenAuthority.openAuthorityId).Nodup →
      (authorities.foldl (fun m authority => m.set authority.openAuthorityId authority) m).keys =
        m.keys ++ authorities.map StoredRuleOpenAuthority.openAuthorityId := by
  induction authorities with
  | nil => simp
  | cons authority rest ih =>
    intro m h
    have hnew : authority.openAuthorityId ∉ m.keys := by
      intro hin
      exact List.disjoint_of_nodup_append h hin (by simp)
    have hkeys := OrderedMap.keys_set_of_not_mem (m := m) authority hnew
    rw [List.foldl_cons, ih (by rw [hkeys]; simpa using h), hkeys]
    simp

/-- The candidate of a generation has the ids of its authorities, in order. -/
theorem freezeGeneration_keys (object : ℕ)
    (h : (input.authorities.map StoredRuleOpenAuthority.openAuthorityId).Nodup) :
    (freezeGeneration object input).authorities.keys =
      input.authorities.map StoredRuleOpenAuthority.openAuthorityId := by
  have := keys_foldl_set input.authorities (m := ∅) (by simpa using h)
  simpa [freezeGeneration] using this

/-- The history always keeps what was written last. -/
theorem get?_rememberHighWatermark (r : RulesOpenAuthorityRegistry) (id : String) (generation : ℕ) :
    (r.rememberHighWatermark id generation).get? id = some generation := by
  unfold rememberHighWatermark
  dsimp only
  split
  · simp
  · split
    · rename_i retained hfind
      have hne : retained ≠ id := by
        have := List.find?_some hfind
        simp only [decide_eq_true_eq, Bool.decide_and, Bool.and_eq_true] at this
        exact this.2
      rw [OrderedMap.get?_delete, if_neg (fun h => hne h.symm)]
      simp
    · simp

/-- What a preparation leaves. -/
structure Prepared (r : RulesOpenAuthorityRegistry) (input : RuleOpenAuthorityGenerationInput)
    (prepared : ℕ) (r' : RulesOpenAuthorityRegistry) (state : PreparationState) : Prop where
  active : r'.active = r.active
  newer : ∀ generation, r.highWatermarks.get? input.inspectMessageId = some generation →
    generation < input.rulesGeneration
  watermark : r'.highWatermarks.get? input.inspectMessageId = some input.rulesGeneration
  stored : r'.preparations[prepared]? = some state
  previous : state.previous = none ∨ state.previous = r.active
  status : state.status = .prepared
  inspectMessageId : state.candidate.inspectMessageId = input.inspectMessageId
  rulesGeneration : state.candidate.rulesGeneration = input.rulesGeneration
  authorityIds : state.candidate.authorities.keys =
    input.authorities.map StoredRuleOpenAuthority.openAuthorityId

theorem prepare_spec (h : r.prepare validUri input = .ok (prepared, r')) :
    ∃ state, Prepared r input prepared r' state := by
  unfold prepare at h
  dsimp only at h
  cases hv : validateGenerationInput validUri input
      ((r.highWatermarks.get? input.inspectMessageId).getD 0) with
  | error error =>
    rw [hv] at h
    cases h
  | ok _ =>
    rw [hv] at h
    obtain ⟨hnewer, hnodup⟩ := validateGenerationInput_spec hv
    obtain ⟨rfl, rfl⟩ := Prod.mk.inj (Except.ok.inj h)
    refine ⟨_, rfl, ?_, get?_rememberHighWatermark _ _ _, List.getElem?_concat_length .., ?_, rfl,
      rfl, rfl, freezeGeneration_keys _ hnodup⟩
    · intro generation hgeneration
      rw [hgeneration] at hnewer
      exact hnewer
    · cases hactive : r.active with
      | none => exact .inl rfl
      | some active =>
        by_cases hid : active.inspectMessageId = input.inspectMessageId
        · exact .inr (by simp [hid])
        · exact .inl (by simp [hid])

/-! ### Status -/

@[simp] theorem setStatus_active (r : RulesOpenAuthorityRegistry) (prepared : ℕ)
    (status : PreparationStatus) : (r.setStatus prepared status).active = r.active := rfl

@[simp] theorem setStatus_highWatermarks (r : RulesOpenAuthorityRegistry) (prepared : ℕ)
    (status : PreparationStatus) :
    (r.setStatus prepared status).highWatermarks = r.highWatermarks := rfl

@[simp] theorem clear_active (r : RulesOpenAuthorityRegistry) : r.clear.active = none := rfl

@[simp] theorem clear_highWatermarks (r : RulesOpenAuthorityRegistry) :
    r.clear.highWatermarks = r.highWatermarks := rfl

theorem activate_highWatermarks (r : RulesOpenAuthorityRegistry) (prepared : ℕ) :
    (r.activate prepared).2.highWatermarks = r.highWatermarks := by
  unfold activate
  split
  · rfl
  · split <;> rfl

theorem commit_highWatermarks (r : RulesOpenAuthorityRegistry) (prepared : ℕ) :
    (r.commit prepared).2.highWatermarks = r.highWatermarks := by
  unfold commit
  split
  · rfl
  · split <;> rfl

theorem rollback_highWatermarks (r : RulesOpenAuthorityRegistry) (prepared : ℕ) :
    (r.rollback prepared).2.highWatermarks = r.highWatermarks := by
  unfold rollback
  split
  · rfl
  · split
    · rfl
    · rfl
    · split <;> rfl
    · rfl

/-- A commit never changes what is active. -/
theorem commit_active (r : RulesOpenAuthorityRegistry) (prepared : ℕ) :
    (r.commit prepared).2.active = r.active := by
  unfold commit
  split
  · rfl
  · split <;> rfl

/-- A generation that was made active: either it is so no longer, or it can be rolled back. -/
def Holds (r : RulesOpenAuthorityRegistry) (prepared : ℕ) (candidate : AuthorityGeneration)
    (previous : Option AuthorityGeneration) : Prop :=
  r.active = none ∨ r.active = some candidate ∧ ∃ state, r.preparations[prepared]? = some state ∧
    state.status = .active ∧ state.candidate = candidate ∧ state.previous = previous

theorem activate_error {error : String} (h : r.activate prepared = (.error error, r')) :
    r'.active = r.active := by
  unfold activate at h
  split at h
  · cases h
    rfl
  · split at h
    · cases h
      rfl
    · cases h

theorem activate_ok (h : r.activate prepared = (.ok (), r')) : r'.active.isSome = true := by
  unfold activate at h
  split at h
  · cases h
  · split at h
    · cases h
    · cases h
      rfl

theorem activate_holds {state : PreparationState} (hstate : r.preparations[prepared]? = some state)
    (h : r.activate prepared = (.ok (), r')) :
    r'.Holds prepared state.candidate state.previous := by
  unfold activate preparation at h
  rw [hstate] at h
  dsimp only at h
  split at h
  · cases h
  · rename_i state' hok
    split at hok
    · cases hok
      split at h
      · cases h
      · cases h
        refine .inr ⟨rfl, { state with status := .active }, ?_, rfl, rfl, rfl⟩
        simp [setStatus, hstate]
    · cases hok

/-- A commit that fails finds nothing active. -/
theorem Holds.commit {candidate : AuthorityGeneration} {previous : Option AuthorityGeneration}
    {error : String} (hr : r.Holds prepared candidate previous)
    (h : r.commit prepared = (.error error, r')) : r'.active = none := by
  have hsame := commit_active r prepared
  rw [h] at hsame
  rcases hr with hnone | ⟨hactive, state, hstate, hstatus, rfl, rfl⟩
  · rw [hsame, hnone]
  · simp [RulesOpenAuthorityRegistry.commit, preparation, hstate, hstatus, isActive, hactive] at h

/-- What is active after a rollback. -/
theorem Holds.rollback {candidate : AuthorityGeneration} {previous : Option AuthorityGeneration}
    (hr : r.Holds prepared candidate previous) :
    (r.rollback prepared).2.active = previous ∨ (r.rollback prepared).2.active = none := by
  rcases hr with hnone | ⟨hactive, state, hstate, hstatus, rfl, rfl⟩
  · refine .inr ?_
    unfold RulesOpenAuthorityRegistry.rollback
    split
    · exact hnone
    · split
      · exact hnone
      · exact hnone
      · simp [isActive, hnone]
      · exact hnone
  · exact .inl (by simp [RulesOpenAuthorityRegistry.rollback, hstate, hstatus, isActive, hactive])

end RulesOpenAuthorityRegistry

end PinOp.Rules
