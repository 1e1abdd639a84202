import PinOp.Rules.ControllerSteps

/-!
# The registry agrees with what was sent

`Sound` holds between any two stretches of code, and also while a payload is sent. `Agrees` holds
between two stretches: what is active in the registry is the payload that was accepted last.
-/

namespace PinOp.Rules

open PinOp.Lib PinOp.Protocol PinOp.Css RulesOpenAuthorityRegistry

/-- An inspect that comes again comes right after itself; the newest is first. -/
def NotReused (inspects : List String) : Prop :=
  ∀ after id before, inspects = after ++ id :: before → id ∈ before → before.head? = some id

theorem NotReused.tail {id : String} {inspects : List String} (h : NotReused (id :: inspects)) :
    NotReused inspects := by
  intro after id' before heq hmem
  exact h (id :: after) id' before (by rw [heq]; rfl) hmem

theorem NotReused.head {id : String} {inspects : List String} (h : NotReused (id :: inspects))
    (hmem : id ∈ inspects) : inspects.head? = some id := h [] id inspects rfl hmem

/-- A generation has the authorities of a payload. -/
structure AuthorityGeneration.Matches (active : AuthorityGeneration)
    (payload : RulesSourcesPublicationPayload) : Prop where
  inspectMessageId : active.inspectMessageId = payload.inspectMessageId
  rulesGeneration : active.rulesGeneration = payload.rulesGeneration
  authorityIds : active.authorities.keys = payload.sources.map PublishedRulesSource.openAuthorityId

namespace RulesSourceController

variable {c c' c'' : RulesSourceController} {host : RulesSourceControllerHost}
  {task : ResolutionTask}

structure Sound (c : RulesSourceController) : Prop where
  current : ∀ inspect, c.currentInspect = some inspect →
    (inspectsOf c.log).head? = some inspect.messageId
  known : ∀ payload ∈ payloadsOf c.log, payload.inspectMessageId ∈ inspectsOf c.log
  watermark : NotReused (inspectsOf c.log) → ∀ payload ∈ payloadsOf c.log,
    (inspectsOf c.log).head? = some payload.inspectMessageId →
      ∃ generation, c.registry.highWatermarks.get? payload.inspectMessageId = some generation ∧
        payload.rulesGeneration ≤ generation
  increasing : NotReused (inspectsOf c.log) → (payloadsOf c.log).Pairwise fun later earlier =>
    later.inspectMessageId = earlier.inspectMessageId →
      earlier.rulesGeneration < later.rulesGeneration
  wellPlaced : WellPlaced c.log
  silent : c.Quiet → c.currentInspect = none
  tasks : ∀ request stage, Task.openRule request stage ∈ c.tasks → c.Placed request.openOperation

/-- What is active is what was accepted last. -/
def Agrees (c : RulesSourceController) : Prop :=
  ∀ active, c.registry.active = some active →
    ∃ payload, lastAccepted c.log = some payload ∧ active.Matches payload

theorem sound_initial : Sound initial where
  current := by
    intro inspect h
    cases h
  known := by
    intro payload h
    cases h
  watermark := by
    intro _ payload h
    cases h
  increasing := fun _ => .nil
  wellPlaced := trivial
  silent := fun _ => rfl
  tasks := by
    intro request stage h
    cases h

theorem Sound.frame (h : Sound c) (hf : Frame c c') : Sound c' where
  current := by
    intro inspect hinspect
    rw [hf.inspects]
    rcases hf.currentInspect with heq | hnone
    · exact h.current inspect (heq ▸ hinspect)
    · rw [hnone] at hinspect
      cases hinspect
  known := by
    rw [hf.payloads, hf.inspects]
    exact h.known
  watermark := by
    rw [hf.payloads, hf.inspects, hf.highWatermarks]
    exact h.watermark
  increasing := by
    rw [hf.payloads, hf.inspects]
    exact h.increasing
  wellPlaced := hf.wellPlaced h.wellPlaced
  silent := by
    intro hquiet
    rcases hf.currentInspect with heq | hnone
    · rw [heq]
      exact h.silent (hf.quiet.1 hquiet)
    · exact hnone
  tasks := by
    intro request stage hmem
    rcases hf.tasks request stage hmem with hmem | hplaced
    · exact hf.placed (h.tasks request stage hmem)
    · exact hplaced

theorem Agrees.released (h : Agrees c) (hr : Released c c')
    (haccepted : lastAccepted c'.log = lastAccepted c.log) : Agrees c' := by
  intro active hactive
  rcases hr.active with heq | hnone
  · rw [haccepted]
    exact h active (heq ▸ hactive)
  · rw [hnone] at hactive
    cases hactive

/-! ## Calls -/

/-- What a call leaves, whatever else it does. -/
structure Called (c c' : RulesSourceController) : Prop where
  released : Released c c'
  payloads : payloadsOf c'.log = payloadsOf c.log
  accepted : lastAccepted c'.log = lastAccepted c.log
  highWatermarks : c'.registry.highWatermarks = c.registry.highWatermarks

theorem Called.of_quietly (h : Quietly c c') : Called c c' :=
  ⟨h.2, h.1.payloads, h.1.accepted, h.1.highWatermarks⟩

theorem Called.refl (c : RulesSourceController) : Called c c := .of_quietly (.refl c)

theorem Called.trans (h : Called c c') (h' : Called c' c'') : Called c c'' :=
  ⟨h.released.trans h'.released, h'.payloads.trans h.payloads, h'.accepted.trans h.accepted,
    h'.highWatermarks.trans h.highWatermarks⟩

theorem logged_called (c : RulesSourceController) (call : Call) :
    Called c { c with log := .called call :: c.log } := ⟨⟨rfl, .inl rfl⟩, rfl, rfl, rfl⟩

/-- A call that neither silences the controller nor gives it an inspect. -/
theorem logged_frame {call : Call} (hsilences : (LogEntry.called call).silences = false)
    (hinspect : (LogEntry.called call).inspect? = none) :
    Frame c { c with log := .called call :: c.log } where
  inspects := List.filterMap_cons_none hinspect
  payloads := rfl
  accepted := rfl
  silenced := by
    show ((LogEntry.called call).silences || ((LogEntry.called call).inspect?.isNone &&
      Rules.silenced c.log)) = Rules.silenced c.log
    rw [hsilences, hinspect]
    rfl
  wellPlaced := fun hw => ⟨nofun, hw⟩
  disposed := rfl
  currentInspect := .inl rfl
  openOperation := Nat.le_refl _
  highWatermarks := rfl
  tasks := fun _ _ h => .inl h

/-- After a call that silences the controller there is no inspect, and no open is the latest. -/
theorem Sound.silence (h : Sound c) {call : Call}
    (hsilences : (LogEntry.called call).silences = true)
    (hlog : c'.log = .called call :: c.log) (hinspect : c'.currentInspect = none)
    (hhigh : c'.registry.highWatermarks = c.registry.highWatermarks) (htasks : c'.tasks = c.tasks)
    (hopen : ∀ n, c.Placed n → n < c'.openOperation) : Sound c' := by
  have hno : (LogEntry.called call).inspect? = none := by
    cases call <;> first | rfl | cases hsilences
  have hinspects : inspectsOf c'.log = inspectsOf c.log := by
    rw [hlog]
    exact List.filterMap_cons_none hno
  have hpayloads : payloadsOf c'.log = payloadsOf c.log := by
    rw [hlog]
    rfl
  refine ⟨?_, ?_, ?_, ?_, ?_, fun _ => hinspect, ?_⟩
  · intro inspect hsome
    rw [hinspect] at hsome
    cases hsome
  · rw [hpayloads, hinspects]
    exact h.known
  · rw [hpayloads, hinspects, hhigh]
    exact h.watermark
  · rw [hpayloads, hinspects]
    exact h.increasing
  · rw [hlog]
    exact ⟨nofun, h.wellPlaced⟩
  · intro request stage hmem
    rw [htasks] at hmem
    have hlt := hopen _ (h.tasks request stage hmem)
    exact ⟨Nat.le_of_lt hlt, fun _ => hlt⟩

/-- A new inspect begins a new stretch of payloads, or goes on with the last one. -/
theorem Sound.inspect (h : Sound c) {message : InspectMessage}
    (hlog : c'.log = .called (.acceptInspect message) :: c.log)
    (hcurrent : ∀ inspect, c'.currentInspect = some inspect → inspect.messageId = message.messageId)
    (hhigh : c'.registry.highWatermarks = c.registry.highWatermarks) (htasks : c'.tasks = c.tasks)
    (hdisposed : c'.disposed = c.disposed) (hopen : c.openOperation ≤ c'.openOperation)
    (hsilent : c.disposed = true → c'.currentInspect = none) : Sound c' := by
  have hinspects : inspectsOf c'.log = message.messageId :: inspectsOf c.log := by
    rw [hlog]
    rfl
  have hpayloads : payloadsOf c'.log = payloadsOf c.log := by
    rw [hlog]
    rfl
  have hquiet : c'.Quiet → c.disposed = true := by
    rintro (hs | hd)
    · rw [hlog] at hs
      cases hs
    · exact hdisposed ▸ hd
  refine ⟨?_, ?_, ?_, ?_, ?_, fun hq => hsilent (hquiet hq), ?_⟩
  · intro inspect hsome
    rw [hinspects, hcurrent inspect hsome]
    rfl
  · rw [hpayloads, hinspects]
    exact fun payload hp => List.mem_cons_of_mem _ (h.known payload hp)
  · rw [hpayloads, hinspects, hhigh]
    intro hreused payload hp hhead
    have hid : message.messageId = payload.inspectMessageId := Option.some.inj hhead
    refine h.watermark hreused.tail payload hp ?_
    rw [← hid]
    exact hreused.head (hid ▸ h.known payload hp)
  · rw [hpayloads, hinspects]
    exact fun hreused => h.increasing hreused.tail
  · rw [hlog]
    exact ⟨nofun, h.wellPlaced⟩
  · intro request stage hmem
    rw [htasks] at hmem
    have hplaced := h.tasks request stage hmem
    refine ⟨by have := hplaced.1; omega, fun hq => ?_⟩
    have := hplaced.2 (.inr (hquiet hq))
    omega

theorem Sound.resolveCurrent (h : Sound c') (hcalled : Called c c') :
    Sound (c'.resolveCurrent true) ∧ Called c (c'.resolveCurrent true) :=
  ⟨h.frame (resolveCurrent_quietly c' true).1,
    hcalled.trans (.of_quietly (resolveCurrent_quietly c' true))⟩

theorem acceptInspect_sound (h : Sound c) (message : InspectMessage) :
    Sound (acceptInspect { c with log := .called (.acceptInspect message) :: c.log } message) ∧
      Called c (acceptInspect { c with log := .called (.acceptInspect message) :: c.log } message) := by
  unfold acceptInspect
  split
  · rename_i hdisposed
    have hnone := h.silent (.inr hdisposed)
    refine ⟨h.inspect rfl ?_ rfl rfl rfl (Nat.le_refl _) fun _ => hnone, logged_called c _⟩
    intro inspect hsome
    rw [hnone] at hsome
    cases hsome
  · rename_i hdisposed
    have hsome : ∀ inspect, some message = some inspect → inspect.messageId = message.messageId := by
      rintro inspect ⟨⟩
      rfl
    have hnot : c.disposed = true → some message = none := fun hd => absurd hd hdisposed
    dsimp only
    split
    · have hsound : Sound { clearRetainedDependencies { c with
          log := .called (.acceptInspect message) :: c.log
          openOperation := c.openOperation + 1
          rulesGeneration := 0
          locallyAcceptedInspectMessageId := none } with currentInspect := some message } :=
        h.inspect rfl hsome rfl rfl rfl (Nat.le_succ _) hnot
      exact hsound.resolveCurrent ⟨⟨rfl, .inl rfl⟩, rfl, rfl, rfl⟩
    · have hsound : Sound { c with
          log := .called (.acceptInspect message) :: c.log
          openOperation := c.openOperation + 1
          currentInspect := some message } :=
        h.inspect rfl hsome rfl rfl rfl (Nat.le_succ _) hnot
      exact hsound.resolveCurrent ⟨⟨rfl, .inl rfl⟩, rfl, rfl, rfl⟩

theorem dispose_sound (h : Sound c) :
    Sound (perform host c (.dispose, answers)) ∧ Called c (perform host c (.dispose, answers)) := by
  unfold perform run
  dsimp only
  split
  · rename_i hdisposed
    refine ⟨h.silence rfl rfl (h.silent (.inr hdisposed)) rfl rfl ?_, logged_called c _⟩
    exact fun n hn => hn.2 (.inr hdisposed)
  · refine ⟨h.silence rfl rfl rfl rfl rfl ?_, ⟨rfl, .inr rfl⟩, rfl, rfl, rfl⟩
    exact fun n hn => Nat.lt_succ_of_le hn.1

theorem invalidate_sound (h : Sound c) {call : Call}
    (hsilences : (LogEntry.called call).silences = true) :
    Sound (invalidateWithoutPublication { c with log := .called call :: c.log }) ∧
      Called c (invalidateWithoutPublication { c with log := .called call :: c.log }) := by
  refine ⟨h.silence hsilences rfl rfl rfl rfl ?_, ⟨rfl, .inr rfl⟩, rfl, rfl, rfl⟩
  exact fun n hn => Nat.lt_succ_of_le hn.1

/-- Other calls are made of parts that keep the frame. -/
theorem Sound.quietly (h : Sound c) {call : Call}
    (hsilences : (LogEntry.called call).silences = false)
    (hinspect : (LogEntry.called call).inspect? = none)
    (hq : Quietly { c with log := .called call :: c.log } c') : Sound c' ∧ Called c c' :=
  ⟨(h.frame (logged_frame hsilences hinspect)).frame hq.1,
    (logged_called c call).trans (.of_quietly hq)⟩

theorem perform_dependencyChanged (c : RulesSourceController) (uri : String) (answers : Answers) :
    perform host c (.dependencyChanged uri, answers) =
      if c.isDependencyRelevant host uri answers then
        resolveAgain { c with log := .called (.dependencyChanged uri) :: c.log }
      else { c with log := .ignored uri :: c.log } := by
  have hlog : ∀ log, isDependencyRelevant host { c with log := log } uri answers =
      c.isDependencyRelevant host uri answers := fun _ => rfl
  unfold perform run entryOf
  dsimp only
  rw [hlog]
  split
  · rfl
  · rfl

theorem ignored_sound (h : Sound c) (uri : String) :
    Sound { c with log := .ignored uri :: c.log } ∧ Called c { c with log := .ignored uri :: c.log } := by
  have hf : Frame c { c with log := .ignored uri :: c.log } :=
    ⟨rfl, rfl, rfl, rfl, fun hw => ⟨nofun, hw⟩, rfl, .inl rfl, Nat.le_refl _, rfl, fun _ _ h => .inl h⟩
  exact ⟨h.frame hf, ⟨rfl, .inl rfl⟩, rfl, rfl, rfl⟩

theorem perform_sound (h : Sound c) (call : Call × Answers) :
    Sound (perform host c call) ∧ Called c (perform host c call) := by
  obtain ⟨call, answers⟩ := call
  cases call with
  | acceptInspect message => exact acceptInspect_sound h message
  | republish => exact h.quietly rfl rfl (resolveCurrent_quietly _ _)
  | openRule message declaration =>
    refine h.quietly rfl rfl (openRule_quietly _ _ ?_)
    exact (h.frame (logged_frame rfl rfl)).silent
  | dependencyChanged uri =>
    rw [perform_dependencyChanged]
    split
    · exact h.quietly rfl rfl (resolveAgain_quietly _)
    · exact ignored_sound h uri
  | workspaceChanged => exact h.quietly rfl rfl (resolveAgain_quietly _)
  | stylesheetRefresh => exact h.quietly rfl rfl (resolveAgain_quietly _)
  | pageRefresh => exact h.quietly rfl rfl (resolveAgain_quietly _)
  | documentNavigated => exact invalidate_sound h rfl
  | disconnect => exact invalidate_sound h rfl
  | clear => exact invalidate_sound h rfl
  | dispose => exact dispose_sound h

theorem calls_sound (host : RulesSourceControllerHost) (calls : List (Call × Answers)) :
    ∀ {c : RulesSourceController}, Sound c →
      Sound (calls.foldl (perform host) c) ∧ Called c (calls.foldl (perform host) c) := by
  induction calls with
  | nil => exact fun h => ⟨h, .refl _⟩
  | cons call rest ih =>
    intro c h
    obtain ⟨hsound, hcalled⟩ := perform_sound h call
    obtain ⟨hsound', hcalled'⟩ := ih hsound
    exact ⟨hsound', hcalled.trans hcalled'⟩

/-! ## Publishing -/

theorem registry_frame {registry : RulesOpenAuthorityRegistry}
    (h : registry.highWatermarks = c.registry.highWatermarks) :
    Frame c { c with registry := registry } :=
  ⟨rfl, rfl, rfl, rfl, id, rfl, .inl rfl, Nat.le_refl _, h, fun _ _ h => .inl h⟩

theorem locallyAccepted_quietly (c : RulesSourceController) (id : Option String) :
    Quietly c { c with locallyAcceptedInspectMessageId := id } :=
  ⟨⟨rfl, rfl, rfl, rfl, fun hw => hw, rfl, .inl rfl, Nat.le_refl _, rfl, fun _ _ h => .inl h⟩, rfl,
    .inl rfl⟩

theorem rulesGeneration_quietly (c : RulesSourceController) (generation : ℕ) :
    Quietly c { c with rulesGeneration := generation } :=
  ⟨⟨rfl, rfl, rfl, rfl, id, rfl, .inl rfl, Nat.le_refl _, rfl, fun _ _ h => .inl h⟩, rfl, .inl rfl⟩

theorem endResolution_quietly (c : RulesSourceController) (task : ResolutionTask) :
    Quietly c (c.endResolution task) := by
  unfold endResolution
  split
  · exact ⟨⟨rfl, rfl, rfl, rfl, id, rfl, .inl rfl, Nat.le_refl _, rfl, fun _ _ h => .inl h⟩, rfl,
      .inl rfl⟩
  · exact .refl c

theorem drop_quietly (c : RulesSourceController) (task : Task) : Quietly c (c.drop task) :=
  ⟨⟨rfl, rfl, rfl, rfl, id, rfl, .inl rfl, Nat.le_refl _, rfl,
    fun _ _ h => .inl (List.mem_of_mem_erase h)⟩, rfl, .inl rfl⟩

theorem retainUris_quietly (uris : List String) :
    ∀ c : RulesSourceController, Quietly c (retainUris host c uris) := by
  induction uris with
  | nil => exact .refl
  | cons watched rest ih =>
    intro c
    have hretained : ∀ retained all, Quietly c { c with
        retainedDependencyUris := retained, watchAllRulesCandidates := all } := fun _ _ =>
      ⟨⟨rfl, rfl, rfl, rfl, id, rfl, .inl rfl, Nat.le_refl _, rfl, fun _ _ h => .inl h⟩, rfl,
        .inl rfl⟩
    unfold retainUris
    split
    · exact hretained _ _
    · dsimp only
      refine Quietly.trans ?_ (ih _)
      split
      · exact .refl c
      · exact hretained _ _

theorem retain_quietly (c : RulesSourceController) :
    Quietly c (retainCurrentDependencies host c) := retainUris_quietly _ c

/-- The generation is active, can be rolled back to `previous`, or is gone. -/
abbrev Holds (c : RulesSourceController) (prepared : ℕ) (candidate : AuthorityGeneration)
    (previous : Option AuthorityGeneration) : Prop :=
  c.registry.Holds prepared candidate previous

theorem Holds.released {prepared : ℕ} {candidate : AuthorityGeneration}
    {previous : Option AuthorityGeneration} (h : c.Holds prepared candidate previous)
    (hr : Released c c') : c'.Holds prepared candidate previous := by
  rcases hr.active with heq | hnone
  · rcases h with hnone | ⟨hactive, hstate⟩
    · exact .inl (heq.trans hnone)
    · refine .inr ⟨heq.trans hactive, ?_⟩
      rw [hr.preparations]
      exact hstate
  · exact .inl hnone

/-- What is active afterwards: this, or nothing. -/
def Leaves (c : RulesSourceController) (active : Option AuthorityGeneration) : Prop :=
  c.registry.active = active ∨ c.registry.active = none

theorem Leaves.released {active : Option AuthorityGeneration} (h : c.Leaves active)
    (hr : Released c c') : c'.Leaves active := by
  rcases hr.active with heq | hnone
  · exact h.imp heq.trans heq.trans
  · exact .inr hnone

section Settle

variable {prepared : ℕ} {candidate : AuthorityGeneration} {previous : Option AuthorityGeneration}

theorem settle_frame (c : RulesSourceController) (prepared : ℕ) (accepted : Bool) (id : String) :
    Frame c (c.settleSupersededPublication host prepared accepted id) := by
  unfold settleSupersededPublication
  cases accepted with
  | false => exact registry_frame (rollback_highWatermarks _ _)
  | true =>
    have hhigh := commit_highWatermarks c.registry prepared
    dsimp only
    rw [if_pos rfl]
    split
    · rename_i registry heq
      rw [heq] at hhigh
      exact registry_frame hhigh
    · rename_i registry heq
      rw [heq] at hhigh
      refine (registry_frame hhigh).trans ?_
      split
      · exact ((locallyAccepted_quietly _ _).trans (retain_quietly _)).1
      · exact .refl _

theorem settle_leaves (h : c.Holds prepared candidate previous) (accepted : Bool) (id : String) :
    (c.settleSupersededPublication host prepared accepted id).Leaves
      (if accepted then some candidate else previous) := by
  unfold settleSupersededPublication
  cases accepted with
  | false => exact h.rollback
  | true =>
    have hactive := commit_active c.registry prepared
    have hheld : c.Leaves (some candidate) := by
      rcases h with hnone | ⟨hactive, -⟩
      · exact .inr hnone
      · exact .inl hactive
    dsimp only
    rw [if_pos rfl, if_pos rfl]
    split
    · rename_i registry heq
      rw [heq] at hactive
      exact hheld.imp hactive.trans hactive.trans
    · rename_i registry heq
      rw [heq] at hactive
      have hkept : Leaves { c with registry := registry } (some candidate) :=
        hheld.imp hactive.trans hactive.trans
      split
      · exact hkept.released ((locallyAccepted_quietly _ _).trans (retain_quietly _)).2
      · exact hkept

/-- The end of a publication that failed, behind the rollback. -/
theorem reportFailure_quietly (c : RulesSourceController) (task : ResolutionTask) :
    Quietly c (
      let c := c.report .rulesSourcesSendFailed
      if !c.isResolutionCurrent task then c
      else if c.locallyAcceptedInspectMessageId ≠ some task.inspect.messageId ∧
          c.registry.active.isNone then
        c.invalidateWithoutPublication
      else c) := by
  have hreport := report_quietly c .rulesSourcesSendFailed
  dsimp only
  split
  · exact hreport
  · split
    · exact hreport.trans (invalidate_quietly _)
    · exact hreport

theorem publicationFailed_frame (c : RulesSourceController) (task : ResolutionTask) (prepared : ℕ)
    (activated : Bool) : Frame c (c.publicationFailed host task prepared activated) := by
  unfold publicationFailed
  split
  · split
    · exact settle_frame _ _ _ _
    · exact .refl c
  · refine Frame.trans (registry_frame ?_) (reportFailure_quietly _ task).1
    have hhigh := rollback_highWatermarks c.registry prepared
    split
    · split
      · rename_i heq
        rw [heq] at hhigh
        exact hhigh
      · rename_i heq
        rw [heq] at hhigh
        exact hhigh
    · rfl

theorem publicationFailed_leaves (h : c.Holds prepared candidate previous) :
    (c.publicationFailed host task prepared true).Leaves previous := by
  unfold publicationFailed
  split
  · rw [if_pos rfl]
    exact settle_leaves h false _
  · refine Leaves.released ?_ (reportFailure_quietly _ task).2
    have hrolled := h.rollback
    rw [if_pos rfl]
    split
    · rename_i heq
      rw [heq] at hrolled
      exact hrolled
    · exact .inr rfl

/-- Where nothing was made active, nothing is rolled back. -/
theorem publicationFailed_released (c : RulesSourceController) (task : ResolutionTask)
    (prepared : ℕ) : Released c (c.publicationFailed host task prepared false) := by
  unfold publicationFailed
  split
  · exact .refl c
  · exact (reportFailure_quietly c task).2

theorem sentRulesSources_frame (c : RulesSourceController) (task : ResolutionTask) (prepared : ℕ)
    (sent : Option Bool) : Frame c (c.sentRulesSources host task prepared sent) := by
  have hhigh := commit_highWatermarks c.registry prepared
  unfold sentRulesSources
  cases sent with
  | none => exact publicationFailed_frame _ _ _ _
  | some sent =>
    dsimp only
    split
    · exact settle_frame _ _ _ _
    · split
      · exact publicationFailed_frame _ _ _ _
      · split
        · rename_i heq
          rw [heq] at hhigh
          exact (registry_frame hhigh).trans (publicationFailed_frame _ _ _ _)
        · rename_i heq
          rw [heq] at hhigh
          exact (registry_frame hhigh).trans
            ((locallyAccepted_quietly _ _).trans (retain_quietly _)).1

/-- What is active when the publication has ended. -/
theorem sentRulesSources_leaves (h : c.Holds prepared candidate previous) (sent : Option Bool) :
    (c.sentRulesSources host task prepared sent).Leaves
      (if sent = some true then some candidate else previous) := by
  unfold sentRulesSources
  rcases sent with _ | _ | _
  · exact publicationFailed_leaves h
  · dsimp only
    split
    · exact settle_leaves h false _
    · exact publicationFailed_leaves h
  · dsimp only
    rw [if_pos rfl]
    split
    · exact settle_leaves h true _
    · rw [if_neg (by simp)]
      split
      · rename_i registry heq
        have hgone : Holds { c with registry := registry } prepared candidate none :=
          .inl (h.commit heq)
        exact .inr ((publicationFailed_leaves hgone).elim id id)
      · rename_i registry heq
        have hactive := commit_active c.registry prepared
        rw [heq] at hactive
        have hkept : Leaves { c with registry := registry } (some candidate) := by
          rcases h with hnone | ⟨hheld, -⟩
          · exact .inr (hactive.trans hnone)
          · exact .inl (hactive.trans hheld)
        exact hkept.released ((locallyAccepted_quietly _ _).trans (retain_quietly _)).2

end Settle

/-! ## A resolution goes on -/

theorem current_inspect (h : ¬ (!c.isResolutionCurrent task) = true) :
    ∃ inspect, c.currentInspect = some inspect ∧
      inspect.messageId = task.inspect.messageId := by
  simp only [isResolutionCurrent, Bool.not_eq_true, Bool.not_eq_false', Bool.and_eq_true,
    decide_eq_true_eq] at h
  exact Option.map_eq_some_iff.1 h.2

/-- The watermark of the current inspect is moved up. -/
theorem Sound.prepared (h : Sound c) {registry : RulesOpenAuthorityRegistry} {id : String}
    {generation : ℕ} (hcurrent : (inspectsOf c.log).head? = some id)
    (hnewer : ∀ old, c.registry.highWatermarks.get? id = some old → old < generation)
    (hwatermark : registry.highWatermarks.get? id = some generation) :
    Sound { c with registry := registry } := by
  refine { h with watermark := ?_ }
  intro hreused payload hp hhead
  have hid : id = payload.inspectMessageId := by
    rw [hcurrent] at hhead
    exact Option.some.inj hhead
  obtain ⟨old, hold, hle⟩ := h.watermark hreused payload hp hhead
  rw [← hid] at hold ⊢
  have hlt := hnewer old hold
  exact ⟨generation, hwatermark, by omega⟩

/-- A payload of the current inspect that is newer than its watermark may be sent. -/
theorem Sound.sending (h : Sound c) {registry : RulesOpenAuthorityRegistry}
    {payload : RulesSourcesPublicationPayload}
    (hcurrent : (inspectsOf c.log).head? = some payload.inspectMessageId)
    (hnewer : ∀ old, c.registry.highWatermarks.get? payload.inspectMessageId = some old →
      old < payload.rulesGeneration)
    (hwatermark : registry.highWatermarks.get? payload.inspectMessageId =
      some payload.rulesGeneration)
    (hquiet : ¬ c.Quiet) :
    Sound { c with registry := registry, log := .sending payload :: c.log } where
  current := h.current
  known := by
    intro other hp
    rcases List.mem_cons.1 hp with rfl | hp
    · exact List.mem_of_head? hcurrent
    · exact h.known other hp
  watermark := by
    intro hreused other hp hhead
    rcases List.mem_cons.1 hp with rfl | hp
    · exact ⟨_, hwatermark, Nat.le_refl _⟩
    · exact (h.prepared hcurrent hnewer hwatermark).watermark hreused other hp hhead
  increasing := by
    intro hreused
    refine List.pairwise_cons.2 ⟨?_, h.increasing hreused⟩
    intro other hp hid
    obtain ⟨old, hold, hle⟩ := h.watermark hreused other hp (hid ▸ hcurrent)
    rw [← hid] at hold
    have := hnewer old hold
    omega
  wellPlaced := ⟨fun _ => Bool.eq_false_iff.2 fun hs => hquiet (.inl hs), h.wellPlaced⟩
  silent := h.silent
  tasks := h.tasks

theorem Sound.answered (h : Sound c) (payload : RulesSourcesPublicationPayload) (accepted : Bool) :
    Sound { c with log := .answered payload accepted :: c.log } :=
  { h with wellPlaced := ⟨nofun, h.wellPlaced⟩ }

/-- The answer was given: what is active was accepted last. -/
theorem sent_sound {prepared : ℕ} {candidate : AuthorityGeneration}
    {previous : Option AuthorityGeneration} {payload : RulesSourcesPublicationPayload} (h : Sound c)
    (hholds : c.Holds prepared candidate previous) (hmatches : candidate.Matches payload)
    (hprevious : ∀ active, previous = some active →
      ∃ payload, lastAccepted c.log = some payload ∧ active.Matches payload) (sent : Option Bool)
    (hc' : c' = { c with log := .answered payload (sent = some true) :: c.log }) :
    Sound (c'.sentRulesSources host task prepared sent) ∧
      Agrees (c'.sentRulesSources host task prepared sent) := by
  have hf : Frame c' (c'.sentRulesSources host task prepared sent) :=
    sentRulesSources_frame c' task prepared sent
  have hholds' : c'.Holds prepared candidate previous := by
    subst hc'
    exact hholds
  have hsound : Sound c' := by
    subst hc'
    exact h.answered payload _
  have hlog : c'.log = .answered payload (sent = some true) :: c.log := by rw [hc']
  have hleaves : (c'.sentRulesSources host task prepared sent).Leaves _ :=
    sentRulesSources_leaves hholds' sent
  refine ⟨hsound.frame hf, ?_⟩
  intro active hactive
  rw [hf.accepted, hlog]
  rcases hleaves with heq | hnone
  · rw [heq] at hactive
    by_cases haccepted : sent = some true
    · subst haccepted
      obtain rfl : candidate = active := by simpa using hactive
      exact ⟨payload, rfl, hmatches⟩
    · rw [if_neg haccepted] at hactive
      have hlast : lastAccepted (.answered payload (decide (sent = some true)) :: c.log) =
          lastAccepted c.log := by
        rw [decide_eq_false haccepted]
        rfl
      rw [hlast]
      exact hprevious active hactive
  · rw [hnone] at hactive
    cases hactive

/-- A publication that was prepared for the current inspect is sent while it is active. -/
theorem publish_sound {registry : RulesOpenAuthorityRegistry}
    {input : RuleOpenAuthorityGenerationInput} {state : PreparationState} {sending : Sending}
    {prepared : RulesSourcesPublication.PreparedRulesSourcesPublication} (h : Sound c) (ha : Agrees c)
    (hquiet : ¬ c.Quiet) (hcurrent : (inspectsOf c.log).head? = some prepared.payload.inspectMessageId)
    (hstate : Prepared c.registry input prepared.preparation registry state)
    (hid : input.inspectMessageId = prepared.payload.inspectMessageId)
    (hgeneration : input.rulesGeneration = prepared.payload.rulesGeneration)
    (hmatches : state.candidate.Matches prepared.payload) :
    Sound (publish host { c with registry := registry } task prepared sending) ∧
      Agrees (publish host { c with registry := registry } task prepared sending) := by
  have hnewer := hstate.newer
  have hwatermark := hstate.watermark
  rw [hid, hgeneration] at hnewer hwatermark
  have hhigh := activate_highWatermarks registry prepared.preparation
  unfold publish
  dsimp only
  split
  · -- nothing was made active
    rename_i registry' heq
    rw [heq] at hhigh
    have hsound : Sound { c with registry := registry' } :=
      h.prepared hcurrent hnewer (hhigh ▸ hwatermark)
    have hagrees : Agrees { c with registry := registry' } := by
      intro active hactive
      exact ha active ((hstate.active.symm.trans (activate_error heq).symm).trans hactive)
    have hf : Frame _ (publicationFailed host { c with registry := registry' } task
        prepared.preparation false) := publicationFailed_frame _ _ _ _
    exact ⟨hsound.frame hf,
      hagrees.released (publicationFailed_released _ task prepared.preparation) hf.accepted⟩
  · rename_i registry' heq
    rw [heq] at hhigh
    have hsending : Sound { c with registry := registry', log := .sending prepared.payload :: c.log } :=
      h.sending hcurrent hnewer (hhigh ▸ hwatermark) hquiet
    obtain ⟨hcalls, hcalled⟩ := calls_sound host sending.calls hsending
    have hholds : Holds _ prepared.preparation state.candidate state.previous :=
      Holds.released (activate_holds hstate.stored heq) hcalled.released
    refine sent_sound hcalls hholds hmatches ?_ sending.sent rfl
    intro active hprevious
    rw [hcalled.accepted]
    rcases hstate.previous with hnone | hsame
    · rw [hnone] at hprevious
      cases hprevious
    · exact ha active (hsame.symm.trans hprevious)

theorem preparePublication_sound {resolution : RulesSourceResolutionBatch}
    {workspaceGeneration : ℤ} {sending : Sending} (h : Sound c) (ha : Agrees c)
    (hcurrent : ¬ (!c.isResolutionCurrent task) = true) :
    Sound (c.preparePublication host task resolution workspaceGeneration sending) ∧
      Agrees (c.preparePublication host task resolution workspaceGeneration sending) := by
  obtain ⟨inspect, hinspect, hid⟩ := current_inspect hcurrent
  have hhead : (inspectsOf c.log).head? = some task.inspect.messageId := by
    rw [h.current inspect hinspect, hid]
  have hquiet : ¬ c.Quiet := by
    intro hq
    rw [h.silent hq] at hinspect
    cases hinspect
  have hgeneration := rulesGeneration_quietly c task.rulesGeneration
  have hkeep : ∀ c', Quietly c c' → Sound c' ∧ Agrees c' := fun c' hq =>
    ⟨h.frame hq.1, ha.released hq.2 hq.1.accepted⟩
  unfold preparePublication
  dsimp only
  split
  · have hreport := hgeneration.trans (report_quietly _ .rulesSourceResolutionFailed)
    split
    · exact hkeep _ hreport
    · split
      · exact hkeep _ (hreport.trans (invalidate_quietly _))
      · exact hkeep _ hreport
  · rename_i prepared registry hprepare
    obtain ⟨hpid, hpgen, input, state, hstate, hinput, hinputgen, hids⟩ :=
      RulesSourcesPublication.prepare_spec hprepare
    have hmatches : state.candidate.Matches prepared.payload := by
      refine ⟨?_, ?_, ?_⟩
      · rw [hstate.inspectMessageId, hinput, hpid]
      · rw [hstate.rulesGeneration, hinputgen, hpgen]
      · rw [hstate.authorityIds, hids]
    split
    · rename_i hnot
      exact absurd hnot hcurrent
    · obtain ⟨hs, hagrees⟩ := hkeep _ hgeneration
      exact publish_sound hs hagrees hquiet
        (by rw [hpid]; exact hhead) hstate (hinput.trans hpid.symm) (hinputgen.trans hpgen.symm)
        hmatches

theorem continueResolution_sound {resolution : Option RulesSourceResolutionBatch}
    {answers : Answers} {sending : Sending} (h : Sound c) (ha : Agrees c) :
    Sound (c.continueResolution host task resolution answers sending) ∧
      Agrees (c.continueResolution host task resolution answers sending) := by
  have hkeep : ∀ c c', Sound c ∧ Agrees c → Quietly c c' → Sound c' ∧ Agrees c' :=
    fun c c' h hq => ⟨h.1.frame hq.1, h.2.released hq.2 hq.1.accepted⟩
  refine hkeep _ _ ?_ (endResolution_quietly _ task)
  unfold publishResolution
  dsimp only
  split
  · exact ⟨h, ha⟩
  · rename_i hcurrent
    have hreported : ∃ c', c' = (if resolution.isNone then c.report .rulesSourceResolutionFailed else c) ∧
        Sound c' ∧ Agrees c' ∧ ¬ (!c'.isResolutionCurrent task) = true := by
      refine ⟨_, rfl, ?_⟩
      split
      · obtain ⟨hs, hag⟩ := hkeep _ _ ⟨h, ha⟩ (report_quietly c .rulesSourceResolutionFailed)
        exact ⟨hs, hag, hcurrent⟩
      · exact ⟨h, ha, hcurrent⟩
    obtain ⟨c', hc', hs, hag, hcurrent'⟩ := hreported
    rw [← hc']
    split
    · exact preparePublication_sound hs hag hcurrent'
    · obtain ⟨hs', hag'⟩ := hkeep _ _ ⟨hs, hag⟩ (report_quietly c' .rulesSourceResolutionFailed)
      exact preparePublication_sound hs' hag' hcurrent'

/-! ## Runs -/

theorem step_sound {e : Event} (h : Sound c) (ha : Agrees c) (hstep : c.step host e = some c') :
    Sound c' ∧ Agrees c' := by
  cases e with
  | call call answers =>
    cases hstep
    obtain ⟨hs, hcalled⟩ := perform_sound (c := c) h (call, answers)
    exact ⟨hs, ha.released hcalled.released hcalled.accepted⟩
  | resolved task resolution answers sending =>
    unfold step at hstep
    dsimp only at hstep
    split at hstep
    · cases hstep
      have hdrop := drop_quietly c (.resolution task)
      exact continueResolution_sound (h.frame hdrop.1) (ha.released hdrop.2 hdrop.1.accepted)
    · cases hstep
  | continued request stage outcome answers =>
    unfold step at hstep
    dsimp only at hstep
    split at hstep
    · rename_i hmem
      cases hstep
      have hdrop := drop_quietly c (.openRule request stage)
      have hplaced := hdrop.1.placed (h.tasks request stage hmem)
      have hq : Quietly c ((c.drop (.openRule request stage)).continueOpen host request answers stage
        outcome) := hdrop.trans (continueOpen_quietly hplaced stage outcome)
      exact ⟨h.frame hq.1, ha.released hq.2 hq.1.accepted⟩
    · cases hstep

theorem run_sound {history : List (Transition RulesSourceController Event)}
    (hr : Run (Step host) initial history c) : Sound c ∧ Agrees c :=
  hr.invariant (P := fun c => Sound c ∧ Agrees c) ⟨sound_initial, nofun⟩
    fun _ _ _ h hs => step_sound h.1 h.2 hs

/-- A silenced controller does nothing before the next inspect. -/
theorem silenced_append {entry : LogEntry} {before : List LogEntry} (hentry : entry.silences = true) :
    ∀ after : List LogEntry, WellPlaced (after ++ entry :: before) →
      (∀ e ∈ after, e.inspect? = none) →
      silenced (after ++ entry :: before) = true ∧ ∀ e ∈ after, e.acts = false := by
  intro after
  induction after with
  | nil =>
    intro _ _
    refine ⟨?_, List.forall_mem_nil _⟩
    show (entry.silences || _) = true
    rw [hentry]
    rfl
  | cons e after ih =>
    intro hw hno
    obtain ⟨hs, hquiet⟩ := ih hw.2 fun e' he' => hno e' (List.mem_cons_of_mem _ he')
    refine ⟨?_, ?_⟩
    · show (e.silences || (e.inspect?.isNone && silenced (after ++ entry :: before))) = true
      rw [hno e List.mem_cons_self, hs]
      simp
    · intro e' he'
      rcases List.mem_cons.1 he' with rfl | he'
      · by_contra hacts
        have hnot : silenced (after ++ entry :: before) = false := hw.1 (by simpa using hacts)
        rw [hnot] at hs
        cases hs
      · exact hquiet e' he'

/-- What is claimed of the log and the registry: the payloads of an inspect have growing generations,
where no inspect comes back after another one; what is active was accepted last; and what silences
the controller keeps it from sending and from placing a cursor, up to the next inspect. -/
structure AuthorityAgrees (c : RulesSourceController) : Prop where
  increasing : NotReused (inspectsOf c.log) → (payloadsOf c.log).Pairwise fun later earlier =>
    later.inspectMessageId = earlier.inspectMessageId →
      earlier.rulesGeneration < later.rulesGeneration
  accepted : ∀ active, c.registry.active = some active →
    ∃ payload, lastAccepted c.log = some payload ∧ active.Matches payload
  silenced : ∀ after entry before, c.log = after ++ entry :: before → entry.silences = true →
    (∀ e ∈ after, e.inspect? = none) → ∀ e ∈ after, e.acts = false

theorem rulesAuthorityAgrees {history : List (Transition RulesSourceController Event)}
    (hr : Run (Step host) initial history c) : AuthorityAgrees c := by
  obtain ⟨hsound, hagrees⟩ := run_sound hr
  refine ⟨hsound.increasing, hagrees, ?_⟩
  intro after entry before hlog hentry hno
  have hw := hsound.wellPlaced
  rw [hlog] at hw
  exact (silenced_append hentry after hw hno).2

/-! ### A sample run -/

namespace Sample

def editorHost : RulesSourceControllerHost where
  publication := ⟨fun _ => "site.css", fun _ => some 10, 20, fun _ => true⟩
  canonicalRulesSourceUri := some
  pathname := some
  sha256 := fun _ => "0000000000000000000000000000000000000000000000000000000000000000"

def answers : Answers where
  isWorkspaceUri := fun _ => some true
  generationBefore := some 0
  generationAfter := some 0
  openThrows := false
  readThrows := fun _ => false
  showThrows := false
  opened := ⟨"file:///site.css", 1, none, fun _ => none, fun _ => none⟩
  editor := ⟨"file:///site.css", "file:///site.css", 1⟩
  setPrimaryCursorThrows := false
  revealRangeThrows := false

def message : InspectMessage := ⟨"m", "s", ⟨.browser, "b"⟩, ⟨[⟨"r"⟩]⟩⟩

def resolution : RulesSourceResolutionBatch where
  selectionMessageId := "m"
  results := [.resolved {
    ruleRef := "r"
    document := ⟨"file:///site.css", .css, 1⟩
    range := ⟨⟨0, 0⟩, ⟨0, 5⟩⟩
    confidence := .exact
    dependencies := [⟨.generatedCss, "file:///site.css", some 1,
      "0000000000000000000000000000000000000000000000000000000000000000"⟩] }]

/-- The first payload is accepted, and asks for another one, which is not. -/
def events : List Event := [
  .call (.acceptInspect message) answers,
  .resolved ⟨1, message, 0, 1⟩ (some resolution) answers
    ⟨["00000000-0000-4000-8000-000000000001"], [(.republish, answers)], some true⟩,
  .resolved ⟨2, message, 1, 2⟩ none answers ⟨[], [], some false⟩]

def last : Option RulesSourceController := events.foldlM (step editorHost) initial

end Sample

theorem rulesAuthorityAgrees_sample : ∃ c, Sample.last = some c ∧ AuthorityAgrees c ∧
    (payloadsOf c.log).map (fun payload => payload.rulesGeneration) = [2, 1] ∧
    c.registry.active.map (fun active => active.rulesGeneration) = some 1 := by
  have hlast : Sample.last.isSome = true := by decide +kernel
  obtain ⟨c, hc⟩ := Option.isSome_iff_exists.1 hlast
  obtain ⟨history, hr, -⟩ := Run.of_foldlM hc
  have hpayloads : Sample.last.map (fun c =>
      (payloadsOf c.log).map fun payload => payload.rulesGeneration) = some [2, 1] := by
    decide +kernel
  have hactive : Sample.last.map (fun c =>
      c.registry.active.map fun active => active.rulesGeneration) = some (some 1) := by
    decide +kernel
  rw [hc] at hpayloads hactive
  exact ⟨c, hc, rulesAuthorityAgrees hr, Option.some.inj hpayloads, Option.some.inj hactive⟩

end RulesSourceController

end PinOp.Rules
