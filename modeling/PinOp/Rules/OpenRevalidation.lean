import PinOp.Rules.OpenFence

/-!
# What was read again before the cursor is placed

An open that awaits the end of its second revalidation leaves a trace in the history: the document
was shown, each dependency was read again after that, and the last of these stretches of code found
the authority registered. `Evidence` says so for each stage of an open; together with the fence it
gives what holds whenever the cursor is placed.
-/

namespace PinOp.Rules

open PinOp.Lib PinOp.Protocol PinOp.Css RulesOpenAuthorityRegistry
open PinOp.Browser (RulesOpenDeclaration)

namespace RulesSourceController

variable {c c' c'' : RulesSourceController} {host : RulesSourceControllerHost}
  {answers : Answers} {request : OpenRequest} {task : ResolutionTask}
  {history since : List (Transition RulesSourceController Event)}

/-! ## What other stretches of code add -/

structure Adds (c c' : RulesSourceController) : Prop where
  log : ∃ entries, c'.log = entries ++ c.log ∧ ∀ entry ∈ entries, entry.cursor? = none
  tasks : ∀ request stage, Task.openRule request stage ∈ c'.tasks →
    .openRule request stage ∈ c.tasks ∨ stage = .opening

theorem Adds.refl (c : RulesSourceController) : Adds c c :=
  ⟨⟨[], rfl, List.forall_mem_nil _⟩, fun _ _ h => .inl h⟩

theorem Adds.trans (h : Adds c c') (h' : Adds c' c'') : Adds c c'' where
  log := by
    obtain ⟨entries, hlog, hentries⟩ := h.log
    obtain ⟨entries', hlog', hentries'⟩ := h'.log
    refine ⟨entries' ++ entries, by rw [hlog', hlog, List.append_assoc], ?_⟩
    intro entry hentry
    rcases List.mem_append.1 hentry with hentry | hentry
    · exact hentries' entry hentry
    · exact hentries entry hentry
  tasks := by
    intro request stage hmem
    rcases h'.tasks request stage hmem with hmem | hopening
    · exact h.tasks request stage hmem
    · exact .inr hopening

theorem Keeps.adds (h : Keeps (fun _ stage => stage = .opening) c c') : Adds c c' where
  log := by
    obtain ⟨notes, hlog, hnotes⟩ := h.log
    refine ⟨notes, hlog, fun entry hentry => ?_⟩
    have hnote := hnotes entry hentry
    simp only [LogEntry.isNote, Bool.and_eq_true, Option.isNone_iff_eq_none] at hnote
    exact hnote.2
  tasks := h.tasks

/-- One entry is logged, and the tasks stay. -/
theorem Adds.of_entry {entry : LogEntry} (hlog : c'.log = entry :: c.log)
    (hentry : entry.cursor? = none) (htasks : c'.tasks = c.tasks) : Adds c c' := by
  refine ⟨⟨[entry], hlog, ?_⟩, fun _ _ h => .inl (htasks ▸ h)⟩
  intro e he
  rw [List.mem_singleton.1 he]
  exact hentry

/-- Neither is touched. -/
theorem Adds.of_eq (hlog : c'.log = c.log) (htasks : c'.tasks = c.tasks) : Adds c c' :=
  ⟨⟨[], hlog, List.forall_mem_nil _⟩, fun _ _ h => .inl (htasks ▸ h)⟩

theorem resolveAgain_adds (call : Call) :
    Adds c (resolveAgain { c with log := .called call :: c.log }) := by
  have hnext : Adds c { c with log := .called call :: c.log, openOperation := c.openOperation + 1 } :=
    .of_entry rfl rfl rfl
  exact hnext.trans (resolveCurrent_keeps _ true).adds

theorem acceptInspect_adds (message : InspectMessage) :
    Adds c (acceptInspect { c with log := .called (.acceptInspect message) :: c.log } message) := by
  have hnext : ∀ c' : RulesSourceController,
      c'.log = .called (.acceptInspect message) :: c.log → c'.tasks = c.tasks →
        Adds c (c'.resolveCurrent true) := fun c' hlog htasks =>
    (Adds.of_entry hlog rfl htasks).trans (resolveCurrent_keeps _ true).adds
  unfold acceptInspect
  split
  · exact .of_entry rfl rfl rfl
  · dsimp only
    split
    · exact hnext _ rfl rfl
    · exact hnext _ rfl rfl

theorem openRule_adds (message : RulesOpenMessage) (declaration : Option RulesOpenDeclaration) :
    Adds c (openRule host { c with log := .called (.openRule message declaration) :: c.log }
      message declaration answers) := by
  unfold openRule
  split
  · exact .of_entry rfl rfl rfl
  · have hnext : Adds c { c with
        log := .called (.openRule message declaration) :: c.log
        openOperation := c.openOperation + 1 } := .of_entry rfl rfl rfl
    dsimp only
    refine hnext.trans (Keeps.adds ?_)
    split
    · exact invalidate_keeps _
    · split
      · exact (report_keeps _ _).trans (invalidate_keeps _)
      · split
        · exact (report_keeps _ _).trans (replaceIfCurrent_keeps _ _ _)
        · rename_i authority _
          split
          · exact .refl _
          · exact failOpen_keeps _ _ _
          · have hopened : Keeps (fun _ stage => stage = .opening) _ _ := note_keeps { c with
              log := .called (.openRule message declaration) :: c.log
              openOperation := c.openOperation + 1 }
              (rfl : (LogEntry.opened
                ⟨c.openOperation + 1, authority, message, declaration⟩).isNote = true)
            refine hopened.trans ?_
            split
            · exact failIfCurrent_keeps _ _ _ _
            · exact await_keeps _ rfl

theorem perform_adds (call : Call × Answers) : Adds c (perform host c call) := by
  obtain ⟨call, answers⟩ := call
  have hinvalid : ∀ (call : Call) disposed, Adds c (invalidateWithoutPublication
      { c with log := .called call :: c.log, disposed := disposed }) := fun _ _ =>
    .of_entry rfl rfl rfl
  cases call with
  | acceptInspect message => exact acceptInspect_adds message
  | republish =>
    have hnote : Adds c { c with log := .called .republish :: c.log } := .of_entry rfl rfl rfl
    exact hnote.trans (resolveCurrent_keeps _ _).adds
  | openRule message declaration => exact openRule_adds message declaration
  | dependencyChanged uri =>
    rw [perform_dependencyChanged]
    split
    · exact resolveAgain_adds _
    · exact .of_entry rfl rfl rfl
  | workspaceChanged => exact resolveAgain_adds _
  | stylesheetRefresh => exact resolveAgain_adds _
  | pageRefresh => exact resolveAgain_adds _
  | documentNavigated => exact hinvalid _ _
  | disconnect => exact hinvalid _ _
  | clear => exact hinvalid _ _
  | dispose =>
    unfold perform run
    dsimp only
    split
    · exact .of_entry rfl rfl rfl
    · exact hinvalid _ _

theorem calls_adds (calls : List (Call × Answers)) :
    ∀ c : RulesSourceController, Adds c (calls.foldl (perform host) c) := by
  induction calls with
  | nil => exact .refl
  | cons call rest ih => exact fun c => (perform_adds call).trans (ih _)

theorem settle_adds (prepared : ℕ) (accepted : Bool) (id : String) :
    Adds c (c.settleSupersededPublication host prepared accepted id) := by
  unfold settleSupersededPublication
  cases accepted with
  | false => exact .of_eq rfl rfl
  | true =>
    dsimp only
    rw [if_pos rfl]
    split
    · exact .of_eq rfl rfl
    · rename_i registry _
      have hcommitted : Adds c { c with registry := registry } := .of_eq rfl rfl
      refine hcommitted.trans (Keeps.adds ?_)
      split
      · exact accepted_keeps _ _
      · exact .refl _

theorem publicationFailed_adds (prepared : ℕ) (activated : Bool) :
    Adds c (c.publicationFailed host task prepared activated) := by
  unfold publicationFailed
  split
  · split
    · exact settle_adds _ _ _
    · exact .refl c
  · have hset : ∀ registry, Adds c { c with registry := registry } := fun _ => .of_eq rfl rfl
    exact (hset _).trans (reportFailure_keeps _ task).adds

theorem sentRulesSources_adds (prepared : ℕ) (sent : Option Bool) :
    Adds c (c.sentRulesSources host task prepared sent) := by
  unfold sentRulesSources
  rcases sent with _ | sent
  · exact publicationFailed_adds _ _
  · dsimp only
    split
    · exact settle_adds _ _ _
    · split
      · exact publicationFailed_adds _ _
      · split
        · rename_i registry _
          have hcommitted : Adds c { c with registry := registry } := .of_eq rfl rfl
          exact hcommitted.trans (publicationFailed_adds _ _)
        · rename_i registry _
          have hcommitted : Adds c { c with registry := registry } := .of_eq rfl rfl
          exact hcommitted.trans (accepted_keeps _ _).adds

theorem publish_adds (prepared : RulesSourcesPublication.PreparedRulesSourcesPublication)
    (sending : Sending) : Adds c (publish host c task prepared sending) := by
  unfold publish
  split
  · rename_i registry _
    have hactivated : Adds c { c with registry := registry } := .of_eq rfl rfl
    exact hactivated.trans (publicationFailed_adds _ _)
  · rename_i registry _
    have hsending : Adds c { c with
        registry := registry
        log := .sending prepared.payload :: c.log } := .of_entry rfl rfl rfl
    refine Adds.trans ?_ (sentRulesSources_adds _ _)
    exact (hsending.trans (@calls_adds host sending.calls _)).trans (.of_entry rfl rfl rfl)

theorem preparePublication_adds (resolution : RulesSourceResolutionBatch) (workspaceGeneration : ℤ)
    (sending : Sending) :
    Adds c (c.preparePublication host task resolution workspaceGeneration sending) := by
  unfold preparePublication
  dsimp only
  split
  · have hreport : Adds c (report { c with rulesGeneration := task.rulesGeneration }
        .rulesSourceResolutionFailed) := .of_entry rfl rfl rfl
    refine hreport.trans (Keeps.adds ?_)
    split
    · exact .refl _
    · split
      · exact invalidate_keeps _
      · exact .refl _
  · split
    · exact .of_eq rfl rfl
    · refine Adds.trans ?_ (publish_adds _ _)
      exact .of_eq rfl rfl

theorem continueResolution_adds (resolution : Option RulesSourceResolutionBatch) (sending : Sending) :
    Adds c (c.continueResolution host task resolution answers sending) := by
  refine Adds.trans ?_ (endResolution_keeps _ task).adds
  unfold publishResolution
  dsimp only
  split
  · exact .refl c
  · have hreported : Adds c
        (if resolution.isNone then c.report .rulesSourceResolutionFailed else c) := by
      split
      · exact .of_entry rfl rfl rfl
      · exact .refl c
    refine hreported.trans ?_
    generalize (if resolution.isNone then c.report .rulesSourceResolutionFailed else c) = c'
    split
    · exact preparePublication_adds _ _ _
    · have hreport : Adds c' (c'.report .rulesSourceResolutionFailed) := .of_entry rfl rfl rfl
      exact hreport.trans (preparePublication_adds _ _ _)

/-! ## Evidence -/

/-- The oldest of the transitions is where the document was shown and the generation was read. -/
def ShownIn (since : List (Transition RulesSourceController Event)) (request : OpenRequest)
    (generation : Option ℤ) : Prop :=
  ∃ t outcome answers, since.getLast? = some t ∧
    t.event = .continued request .showing outcome answers ∧ outcome ≠ .rejected ∧
    readWorkspaceGeneration answers.generationBefore = generation

/-- The dependency was read, and it is what it was. -/
def ReadIn (host : RulesSourceControllerHost) (since : List (Transition RulesSourceController Event))
    (request : OpenRequest) (dependency : RuleSourceDependencySnapshot) : Prop :=
  ∃ t ∈ since, ∃ revalidation rest snapshot answers,
    t.event = .continued request (.reading revalidation dependency rest) (.snapshot snapshot) answers ∧
      snapshotAgrees host snapshot dependency = true

/-- In the newest of the transitions the generation was read again and the registry was asked. -/
def CheckedIn (host : RulesSourceControllerHost)
    (since : List (Transition RulesSourceController Event)) (request : OpenRequest) : Prop :=
  ∃ t stage outcome answers, since.head? = some t ∧
    t.event = .continued request stage outcome answers ∧
    readWorkspaceGeneration answers.generationAfter = some request.authority.workspaceGeneration ∧
    t.pre.registry.authorize (tupleOf request.message) = some request.authority ∧
    sameOpenedDocument host answers.opened request.authority = true ∧
    validDocumentRange answers.opened request.authority.range = true

/-- A whole revalidation behind showing the document, the newest transition first. -/
structure Revalidated (host : RulesSourceControllerHost)
    (since : List (Transition RulesSourceController Event)) (request : OpenRequest) : Prop where
  shown : ShownIn since request (some request.authority.workspaceGeneration)
  read : ∀ dependency ∈ request.authority.dependencies, ReadIn host since request dependency
  checked : CheckedIn host since request

/-- What the history has to tell about an open at a stage. -/
def Evidence (host : RulesSourceControllerHost)
    (history : List (Transition RulesSourceController Event)) (request : OpenRequest) :
    OpenStage → Prop
  | .reading revalidation dependency rest =>
    revalidation.moment = .afterShow → revalidation.valid = true →
      ∃ since before done, history = since ++ before ∧
        ShownIn since request revalidation.generationBefore ∧
        request.authority.dependencies = done ++ dependency :: rest ∧
        ∀ dependency ∈ done, ReadIn host since request dependency
  | .checked .afterShow true =>
    ∃ later since before, history = later ++ since ++ before ∧ Revalidated host since request
  | _ => True

variable {t : Transition RulesSourceController Event}

theorem ShownIn.cons {generation : Option ℤ} (h : ShownIn since request generation) :
    ShownIn (t :: since) request generation := by
  obtain ⟨shown, outcome, answers, hlast, hrest⟩ := h
  refine ⟨shown, outcome, answers, ?_, hrest⟩
  rw [List.getLast?_cons, hlast]
  rfl

theorem ReadIn.cons {dependency : RuleSourceDependencySnapshot}
    (h : ReadIn host since request dependency) : ReadIn host (t :: since) request dependency := by
  obtain ⟨read, hmem, hrest⟩ := h
  exact ⟨read, List.mem_cons_of_mem _ hmem, hrest⟩

/-- What the history tells it goes on to tell. -/
theorem Evidence.cons {stage : OpenStage} (h : Evidence host history request stage) :
    Evidence host (t :: history) request stage := by
  cases stage with
  | reading revalidation dependency rest =>
    intro hmoment hvalid
    obtain ⟨since, before, done, rfl, hshown, hdependencies, hread⟩ := h hmoment hvalid
    exact ⟨t :: since, before, done, rfl, hshown.cons, hdependencies,
      fun dependency hmem => (hread dependency hmem).cons⟩
  | checked moment valid =>
    cases moment with
    | beforeShow => trivial
    | afterShow =>
      cases valid with
      | false => trivial
      | true =>
        obtain ⟨later, since, before, rfl, hrevalidated⟩ := h
        exact ⟨t :: later, since, before, rfl, hrevalidated⟩
  | opening => trivial
  | showing => trivial

theorem latest_of_current {n : ℕ} (h : c.isOpenCurrent n = true) : n = c.openOperation := by
  simp only [isOpenCurrent, Bool.and_eq_true, decide_eq_true_eq] at h
  exact h.2

/-- The authority that is found registered is the one the open goes on with. -/
theorem checkedIn {stage : OpenStage} {outcome : OpenOutcome}
    (hf : Fence none c) (hmem : Task.openRule request stage ∈ c.tasks)
    (hchecked : Checked host (c.drop (.openRule request stage)) request answers)
    (hevent : t.event = .continued request stage outcome answers) (hpre : t.pre = c) :
    CheckedIn host (t :: since) request := by
  obtain ⟨-, -, hregistered, -⟩ :=
    hf.opens request stage hmem (latest_of_current hchecked.current)
  obtain ⟨current, hauthorized, -⟩ := hchecked.authorized
  obtain ⟨active, hactive, hid, hgeneration, hget⟩ := authorize_eq_some hauthorized
  have hsame : some current = some request.authority :=
    hget.symm.trans (hregistered active hactive hid hgeneration)
  refine ⟨t, stage, outcome, answers, rfl, hevent, hchecked.generationAfter, ?_, hchecked.document,
    hchecked.range⟩
  rw [hpre, ← hsame]
  exact hauthorized

/-- The stretch of code that goes on with an open adds to what the history tells. -/
theorem next_evidence {stage next : OpenStage} {outcome : OpenOutcome}
    (hf : Fence none c) (hmem : Task.openRule request stage ∈ c.tasks)
    (h : Evidence host history request stage)
    (hnext : Next host (c.drop (.openRule request stage)) request answers stage outcome next)
    (hevent : t.event = .continued request stage outcome answers) (hpre : t.pre = c) :
    Evidence host (t :: history) request next := by
  cases stage with
  | opening =>
    cases (hnext : Reaches ..) with
    | reading revalidation hmoment _ =>
      intro hafter
      rw [hmoment] at hafter
      cases hafter
    | checked valid _ => trivial
  | showing =>
    obtain ⟨houtcome, hreaches⟩ := hnext
    have hshown : ShownIn [t] request (readWorkspaceGeneration answers.generationBefore) :=
      ⟨t, outcome, answers, rfl, hevent, houtcome, rfl⟩
    cases hreaches with
    | reading revalidation hmoment hvalid =>
      intro _ htrue
      obtain ⟨rfl, hdependencies⟩ := hvalid htrue
      exact ⟨[t], history, [], rfl, hshown, hdependencies, List.forall_mem_nil _⟩
    | checked valid hvalid =>
      cases valid with
      | false => trivial
      | true =>
        obtain ⟨-, hnone, hbefore, hchecked⟩ := hvalid rfl
        refine ⟨[], [t], history, rfl, ?_, ?_, checkedIn hf hmem hchecked hevent hpre⟩
        · rw [← show _ = some request.authority.workspaceGeneration from hbefore]
          exact hshown
        · rw [hnone]
          exact List.forall_mem_nil _
  | checked moment valid =>
    obtain rfl : next = .showing := hnext
    trivial
  | reading revalidation dependency rest =>
    cases outcome with
    | snapshot snapshot =>
      have hread : snapshotAgrees host snapshot dependency = true →
          ∀ since, ReadIn host (t :: since) request dependency := fun hagrees since =>
        ⟨t, List.mem_cons_self, revalidation, rest, snapshot, answers, hevent, hagrees⟩
      cases (hnext : Reaches ..) with
      | reading next hmoment hvalid =>
        intro hafter htrue
        obtain ⟨rfl, rfl⟩ := hvalid htrue
        obtain ⟨hbefore, hagrees⟩ := Bool.and_eq_true_iff.1 htrue
        obtain ⟨since, before, done, rfl, hshown, hdependencies, hdone⟩ := h hafter hbefore
        refine ⟨t :: since, before, done ++ [dependency], rfl, hshown.cons, ?_, ?_⟩
        · rw [hdependencies, List.append_assoc]
          rfl
        · intro other hother
          rcases List.mem_append.1 hother with hother | hother
          · exact (hdone other hother).cons
          · rw [List.mem_singleton.1 hother]
            exact hread hagrees since
      | checked valid hvalid =>
        cases hafter : revalidation.moment with
        | beforeShow => exact trivial
        | afterShow =>
          cases valid with
          | false => exact trivial
          | true =>
            obtain ⟨hboth, hnone, hgeneration, hchecked⟩ := hvalid rfl
            obtain ⟨hbefore, hagrees⟩ := Bool.and_eq_true_iff.1 hboth
            obtain ⟨since, before, done, rfl, hshown, hdependencies, hdone⟩ := h hafter hbefore
            refine ⟨[], t :: since, before, rfl, ?_, ?_, checkedIn hf hmem hchecked hevent hpre⟩
            · rw [← show _ = some request.authority.workspaceGeneration from hgeneration]
              exact hshown.cons
            · intro other hother
              rw [hdependencies, hnone] at hother
              rcases List.mem_append.1 hother with hother | hother
              · exact (hdone other hother).cons
              · rw [List.mem_singleton.1 hother]
                exact hread hagrees since
    | _ =>
      cases (hnext : Reaches ..) with
      | reading next hmoment hvalid =>
        intro _ htrue
        obtain ⟨rfl, -⟩ := hvalid htrue
        cases htrue
      | checked valid hvalid =>
        cases hafter : revalidation.moment with
        | beforeShow => exact trivial
        | afterShow =>
          cases valid with
          | false => exact trivial
          | true =>
            have hfalse : false = true := (hvalid rfl).1
            cases hfalse

/-! ## Runs -/

/-- Every open that awaits has its evidence. -/
def Told (host : RulesSourceControllerHost) (history : List (Transition RulesSourceController Event))
    (c : RulesSourceController) : Prop :=
  ∀ request stage, Task.openRule request stage ∈ c.tasks → Evidence host history request stage

theorem Told.adds (h : Told host history c) (ha : Adds c c') : Told host (t :: history) c' := by
  intro request stage hmem
  rcases ha.tasks request stage hmem with hmem | rfl
  · exact (h request stage hmem).cons
  · trivial

theorem step_told {e : Event} (hf : Fence none c) (h : Told host history c)
    (hstep : c.step host e = some c') : Told host (⟨c, e, c'⟩ :: history) c' := by
  cases e with
  | call call answers =>
    cases hstep
    exact h.adds (perform_adds (call, answers))
  | resolved task resolution answers sending =>
    unfold step at hstep
    dsimp only at hstep
    split at hstep
    · cases hstep
      have hdrop : Adds c (c.drop (.resolution task)) := (drop_keeps c _).adds
      exact h.adds (hdrop.trans (continueResolution_adds resolution sending))
    · cases hstep
  | continued request stage outcome answers =>
    unfold step at hstep
    dsimp only at hstep
    split at hstep
    · rename_i hmem
      cases hstep
      have hdrop : Adds c (c.drop (.openRule request stage)) := (drop_keeps c _).adds
      by_cases hstage : stage = .checked .afterShow true
      · subst hstage
        rcases @continueOpen_cursor (c.drop (.openRule request (.checked .afterShow true))) host answers
            request (fun _ stage => stage = .opening) outcome with hkeeps | ⟨position, -, -, -, hkeeps⟩
        · exact h.adds (hdrop.trans hkeeps.adds)
        · intro request' stage' hmem'
          rcases hkeeps.tasks request' stage' hmem' with hmem' | rfl
          · exact (h request' stage' (List.mem_of_mem_erase hmem')).cons
          · trivial
      · intro request' stage' hmem'
        have hkeeps := @continueOpen_keeps (c.drop (.openRule request stage)) host answers request stage
          outcome hstage
        rcases hkeeps.tasks request' stage' hmem' with hmem' | ⟨rfl, hnext⟩
        · exact (h request' stage' (List.mem_of_mem_erase hmem')).cons
        · exact next_evidence hf hmem (h request' stage hmem) hnext rfl rfl
    · cases hstep

theorem run_told (hr : Run (Step host) initial history c) : Told host history c :=
  hr.invariant_history (fun _ _ hmem => absurd hmem List.not_mem_nil)
    fun _ _ _ _ hr h hs => step_told (run_fence hr) h hs

/-- What holds when an open places the cursor: nothing superseded it, everything was read again, and
the cursor goes into the document that was shown. -/
structure Fenced (host : RulesSourceControllerHost)
    (history : List (Transition RulesSourceController Event)) (log : List LogEntry)
    (request : OpenRequest) (answers : Answers) (position : SourcePosition) : Prop where
  began : Began log request
  revalidated : ∃ later since before, history = later ++ since ++ before ∧
    Revalidated host since request
  editor : sameEditorDocument host answers.editor request.authority = true
  position : CursorAt answers.opened request position

theorem not_cursor {entries added log : List LogEntry} {position : SourcePosition}
    (hentries : ∀ entry ∈ entries, entry.cursor? = none) (heq : entries ++ log = added ++ log) :
    .setPrimaryCursor position ∉ added := by
  intro hmem
  rw [← List.append_cancel_right heq] at hmem
  cases hentries _ hmem

theorem cursor_fenced (hr : Run (Step host) initial history c) {e : Event}
    (hs : Step host c e c') {added : List LogEntry} (hlog : c'.log = added ++ c.log)
    {position : SourcePosition} (hposition : .setPrimaryCursor position ∈ added) :
    ∃ request outcome answers, e = .continued request (.checked .afterShow true) outcome answers ∧
      Fenced host history c.log request answers position := by
  have hadds : ¬ Adds c c' := by
    rintro ⟨⟨entries, hentries, hnone⟩, -⟩
    exact not_cursor hnone (hentries.symm.trans hlog) hposition
  unfold Step at hs
  cases e with
  | call call answers =>
    cases hs
    exact absurd (perform_adds (call, answers)) hadds
  | resolved task resolution answers sending =>
    unfold step at hs
    dsimp only at hs
    split at hs
    · cases hs
      have hdrop : Adds c (c.drop (.resolution task)) := (drop_keeps c _).adds
      exact absurd (hdrop.trans (continueResolution_adds resolution sending)) hadds
    · cases hs
  | continued request stage outcome answers =>
    unfold step at hs
    dsimp only at hs
    split at hs
    · rename_i hmem
      cases hs
      have hno : ∀ {new : OpenRequest → OpenStage → Prop}, ¬ Keeps new
          (c.drop (.openRule request stage))
          ((c.drop (.openRule request stage)).continueOpen host request answers stage outcome) := by
        intro new hkeeps
        obtain ⟨notes, hnotes, hnote⟩ := hkeeps.log
        refine not_cursor (fun entry hentry => ?_) (hnotes.symm.trans hlog) hposition
        have hquiet := hnote entry hentry
        simp only [LogEntry.isNote, Bool.and_eq_true, Option.isNone_iff_eq_none] at hquiet
        exact hquiet.2
      by_cases hstage : stage = .checked .afterShow true
      · subst hstage
        rcases @continueOpen_cursor (c.drop (.openRule request (.checked .afterShow true))) host answers
            request (fun _ _ => False) outcome with hkeeps | ⟨placed, hat, heditor, hcurrent, hkeeps⟩
        · exact absurd hkeeps hno
        · obtain ⟨notes, hnotes, hnote⟩ := hkeeps.log
          have hadded : added = notes ++ [.setPrimaryCursor placed] := by
            have heq : added ++ c.log = (notes ++ [.setPrimaryCursor placed]) ++ c.log := by
              rw [← hlog, hnotes, List.append_assoc]
              rfl
            exact List.append_cancel_right heq
          have hplaced : position = placed := by
            rw [hadded] at hposition
            rcases List.mem_append.1 hposition with hmem | hmem
            · have hquiet := hnote _ hmem
              cases hquiet
            · cases List.mem_singleton.1 hmem
              rfl
          subst hplaced
          obtain ⟨-, hbegan, -, -⟩ := (run_fence hr).opens request _ hmem (latest_of_current hcurrent)
          exact ⟨request, outcome, answers, rfl, hbegan, run_told hr request _ hmem, heditor, hat⟩
      · exact absurd (continueOpen_keeps stage outcome hstage) hno
    · cases hs

namespace CursorSample

open Sample (editorHost message resolution)

def seen : Answers where
  isWorkspaceUri := fun _ => some true
  generationBefore := some 0
  generationAfter := some 0
  openThrows := false
  readThrows := fun _ => false
  showThrows := false
  opened := ⟨"file:///site.css", 1, none, fun position => some position.character,
    fun offset => some ⟨0, offset⟩⟩
  editor := ⟨"file:///site.css", "file:///site.css", 1⟩
  setPrimaryCursorThrows := false
  revealRangeThrows := false

def dependency : RuleSourceDependencySnapshot := ⟨.generatedCss, "file:///site.css", some 1,
  "0000000000000000000000000000000000000000000000000000000000000000"⟩

def openMessage : RulesOpenMessage := ⟨"s", "m", 1, "00000000-0000-4000-8000-000000000001"⟩

def opening : OpenRequest where
  openOperation := 2
  authority := ⟨"00000000-0000-4000-8000-000000000001", "m", 1, "r", "file:///site.css", 1,
    ⟨⟨0, 0⟩, ⟨0, 5⟩⟩, 0, [dependency]⟩
  message := openMessage
  declaration := none

def snapshot : OpenOutcome := .snapshot ⟨"file:///site.css", "a{b:c}", some 1⟩

/-- The rule is opened, and asked about twice; a publication that fails goes on in between. -/
def events : List Event := [
  .call (.acceptInspect message) seen,
  .resolved ⟨1, message, 0, 1⟩ (some resolution) seen
    ⟨["00000000-0000-4000-8000-000000000001"], [], some true⟩,
  .call (.openRule openMessage none) seen,
  .continued opening .opening .done seen,
  .continued opening (.reading ⟨.beforeShow, true, some 0⟩ dependency []) snapshot seen,
  .continued opening (.checked .beforeShow true) .done seen,
  .call .republish seen,
  .continued opening .showing .done seen,
  .resolved ⟨2, message, 1, 2⟩ none seen ⟨[], [], some false⟩,
  .continued opening (.reading ⟨.afterShow, true, some 0⟩ dependency []) snapshot seen]

def cursorEvent : Event := .continued opening (.checked .afterShow true) .done seen

def before : Option RulesSourceController := events.foldlM (step editorHost) initial

def after : Option RulesSourceController := before.bind fun c => c.step editorHost cursorEvent

def added : List LogEntry := [.revealRange ⟨⟨0, 0⟩, ⟨0, 5⟩⟩, .setPrimaryCursor ⟨0, 0⟩]

end CursorSample

theorem cursor_fenced_sample : ∃ history c c', Run (Step Sample.editorHost) initial history c ∧
    Step Sample.editorHost c CursorSample.cursorEvent c' ∧ c'.log = CursorSample.added ++ c.log ∧
    ∃ request outcome answers,
      CursorSample.cursorEvent = .continued request (.checked .afterShow true) outcome answers ∧
      Fenced Sample.editorHost history c.log request answers ⟨0, 0⟩ := by
  have hsome : CursorSample.after.isSome = true := by decide +kernel
  have hlog : CursorSample.after.map RulesSourceController.log =
      CursorSample.before.map fun c => CursorSample.added ++ c.log := by decide +kernel
  obtain ⟨c', hafter⟩ := Option.isSome_iff_exists.1 hsome
  obtain ⟨c, hbefore, hs⟩ := Option.bind_eq_some_iff.1 hafter
  obtain ⟨history, hr, -⟩ := Run.of_foldlM hbefore
  rw [hafter, hbefore] at hlog
  have hadded : c'.log = CursorSample.added ++ c.log := Option.some.inj hlog
  exact ⟨history, c, c', hr, hs, hadded,
    cursor_fenced hr hs hadded (List.mem_cons_of_mem _ List.mem_cons_self)⟩

end RulesSourceController

end PinOp.Rules
