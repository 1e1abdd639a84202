import PinOp.Rules.OpenAuthorityRuns

/-!
# What was not processed since an open began

`Keeps` lists what a stretch of code leaves alone for the opens that await, apart from the calls
that begin it. `Fence` holds between any two stretches, and also while a payload is sent; `spare` is
the generation that a rollback would make active again.
-/

namespace PinOp.Rules

open PinOp.Lib PinOp.Protocol PinOp.Css RulesOpenAuthorityRegistry
open PinOp.Browser (RulesOpenDeclaration)

namespace LogEntry

/-- The calls after which no open that began before them may place the cursor. -/
def supersedes : LogEntry → Bool
  | called .republish => false
  | called _ => true
  | _ => false

def cursor? : LogEntry → Option SourcePosition
  | setPrimaryCursor position => some position
  | _ => none

/-- Neither a call that supersedes nor a cursor that is placed. -/
def isNote (entry : LogEntry) : Bool := !entry.supersedes && entry.cursor?.isNone

end LogEntry

namespace RulesSourceController

variable {c c' c'' : RulesSourceController} {host : RulesSourceControllerHost}
  {answers : Answers} {request : OpenRequest} {spare : Option AuthorityGeneration}
  {added : OpenRequest → OpenStage → Prop} {task : ResolutionTask}

/-- The opens that may await afterwards and did not before are among `added`. -/
structure Keeps (added : OpenRequest → OpenStage → Prop) (c c' : RulesSourceController) : Prop where
  log : ∃ notes, c'.log = notes ++ c.log ∧ ∀ entry ∈ notes, entry.isNote = true
  tasks : ∀ request stage, Task.openRule request stage ∈ c'.tasks →
    .openRule request stage ∈ c.tasks ∨ added request stage
  openOperation : c.openOperation ≤ c'.openOperation
  active : c'.registry.active = c.registry.active ∨ c'.registry.active = none
  highWatermarks : c'.registry.highWatermarks = c.registry.highWatermarks
  currentInspect : c'.currentInspect = c.currentInspect ∨
    c'.registry.active = none ∧ c.openOperation < c'.openOperation

theorem Keeps.refl (c : RulesSourceController) : Keeps added c c :=
  ⟨⟨[], rfl, List.forall_mem_nil _⟩, fun _ _ h => .inl h, Nat.le_refl _, .inl rfl, rfl, .inl rfl⟩

theorem Keeps.trans (h : Keeps added c c') (h' : Keeps added c' c'') : Keeps added c c'' where
  log := by
    obtain ⟨notes, hlog, hnotes⟩ := h.log
    obtain ⟨notes', hlog', hnotes'⟩ := h'.log
    refine ⟨notes' ++ notes, by rw [hlog', hlog, List.append_assoc], ?_⟩
    intro entry hentry
    rcases List.mem_append.1 hentry with hentry | hentry
    · exact hnotes' entry hentry
    · exact hnotes entry hentry
  tasks := by
    intro request stage hmem
    rcases h'.tasks request stage hmem with hmem | hadded
    · exact h.tasks request stage hmem
    · exact .inr hadded
  openOperation := Nat.le_trans h.openOperation h'.openOperation
  active := by
    rcases h'.active with heq | hnone
    · rw [heq]
      exact h.active
    · exact .inr hnone
  highWatermarks := h'.highWatermarks.trans h.highWatermarks
  currentInspect := by
    have hle := h.openOperation
    have hle' := h'.openOperation
    rcases h'.currentInspect with heq | ⟨hnone, hlt⟩
    · rcases h.currentInspect with heq₀ | ⟨hnone, hlt⟩
      · exact .inl (heq.trans heq₀)
      · refine .inr ⟨?_, by omega⟩
        rcases h'.active with hsame | hnone'
        · exact hsame.trans hnone
        · exact hnone'
    · exact .inr ⟨hnone, by omega⟩

theorem Keeps.mono {added' : OpenRequest → OpenStage → Prop} (h : Keeps added c c')
    (himp : ∀ request stage, added request stage → added' request stage) : Keeps added' c c' :=
  { h with tasks := fun request stage hmem => (h.tasks request stage hmem).imp_right (himp _ _) }

/-- Nothing but notes is logged, and nothing else that matters is touched. -/
theorem Keeps.of_eq {notes : List LogEntry} (hlog : c'.log = notes ++ c.log)
    (hnotes : ∀ entry ∈ notes, entry.isNote = true) (htasks : c'.tasks = c.tasks)
    (hopen : c'.openOperation = c.openOperation) (hregistry : c'.registry = c.registry)
    (hinspect : c'.currentInspect = c.currentInspect) : Keeps added c c' := by
  refine ⟨⟨notes, hlog, hnotes⟩, ?_, by omega, by rw [hregistry]; exact .inl rfl, by rw [hregistry],
    .inl hinspect⟩
  rw [htasks]
  exact fun _ _ h => .inl h

theorem note_keeps (c : RulesSourceController) {entry : LogEntry} (hnote : entry.isNote = true) :
    Keeps added c { c with log := entry :: c.log } := by
  refine @Keeps.of_eq _ _ _ [entry] rfl ?_ rfl rfl rfl rfl
  intro e he
  rw [List.mem_singleton.1 he]
  exact hnote

theorem report_keeps (c : RulesSourceController) (code : RulesSourceFailureCode) :
    Keeps added c (c.report code) := note_keeps c rfl

theorem invalidate_keeps (c : RulesSourceController) :
    Keeps added c c.invalidateWithoutPublication :=
  ⟨⟨[], rfl, List.forall_mem_nil _⟩, fun _ _ h => .inl h, Nat.le_succ _, .inr rfl, rfl,
    .inr ⟨rfl, Nat.lt_succ_self _⟩⟩

theorem await_keeps (stage : OpenStage) (hadded : added request stage) :
    Keeps added c (c.await (.openRule request stage)) := by
  refine ⟨⟨[], rfl, List.forall_mem_nil _⟩, ?_, Nat.le_refl _, .inl rfl, rfl, .inl rfl⟩
  intro request' stage' hmem
  rcases List.mem_append.1 hmem with hmem | hmem
  · exact .inl hmem
  · cases List.mem_singleton.1 hmem
    exact .inr hadded

theorem registry_keeps {registry : RulesOpenAuthorityRegistry}
    (hhigh : registry.highWatermarks = c.registry.highWatermarks)
    (hactive : registry.active = c.registry.active ∨ registry.active = none) :
    Keeps added c { c with registry := registry } :=
  ⟨⟨[], rfl, List.forall_mem_nil _⟩, fun _ _ h => .inl h, Nat.le_refl _, hactive, hhigh, .inl rfl⟩

theorem resolveCurrent_keeps (c : RulesSourceController) (clearRegistry : Bool) :
    Keeps added c (c.resolveCurrent clearRegistry) := by
  have htasks : ∀ task : ResolutionTask, ∀ request stage,
      Task.openRule request stage ∈ c.tasks ++ [.resolution task] →
        .openRule request stage ∈ c.tasks ∨ added request stage := by
    intro task request stage hmem
    rcases List.mem_append.1 hmem with hmem | hmem
    · exact .inl hmem
    · cases List.mem_singleton.1 hmem
  unfold resolveCurrent
  split
  · exact .refl c
  · split
    · exact .refl c
    · split
      · exact (report_keeps c _).trans (invalidate_keeps _)
      · cases clearRegistry
        · exact ⟨⟨[], rfl, List.forall_mem_nil _⟩, htasks _, Nat.le_refl _, .inl rfl, rfl, .inl rfl⟩
        · exact ⟨⟨[], rfl, List.forall_mem_nil _⟩, htasks _, Nat.le_refl _, .inr rfl, rfl, .inl rfl⟩

theorem replaceIfCurrent_keeps (c : RulesSourceController) (id : String) (generation : ℕ) :
    Keeps added c (c.replaceIfCurrent id generation) := by
  unfold replaceIfCurrent
  split
  · exact .refl c
  · split
    · exact .refl c
    · exact resolveCurrent_keeps c true

theorem failOpen_keeps (c : RulesSourceController) (authority : StoredRuleOpenAuthority)
    (code : RulesSourceFailureCode) : Keeps added c (c.failOpen authority code) :=
  (report_keeps c code).trans (replaceIfCurrent_keeps _ _ _)

theorem ifCurrent_keeps (n : ℕ) (h : Keeps added c c') :
    Keeps added c (if !c.isOpenCurrent n then c else c') := by
  split
  · exact .refl c
  · exact h

theorem failIfCurrent_keeps (c : RulesSourceController) (n : ℕ)
    (authority : StoredRuleOpenAuthority) (code : RulesSourceFailureCode) :
    Keeps added c (if !c.isOpenCurrent n then c else c.failOpen authority code) :=
  ifCurrent_keeps n (failOpen_keeps c authority code)

theorem drop_keeps (c : RulesSourceController) (task : Task) : Keeps added c (c.drop task) :=
  ⟨⟨[], rfl, List.forall_mem_nil _⟩, fun _ _ h => .inl (List.mem_of_mem_erase h), Nat.le_refl _,
    .inl rfl, rfl, .inl rfl⟩

theorem endResolution_keeps (c : RulesSourceController) (task : ResolutionTask) :
    Keeps added c (c.endResolution task) := by
  unfold endResolution
  split
  · exact Keeps.of_eq (List.nil_append _).symm (List.forall_mem_nil _) rfl rfl rfl rfl
  · exact .refl c

theorem retainUris_keeps (uris : List String) :
    ∀ c : RulesSourceController, Keeps added c (retainUris host c uris) := by
  induction uris with
  | nil => exact .refl
  | cons watched rest ih =>
    intro c
    have hretained : ∀ retained all, Keeps added c { c with
        retainedDependencyUris := retained, watchAllRulesCandidates := all } := fun _ _ =>
      Keeps.of_eq (List.nil_append _).symm (List.forall_mem_nil _) rfl rfl rfl rfl
    unfold retainUris
    split
    · exact hretained _ _
    · dsimp only
      refine Keeps.trans ?_ (ih _)
      split
      · exact .refl c
      · exact hretained _ _

/-! ## Going on with an open -/

/-- What a revalidation finds at its end, where it succeeds. -/
structure Checked (host : RulesSourceControllerHost) (c : RulesSourceController)
    (request : OpenRequest) (answers : Answers) : Prop where
  current : c.isOpenCurrent request.openOperation = true
  generationAfter : readWorkspaceGeneration answers.generationAfter =
    some request.authority.workspaceGeneration
  authorized : ∃ current, c.registry.authorize (tupleOf request.message) = some current ∧
    sameAuthority current request.authority = true
  document : sameOpenedDocument host answers.opened request.authority = true
  range : validDocumentRange answers.opened request.authority.range = true

/-- Where a revalidation gets from `revalidation` in one stretch; only the valid ones count. -/
inductive Reaches (host : RulesSourceControllerHost) (c : RulesSourceController)
    (request : OpenRequest) (answers : Answers) (revalidation : Revalidation)
    (dependencies : List RuleSourceDependencySnapshot) : OpenStage → Prop where
  | reading {dependency rest} (next : Revalidation) (hmoment : next.moment = revalidation.moment)
      (hvalid : next.valid = true → next = revalidation ∧ dependencies = dependency :: rest) :
      Reaches host c request answers revalidation dependencies (.reading next dependency rest)
  | checked (valid : Bool)
      (hvalid : valid = true → revalidation.valid = true ∧ dependencies = [] ∧
        revalidation.generationBefore = some request.authority.workspaceGeneration ∧
        Checked host c request answers) :
      Reaches host c request answers revalidation dependencies (.checked revalidation.moment valid)

/-- What an open awaits after the stage it goes on from. -/
def Next (host : RulesSourceControllerHost) (c : RulesSourceController) (request : OpenRequest)
    (answers : Answers) : OpenStage → OpenOutcome → OpenStage → Prop
  | .opening, _, next =>
    Reaches host c request answers ⟨.beforeShow, (readWorkspaceGeneration answers.generationBefore).isSome,
      readWorkspaceGeneration answers.generationBefore⟩ request.authority.dependencies next
  | .showing, outcome, next => outcome ≠ .rejected ∧
    Reaches host c request answers ⟨.afterShow, (readWorkspaceGeneration answers.generationBefore).isSome,
      readWorkspaceGeneration answers.generationBefore⟩ request.authority.dependencies next
  | .reading revalidation dependency rest, .snapshot snapshot, next =>
    Reaches host c request answers
      { revalidation with
        valid := revalidation.valid && snapshotAgrees host snapshot dependency } rest next
  | .reading revalidation _ rest, _, next =>
    Reaches host c request answers { revalidation with valid := false } rest next
  | .checked _ _, _, next => next = .showing

/-- Where an earlier failure goes on, nothing that follows is valid. -/
theorem Reaches.of_invalid {revalidation : Revalidation}
    {dependencies dependencies' : List RuleSourceDependencySnapshot} {stage : OpenStage}
    (h : Reaches host c request answers { revalidation with valid := false } dependencies stage) :
    Reaches host c request answers revalidation dependencies' stage := by
  cases h with
  | reading next hmoment hvalid =>
    refine .reading next hmoment fun hv => ?_
    have hfalse : next.valid = false := by rw [(hvalid hv).1]
    rw [hv] at hfalse
    cases hfalse
  | checked valid hvalid =>
    refine @Reaches.checked _ _ _ _ revalidation _ valid fun hv => ?_
    have hfalse : false = true := (hvalid hv).1
    cases hfalse

theorem finishRevalidation_keeps (revalidation : Revalidation) :
    Keeps (fun request' stage => request' = request ∧
      Reaches host c request answers revalidation [] stage) c
      (c.finishRevalidation host request answers revalidation) := by
  unfold finishRevalidation
  dsimp only
  split
  · exact .refl c
  · rename_i hopen
    refine await_keeps _ ⟨rfl, .checked _ fun hvalid => ?_⟩
    simp only [Bool.and_eq_true, decide_eq_true_eq, Option.any_eq_true] at hvalid
    obtain ⟨⟨⟨⟨⟨⟨hvalid, -⟩, current, hcurrent⟩, hbefore⟩, hafter⟩, hdocument⟩, hrange⟩ := hvalid
    exact ⟨hvalid, rfl, hbefore, by simpa using hopen, hafter, ⟨current, hcurrent⟩, hdocument,
      hrange⟩

theorem revalidateFrom_keeps (dependencies : List RuleSourceDependencySnapshot) :
    ∀ revalidation, Keeps (fun request' stage => request' = request ∧
      Reaches host c request answers revalidation dependencies stage) c
      (c.revalidateFrom host request answers revalidation dependencies) := by
  induction dependencies with
  | nil => exact finishRevalidation_keeps
  | cons dependency rest ih =>
    intro revalidation
    unfold revalidateFrom
    split
    · exact .refl c
    · rename_i known _
      dsimp only
      split
      · split
        · exact .refl c
        · refine Keeps.mono (ih _) ?_
          rintro request' stage ⟨rfl, hreaches⟩
          exact ⟨rfl, hreaches.of_invalid⟩
      · refine await_keeps _ ⟨rfl, .reading _ rfl fun hvalid => ⟨?_, rfl⟩⟩
        have hboth : (revalidation.valid && known) = true := hvalid
        rw [Bool.and_eq_true] at hboth
        rw [hboth.1, hboth.2]
        cases revalidation
        cases hboth.1
        rfl

theorem revalidate_keeps (moment : RevalidationMoment) :
    Keeps (fun request' stage => request' = request ∧ Reaches host c request answers
        ⟨moment, (readWorkspaceGeneration answers.generationBefore).isSome,
          readWorkspaceGeneration answers.generationBefore⟩ request.authority.dependencies stage) c
      (c.revalidate host request answers moment) := by
  unfold revalidate
  split
  · exact .refl c
  · exact revalidateFrom_keeps _ _

theorem showDocument_keeps {stage : OpenStage} {outcome : OpenOutcome}
    (hnext : Next host c request answers stage outcome .showing) :
    Keeps (fun request' next => request' = request ∧ Next host c request answers stage outcome next) c
      (c.showDocument request answers) := by
  unfold showDocument
  split
  · exact failIfCurrent_keeps _ _ _ _
  · exact await_keeps _ ⟨rfl, hnext⟩

/-- Everywhere else the cursor is left alone. -/
theorem continueOpen_keeps (stage : OpenStage) (outcome : OpenOutcome)
    (hstage : stage ≠ .checked .afterShow true) :
    Keeps (fun request' next => request' = request ∧ Next host c request answers stage outcome next) c
      (c.continueOpen host request answers stage outcome) := by
  cases stage with
  | opening =>
    cases outcome with
    | rejected => exact failIfCurrent_keeps _ _ _ _
    | _ => exact ifCurrent_keeps _ (revalidate_keeps .beforeShow)
  | showing =>
    cases outcome with
    | rejected => exact failIfCurrent_keeps _ _ _ _
    | _ =>
      refine ifCurrent_keeps _ ((revalidate_keeps .afterShow).mono ?_)
      exact fun _ _ h => ⟨h.1, nofun, h.2⟩
  | reading revalidation dependency rest =>
    unfold continueOpen
    dsimp only
    split
    · exact .refl c
    · cases outcome with
      | snapshot snapshot => exact revalidateFrom_keeps _ _
      | _ => exact revalidateFrom_keeps _ _
  | checked moment valid =>
    unfold continueOpen
    dsimp only
    unfold revalidated
    split
    · exact .refl c
    · cases moment with
      | beforeShow =>
        dsimp only
        split
        · exact showDocument_keeps rfl
        · exact failOpen_keeps c _ _
      | afterShow =>
        obtain rfl : valid = false := by
          by_contra hvalid
          rw [Bool.not_eq_false] at hvalid
          exact hstage (by rw [hvalid])
        exact failOpen_keeps c _ _

/-- Where the cursor goes: the value of the declaration, if there is one, or the rule. -/
def CursorAt (document : DocumentView) (request : OpenRequest) (position : SourcePosition) : Prop :=
  match request.declaration with
  | none => position = request.authority.range.start
  | some declaration =>
    document.declarationValuePosition request.authority.range declaration = some (some position) ∨
      document.declarationValuePosition request.authority.range declaration = some none ∧
        position = request.authority.range.start

theorem placeCursor_keeps : Keeps added c (c.placeCursor request answers) ∨
    ∃ position, CursorAt answers.opened request position ∧
      c.isOpenCurrent request.openOperation = true ∧
      Keeps added { c with log := .setPrimaryCursor position :: c.log }
        (c.placeCursor request answers) := by
  unfold placeCursor
  dsimp only
  split
  · exact .inl (.refl c)
  · rename_i valuePosition heq
    by_cases hcurrent : (!c.isOpenCurrent request.openOperation) = true
    · rw [if_pos hcurrent]
      exact .inl (.refl c)
    · rw [if_neg hcurrent]
      refine .inr ⟨valuePosition.getD request.authority.range.start, ?_, by simpa using hcurrent, ?_⟩
      · unfold CursorAt
        cases hdeclaration : request.declaration with
        | none =>
          rw [hdeclaration] at heq
          cases heq
          rfl
        | some declaration =>
          rw [hdeclaration] at heq
          cases valuePosition with
          | none => exact .inr ⟨heq, rfl⟩
          | some position => exact .inl heq
      · split
        · exact failIfCurrent_keeps _ _ _ _
        · split
          · exact .refl _
          · have hreveal : Keeps added _ _ := note_keeps
              { c with log :=
                .setPrimaryCursor (valuePosition.getD request.authority.range.start) :: c.log }
              (rfl : (LogEntry.revealRange ((valuePosition.map fun position =>
                ⟨position, position⟩).getD request.authority.range)).isNote = true)
            refine hreveal.trans ?_
            split
            · exact failIfCurrent_keeps _ _ _ _
            · exact .refl _

/-- The only stage that places the cursor. -/
theorem continueOpen_cursor (outcome : OpenOutcome) :
    Keeps added c (c.continueOpen host request answers (.checked .afterShow true) outcome) ∨
    ∃ position, CursorAt answers.opened request position ∧
      sameEditorDocument host answers.editor request.authority = true ∧
      c.isOpenCurrent request.openOperation = true ∧
      Keeps added { c with log := .setPrimaryCursor position :: c.log }
        (c.continueOpen host request answers (.checked .afterShow true) outcome) := by
  unfold continueOpen
  dsimp only
  unfold revalidated
  split
  · exact .inl (.refl c)
  · dsimp only
    split
    · exact .inl (failOpen_keeps c _ _)
    · rename_i heditor
      have hsame : sameEditorDocument host answers.editor request.authority = true := by
        simpa using heditor
      refine placeCursor_keeps.imp id ?_
      rintro ⟨position, hat, hcurrent, hkeeps⟩
      exact ⟨position, hat, hsame, hcurrent, hkeeps⟩

/-! ## The fence -/

/-- A generation under the ids of an open has the authority that the open goes on with. -/
def Registered (generation : Option AuthorityGeneration) (request : OpenRequest) : Prop :=
  ∀ active, generation = some active →
    active.inspectMessageId = request.message.inspectMessageId →
    active.rulesGeneration = request.message.rulesGeneration →
    active.authorities.get? request.message.openAuthorityId = some request.authority

/-- The ids are not newer than the watermark of their inspect. -/
def Known (c : RulesSourceController) (inspectMessageId : String) (rulesGeneration : ℕ) : Prop :=
  c.currentInspect.map InspectMessage.messageId = some inspectMessageId ∧
    ∃ generation, c.registry.highWatermarks.get? inspectMessageId = some generation ∧
      rulesGeneration ≤ generation

/-- Since the open began nothing superseded it. -/
def Began (log : List LogEntry) (request : OpenRequest) : Prop :=
  ∃ since before, log = since ++ .opened request ::
      .called (.openRule request.message request.declaration) :: before ∧
    ∀ entry ∈ since, entry.supersedes = false

structure Fence (spare : Option AuthorityGeneration) (c : RulesSourceController) : Prop where
  active : ∀ active, c.registry.active = some active →
    c.Known active.inspectMessageId active.rulesGeneration ∧
      ∀ older, spare = some older → older.inspectMessageId = active.inspectMessageId ∧
        older.rulesGeneration < active.rulesGeneration
  latest : ∀ request stage, Task.openRule request stage ∈ c.tasks →
    request.openOperation ≤ c.openOperation
  opens : ∀ request stage, Task.openRule request stage ∈ c.tasks →
    request.openOperation = c.openOperation →
      c.Known request.message.inspectMessageId request.message.rulesGeneration ∧
        Began c.log request ∧ Registered c.registry.active request ∧ Registered spare request

theorem Began.append {log notes : List LogEntry} (h : Began log request)
    (hnotes : ∀ entry ∈ notes, entry.supersedes = false) : Began (notes ++ log) request := by
  obtain ⟨since, before, rfl, hsince⟩ := h
  refine ⟨notes ++ since, before, (List.append_assoc _ _ _).symm, ?_⟩
  intro entry hentry
  rcases List.mem_append.1 hentry with hentry | hentry
  · exact hnotes entry hentry
  · exact hsince entry hentry

theorem Registered.released {generation generation' : Option AuthorityGeneration}
    (h : Registered generation request) (hr : generation' = generation ∨ generation' = none) :
    Registered generation' request := by
  rcases hr with rfl | rfl
  · exact h
  · intro active hactive
    cases hactive

theorem fence_initial : Fence none initial where
  active := by
    intro active hactive
    cases hactive
  latest := fun request stage hmem => absurd hmem List.not_mem_nil
  opens := fun request stage hmem => absurd hmem List.not_mem_nil

theorem Fence.keeps (h : Fence spare c) (hk : Keeps added c c')
    (hadded : ∀ request stage, added request stage →
      ∃ stage', Task.openRule request stage' ∈ c.tasks) : Fence spare c' := by
  have hknown : ∀ id generation, (c'.currentInspect = c.currentInspect) →
      c.Known id generation → c'.Known id generation := by
    intro id generation hsame hknown
    unfold Known at hknown ⊢
    rw [hsame, hk.highWatermarks]
    exact hknown
  have hbefore : ∀ request stage, Task.openRule request stage ∈ c'.tasks →
      ∃ stage', Task.openRule request stage' ∈ c.tasks := by
    intro request stage hmem
    rcases hk.tasks request stage hmem with hmem | hnew
    · exact ⟨stage, hmem⟩
    · exact hadded request stage hnew
  have hle := hk.openOperation
  refine ⟨?_, ?_, ?_⟩
  · intro active hactive
    rcases hk.active with heq | hnone
    · obtain ⟨hid, holder⟩ := h.active active (heq ▸ hactive)
      refine ⟨?_, holder⟩
      rcases hk.currentInspect with hsame | ⟨hnone, -⟩
      · exact hknown _ _ hsame hid
      · rw [hnone] at hactive
        cases hactive
    · rw [hnone] at hactive
      cases hactive
  · intro request stage hmem
    obtain ⟨stage', hmem⟩ := hbefore request stage hmem
    have := h.latest request stage' hmem
    omega
  · intro request stage hmem hcurrent
    obtain ⟨stage', hmem⟩ := hbefore request stage hmem
    have hlatest := h.latest request stage' hmem
    obtain ⟨hid, hbegan, hregistered, hspare⟩ := h.opens request stage' hmem (by omega)
    obtain ⟨notes, hlog, hnotes⟩ := hk.log
    refine ⟨?_, ?_, hregistered.released hk.active, hspare⟩
    · rcases hk.currentInspect with hsame | ⟨-, hlt⟩
      · exact hknown _ _ hsame hid
      · omega
    · rw [hlog]
      refine hbegan.append fun entry hentry => ?_
      have hnote := hnotes entry hentry
      simp only [LogEntry.isNote, Bool.and_eq_true, Bool.not_eq_true'] at hnote
      exact hnote.1

/-- Nothing new awaits. -/
theorem Fence.quietly (h : Fence spare c) (hk : Keeps (fun _ _ => False) c c') : Fence spare c' :=
  h.keeps hk fun _ _ hfalse => hfalse.elim

/-- No open that awaits is the latest one any more. -/
theorem Fence.superseded (h : Fence spare c)
    (hsuperseded : ∀ request stage, Task.openRule request stage ∈ c.tasks →
      request.openOperation < c'.openOperation)
    (htasks : ∀ request stage, Task.openRule request stage ∈ c'.tasks →
      Task.openRule request stage ∈ c.tasks)
    (hactive : c'.registry.active = none ∨
      c'.registry = c.registry ∧ c'.currentInspect = c.currentInspect) : Fence spare c' := by
  refine ⟨?_, ?_, ?_⟩
  · intro active hsome
    rcases hactive with hnone | ⟨hregistry, hinspect⟩
    · rw [hnone] at hsome
      cases hsome
    · rw [hregistry] at hsome
      unfold Known
      rw [hregistry, hinspect]
      exact h.active active hsome
  · exact fun request stage hmem => Nat.le_of_lt (hsuperseded request stage (htasks _ _ hmem))
  · intro request stage hmem hcurrent
    have := hsuperseded request stage (htasks _ _ hmem)
    omega

/-! ## Calls -/

theorem resolveCurrent_clears {inspect : InspectMessage} (hinspect : c.currentInspect = some inspect)
    (hdisposed : c.disposed = false) : (c.resolveCurrent true).registry.active = none := by
  unfold resolveCurrent
  rw [hinspect]
  dsimp only
  rw [hdisposed, if_neg (by simp)]
  split
  · rfl
  · rfl

theorem resolveAgain_fence (h : Fence spare c) (call : Call) :
    Fence spare (resolveAgain { c with log := .called call :: c.log }) := by
  have hnext : Fence spare
      { c with log := .called call :: c.log, openOperation := c.openOperation + 1 } := by
    refine h.superseded ?_ (fun _ _ hmem => hmem) (.inr ⟨rfl, rfl⟩)
    exact fun request stage hmem => Nat.lt_succ_of_le (h.latest request stage hmem)
  exact hnext.quietly (resolveCurrent_keeps _ true)

theorem invalidate_fence (h : Fence spare c) {call : Call} {disposed : Bool} :
    Fence spare (invalidateWithoutPublication
      { c with log := .called call :: c.log, disposed := disposed }) := by
  refine h.superseded ?_ (fun _ _ hmem => hmem) (.inl rfl)
  exact fun request stage hmem => Nat.lt_succ_of_le (h.latest request stage hmem)

/-- A disposed controller has no open that is the latest one. -/
theorem disposed_fence (hs : Sound c) (h : Fence spare c) (hdisposed : c.disposed = true)
    (call : Call) : Fence spare { c with log := .called call :: c.log } := by
  refine h.superseded ?_ (fun _ _ hmem => hmem) (.inr ⟨rfl, rfl⟩)
  exact fun request stage hmem => (hs.tasks request stage hmem).2 (.inr hdisposed)

theorem acceptInspect_fence (hs : Sound c) (h : Fence spare c) (message : InspectMessage) :
    Fence spare (acceptInspect { c with log := .called (.acceptInspect message) :: c.log } message) := by
  unfold acceptInspect
  split
  · rename_i hdisposed
    exact disposed_fence hs h hdisposed _
  · rename_i hdisposed
    rw [Bool.not_eq_true] at hdisposed
    have hnext : ∀ c' : RulesSourceController, c'.currentInspect = some message →
        c'.disposed = false → c'.openOperation = c.openOperation + 1 → c'.tasks = c.tasks →
        Fence spare (c'.resolveCurrent true) := by
      intro c' hinspect hdisposed hopen htasks
      have hk : Keeps (fun _ _ => False) c' _ := resolveCurrent_keeps c' true
      have hle := hk.openOperation
      refine h.superseded ?_ ?_ (.inl (resolveCurrent_clears hinspect hdisposed))
      · intro request stage hmem
        have := h.latest request stage hmem
        omega
      · intro request stage hmem
        rw [← htasks]
        exact (hk.tasks request stage hmem).resolve_right id
    dsimp only
    split
    · exact hnext _ rfl hdisposed rfl rfl
    · exact hnext _ rfl hdisposed rfl rfl

theorem authorize_eq_some {registry : RulesOpenAuthorityRegistry} {tuple : RuleOpenAuthorityTuple}
    {authority : StoredRuleOpenAuthority} (h : registry.authorize tuple = some authority) :
    ∃ active, registry.active = some active ∧ active.inspectMessageId = tuple.inspectMessageId ∧
      active.rulesGeneration = tuple.rulesGeneration ∧
      active.authorities.get? tuple.openAuthorityId = some authority := by
  unfold RulesOpenAuthorityRegistry.authorize at h
  split at h
  · cases h
  · rename_i active hactive
    split at h
    · cases h
    · rename_i hids
      rw [not_or, not_not, not_not] at hids
      exact ⟨active, hactive, hids.1, hids.2, h⟩

/-- An open that asks for its document goes on with what is registered under its ids. -/
theorem opened_fence (h : Fence spare c) {before : List LogEntry}
    (hlog : c.log = .called (.openRule request.message request.declaration) :: before)
    (hopen : request.openOperation = c.openOperation)
    (hauthority : c.registry.authorize (tupleOf request.message) = some request.authority) :
    Fence spare (await { c with log := .opened request :: c.log } (.openRule request .opening)) := by
  obtain ⟨active, hactive, hid, hgeneration, hget⟩ := authorize_eq_some hauthority
  have hkept : Fence spare { c with log := .opened request :: c.log } := h.quietly (note_keeps _ rfl)
  refine ⟨hkept.active, ?_, ?_⟩
  · intro request' stage hmem
    rcases List.mem_append.1 hmem with hmem | hmem
    · exact hkept.latest request' stage hmem
    · cases List.mem_singleton.1 hmem
      exact Nat.le_of_eq hopen
  · intro request' stage hmem hcurrent
    rcases List.mem_append.1 hmem with hmem | hmem
    · exact hkept.opens request' stage hmem hcurrent
    · cases List.mem_singleton.1 hmem
      obtain ⟨hknown, holder⟩ := h.active active hactive
      rw [hid, hgeneration] at hknown
      refine ⟨hknown, ⟨[], before, ?_, List.forall_mem_nil _⟩, ?_, ?_⟩
      · show LogEntry.opened request :: c.log = _
        rw [hlog]
        rfl
      · intro other hother _ _
        obtain rfl : active = other := Option.some.inj (hactive.symm.trans hother)
        exact hget
      · intro older hspare _ holdest
        have hlt := (holder older hspare).2
        have hsame : active.rulesGeneration = request.message.rulesGeneration := hgeneration
        omega

theorem openRule_fence (hs : Sound c) (h : Fence spare c) (message : RulesOpenMessage)
    (declaration : Option RulesOpenDeclaration) :
    Fence spare (openRule host { c with log := .called (.openRule message declaration) :: c.log }
      message declaration answers) := by
  unfold openRule
  split
  · rename_i hdisposed
    exact disposed_fence hs h hdisposed _
  · have hnext : Fence spare { c with
        log := .called (.openRule message declaration) :: c.log
        openOperation := c.openOperation + 1 } := by
      refine h.superseded ?_ (fun _ _ hmem => hmem) (.inr ⟨rfl, rfl⟩)
      exact fun request stage hmem => Nat.lt_succ_of_le (h.latest request stage hmem)
    dsimp only
    split
    · exact hnext.quietly (invalidate_keeps _)
    · split
      · exact hnext.quietly ((report_keeps _ _).trans (invalidate_keeps _))
      · split
        · exact hnext.quietly ((report_keeps _ _).trans (replaceIfCurrent_keeps _ _ _))
        · rename_i authority hauthority
          split
          · exact hnext
          · exact hnext.quietly (failOpen_keeps _ _ _)
          · split
            · have hopened : Keeps (fun _ _ => False) _ _ := note_keeps { c with
                log := .called (.openRule message declaration) :: c.log
                openOperation := c.openOperation + 1 }
                (rfl : (LogEntry.opened
                  ⟨c.openOperation + 1, authority, message, declaration⟩).isNote = true)
              exact hnext.quietly (hopened.trans (failIfCurrent_keeps _ _ _ _))
            · exact opened_fence hnext rfl rfl hauthority

theorem perform_fence (hs : Sound c) (h : Fence spare c) (call : Call × Answers) :
    Fence spare (perform host c call) := by
  obtain ⟨call, answers⟩ := call
  cases call with
  | acceptInspect message => exact acceptInspect_fence hs h message
  | republish =>
    have hnote : Keeps (fun _ _ => False) c _ := note_keeps c
      (rfl : (LogEntry.called .republish).isNote = true)
    exact h.quietly (hnote.trans (resolveCurrent_keeps _ _))
  | openRule message declaration => exact openRule_fence hs h message declaration
  | dependencyChanged uri =>
    rw [perform_dependencyChanged]
    split
    · exact resolveAgain_fence h _
    · exact h.quietly (note_keeps c rfl)
  | workspaceChanged => exact resolveAgain_fence h _
  | stylesheetRefresh => exact resolveAgain_fence h _
  | pageRefresh => exact resolveAgain_fence h _
  | documentNavigated => exact invalidate_fence h
  | disconnect => exact invalidate_fence h
  | clear => exact invalidate_fence h
  | dispose =>
    unfold perform run
    dsimp only
    split
    · rename_i hdisposed
      exact disposed_fence hs h hdisposed _
    · exact invalidate_fence h

theorem calls_fence (calls : List (Call × Answers)) :
    ∀ {c : RulesSourceController}, Sound c → Fence spare c →
      Fence spare (calls.foldl (perform host) c) := by
  induction calls with
  | nil => exact fun _ h => h
  | cons call rest ih => exact fun hs h => ih (perform_sound hs call).1 (perform_fence hs h call)

/-! ## Publishing -/

theorem Fence.forget (h : Fence spare c) : Fence none c where
  active := fun active hactive => ⟨(h.active active hactive).1, nofun⟩
  latest := h.latest
  opens := by
    intro request stage hmem hcurrent
    obtain ⟨hknown, hbegan, hregistered, -⟩ := h.opens request stage hmem hcurrent
    exact ⟨hknown, hbegan, hregistered, nofun⟩

section Settle

variable {prepared : ℕ} {candidate : AuthorityGeneration}

/-- The generation that was active before is of the same inspect, and older. -/
theorem rollback_fence (h : Fence spare c) (hheld : c.Holds prepared candidate spare) :
    Fence none { c with registry := (c.registry.rollback prepared).2 } := by
  have hhigh := rollback_highWatermarks c.registry prepared
  rcases hheld.rollback with hspare | hnone
  · have hknown : ∀ id generation, c.Known id generation →
        Known { c with registry := (c.registry.rollback prepared).2 } id generation := by
      intro id generation hknown
      refine ⟨hknown.1, ?_⟩
      show ∃ w, (c.registry.rollback prepared).2.highWatermarks.get? id = some w ∧ _
      rw [hhigh]
      exact hknown.2
    refine ⟨?_, h.latest, ?_⟩
    · intro active hactive
      refine ⟨hknown _ _ ?_, nofun⟩
      have hsome : spare = some active := hspare.symm.trans hactive
      rcases hheld with hgone | ⟨hcandidate, -⟩
      · -- nothing is active, so nothing is rolled back
        have hnone : c.Holds prepared candidate none := .inl hgone
        have hnot : (c.registry.rollback prepared).2.active = none := hnone.rollback.elim id id
        rw [hspare, hsome] at hnot
        cases hnot
      · obtain ⟨hid, holder⟩ := h.active candidate hcandidate
        obtain ⟨hsame, hlt⟩ := holder active hsome
        obtain ⟨hinspect, generation, hget, hle⟩ := hid
        rw [← hsame] at hinspect hget
        exact ⟨hinspect, generation, hget, by omega⟩
    · intro request stage hmem hcurrent
      obtain ⟨hid, hbegan, -, hregistered⟩ := h.opens request stage hmem hcurrent
      exact ⟨hknown _ _ hid, hbegan, hregistered.released (.inl hspare), nofun⟩
  · exact h.forget.quietly (registry_keeps hhigh (.inr hnone))

theorem commit_keeps {result : Except String Unit} {registry : RulesOpenAuthorityRegistry}
    (heq : c.registry.commit prepared = (result, registry)) :
    Keeps added c { c with registry := registry } := by
  have hhigh := commit_highWatermarks c.registry prepared
  have hactive := commit_active c.registry prepared
  rw [heq] at hhigh hactive
  exact registry_keeps hhigh (.inl hactive)

theorem accepted_keeps (c : RulesSourceController) (id : Option String) :
    Keeps added c (retainCurrentDependencies host { c with locallyAcceptedInspectMessageId := id }) := by
  have hset : Keeps added c { c with locallyAcceptedInspectMessageId := id } :=
    Keeps.of_eq (List.nil_append _).symm (List.forall_mem_nil _) rfl rfl rfl rfl
  exact hset.trans (retainUris_keeps _ _)

theorem settle_fence (h : Fence spare c) (hheld : c.Holds prepared candidate spare)
    (accepted : Bool) (id : String) :
    Fence none (c.settleSupersededPublication host prepared accepted id) := by
  unfold settleSupersededPublication
  cases accepted with
  | false => exact rollback_fence h hheld
  | true =>
    dsimp only
    rw [if_pos rfl]
    split
    · rename_i heq
      exact h.forget.quietly (commit_keeps heq)
    · rename_i heq
      refine h.forget.quietly ((commit_keeps heq).trans ?_)
      split
      · exact accepted_keeps _ _
      · exact .refl _

theorem reportFailure_keeps (c : RulesSourceController) (task : ResolutionTask) :
    Keeps added c (
      let c := c.report .rulesSourcesSendFailed
      if !c.isResolutionCurrent task then c
      else if c.locallyAcceptedInspectMessageId ≠ some task.inspect.messageId ∧
          c.registry.active.isNone then
        c.invalidateWithoutPublication
      else c) := by
  have hreport : Keeps added c _ := report_keeps c .rulesSourcesSendFailed
  dsimp only
  split
  · exact hreport
  · split
    · exact hreport.trans (invalidate_keeps _)
    · exact hreport

theorem publicationFailed_fence (h : Fence spare c) (hheld : c.Holds prepared candidate spare) :
    Fence none (c.publicationFailed host task prepared true) := by
  unfold publicationFailed
  split
  · rw [if_pos rfl]
    exact settle_fence h hheld false _
  · rw [if_pos rfl]
    have hhigh := rollback_highWatermarks c.registry prepared
    have hrolled := rollback_fence h hheld
    refine Fence.quietly ?_ (reportFailure_keeps _ task)
    split
    · rename_i heq
      rw [heq] at hrolled
      exact hrolled
    · rename_i heq
      rw [heq] at hhigh
      exact h.forget.quietly (registry_keeps hhigh (.inr rfl))

theorem publicationFailed_keeps (c : RulesSourceController) (task : ResolutionTask)
    (prepared : ℕ) : Keeps added c (c.publicationFailed host task prepared false) := by
  unfold publicationFailed
  split
  · exact .refl c
  · exact reportFailure_keeps c task

theorem sentRulesSources_fence (h : Fence spare c) (hheld : c.Holds prepared candidate spare)
    (sent : Option Bool) : Fence none (c.sentRulesSources host task prepared sent) := by
  unfold sentRulesSources
  rcases sent with _ | sent
  · exact publicationFailed_fence h hheld
  · dsimp only
    split
    · exact settle_fence h hheld sent _
    · split
      · exact publicationFailed_fence h hheld
      · split
        · rename_i registry heq
          -- a commit that fails finds nothing active
          have hgone : Holds { c with registry := registry } prepared candidate none :=
            .inl (hheld.commit heq)
          exact publicationFailed_fence (h.forget.quietly (commit_keeps heq)) hgone
        · rename_i registry heq
          exact h.forget.quietly ((commit_keeps heq).trans (accepted_keeps _ _))

end Settle

/-- What is known stays known where the watermark of the current inspect moves up. -/
theorem Known.prepared {registry : RulesOpenAuthorityRegistry} {id current : String}
    {generation newer : ℕ} (h : c.Known id generation)
    (hcurrent : c.currentInspect.map InspectMessage.messageId = some current)
    (hnewer : ∀ old, c.registry.highWatermarks.get? current = some old → old < newer)
    (hwatermark : registry.highWatermarks.get? current = some newer) :
    id = current ∧ generation < newer ∧ Known { c with registry := registry } id generation := by
  obtain ⟨hid, old, hold, hle⟩ := h
  obtain rfl : id = current := Option.some.inj (hid.symm.trans hcurrent)
  have hlt := hnewer old hold
  exact ⟨rfl, by omega, hid, newer, hwatermark, by omega⟩

section Publish

variable {registry : RulesOpenAuthorityRegistry} {input : RuleOpenAuthorityGenerationInput}
  {state : PreparationState} {prepared : ℕ}

theorem prepared_fence (h : Fence none c)
    (hcurrent : c.currentInspect.map InspectMessage.messageId = some input.inspectMessageId)
    (hstate : Prepared c.registry input prepared registry state) :
    Fence none { c with registry := registry } := by
  refine ⟨?_, h.latest, ?_⟩
  · intro active hactive
    have hknown := (h.active active (hstate.active.symm.trans hactive)).1
    exact ⟨(hknown.prepared hcurrent hstate.newer hstate.watermark).2.2, nofun⟩
  · intro request stage hmem hopen
    obtain ⟨hknown, hbegan, hregistered, -⟩ := h.opens request stage hmem hopen
    exact ⟨(hknown.prepared hcurrent hstate.newer hstate.watermark).2.2, hbegan,
      hregistered.released (.inl hstate.active), nofun⟩

/-- The candidate is newer than whatever an open goes on with. -/
theorem activated_fence (h : Fence none c)
    (hcurrent : c.currentInspect.map InspectMessage.messageId = some input.inspectMessageId)
    (hstate : Prepared c.registry input prepared registry state)
    {active : RulesOpenAuthorityRegistry} (hactive : active.active = some state.candidate)
    (hhigh : active.highWatermarks = registry.highWatermarks) :
    Fence state.previous { c with registry := active } := by
  have hwatermark := hstate.watermark
  rw [← hhigh] at hwatermark
  have hid := hstate.inspectMessageId
  have hgeneration := hstate.rulesGeneration
  refine ⟨?_, h.latest, ?_⟩
  · intro other hother
    obtain rfl : state.candidate = other := Option.some.inj (hactive.symm.trans hother)
    refine ⟨⟨by rw [hid]; exact hcurrent, input.rulesGeneration, ?_, by omega⟩, ?_⟩
    · rw [hid]
      exact hwatermark
    · intro older hprevious
      rcases hstate.previous with hnone | hsame
      · rw [hnone] at hprevious
        cases hprevious
      · have hknown := (h.active older (hsame.symm.trans hprevious)).1
        obtain ⟨hsame, hlt, -⟩ := hknown.prepared hcurrent hstate.newer hwatermark
        exact ⟨hsame.trans hid.symm, by omega⟩
  · intro request stage hmem hopen
    obtain ⟨hknown, hbegan, hregistered, -⟩ := h.opens request stage hmem hopen
    obtain ⟨-, hlt, hknown⟩ := hknown.prepared hcurrent hstate.newer hwatermark
    refine ⟨hknown, hbegan, ?_, ?_⟩
    · intro other hother _ hsame
      obtain rfl : state.candidate = other := Option.some.inj (hactive.symm.trans hother)
      omega
    · rcases hstate.previous with hnone | hsame
      · rw [hnone]
        exact nofun
      · rw [hsame]
        exact hregistered

theorem publish_fence {sending : Sending}
    {prepared : RulesSourcesPublication.PreparedRulesSourcesPublication} (hs : Sound c)
    (h : Fence none c) (hquiet : ¬ c.Quiet)
    (hcurrent : c.currentInspect.map InspectMessage.messageId = some input.inspectMessageId)
    (hstate : Prepared c.registry input prepared.preparation registry state)
    (hid : input.inspectMessageId = prepared.payload.inspectMessageId)
    (hgeneration : input.rulesGeneration = prepared.payload.rulesGeneration) :
    Fence none (publish host { c with registry := registry } task prepared sending) := by
  have hnewer := hstate.newer
  have hwatermark := hstate.watermark
  rw [hid, hgeneration] at hnewer hwatermark
  have hhead : (inspectsOf c.log).head? = some prepared.payload.inspectMessageId := by
    obtain ⟨inspect, hinspect, heq⟩ := Option.map_eq_some_iff.1 hcurrent
    rw [hs.current inspect hinspect, heq, hid]
  have hhigh := activate_highWatermarks registry prepared.preparation
  unfold publish
  dsimp only
  split
  · rename_i registry' heq
    rw [heq] at hhigh
    have hkeeps : Keeps (fun _ _ => False) { c with registry := registry }
        { c with registry := registry' } := registry_keeps hhigh (.inl (activate_error heq))
    exact (prepared_fence h hcurrent hstate).quietly (hkeeps.trans (publicationFailed_keeps _ _ _))
  · rename_i registry' heq
    rw [heq] at hhigh
    have hactive : registry'.active = some state.candidate := by
      rcases activate_holds hstate.stored heq with hnone | ⟨hactive, -⟩
      · have hsome := activate_ok heq
        rw [hnone] at hsome
        cases hsome
      · exact hactive
    have hsound : Sound { c with registry := registry', log := .sending prepared.payload :: c.log } :=
      hs.sending hhead hnewer (hhigh ▸ hwatermark) hquiet
    have hfence := activated_fence h hcurrent hstate hactive hhigh
    have hsending : Fence state.previous
        { c with registry := registry', log := .sending prepared.payload :: c.log } :=
      hfence.quietly (note_keeps _ rfl)
    have hcalls := @calls_fence host _ sending.calls _ hsound hsending
    have hheld : Holds _ prepared.preparation state.candidate state.previous :=
      Holds.released (activate_holds hstate.stored heq) (calls_sound host sending.calls hsound).2.released
    exact sentRulesSources_fence (hcalls.quietly (note_keeps _ rfl)) hheld _

end Publish

theorem preparePublication_fence {resolution : RulesSourceResolutionBatch}
    {workspaceGeneration : ℤ} {sending : Sending} (hs : Sound c) (h : Fence none c)
    (hcurrent : ¬ (!c.isResolutionCurrent task) = true) :
    Fence none (c.preparePublication host task resolution workspaceGeneration sending) := by
  obtain ⟨inspect, hinspect, hid⟩ := current_inspect hcurrent
  have hquiet : ¬ c.Quiet := by
    intro hq
    rw [hs.silent hq] at hinspect
    cases hinspect
  have hgeneration : Keeps (fun _ _ => False) c { c with rulesGeneration := task.rulesGeneration } :=
    .of_eq (List.nil_append _).symm (List.forall_mem_nil _) rfl rfl rfl rfl
  unfold preparePublication
  dsimp only
  split
  · have hreport := hgeneration.trans (report_keeps _ .rulesSourceResolutionFailed)
    refine h.quietly (hreport.trans ?_)
    split
    · exact .refl _
    · split
      · exact invalidate_keeps _
      · exact .refl _
  · rename_i prepared registry hprepare
    obtain ⟨hpid, hpgen, input, state, hstate, hinput, hinputgen, hids⟩ :=
      RulesSourcesPublication.prepare_spec hprepare
    split
    · rename_i hnot
      exact absurd hnot hcurrent
    · have hsame : c.currentInspect.map InspectMessage.messageId = some input.inspectMessageId := by
        rw [hinspect, hinput, ← hid]
        rfl
      exact publish_fence (hs.frame (rulesGeneration_quietly c _).1) (h.quietly hgeneration) hquiet
        hsame hstate (hinput.trans hpid.symm) (hinputgen.trans hpgen.symm)

theorem continueResolution_fence {resolution : Option RulesSourceResolutionBatch}
    {answers : Answers} {sending : Sending} (hs : Sound c) (h : Fence none c) :
    Fence none (c.continueResolution host task resolution answers sending) := by
  refine Fence.quietly ?_ (endResolution_keeps _ task)
  unfold publishResolution
  dsimp only
  split
  · exact h
  · rename_i hcurrent
    have hreported : ∃ c', c' = (if resolution.isNone then c.report .rulesSourceResolutionFailed else c) ∧
        Sound c' ∧ Fence none c' ∧ ¬ (!c'.isResolutionCurrent task) = true := by
      refine ⟨_, rfl, ?_⟩
      split
      · exact ⟨hs.frame (report_quietly c _).1, h.quietly (report_keeps c _), hcurrent⟩
      · exact ⟨hs, h, hcurrent⟩
    obtain ⟨c', hc', hs', h', hcurrent'⟩ := hreported
    rw [← hc']
    split
    · exact preparePublication_fence hs' h' hcurrent'
    · exact preparePublication_fence (hs'.frame (report_quietly c' .rulesSourceResolutionFailed).1)
        (h'.quietly (report_keeps c' _)) hcurrent'

/-! ## Runs -/

theorem cursor_fence (h : Fence spare c) (position : SourcePosition) :
    Fence spare { c with log := .setPrimaryCursor position :: c.log } := by
  refine ⟨h.active, h.latest, ?_⟩
  intro request stage hmem hopen
  obtain ⟨hknown, hbegan, hregistered⟩ := h.opens request stage hmem hopen
  refine ⟨hknown, @Began.append _ _ [.setPrimaryCursor position] hbegan ?_, hregistered⟩
  intro entry hentry
  rw [List.mem_singleton.1 hentry]
  rfl

/-- The open that goes on was among those that awaited. -/
theorem continued_fence {stage : OpenStage} {outcome : OpenOutcome} (h : Fence none c)
    (hmem : Task.openRule request stage ∈ c.tasks) :
    Fence none ((c.drop (.openRule request stage)).continueOpen host request answers stage outcome) := by
  have hdrop : Keeps (fun request' _ => request' = request) c (c.drop (.openRule request stage)) :=
    drop_keeps c _
  have hsame : ∀ request' (_ : OpenStage), request' = request →
      ∃ stage', Task.openRule request' stage' ∈ c.tasks := by
    rintro _ _ rfl
    exact ⟨stage, hmem⟩
  have hdropped : Fence none (c.drop (.openRule request stage)) := h.quietly (drop_keeps c _)
  by_cases hstage : stage = .checked .afterShow true
  · subst hstage
    rcases @continueOpen_cursor (c.drop (.openRule request (.checked .afterShow true))) host answers
        request (fun _ _ => False) outcome with hkeeps | ⟨position, -, -, -, hkeeps⟩
    · exact hdropped.quietly hkeeps
    · exact (cursor_fence hdropped position).quietly hkeeps
  · refine h.keeps (hdrop.trans ?_) hsame
    exact (continueOpen_keeps stage outcome hstage).mono fun _ _ hnext => hnext.1

theorem step_fence {e : Event} (hs : Sound c) (h : Fence none c) (hstep : c.step host e = some c') :
    Fence none c' := by
  cases e with
  | call call answers =>
    cases hstep
    exact perform_fence hs h (call, answers)
  | resolved task resolution answers sending =>
    unfold step at hstep
    dsimp only at hstep
    split at hstep
    · cases hstep
      exact continueResolution_fence (hs.frame (drop_quietly c (.resolution task)).1)
        (h.quietly (drop_keeps c _))
    · cases hstep
  | continued request stage outcome answers =>
    unfold step at hstep
    dsimp only at hstep
    split at hstep
    · rename_i hmem
      cases hstep
      exact continued_fence h hmem
    · cases hstep

theorem run_fence {history : List (Transition RulesSourceController Event)}
    (hr : Run (Step host) initial history c) : Fence none c :=
  @Run.invariant_history _ _ _ _ _ _ (fun _ c => Fence none c) fence_initial
    (fun _ _ _ _ hr h hs => step_fence (run_sound hr).1 h hs) hr

end RulesSourceController

end PinOp.Rules
