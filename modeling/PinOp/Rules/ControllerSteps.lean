import PinOp.Rules.RulesSourceController

/-!
# What the code of the controller does between two awaits

`Frame` lists what any stretch of code leaves alone, apart from the calls that begin it and the
payload that it sends: what was accepted, sent and answered stays, and an open that awaits belongs
to the latest open operation. `Released` is what a call does to the registry: it may clear it.
-/

namespace PinOp.Rules

open PinOp.Lib PinOp.Protocol PinOp.Css
open PinOp.Browser (RulesOpenDeclaration)

/-! ## Reading the log -/

namespace LogEntry

/-- The calls after which nothing may happen. -/
def silences : LogEntry → Bool
  | called .documentNavigated | called .disconnect | called .clear | called .dispose => true
  | _ => false

def inspect? : LogEntry → Option String
  | called (.acceptInspect message) => some message.messageId
  | _ => none

def payload? : LogEntry → Option RulesSourcesPublicationPayload
  | sending payload => some payload
  | _ => none

def accepted? : LogEntry → Option RulesSourcesPublicationPayload
  | answered payload true => some payload
  | _ => none

/-- Sending a payload and placing the cursor. -/
def acts : LogEntry → Bool
  | sending _ | setPrimaryCursor _ | revealRange _ => true
  | _ => false

end LogEntry

/-- The inspects that were given to the controller, the newest first. -/
def inspectsOf (log : List LogEntry) : List String := log.filterMap LogEntry.inspect?

def payloadsOf (log : List LogEntry) : List RulesSourcesPublicationPayload :=
  log.filterMap LogEntry.payload?

def lastAccepted (log : List LogEntry) : Option RulesSourcesPublicationPayload :=
  log.findSome? LogEntry.accepted?

/-- The controller was silenced, and no inspect came since. -/
def silenced : List LogEntry → Bool
  | [] => false
  | entry :: before => entry.silences || (entry.inspect?.isNone && silenced before)

/-- Whatever was done was done when the controller was not silenced. -/
def WellPlaced : List LogEntry → Prop
  | [] => True
  | entry :: before => (entry.acts = true → silenced before = false) ∧ WellPlaced before

namespace RulesSourceController

variable {c c' c'' : RulesSourceController} {request : OpenRequest} {n : ℕ}

/-- Nothing is to be done any more, or not before the next inspect. -/
def Quiet (c : RulesSourceController) : Prop := silenced c.log = true ∨ c.disposed = true

/-- An open operation that is not the latest one where the controller is quiet. -/
def Placed (n : ℕ) (c : RulesSourceController) : Prop :=
  n ≤ c.openOperation ∧ (c.Quiet → n < c.openOperation)

/-! ## Frames -/

structure Frame (c c' : RulesSourceController) : Prop where
  inspects : inspectsOf c'.log = inspectsOf c.log
  payloads : payloadsOf c'.log = payloadsOf c.log
  accepted : lastAccepted c'.log = lastAccepted c.log
  silenced : silenced c'.log = silenced c.log
  wellPlaced : WellPlaced c.log → WellPlaced c'.log
  disposed : c'.disposed = c.disposed
  currentInspect : c'.currentInspect = c.currentInspect ∨ c'.currentInspect = none
  openOperation : c.openOperation ≤ c'.openOperation
  highWatermarks : c'.registry.highWatermarks = c.registry.highWatermarks
  tasks : ∀ request stage, Task.openRule request stage ∈ c'.tasks →
    .openRule request stage ∈ c.tasks ∨ c'.Placed request.openOperation

theorem Frame.quiet (h : Frame c c') : c'.Quiet ↔ c.Quiet := by
  unfold Quiet
  rw [h.silenced, h.disposed]

theorem Frame.placed (h : Frame c c') (hn : c.Placed n) : c'.Placed n := by
  have hle := h.openOperation
  refine ⟨by have := hn.1; omega, fun hquiet => ?_⟩
  have := hn.2 (h.quiet.1 hquiet)
  omega

theorem Frame.refl (c : RulesSourceController) : Frame c c :=
  ⟨rfl, rfl, rfl, rfl, id, rfl, .inl rfl, Nat.le_refl _, rfl, fun _ _ h => .inl h⟩

theorem Frame.trans (h : Frame c c') (h' : Frame c' c'') : Frame c c'' where
  inspects := h'.inspects.trans h.inspects
  payloads := h'.payloads.trans h.payloads
  accepted := h'.accepted.trans h.accepted
  silenced := h'.silenced.trans h.silenced
  wellPlaced := fun hw => h'.wellPlaced (h.wellPlaced hw)
  disposed := h'.disposed.trans h.disposed
  currentInspect := by
    rcases h'.currentInspect with heq | hnone
    · rw [heq]
      exact h.currentInspect
    · exact .inr hnone
  openOperation := Nat.le_trans h.openOperation h'.openOperation
  highWatermarks := h'.highWatermarks.trans h.highWatermarks
  tasks := by
    intro request stage hmem
    rcases h'.tasks request stage hmem with hmem | hplaced
    · exact (h.tasks request stage hmem).imp_right h'.placed
    · exact .inr hplaced

/-- The registry is as it was or it was cleared. -/
structure Released (c c' : RulesSourceController) : Prop where
  preparations : c'.registry.preparations = c.registry.preparations
  active : c'.registry.active = c.registry.active ∨ c'.registry.active = none

theorem Released.refl (c : RulesSourceController) : Released c c := ⟨rfl, .inl rfl⟩

theorem Released.trans (h : Released c c') (h' : Released c' c'') : Released c c'' := by
  refine ⟨h'.preparations.trans h.preparations, ?_⟩
  rcases h'.active with heq | hnone
  · rw [heq]
    exact h.active
  · exact .inr hnone

/-- What the parts of a call do. -/
def Quietly (c c' : RulesSourceController) : Prop := Frame c c' ∧ Released c c'

theorem Quietly.refl (c : RulesSourceController) : Quietly c c := ⟨.refl c, .refl c⟩

theorem Quietly.trans (h : Quietly c c') (h' : Quietly c' c'') : Quietly c c'' :=
  ⟨h.1.trans h'.1, h.2.trans h'.2⟩

/-! ## The parts of the operations -/

theorem report_quietly (c : RulesSourceController) (code : RulesSourceFailureCode) :
    Quietly c (c.report code) :=
  ⟨⟨rfl, rfl, rfl, rfl, fun hw => ⟨nofun, hw⟩, rfl, .inl rfl, Nat.le_refl _, rfl,
    fun _ _ h => .inl h⟩, rfl, .inl rfl⟩

theorem opened_quietly (c : RulesSourceController) (request : OpenRequest) :
    Quietly c { c with log := .opened request :: c.log } :=
  ⟨⟨rfl, rfl, rfl, rfl, fun hw => ⟨nofun, hw⟩, rfl, .inl rfl, Nat.le_refl _, rfl,
    fun _ _ h => .inl h⟩, rfl, .inl rfl⟩

theorem await_quietly (request : OpenRequest) (stage : OpenStage)
    (hplaced : c.Placed request.openOperation) : Quietly c (c.await (.openRule request stage)) := by
  refine ⟨⟨rfl, rfl, rfl, rfl, id, rfl, .inl rfl, Nat.le_refl _, rfl, ?_⟩, rfl, .inl rfl⟩
  intro request' stage' hmem
  rcases List.mem_append.1 hmem with hmem | hmem
  · exact .inl hmem
  · cases List.mem_singleton.1 hmem
    exact .inr hplaced

theorem invalidate_quietly (c : RulesSourceController) :
    Quietly c c.invalidateWithoutPublication :=
  ⟨⟨rfl, rfl, rfl, rfl, id, rfl, .inr rfl, Nat.le_succ _, rfl, fun _ _ h => .inl h⟩, rfl, .inr rfl⟩

theorem advance_quietly (c : RulesSourceController) :
    Quietly c { c with openOperation := c.openOperation + 1 } :=
  ⟨⟨rfl, rfl, rfl, rfl, id, rfl, .inl rfl, Nat.le_succ _, rfl, fun _ _ h => .inl h⟩, rfl, .inl rfl⟩

theorem resolveCurrent_quietly (c : RulesSourceController) (clearRegistry : Bool) :
    Quietly c (c.resolveCurrent clearRegistry) := by
  unfold resolveCurrent
  split
  · exact .refl c
  · split
    · exact .refl c
    · split
      · exact (report_quietly c _).trans (invalidate_quietly _)
      · have htasks : ∀ (r : RulesOpenAuthorityRegistry) (task : ResolutionTask) request stage,
            Task.openRule request stage ∈ c.tasks ++ [.resolution task] →
              .openRule request stage ∈ c.tasks ∨ Placed request.openOperation c := by
          intro r task request stage hmem
          rcases List.mem_append.1 hmem with hmem | hmem
          · exact .inl hmem
          · cases List.mem_singleton.1 hmem
        cases clearRegistry
        · exact ⟨⟨rfl, rfl, rfl, rfl, id, rfl, .inl rfl, Nat.le_refl _, rfl, htasks c.registry _⟩,
            rfl, .inl rfl⟩
        · exact ⟨⟨rfl, rfl, rfl, rfl, id, rfl, .inl rfl, Nat.le_refl _, rfl, htasks c.registry _⟩,
            rfl, .inr rfl⟩

theorem resolveAgain_quietly (c : RulesSourceController) : Quietly c c.resolveAgain :=
  (advance_quietly c).trans (resolveCurrent_quietly _ true)

theorem replaceIfCurrent_quietly (c : RulesSourceController) (id : String) (generation : ℕ) :
    Quietly c (c.replaceIfCurrent id generation) := by
  unfold replaceIfCurrent
  split
  · exact .refl c
  · split
    · exact .refl c
    · exact resolveCurrent_quietly c true

theorem failOpen_quietly (c : RulesSourceController) (authority : StoredRuleOpenAuthority)
    (code : RulesSourceFailureCode) : Quietly c (c.failOpen authority code) :=
  (report_quietly c code).trans (replaceIfCurrent_quietly _ _ _)

/-! ## Opening a rule -/

/-- Where an open is current, the controller is not quiet. -/
theorem not_quiet_of_current (hplaced : c.Placed n) (h : ¬ (!c.isOpenCurrent n) = true) :
    ¬ c.Quiet := by
  intro hquiet
  have hlt := hplaced.2 hquiet
  simp only [isOpenCurrent, Bool.and_eq_false_imp, decide_eq_false_iff_not,
    Bool.not_eq_eq_eq_not, Bool.not_true, not_forall, not_not] at h
  obtain ⟨-, heq⟩ := h
  omega

theorem cursor_quietly (entry : LogEntry) (hinspect : entry.inspect? = none)
    (hpayload : entry.payload? = none) (haccepted : entry.accepted? = none)
    (hsilences : entry.silences = false) (hquiet : ¬ c.Quiet) :
    Quietly c { c with log := entry :: c.log } := by
  refine ⟨⟨?_, ?_, ?_, ?_, fun hw => ⟨fun _ => ?_, hw⟩, rfl, .inl rfl, Nat.le_refl _, rfl,
    fun _ _ h => .inl h⟩, rfl, .inl rfl⟩
  · exact List.filterMap_cons_none hinspect
  · exact List.filterMap_cons_none hpayload
  · show List.findSome? _ _ = _
    rw [List.findSome?_cons, haccepted]
    rfl
  · show (entry.silences || (entry.inspect?.isNone && Rules.silenced c.log)) = Rules.silenced c.log
    rw [hsilences, hinspect]
    rfl
  · exact Bool.eq_false_iff.2 fun hs => hquiet (.inl hs)

section Open

variable {host : RulesSourceControllerHost} {answers : Answers}

theorem failIfCurrent_quietly (c : RulesSourceController) (n : ℕ)
    (authority : StoredRuleOpenAuthority) (code : RulesSourceFailureCode) :
    Quietly c (if !c.isOpenCurrent n then c else c.failOpen authority code) := by
  split
  · exact .refl c
  · exact failOpen_quietly c authority code

theorem placeCursor_quietly (hplaced : c.Placed request.openOperation) :
    Quietly c (c.placeCursor request answers) := by
  unfold placeCursor
  dsimp only
  split
  · exact .refl c
  · rename_i valuePosition _
    by_cases hcurrent : (!c.isOpenCurrent request.openOperation) = true
    · rw [if_pos hcurrent]
      exact .refl c
    · rw [if_neg hcurrent]
      have hquiet := not_quiet_of_current hplaced hcurrent
      have hset := cursor_quietly (.setPrimaryCursor
        (valuePosition.getD request.authority.range.start)) rfl rfl rfl rfl hquiet
      refine hset.trans ?_
      split
      · exact failIfCurrent_quietly _ _ _ _
      · split
        · exact .refl _
        · have hreveal := cursor_quietly (.revealRange
            ((valuePosition.map fun position => ⟨position, position⟩).getD request.authority.range))
            rfl rfl rfl rfl fun hq => hquiet (hset.1.quiet.1 hq)
          refine hreveal.trans ?_
          split
          · exact failIfCurrent_quietly _ _ _ _
          · exact .refl _

theorem showDocument_quietly (hplaced : c.Placed request.openOperation) :
    Quietly c (c.showDocument request answers) := by
  unfold showDocument
  split
  · exact failIfCurrent_quietly _ _ _ _
  · exact await_quietly request _ hplaced

theorem revalidated_quietly (moment : RevalidationMoment) (valid : Bool)
    (hplaced : c.Placed request.openOperation) :
    Quietly c (c.revalidated host request answers moment valid) := by
  unfold revalidated
  split
  · exact .refl c
  · cases moment with
    | beforeShow =>
      dsimp only
      split
      · exact showDocument_quietly hplaced
      · exact failOpen_quietly c _ _
    | afterShow =>
      dsimp only
      split
      · exact failOpen_quietly c _ _
      · exact placeCursor_quietly hplaced

theorem finishRevalidation_quietly (revalidation : Revalidation)
    (hplaced : c.Placed request.openOperation) :
    Quietly c (c.finishRevalidation host request answers revalidation) := by
  unfold finishRevalidation
  dsimp only
  split
  · exact .refl c
  · exact await_quietly request _ hplaced

theorem revalidateFrom_quietly (hplaced : c.Placed request.openOperation)
    (dependencies : List RuleSourceDependencySnapshot) :
    ∀ revalidation, Quietly c (c.revalidateFrom host request answers revalidation dependencies) := by
  induction dependencies with
  | nil => exact fun _ => finishRevalidation_quietly _ hplaced
  | cons dependency rest ih =>
    intro revalidation
    unfold revalidateFrom
    split
    · exact .refl c
    · dsimp only
      split
      · split
        · exact .refl c
        · exact ih _
      · exact await_quietly request _ hplaced

theorem revalidate_quietly (moment : RevalidationMoment) (hplaced : c.Placed request.openOperation) :
    Quietly c (c.revalidate host request answers moment) := by
  unfold revalidate
  split
  · exact .refl c
  · exact revalidateFrom_quietly hplaced _ _

theorem continueOpen_quietly (hplaced : c.Placed request.openOperation) (stage : OpenStage)
    (outcome : OpenOutcome) : Quietly c (c.continueOpen host request answers stage outcome) := by
  unfold continueOpen
  split
  · exact failIfCurrent_quietly _ _ _ _
  · exact failIfCurrent_quietly _ _ _ _
  · split
    · exact .refl c
    · exact revalidate_quietly _ hplaced
  · split
    · exact .refl c
    · exact revalidate_quietly _ hplaced
  · exact revalidated_quietly _ _ hplaced
  · split
    · exact .refl c
    · split
      · exact revalidateFrom_quietly hplaced _ _
      · exact revalidateFrom_quietly hplaced _ _

/-- An open that may go on belongs to an inspect, so the controller is not quiet. -/
theorem openRule_quietly (message : RulesOpenMessage) (declaration : Option RulesOpenDeclaration)
    (hquiet : c.Quiet → c.currentInspect = none) :
    Quietly c (c.openRule host message declaration answers) := by
  unfold openRule
  split
  · exact .refl c
  · refine (advance_quietly c).trans ?_
    dsimp only
    split
    · exact invalidate_quietly _
    · rename_i hinspect
      split
      · exact (report_quietly _ _).trans (invalidate_quietly _)
      · split
        · exact (report_quietly _ _).trans (replaceIfCurrent_quietly _ _ _)
        · rename_i authority _
          split
          · exact .refl _
          · exact failOpen_quietly _ _ _
          · have hplaced : Placed (c.openOperation + 1)
                { c with openOperation := c.openOperation + 1 } := by
              refine ⟨Nat.le_refl _, fun hq => ?_⟩
              have hnone := hquiet hq
              rw [hnone] at hinspect
              simp at hinspect
            refine (opened_quietly _ ⟨c.openOperation + 1, authority, message, declaration⟩).trans ?_
            split
            · exact continueOpen_quietly hplaced _ _
            · exact await_quietly _ _ hplaced

end Open

end RulesSourceController

end PinOp.Rules
