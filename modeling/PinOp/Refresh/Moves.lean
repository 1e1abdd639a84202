import Mathlib.Logic.Relation
import PinOp.Lib.Runs
import PinOp.Refresh.CoordinatorSteps

/-!
# What a step can do

Outside the queue a step is a sequence of moves: something about a panel, a participant or a
pending refresh of one tab, or about a watermark. `resume_moves` and its companions say so of
every call and every resumed task, so that what all moves keep, all these steps keep.

A strict sequence withdraws a participant only while no refresh is pending for its tab;
`Clean` says that a step does so. The watermarks are only touched as far as `marked` lets them
be: `none` stands for raising them, a window for forgetting its own.
-/

namespace PinOp.Refresh

open PinOp.Lib PinOp.Browser PinOp.Protocol

/-- A call of `setRefreshParticipant`. -/
def Observation.isParticipant : Observation → Bool
  | .participant _ _ _ => true
  | _ => false

/-- The window whose watermark the call may forget when it goes on. -/
def Call.forgets : Call → Option WindowId
  | .removeWindow windowId _ _ => some windowId
  | _ => none

def Task.forgets : Task → Option WindowId
  | .initializing _ call => call.forgets
  | .removalLoading windowId _ _ => some windowId
  | _ => none

/-- What the moves are about. -/
structure Core where
  watermarks : OrderedMap WindowId WindowWatermark
  panelWindows : OrderedMap TabId WindowId
  participantWindows : OrderedMap TabId WindowId
  pendingRefreshes : OrderedMap TabId OperationId
  terminalTabs : List TabId
  operations : List TabRefreshOperation
  nextRefresh : RefreshId
  running : Option Running

namespace TabRefreshCoordinator

variable {c c' c'' : TabRefreshCoordinator} {strict : Bool} {marked : Option WindowId → Prop}

/-! ## Frames -/

def core (c : TabRefreshCoordinator) : Core :=
  ⟨c.watermarks, c.panelWindows, c.participantWindows, c.pendingRefreshes, c.terminalTabs,
    c.operations, c.nextRefresh, c.running⟩

/-- Nothing that the moves are about changes. -/
structure Frame (c c' : TabRefreshCoordinator) : Prop where
  core : c'.core = c.core
  observed : ∃ newer, c'.observed = newer ++ c.observed ∧ ∀ o ∈ newer, o.isParticipant = true

theorem Frame.silent (h : c'.core = c.core) (ho : c'.observed = c.observed) : Frame c c' :=
  ⟨h, [], by simp [ho], by simp⟩

theorem setParticipant_frame (c : TabRefreshCoordinator) (windowId : WindowId) (tabId : TabId)
    (participant : Bool) : Frame c (c.setParticipant windowId tabId participant) :=
  ⟨rfl, [.participant windowId tabId participant], rfl, by simp [Observation.isParticipant]⟩

theorem advanceLifecycle_frame (c : TabRefreshCoordinator) (tabId : TabId) :
    Frame c (c.advanceLifecycle tabId).2 :=
  .silent rfl rfl

theorem retireLifecycle_frame (c : TabRefreshCoordinator) (tabId : TabId) (revision : ℕ) :
    Frame c (c.retireLifecycle tabId revision) := by
  unfold retireLifecycle
  split
  · exact .silent rfl rfl
  · exact .silent rfl rfl

theorem retireDetached_frame (c : TabRefreshCoordinator) (tabId : TabId) (revision : Option ℕ) :
    Frame c (c.retireDetached tabId revision) := by
  cases revision with
  | none => exact .silent rfl rfl
  | some revision => exact retireLifecycle_frame c tabId revision

theorem awaitInitialized_frame (c : TabRefreshCoordinator) (call : Call) :
    Frame c (c.awaitInitialized call) := by
  unfold awaitInitialized ensureInitialized
  split
  · rename_i heq
    split at heq <;> cases heq <;> exact .silent rfl rfl

/-! ## Moves -/

/-- A tab that opens its panel leaves the panel it had, if that is of another window. -/
def leavePanel (c : TabRefreshCoordinator) (tabId : TabId) (windowId : WindowId) :
    TabRefreshCoordinator :=
  let previousWindowId := c.currentPanelWindow tabId
  let c := if previousWindowId.isSome then c.cancelTabRefresh tabId else c
  if previousWindowId.isSome && previousWindowId ≠ some windowId then
    ((c.clearPanelWindow tabId previousWindowId).revokeIndexedParticipant tabId previousWindowId).2
  else c

/-- What `panelOpened` does at once to the windows of the tab. -/
def movePanel (c : TabRefreshCoordinator) (tabId : TabId) (windowId : WindowId) :
    TabRefreshCoordinator :=
  { c.leavePanel tabId windowId with
    panelWindows := (c.leavePanel tabId windowId).panelWindows.set tabId windowId }

/-- How every path that closes a panel does it. -/
def closePanel (c : TabRefreshCoordinator) (tabId : TabId) (expectedWindowId : Option WindowId) :
    TabRefreshCoordinator :=
  (((c.clearPanelWindow tabId expectedWindowId).cancelTabRefresh tabId).revokeIndexedParticipant
    tabId expectedWindowId).2

inductive Move (strict : Bool) (marked : Option WindowId → Prop) (c : TabRefreshCoordinator) :
    TabRefreshCoordinator → Prop
  | frame {c' : TabRefreshCoordinator} (h : Frame c c') : Move strict marked c c'
  | cancel (tabId : TabId) : Move strict marked c (c.cancelTabRefresh tabId)
  | clearPending (windowId : WindowId) : Move strict marked c (c.clearRuntimePendingForWindow windowId)
  | move (tabId : TabId) (windowId : WindowId) (h : tabId ∉ c.terminalTabs) :
    Move strict marked c (c.movePanel tabId windowId)
  | close (tabId : TabId) (expectedWindowId : Option WindowId) :
    Move strict marked c (c.closePanel tabId expectedWindowId)
  | terminate (tabId : TabId) :
    Move strict marked c (((c.markTerminalTab tabId).advanceLifecycle tabId).2.closePanel tabId none)
  | grant (tabId : TabId) (windowId : WindowId) (h : c.panelWindows.get? tabId = some windowId) :
    Move strict marked c (c.grantParticipant windowId tabId)
  | disable (tabId : TabId) (windowId : WindowId) :
    Move strict marked c ((c.cancelTabRefresh tabId).revokeIndexedParticipant tabId (some windowId)).2
  | withdraw (tabId : TabId) (windowId : WindowId)
    (h : strict = true → c.pendingRefreshes.get? tabId = none) :
    Move strict marked c (c.revokeIndexedParticipant tabId (some windowId)).2
  | raise (loaded : StoredStates) (h : marked none) :
    Move strict marked c { c with watermarks := loaded.states.foldl raiseWatermark c.watermarks }
  | forget (windowId : WindowId) (h : marked (some windowId)) :
    Move strict marked c { c with
      watermarks := c.watermarks.delete windowId
      observed := .windowRemoved windowId :: c.observed }

abbrev Moves (strict : Bool) (marked : Option WindowId → Prop) :
    TabRefreshCoordinator → TabRefreshCoordinator → Prop :=
  Relation.ReflTransGen (Move strict marked)

theorem Moves.frame (h : Moves strict marked c c') (hf : Frame c' c'') : Moves strict marked c c'' :=
  h.tail (.frame hf)

theorem Frame.moves (h : Frame c c') : Moves strict marked c c' := .single (.frame h)

theorem silent_moves (h : c'.core = c.core) (ho : c'.observed = c.observed) : Moves strict marked c c' :=
  (Frame.silent h ho).moves

/-- The common end of closing a panel: a participant that was none is told so all the same. -/
theorem notifyRevoked_moves (tabId : TabId) (windowId : WindowId) (p : Prop) [Decidable p]
    (h : Moves strict marked c c') :
    Moves strict marked c
      (match ((c'.clearPanelWindow tabId (some windowId)).cancelTabRefresh tabId)
          |>.revokeIndexedParticipant tabId (some windowId) with
        | (none, c) => if p then c.setParticipant windowId tabId false else c
        | (some _, c) => c) := by
  have hc : Moves strict marked c (c'.closePanel tabId (some windowId)) := h.tail (.close _ _)
  unfold closePanel at hc
  split
  · rename_i heq
    rw [heq] at hc
    split
    · exact hc.frame (setParticipant_frame _ _ _ _)
    · exact hc
  · rename_i heq
    rw [heq] at hc
    exact hc

theorem fenceTab_moves {windowId : WindowId} {tabId : TabId}
    {state : OrderedMap TabId ℕ × TabRefreshCoordinator} (h : Moves strict marked c state.2) :
    Moves strict marked c (fenceTab windowId state tabId).2 := by
  obtain ⟨revisions, c'⟩ := state
  simp only [fenceTab]
  split
  · exact notifyRevoked_moves tabId windowId _ (h.frame (advanceLifecycle_frame c' tabId))
  · split
    · exact notifyRevoked_moves tabId windowId _ h
    · exact h

theorem fenceWindowLifecycle_moves (c : TabRefreshCoordinator) (windowId : WindowId)
    (revisions : OrderedMap TabId ℕ) :
    Moves strict marked c (c.fenceWindowLifecycle windowId revisions).2 := by
  unfold fenceWindowLifecycle
  generalize c.tabsOfWindow windowId = tabs
  have go : ∀ state : OrderedMap TabId ℕ × TabRefreshCoordinator, Moves strict marked c state.2 →
      Moves strict marked c (tabs.foldl (fenceTab windowId) state).2 := by
    induction tabs with
    | nil => exact fun _ h => h
    | cons tabId tabs ih => exact fun state h => ih _ (fenceTab_moves h)
  exact go (revisions, c) .refl

/-! ## Calls -/

theorem panelOpened_moves (c : TabRefreshCoordinator) (tabId : TabId) (windowId : WindowId) :
    Moves strict marked c (c.panelOpened tabId windowId) := by
  unfold panelOpened
  split
  · exact .refl
  · rename_i hguard
    simp only [Bool.or_eq_true, not_or, List.contains_eq_mem, decide_eq_true_eq] at hguard
    have h : Moves strict marked c (c.movePanel tabId windowId) := .single (.move _ _ hguard.1.2)
    exact (h.frame (advanceLifecycle_frame _ tabId)).frame (awaitInitialized_frame _ _)

theorem panelClosed_moves (c : TabRefreshCoordinator) (tabId : TabId)
    (windowId : Option WindowId) : Moves strict marked c (c.panelClosed tabId windowId) := by
  simp only [panelClosed]
  split
  · exact .refl
  · split
    · exact (awaitInitialized_frame _ _).moves
    · split
      · exact (awaitInitialized_frame _ _).moves
      · rename_i currentWindowId _ _
        have h : Moves strict marked c (c.advanceLifecycle tabId).2 := (advanceLifecycle_frame _ _).moves
        have hn := notifyRevoked_moves tabId currentWindowId True h
        simp only [if_true] at hn
        split
        · exact hn.frame (.silent rfl rfl)
        · exact hn.frame (awaitInitialized_frame _ _)

theorem updateSettings_moves (c : TabRefreshCoordinator) (tabId : TabId) (windowId : WindowId)
    (settings : TabRefreshSettings) :
    Moves strict marked c (c.updateSettings tabId windowId settings) := by
  simp only [updateSettings]
  split
  · exact .refl
  · split
    · exact (awaitInitialized_frame _ _).moves
    · exact (Moves.frame (.single (.disable tabId windowId)) (awaitInitialized_frame _ _))

theorem removeTab_moves (c : TabRefreshCoordinator) (tabId : TabId) :
    Moves strict marked c (c.removeTab tabId) := by
  unfold removeTab
  split
  · exact .refl
  · exact Moves.frame (.single (.terminate tabId)) (.silent rfl rfl)

theorem detachTab_moves (c : TabRefreshCoordinator) (tabId : TabId) (windowId : WindowId) :
    Moves strict marked c (c.detachTab tabId windowId) := by
  simp only [detachTab]
  split
  · exact .refl
  · split
    · exact (awaitInitialized_frame _ _).moves
    · have h : Moves strict marked c (c.advanceLifecycle tabId).2 := (advanceLifecycle_frame _ _).moves
      have hn := notifyRevoked_moves tabId windowId True h
      simp only [if_true] at hn
      exact hn.frame (awaitInitialized_frame _ _)

theorem removeWindow_moves (c : TabRefreshCoordinator) (windowId : WindowId) :
    Moves strict marked c (c.removeWindow windowId) := by
  simp only [removeWindow]
  split
  · exact .refl
  · have hf : Moves strict marked c _ := fenceWindowLifecycle_moves c windowId ∅
    generalize c.fenceWindowLifecycle windowId ∅ = fenced at hf ⊢
    have hr : Frame fenced.2 { fenced.2 with nextRemoval := fenced.2.nextRemoval + 1 } :=
      .silent rfl rfl
    have ha := (hf.frame hr).frame
      (awaitInitialized_frame _ (.removeWindow windowId fenced.2.nextRemoval fenced.1))
    exact ha.frame (.silent rfl rfl)

theorem beginWindowEpoch_moves (c : TabRefreshCoordinator) (windowId : WindowId) :
    Moves strict marked c (c.beginWindowEpoch windowId) := by
  unfold beginWindowEpoch
  split
  · exact .refl
  · exact Moves.frame (.single (.clearPending windowId)) (awaitInitialized_frame _ _)

theorem clearWindowPending_moves (c : TabRefreshCoordinator) (windowId : WindowId) :
    Moves strict marked c (c.clearWindowPending windowId) := by
  unfold clearWindowPending
  split
  · exact .single (.clearPending windowId)
  · exact .refl

theorem settleInitialization_moves (c : TabRefreshCoordinator) (attempt : AttemptId)
    (loaded : Option StoredStates) (h : marked none) :
    Moves strict marked c (c.settleInitialization attempt loaded) := by
  cases loaded with
  | none => exact silent_moves rfl rfl
  | some loaded => exact Moves.frame (.single (.raise loaded h)) (.silent rfl rfl)

/-! ## Tasks -/

theorem panelFailed_moves (c : TabRefreshCoordinator) (tabId : TabId) (windowId : WindowId)
    (revision : ℕ) : Moves strict marked c (c.panelFailed tabId windowId revision) := by
  unfold panelFailed
  split
  · exact .refl
  · have h : Moves strict marked c (c.closePanel tabId (some windowId)) := .single (.close _ _)
    exact h.frame (retireLifecycle_frame _ _ _)

/-- The panel update withdraws the participant of the tab. -/
def panelWithdraws (c : TabRefreshCoordinator) (tabId : TabId) (windowId : WindowId)
    (revision : ℕ) (updated : Option TabRefreshState) : Bool :=
  c.isCurrentPanelLifecycle tabId windowId revision &&
    !(updated.getD (createDefaultTabRefreshState tabId windowId)).autoRefreshEnabled

/-- The settings update withdraws the participant of the tab. -/
def settingsWithdraws (c : TabRefreshCoordinator) (tabId : TabId) (windowId : WindowId)
    (settings : TabRefreshSettings) (revision : ℕ) : Bool :=
  c.isCurrentPanelLifecycle tabId windowId revision && !settings.autoRefreshEnabled

theorem panelWindow_of_current {tabId : TabId} {windowId : WindowId} {revision : ℕ}
    (h : c.isCurrentPanelLifecycle tabId windowId revision = true) :
    c.panelWindows.get? tabId = some windowId ∧ tabId ∉ c.terminalTabs := by
  simp only [isCurrentPanelLifecycle, Bool.and_eq_true, decide_eq_true_eq, Bool.not_eq_true',
    List.contains_eq_mem, decide_eq_false_iff_not] at h
  exact ⟨h.1.1.2, h.1.2⟩

theorem panelUpdated_moves {tabId : TabId} {windowId : WindowId} {revision : ℕ}
    {updated : Option TabRefreshState}
    (h : strict = true → c.panelWithdraws tabId windowId revision updated = true →
      c.pendingRefreshes.get? tabId = none) :
    Moves strict marked c (c.panelUpdated tabId windowId revision updated) := by
  simp only [panelUpdated]
  split
  · exact .refl
  · rename_i hcur
    simp only [Bool.not_eq_true', Bool.not_eq_false] at hcur
    split
    · exact .single (.grant _ _ (panelWindow_of_current hcur).1)
    · rename_i hauto
      refine .single (.withdraw _ _ fun hs => h hs ?_)
      simp only [panelWithdraws, hcur, Bool.true_and, Bool.not_eq_true']
      exact Bool.not_eq_true _ ▸ hauto

theorem settingsUpdated_moves {tabId : TabId} {windowId : WindowId}
    {settings : TabRefreshSettings} {revision : ℕ} {succeeded : Bool}
    (h : strict = true → c.settingsWithdraws tabId windowId settings revision = true →
      c.pendingRefreshes.get? tabId = none) :
    Moves strict marked c (c.settingsUpdated tabId windowId settings revision succeeded) := by
  simp only [settingsUpdated]
  split
  · rename_i hw
    have hm : Moves strict marked c (c.revokeIndexedParticipant tabId (some windowId)).2 := by
      refine .single (.withdraw _ _ fun hs => h hs ?_)
      rw [settingsWithdraws, Bool.and_comm]
      exact hw
    split
    · rename_i hg
      simp only [Bool.and_eq_true] at hg
      exact hm.tail (.grant _ _ (panelWindow_of_current hg.1.2).1)
    · exact hm
  · split
    · rename_i hg
      simp only [Bool.and_eq_true] at hg
      exact .single (.grant _ _ (panelWindow_of_current hg.1.2).1)
    · exact .refl

theorem finishWindowRemoval_moves (c : TabRefreshCoordinator) (windowId : WindowId)
    (removal : RemovalId) (revisions : OrderedMap TabId ℕ) (h : marked (some windowId)) :
    Moves strict marked c (c.finishWindowRemoval windowId removal revisions) := by
  unfold finishWindowRemoval
  have go : ∀ (entries : List (TabId × ℕ)) (c' : TabRefreshCoordinator), Moves strict marked c c' →
      Moves strict marked c (entries.foldl (fun c entry => c.retireLifecycle entry.1 entry.2) c') := by
    intro entries
    induction entries with
    | nil => exact fun _ h => h
    | cons entry entries ih => exact fun c' h => ih _ (h.frame (retireLifecycle_frame _ _ _))
  exact (go _ _ (.single (.forget windowId h))).frame (.silent rfl rfl)

theorem resumeInitialized_moves (c : TabRefreshCoordinator) (call : Call) (succeeded : Bool)
    (h : ∀ windowId, call.forgets = some windowId → marked (some windowId)) :
    Moves strict marked c (c.resumeInitialized call succeeded) := by
  cases call with
  | initializeOnly => exact .refl
  | panelOpened tabId windowId revision =>
    simp only [resumeInitialized]
    split
    · exact silent_moves rfl rfl
    · exact panelFailed_moves _ _ _ _
  | panelClosed tabId revision =>
    simp only [resumeInitialized]
    split
    · exact silent_moves rfl rfl
    · exact (retireLifecycle_frame _ _ _).moves
  | updateSettings tabId windowId settings revision =>
    simp only [resumeInitialized]
    split
    · exact silent_moves rfl rfl
    · exact .refl
  | acceptPageRefresh windowId incoming onTabCompleted =>
    simp only [resumeInitialized]
    split
    · exact silent_moves rfl rfl
    · exact .refl
  | beginWindowEpoch windowId =>
    simp only [resumeInitialized]
    split
    · exact silent_moves rfl rfl
    · exact .refl
  | activateTab tabId windowId =>
    simp only [resumeInitialized]
    split
    · exact silent_moves rfl rfl
    · exact .refl
  | detachTab tabId revision =>
    simp only [resumeInitialized]
    split
    · exact silent_moves rfl rfl
    · exact (retireDetached_frame _ _ _).moves
  | removeWindow windowId removal revisions =>
    simp only [resumeInitialized]
    split
    · exact (fenceWindowLifecycle_moves c windowId revisions).frame (.silent rfl rfl)
    · exact finishWindowRemoval_moves _ _ _ _ (h windowId rfl)

/-- The task, resumed so, would withdraw the participant of the tab. -/
def withdraws (c : TabRefreshCoordinator) (task : Task) (outcome : Outcome) : Option TabId :=
  match task, outcome with
  | .panelUpdating tabId windowId revision (some updated), .resolved =>
    if c.panelWithdraws tabId windowId revision updated then some tabId else none
  | .settingsUpdating tabId windowId settings revision (some _), .resolved =>
    if c.settingsWithdraws tabId windowId settings revision then some tabId else none
  | .settingsUpdating tabId windowId settings revision _, .rejected =>
    if c.settingsWithdraws tabId windowId settings revision then some tabId else none
  | _, _ => none

theorem resume_moves {task : Task} {outcome : Outcome}
    (h : c.resume task outcome = some c')
    (hw : strict = true → ∀ tabId, c.withdraws task outcome = some tabId →
      c.pendingRefreshes.get? tabId = none)
    (hm : ∀ windowId, task.forgets = some windowId → marked (some windowId)) :
    Moves strict marked c c' := by
  unfold resume at h
  split at h
  · simp only [Option.map_eq_some_iff] at h
    obtain ⟨succeeded, -, rfl⟩ := h
    exact resumeInitialized_moves _ _ _ hm
  · cases h
    exact silent_moves rfl rfl
  · cases h
    refine panelUpdated_moves fun hs hp => hw hs _ ?_
    simp [withdraws, hp]
  · cases h
    exact panelFailed_moves _ _ _ _
  · cases h
    exact silent_moves rfl rfl
  · cases h
    refine settingsUpdated_moves fun hs hp => hw hs _ ?_
    simp [withdraws, hp]
  · cases h
    refine settingsUpdated_moves fun hs hp => hw hs _ ?_
    simp [withdraws, hp]
  · split at h
    · cases h
      exact silent_moves rfl rfl
    · cases h
  · cases h
    exact (retireLifecycle_frame _ _ _).moves
  · cases h
    exact (retireLifecycle_frame _ _ _).moves
  · cases h
    exact (retireLifecycle_frame _ _ _).moves
  · cases h
    exact (retireLifecycle_frame _ _ _).moves
  · cases h
    exact (retireDetached_frame _ _ _).moves
  · cases h
    exact (retireDetached_frame _ _ _).moves
  · cases h
    exact finishWindowRemoval_moves _ _ _ _ (hm _ rfl)
  · cases h
    exact finishWindowRemoval_moves _ _ _ _ (hm _ rfl)
  · cases h
    unfold clearWindowRemoval
    split
    · exact silent_moves rfl rfl
    · exact .refl
  · cases h

/-! ## Steps -/

/-- What the step may do to the watermarks: raise them, or forget that of a window. -/
def mark? (c : TabRefreshCoordinator) : Action → Option (Option WindowId)
  | .settleInitialization _ _ => some none
  | .resume index _ => (c.tasks[index]?.bind Task.forgets).map some
  | _ => none

/-- The step withdraws no participant while a refresh is pending for its tab. -/
def Clean (c : TabRefreshCoordinator) : Action → Bool
  | .resume index outcome =>
    (c.tasks[index]?.bind fun task => c.withdraws task outcome).all fun tabId =>
      (c.pendingRefreshes.get? tabId).isNone
  | _ => true

theorem Clean.pending {index : ℕ} {outcome : Outcome} {task : Task} {tabId : TabId}
    (h : c.Clean (.resume index outcome) = true) (ht : c.tasks[index]? = some task)
    (hw : c.withdraws task outcome = some tabId) : c.pendingRefreshes.get? tabId = none := by
  simpa [Clean, ht, hw] using h

/-- A step is a sequence of moves, or one of the queue. -/
theorem apply_cases {action : Action} (h : c.apply action = some c')
    (hw : strict = true → c.Clean action = true)
    (hm : ∀ mark, c.mark? action = some mark → marked mark) :
    Moves strict marked c c' ∨
      (∃ operation queue, action = .begin ∧ c.running = none ∧ c.queue = operation :: queue ∧
        c' = { c with queue := queue }.begin operation) ∨
      ∃ point outcome, action = .proceed outcome ∧ c.running = some point ∧
        c.proceed point outcome = some c' := by
  cases action with
  | initializeOnly => cases h; exact .inl (awaitInitialized_frame _ _).moves
  | panelOpened tabId windowId => cases h; exact .inl (panelOpened_moves _ _ _)
  | panelClosed tabId windowId => cases h; exact .inl (panelClosed_moves _ _ _)
  | updateSettings tabId windowId settings => cases h; exact .inl (updateSettings_moves _ _ _ _)
  | acceptPageRefresh windowId message onTabCompleted =>
    cases h
    unfold acceptPageRefresh
    split
    · exact .inl .refl
    · exact .inl (awaitInitialized_frame _ _).moves
  | beginWindowEpoch windowId => cases h; exact .inl (beginWindowEpoch_moves _ _)
  | clearWindowPending windowId => cases h; exact .inl (clearWindowPending_moves _ _)
  | activateTab tabId windowId => cases h; exact .inl (awaitInitialized_frame _ _).moves
  | removeTab tabId => cases h; exact .inl (removeTab_moves _ _)
  | detachTab tabId windowId => cases h; exact .inl (detachTab_moves _ _ _)
  | removeWindow windowId => cases h; exact .inl (removeWindow_moves _ _)
  | settleInitialization attempt loaded =>
    simp only [apply] at h
    split at h
    · cases h
      exact .inl (settleInitialization_moves _ _ _ (hm _ rfl))
    · cases h
  | resume index outcome =>
    simp only [apply] at h
    split at h
    · cases h
    · rename_i task htask
      have hf : Moves strict marked c { c with tasks := c.tasks.eraseIdx index } :=
        silent_moves rfl rfl
      refine .inl (hf.trans (resume_moves h (fun hs _ hd => ?_) fun windowId hforgets => ?_))
      · exact Clean.pending (c := c) (hw hs) htask hd
      · exact hm _ (by simp [mark?, htask, hforgets])
  | begin =>
    simp only [apply] at h
    split at h
    · rename_i operation queue hr hq
      cases h
      exact .inr (.inl ⟨operation, queue, rfl, hr, hq, rfl⟩)
    · cases h
  | proceed outcome =>
    simp only [apply, Option.bind_eq_some_iff] at h
    obtain ⟨point, hr, h⟩ := h
    exact .inr (.inr ⟨point, outcome, rfl, hr, h⟩)

end TabRefreshCoordinator

end PinOp.Refresh
