import PinOp.Refresh.RefreshSafety
import PinOp.Refresh.TabRefreshStateStore

/-!
# Removed tabs

Once a tab is terminal it has no panel, takes part in nothing and has no pending refresh, and
only one thing can store a row of it again: the updater of an `updateSettings` call whose
revision is the current one. After the removal that is the revision `0` of a tab without a
lifecycle, which a call reads before a panel is opened as well as after the tab is gone.
-/

namespace PinOp.Refresh

open PinOp.Lib PinOp.Browser PinOp.Protocol

namespace TabRefreshCoordinator

variable {c c' : TabRefreshCoordinator} {tabId : TabId}

/-- The tab is terminal, and nothing of it is left. -/
structure Gone (c : TabRefreshCoordinator) (tabId : TabId) : Prop where
  terminal : tabId ∈ c.terminalTabs
  panel : c.panelWindows.get? tabId = none
  participant : c.participantWindows.get? tabId = none
  pending : c.pendingRefreshes.get? tabId = none

theorem TabFrame.gone (h : TabFrame tabId c c') (hg : Gone c tabId) : Gone c' tabId := by
  refine ⟨h.terminal.mpr hg.terminal, h.panel.trans hg.panel, h.participant.trans hg.participant, ?_⟩
  cases hp : c'.pendingRefreshes.get? tabId with
  | none => rfl
  | some i =>
    have := h.pending i hp
    rw [hg.pending] at this
    cases this

theorem Gone.not_current (hg : Gone c tabId) (windowId : WindowId) (revision : ℕ) :
    c.isCurrentPanelLifecycle tabId windowId revision = false := by
  simp [isCurrentPanelLifecycle, hg.panel]

/-! ## Moves -/

theorem Gone.closePanel (hg : Gone c tabId) (expectedWindowId : Option WindowId) :
    c.closePanel tabId expectedWindowId = c := by
  simp [TabRefreshCoordinator.closePanel, clearPanelWindow, cancelTabRefresh,
    revokeIndexedParticipant, hg.panel, hg.pending, hg.participant]

theorem Gone.cancel (hg : Gone c tabId) : c.cancelTabRefresh tabId = c := by
  simp [cancelTabRefresh, hg.pending]

theorem Gone.revoke (hg : Gone c tabId) (expectedWindowId : Option WindowId) :
    (c.revokeIndexedParticipant tabId expectedWindowId).2 = c := by
  simp [revokeIndexedParticipant, hg.participant]

/-- The tab that is removed is gone at once. -/
theorem terminate_gone (inv : OperationsInvariant c) (tabId : TabId) :
    Gone (((c.markTerminalTab tabId).advanceLifecycle tabId).2.closePanel tabId none) tabId := by
  have hf : OperationsFrame c ((c.markTerminalTab tabId).advanceLifecycle tabId).2 :=
    .silent rfl rfl rfl rfl rfl
  have inv := inv.frame hf
  have ht : tabId ∈ ((c.markTerminalTab tabId).advanceLifecycle tabId).2.terminalTabs :=
    List.mem_cons_self
  generalize ((c.markTerminalTab tabId).advanceLifecycle tabId).2 = d at inv ht
  have hclear : (d.clearPanelWindow tabId none).terminalTabs = d.terminalTabs := by
    unfold clearPanelWindow
    split
    · rfl
    · rfl
  have hcancel := cancelTabRefresh_tabFrame (d.clearPanelWindow tabId none) tabId tabId
  have hpend := (inv.frame (clearPanelWindow_operationsFrame d tabId none)).pending_cancel tabId
  have hrest := revoke_rest ((d.clearPanelWindow tabId none).cancelTabRefresh tabId) tabId none
  refine ⟨?_, ?_, ?_, ?_⟩
  · have hrevoke (e : TabRefreshCoordinator) :
        (e.revokeIndexedParticipant tabId none).2.terminalTabs = e.terminalTabs := by
      unfold revokeIndexedParticipant
      split
      · rfl
      · rfl
    rw [TabRefreshCoordinator.closePanel, hrevoke]
    exact hcancel.terminal.mpr (hclear ▸ ht)
  · rw [TabRefreshCoordinator.closePanel, hrest.1, hcancel.panel, get?_clearPanel]
    simp
  · rw [TabRefreshCoordinator.closePanel, get?_revoke]
    simp
  · rw [TabRefreshCoordinator.closePanel, hrest.2, hpend]

theorem Gone.move {strict : Bool} {marked : Option WindowId → Prop} (inv : OperationsInvariant c)
    (hg : Gone c tabId) (h : Move strict marked c c') : Gone c' tabId := by
  cases h with
  | frame h => exact (h.tabFrame tabId).gone hg
  | cancel tabId' => exact (cancelTabRefresh_tabFrame c tabId' tabId).gone hg
  | clearPending windowId => exact (clearRuntimePendingForWindow_tabFrame c windowId tabId).gone hg
  | move tabId' windowId ht =>
    have he : tabId ≠ tabId' := by
      rintro rfl
      exact ht hg.terminal
    refine ((leavePanel_tabFrame he c windowId).trans ?_).gone hg
    exact .same (by simp [movePanel, he]) rfl rfl rfl rfl
  | close tabId' expectedWindowId =>
    by_cases he : tabId = tabId'
    · subst he
      rw [hg.closePanel]
      exact hg
    · exact (closePanel_tabFrame he c).gone hg
  | terminate tabId' =>
    by_cases he : tabId = tabId'
    · subst he
      exact terminate_gone inv tabId
    · have hg : Gone ((c.markTerminalTab tabId').advanceLifecycle tabId').2 tabId :=
        ⟨List.mem_cons_of_mem _ hg.terminal, hg.panel, hg.participant, hg.pending⟩
      exact (closePanel_tabFrame he _).gone hg
  | grant tabId' windowId hpanel =>
    have he : tabId ≠ tabId' := by
      rintro rfl
      rw [hg.panel] at hpanel
      cases hpanel
    exact (grantParticipant_tabFrame he c windowId).gone hg
  | disable tabId' windowId =>
    by_cases he : tabId = tabId'
    · subst he
      rw [hg.cancel, hg.revoke]
      exact hg
    · exact ((cancelTabRefresh_tabFrame c tabId' tabId).trans
        (revokeIndexedParticipant_tabFrame he _)).gone hg
  | withdraw tabId' windowId hpend =>
    by_cases he : tabId = tabId'
    · subst he
      rw [hg.revoke]
      exact hg
    · exact (revokeIndexedParticipant_tabFrame he c).gone hg
  | raise loaded => exact ⟨hg.terminal, hg.panel, hg.participant, hg.pending⟩
  | forget windowId => exact ⟨hg.terminal, hg.panel, hg.participant, hg.pending⟩

/-! ## The queue -/

/-- A tab that is staged takes part, which one that is gone does not. -/
theorem stageTab_gone {r : AcceptedRefresh} {activeTabId : Option TabId} {stage : Stage}
    {state : Option (TabId × OperationId) × TabRefreshCoordinator} (hg : Gone state.2 tabId) :
    Gone (stageTab r activeTabId state stage).2 tabId := by
  obtain ⟨active, c⟩ := state
  have hcancel : Gone (c.cancelTabRefresh stage.tabId) tabId :=
    (cancelTabRefresh_tabFrame c stage.tabId tabId).gone hg
  simp only [stageTab]
  split
  · exact hcancel
  · split
    · exact hcancel
    · rename_i htakes
      generalize c.cancelTabRefresh stage.tabId = d at hcancel htakes
      have he : tabId ≠ stage.tabId := by
        rintro rfl
        simp [takesPart, hcancel.not_current] at htakes
      refine ⟨hcancel.terminal, hcancel.panel, hcancel.participant, ?_⟩
      simpa [he] using hcancel.pending

theorem stageAll_gone {r : AcceptedRefresh} {activeTabId : Option TabId} {stages : List Stage}
    (hg : Gone c tabId) : Gone (c.stageAll r activeTabId stages) tabId := by
  have hfold : ∀ state : Option (TabId × OperationId) × TabRefreshCoordinator,
      Gone state.2 tabId → Gone (stages.foldl (stageTab r activeTabId) state).2 tabId := by
    induction stages with
    | nil => exact fun _ h => h
    | cons stage stages ih => exact fun state h => ih _ (stageTab_gone h)
  have hstate := hfold (none, c) hg
  simp only [stageAll]
  generalize stages.foldl (stageTab r activeTabId) (none, c) = state at hstate
  obtain ⟨active, d⟩ := state
  cases active with
  | none => exact ⟨hstate.terminal, hstate.panel, hstate.participant, hstate.pending⟩
  | some active => exact (dispatch_steady d active.1 active.2 (some r) tabId).gone hstate

theorem commitNext_gone {r : AcceptedRefresh} {previousWatermark : Option WindowWatermark}
    {activeTabId : Option TabId} {rest : List TabRefreshState}
    {commits : List RefreshAdmissionCommit} {stages : List Stage} (hg : Gone c tabId) :
    Gone (c.commitNext r previousWatermark activeTabId rest commits stages) tabId := by
  cases rest with
  | nil => exact stageAll_gone hg
  | cons snapshot rest => exact ⟨hg.terminal, hg.panel, hg.participant, hg.pending⟩

/-- The step lemma. -/
theorem Gone.apply {action : Action} (inv : OperationsInvariant c) (hg : Gone c tabId)
    (h : c.apply action = some c') : Gone c' tabId := by
  have hcases : Moves false (fun _ => True) c c' ∨ _ := apply_cases h (fun hs => by cases hs) fun _ _ => trivial
  rcases hcases with hm | ⟨operation, queue, -, -, -, rfl⟩ | ⟨point, outcome, -, -, hp⟩
  · have hboth : OperationsInvariant c' ∧ Gone c' tabId := by
      clear h
      induction hm with
      | refl => exact ⟨inv, hg⟩
      | tail _ hmove ih => exact ⟨ih.1.move hmove, ih.2.move ih.1 hmove⟩
    exact hboth.2
  · have hg : Gone { c with queue := queue } tabId :=
      ⟨hg.terminal, hg.panel, hg.participant, hg.pending⟩
    exact (begin_steady _ operation tabId).gone hg
  · rcases proceed_cases hp with hs | ⟨r, previous, active, rest, commits, stages, rfl⟩
    · exact (hs tabId).gone hg
    · exact commitNext_gone hg

theorem removeTab_gone (inv : OperationsInvariant c) (hv : validIdentity tabId 0 = true) :
    Gone (c.removeTab tabId) tabId := by
  have hg := terminate_gone inv tabId
  simp only [removeTab, hv, Bool.not_true, Bool.false_eq_true, if_false]
  exact ⟨hg.terminal, hg.panel, hg.participant, hg.pending⟩

/-- No updater stores a row of a tab that is gone and has none, unless it is one of
`updateSettings` with the current revision. -/
theorem Gone.candidate {action : Action} {updater : Option TabRefreshState → Option TabRefreshState}
    (hg : Gone c tabId) (h : c.update? action = some (tabId, updater))
    (hs : ∀ index current windowId settings revision,
      action = .resume index (.updating current) →
        c.tasks[index]? = some (.settingsUpdating tabId windowId settings revision none) →
          c.isCurrentLifecycle tabId revision = false) : updater none = none := by
  unfold update? at h
  split at h
  · split at h
    · cases h
      simp [panelUpdate, hg.not_current]
    · rename_i ht
      cases h
      simp [settingsUpdate, hs _ _ _ _ _ rfl ht]
    · cases h
  · split at h
    · cases h
      rfl
    · simp only [Option.map_eq_some_iff] at h
      obtain ⟨commit, -, h⟩ := h
      cases h
      rfl
    · cases h
      rfl
    · cases h
  · cases h

end TabRefreshCoordinator

namespace StoredRefreshes

open TabRefreshCoordinator (Gone)

variable {w w' : StoredRefreshes} {tabId : TabId}

/-! ## Rows -/

/-- The step runs the updater of an `updateSettings` call for the tab whose revision is the current
one. -/
def updatesSettings (w : StoredRefreshes) (tabId : TabId) (event : Event) : Bool :=
  match event.1 with
  | .resume index (.updating _) =>
    match w.coordinator.tasks[index]? with
    | some (.settingsUpdating updated _ _ revision none) =>
      updated = tabId && w.coordinator.isCurrentLifecycle tabId revision
    | _ => false
  | _ => false

/-- `removeTab` of the tab settles, and the store has removed the row. -/
def settlesRemoval (w : StoredRefreshes) (tabId : TabId) (event : Event) : Bool :=
  w.coordinator.removal? event.1 = some (tabId, true)

theorem row_stored (hg : Gone w.coordinator tabId) (hrow : w.rows.row tabId = none) {event : Event}
    (hs : w.updatesSettings tabId event = false) :
    (w.stored event.1 event.2).1.row tabId = none := by
  obtain ⟨action, lands⟩ := event
  simp only [stored]
  split
  · rename_i updated updater hu
    split
    · rename_i hlands
      simp only [Bool.and_eq_true] at hlands
      by_cases he : updated = tabId
      · subst he
        rw [hrow, hg.candidate hu ?_]
        · exact hrow
        · rintro index current windowId settings revision rfl ht
          simpa [updatesSettings, ht] using hs
      · cases hcand : updater (w.rows.row updated) with
        | none => exact hrow
        | some durable =>
          have hd : durable.tabId = updated := by simpa [hcand] using hlands.2
          have hne : tabId ≠ durable.tabId := fun h => he (h.trans hd).symm
          rcases StoredStates.row_write_of_ne hne with hr | hr
          · exact hr.trans hrow
          · exact hr
    · exact hrow
  · split
    · exact StoredStates.row_remove_of_none _ hrow
    · exact hrow
  · exact hrow

theorem row_removed {event : Event} (h : w.settlesRemoval tabId event = true) :
    (w.stored event.1 event.2).1.row tabId = none := by
  obtain ⟨action, lands⟩ := event
  simp only [settlesRemoval, decide_eq_true_eq] at h
  have hu : w.coordinator.update? action = none := by
    unfold TabRefreshCoordinator.removal? at h
    split at h
    · rfl
    · rfl
    · cases h
  simp only [stored, hu, h, Bool.true_or, if_true]
  exact StoredStates.row_remove _ _

/-! ## Runs -/

/-- Nothing of the tab is left or stored, and its panel does not open. -/
structure Removed (w : StoredRefreshes) (tabId : TabId) : Prop where
  row : w.rows.row tabId = none
  participant : w.coordinator.participantWindows.get? tabId = none
  pending : w.coordinator.pendingRefreshes.get? tabId = none
  panelOpened : ∀ windowId, w.coordinator.panelOpened tabId windowId = w.coordinator

theorem removed_of_gone (hg : Gone w.coordinator tabId) (hrow : w.rows.row tabId = none) :
    Removed w tabId := by
  refine ⟨hrow, hg.participant, hg.pending, fun windowId => ?_⟩
  simp [TabRefreshCoordinator.panelOpened, hg.terminal]

/-- The run lemma: a tab that is gone stays so. -/
theorem gone_of_run {rows : StoredStates} {w₀ : StoredRefreshes} {h₀ h : Trace}
    (run₀ : Run Step (start rows) h₀ w₀) (hg : Gone w₀.coordinator tabId) (run : Run Step w₀ h w) :
    Gone w.coordinator tabId := by
  induction run with
  | start => exact hg
  | next run hs ih =>
    obtain ⟨h', hrun⟩ := run_coordinator (run₀.trans run)
    exact ih.apply (.of_run hrun) hs.coordinator.2.1

/-- In every run: once `removeTab` has been called for the tab and has settled, the tab is removed
in every state since, as long as no updater of an `updateSettings` call for it runs with its
revision the current one. -/
theorem removedTabStaysRemoved {rows : StoredStates} {before between since : Trace}
    {call settled : Transition StoredRefreshes Event}
    (run : Run Step (start rows) (since ++ settled :: (between ++ call :: before)) w)
    (hcall : call.event.1 = .removeTab tabId) (hv : validIdentity tabId 0 = true)
    (hsettled : settled.pre.settlesRemoval tabId settled.event = true)
    (hclean : ∀ t ∈ since, t.pre.updatesSettings tabId t.event = false) : Removed w tabId := by
  obtain ⟨run₁, hs₁, run₂⟩ := run.split
  obtain ⟨run₀, hs₀, run₁'⟩ := run₁.split
  -- the tab is gone from the call on
  have hgone : Gone call.post.coordinator tabId := by
    obtain ⟨h', hrun⟩ := run_coordinator run₀
    have ha := hs₀.coordinator.2.1
    rw [hcall] at ha
    rw [← Option.some.inj ha]
    exact TabRefreshCoordinator.removeTab_gone (.of_run hrun) hv
  have hpre := gone_of_run (run₀.next hs₀) hgone run₁'
  have hpost := gone_of_run run₁ hpre (Run.start.next hs₁)
  have hrow : settled.post.rows.row tabId = none := by
    rw [hs₁.coordinator.2.2]
    exact row_removed hsettled
  -- and without a row from the end of the removal on
  have hfinal : w.rows.row tabId = none := by
    have hruns := run₁.next hs₁
    clear run run₁'
    induction run₂ with
    | start => exact hrow
    | next run₂ hs ih =>
      have hprev := ih fun t ht => hclean t (List.mem_cons_of_mem _ ht)
      rw [hs.coordinator.2.2]
      exact row_stored (gone_of_run hruns hpost run₂) hprev (hclean _ List.mem_cons_self)
  exact removed_of_gone (gone_of_run (run₁.next hs₁) hpost run₂) hfinal

/-! ## Two runs -/

/-- The tab is removed, and its panel is opened too late. -/
def removingEvents : List Event := [(.removeTab 11, true), (.resume 0 .resolved, true)]

theorem removedTabStaysRemoved_sample : ∃ w w',
    removingEvents.foldlM (fun w event => w.apply event.1 event.2)
      (start TabRefreshCoordinator.sampleRows) = some w ∧
    w.apply (.panelOpened 11 7) true = some w' ∧ Removed w' 11 := by
  have hruns : ∃ w₁ w₂ w₃,
      (start TabRefreshCoordinator.sampleRows).apply (.removeTab 11) true = some w₁ ∧
      w₁.apply (.resume 0 .resolved) true = some w₂ ∧
      w₂.apply (.panelOpened 11 7) true = some w₃ ∧
      w₁.settlesRemoval 11 (.resume 0 .resolved, true) = true := by
    refine ⟨_, _, _, rfl, (Option.some_get (by decide +kernel)).symm,
      (Option.some_get (by decide +kernel)).symm, ?_⟩
    decide +kernel
  obtain ⟨w₁, w₂, w₃, h₁, h₂, h₃, hs⟩ := hruns
  refine ⟨w₂, w₃, ?_, h₃, ?_⟩
  · simp [removingEvents, h₁, h₂]
  have hs₁ : Step (start TabRefreshCoordinator.sampleRows) (.removeTab 11, true) w₁ := h₁
  have hs₂ : Step w₁ (.resume 0 .resolved, true) w₂ := h₂
  have hs₃ : Step w₂ (.panelOpened 11 7, true) w₃ := h₃
  have hclean : ∀ t ∈ ([⟨w₂, (.panelOpened 11 7, true), w₃⟩] : Trace),
      t.pre.updatesSettings 11 t.event = false := by
    intro t ht
    cases List.mem_singleton.mp ht
    rfl
  exact @removedTabStaysRemoved w₃ 11 _ [] [] [⟨w₂, (.panelOpened 11 7, true), w₃⟩]
    ⟨_, (.removeTab 11, true), w₁⟩ ⟨w₁, (.resume 0 .resolved, true), w₂⟩
    (((Run.start.next hs₁).next hs₂).next hs₃) rfl (by decide) hs hclean

/-- Settings of the tab are stored when it is removed already. -/
def revivingEvents : List Event :=
  [(.updateSettings 11 7 ⟨true, true⟩, true), (.settleInitialization 0 (some ⟨[], by decide⟩), true),
    (.resume 0 .resolved, true), (.resume 0 (.updating none), true)]

theorem removedTab_revived : ∃ w w',
    removingEvents.foldlM (fun w event => w.apply event.1 event.2)
      (start TabRefreshCoordinator.sampleRows) = some w ∧ Removed w 11 ∧
    revivingEvents.foldlM (fun w event => w.apply event.1 event.2) w = some w' ∧
    w'.rows.row 11 = some (TabRefreshCoordinator.sampleRow 0 none) := by
  have hruns : ∃ w w',
      removingEvents.foldlM (fun w event => w.apply event.1 event.2)
        (start TabRefreshCoordinator.sampleRows) = some w ∧
      revivingEvents.foldlM (fun w event => w.apply event.1 event.2) w = some w' ∧
      w'.rows.row 11 = some (TabRefreshCoordinator.sampleRow 0 none) ∧ w.rows.row 11 = none ∧
      11 ∈ w.coordinator.terminalTabs ∧ w.coordinator.panelWindows.get? 11 = none ∧
      w.coordinator.participantWindows.get? 11 = none ∧
      w.coordinator.pendingRefreshes.get? 11 = none := by
    refine ⟨_, _, (Option.some_get (by decide +kernel)).symm,
      (Option.some_get (by decide +kernel)).symm, ?_⟩
    decide +kernel
  obtain ⟨w, w', h, h', hrevived, hrow, hterm, hpanel, hpart, hpend⟩ := hruns
  exact ⟨w, w', h, removed_of_gone ⟨hterm, hpanel, hpart, hpend⟩ hrow, h', hrevived⟩

end StoredRefreshes

end PinOp.Refresh
