import PinOp.Refresh.RefreshQueue

/-!
# Participation

In a run whose steps are all `Clean`, a tab takes part in refreshes of the window of its panel
only, and a pending refresh is one of the window that the tab takes part in. The paths that
close a panel pass through states that break this for their one tab, so it is kept tab by tab:
`TabFrame` for the others, and one lemma about the tab itself for each move.
-/

namespace PinOp.Refresh

open PinOp.Lib PinOp.Browser PinOp.Protocol

namespace TabRefreshCoordinator

variable {c c' c'' : TabRefreshCoordinator} {tabId : TabId} {windowId : WindowId}

structure TabInvariant (c : TabRefreshCoordinator) (tabId : TabId) : Prop where
  participant : ∀ windowId, c.participantWindows.get? tabId = some windowId →
    c.panelWindows.get? tabId = some windowId
  pending : ∀ i, c.pendingRefreshes.get? tabId = some i →
    ∃ v, c.operation? i = some v ∧ c.participantWindows.get? tabId = some v.windowId ∧
      tabId ∉ c.terminalTabs

def ParticipationInvariant (c : TabRefreshCoordinator) : Prop := ∀ tabId, TabInvariant c tabId

/-- The tab has the windows it had, and at most the pending refresh it had. -/
structure TabFrame (tabId : TabId) (c c' : TabRefreshCoordinator) : Prop where
  panel : c'.panelWindows.get? tabId = c.panelWindows.get? tabId
  participant : c'.participantWindows.get? tabId = c.participantWindows.get? tabId
  pending : ∀ i, c'.pendingRefreshes.get? tabId = some i → c.pendingRefreshes.get? tabId = some i
  operation : ∀ i v, c.operation? i = some v →
    ∃ v', c'.operation? i = some v' ∧ v'.windowId = v.windowId
  terminal : tabId ∈ c'.terminalTabs ↔ tabId ∈ c.terminalTabs

namespace TabFrame

theorem trans (h₁ : TabFrame tabId c c') (h₂ : TabFrame tabId c' c'') : TabFrame tabId c c'' := by
  refine ⟨h₂.panel.trans h₁.panel, h₂.participant.trans h₁.participant,
    fun i hi => h₁.pending i (h₂.pending i hi), fun i v hv => ?_,
    h₂.terminal.trans h₁.terminal⟩
  obtain ⟨v', hv', e'⟩ := h₁.operation i v hv
  obtain ⟨v'', hv'', e''⟩ := h₂.operation i v' hv'
  exact ⟨v'', hv'', e''.trans e'⟩

/-- Nothing of the tab changes. -/
theorem same (hpanel : c'.panelWindows.get? tabId = c.panelWindows.get? tabId)
    (hpart : c'.participantWindows.get? tabId = c.participantWindows.get? tabId)
    (hpend : c'.pendingRefreshes = c.pendingRefreshes) (hop : c'.operations = c.operations)
    (hterm : c'.terminalTabs = c.terminalTabs) : TabFrame tabId c c' := by
  refine ⟨hpanel, hpart, fun i hi => hpend ▸ hi, fun i v hv => ⟨v, ?_, rfl⟩, by rw [hterm]⟩
  rw [operation?, hop]
  exact hv

theorem refl (tabId : TabId) (c : TabRefreshCoordinator) : TabFrame tabId c c :=
  same rfl rfl rfl rfl rfl

theorem inv (h : TabFrame tabId c c') (hc : TabInvariant c tabId) : TabInvariant c' tabId := by
  refine ⟨fun windowId hw => ?_, fun i hi => ?_⟩
  · rw [h.panel]
    exact hc.participant windowId (h.participant ▸ hw)
  · obtain ⟨v, hv, hp, ht⟩ := hc.pending i (h.pending i hi)
    obtain ⟨v', hv', e⟩ := h.operation i v hv
    exact ⟨v', hv', by rw [h.participant, hp, e], fun hm => ht (h.terminal.mp hm)⟩

end TabFrame

theorem Frame.tabFrame (h : Frame c c') (tabId : TabId) : TabFrame tabId c c' :=
  .same (by rw [show c'.panelWindows = c.panelWindows from congrArg Core.panelWindows h.core])
    (by rw [show c'.participantWindows = c.participantWindows from
      congrArg Core.participantWindows h.core])
    (congrArg Core.pendingRefreshes h.core) (congrArg Core.operations h.core)
    (congrArg Core.terminalTabs h.core)

theorem completeTabRefresh_tabFrame (c : TabRefreshCoordinator) (tabId' : TabId) (i : OperationId)
    (accepted : Bool) (tabId : TabId) :
    TabFrame tabId c (c.completeTabRefresh tabId' i accepted) := by
  have hop (j v) (hv : c.operation? j = some v) :
      ∃ v', (c.completeTabRefresh tabId' i accepted).operation? j = some v' ∧
        v'.windowId = v.windowId := by
    rw [operation?_complete, hv]
    exact ⟨_, rfl, rfl⟩
  rcases completeTabRefresh_cases c tabId' i accepted with ⟨he, -⟩ | ⟨v, -, -, he⟩
  · rw [he]
    exact .refl _ _
  · refine ⟨by rw [he], by rw [he], fun j hj => ?_, hop, by rw [he]⟩
    rw [he] at hj
    simp only at hj
    split at hj
    · rw [OrderedMap.get?_delete] at hj
      split at hj
      · cases hj
      · exact hj
    · exact hj

theorem cancelTabRefresh_tabFrame (c : TabRefreshCoordinator) (tabId' tabId : TabId) :
    TabFrame tabId c (c.cancelTabRefresh tabId') := by
  unfold cancelTabRefresh
  split
  · exact .refl _ _
  · exact completeTabRefresh_tabFrame _ _ _ _ _

theorem clearRuntimePendingForWindow_tabFrame (c : TabRefreshCoordinator) (windowId : WindowId)
    (tabId : TabId) : TabFrame tabId c (c.clearRuntimePendingForWindow windowId) := by
  unfold clearRuntimePendingForWindow
  generalize c.pendingRefreshes.entries = entries
  induction entries generalizing c with
  | nil => exact .refl _ _
  | cons entry entries ih =>
    simp only [List.foldl_cons]
    split
    · exact ih c
    · split
      · exact (completeTabRefresh_tabFrame _ _ _ _ _).trans (ih _)
      · exact ih c

/-! ## Panels and participants of one tab -/

theorem clearPanelWindow_tabFrame {expectedWindowId : Option WindowId} {tabId' : TabId}
    (hne : tabId ≠ tabId') (c : TabRefreshCoordinator) :
    TabFrame tabId c (c.clearPanelWindow tabId' expectedWindowId) := by
  unfold clearPanelWindow
  split
  · exact .refl _ _
  · split
    · exact .refl _ _
    · exact .same (by simp [hne]) rfl rfl rfl rfl

theorem revokeIndexedParticipant_tabFrame {expectedWindowId : Option WindowId} {tabId' : TabId}
    (hne : tabId ≠ tabId') (c : TabRefreshCoordinator) :
    TabFrame tabId c (c.revokeIndexedParticipant tabId' expectedWindowId).2 := by
  unfold revokeIndexedParticipant
  split
  · exact .refl _ _
  · split
    · exact .refl _ _
    · exact .same rfl (by simp [setParticipant, hne]) rfl rfl rfl

theorem grantParticipant_tabFrame {tabId' : TabId} (hne : tabId ≠ tabId')
    (c : TabRefreshCoordinator) (windowId : WindowId) :
    TabFrame tabId c (c.grantParticipant windowId tabId') := by
  simp only [grantParticipant]
  split
  · exact .refl _ _
  · split
    · exact .same rfl (by simp [setParticipant, hne]) rfl rfl rfl
    · exact .same rfl (by simp [setParticipant, hne]) rfl rfl rfl

theorem closePanel_tabFrame {expectedWindowId : Option WindowId} {tabId' : TabId}
    (hne : tabId ≠ tabId') (c : TabRefreshCoordinator) :
    TabFrame tabId c (c.closePanel tabId' expectedWindowId) :=
  ((clearPanelWindow_tabFrame hne c).trans (cancelTabRefresh_tabFrame _ _ _)).trans
    (revokeIndexedParticipant_tabFrame hne _)

theorem leavePanel_tabFrame {tabId' : TabId} (hne : tabId ≠ tabId') (c : TabRefreshCoordinator)
    (windowId : WindowId) : TabFrame tabId c (c.leavePanel tabId' windowId) := by
  simp only [leavePanel]
  generalize hd : (if (c.currentPanelWindow tabId').isSome = true then c.cancelTabRefresh tabId'
    else c) = d
  have hd : TabFrame tabId c d := by
    subst hd
    split
    · exact cancelTabRefresh_tabFrame _ _ _
    · exact .refl _ _
  split
  · exact (hd.trans (clearPanelWindow_tabFrame hne _)).trans (revokeIndexedParticipant_tabFrame hne _)
  · exact hd

/-- Its participation ends, unless it is expected in another window. -/
theorem get?_revoke (c : TabRefreshCoordinator) (tabId : TabId)
    (expectedWindowId : Option WindowId) :
    (c.revokeIndexedParticipant tabId expectedWindowId).2.participantWindows.get? tabId =
      (c.participantWindows.get? tabId).filter fun w => expectedWindowId.any (· ≠ w) := by
  unfold revokeIndexedParticipant
  split
  · rename_i h
    rw [h]
    rfl
  · rename_i w h
    rw [h]
    split
    · rename_i hx
      rw [Option.filter_some, if_pos hx]
      exact h
    · rename_i hx
      rw [Option.filter_some, if_neg hx]
      simp [setParticipant]

theorem get?_clearPanel (c : TabRefreshCoordinator) (tabId : TabId)
    (expectedWindowId : Option WindowId) :
    (c.clearPanelWindow tabId expectedWindowId).panelWindows.get? tabId =
      (c.panelWindows.get? tabId).filter fun w => expectedWindowId.any (· ≠ w) := by
  unfold clearPanelWindow
  split
  · rename_i h
    rw [h]
    rfl
  · rename_i w h
    rw [h]
    split
    · rename_i hx
      rw [Option.filter_some, if_pos hx]
      exact h
    · rename_i hx
      rw [Option.filter_some, if_neg hx]
      simp

theorem clearPanelWindow_participants (c : TabRefreshCoordinator) (tabId : TabId)
    (expectedWindowId : Option WindowId) :
    (c.clearPanelWindow tabId expectedWindowId).participantWindows = c.participantWindows := by
  unfold clearPanelWindow
  split
  · rfl
  · split <;> rfl

theorem revoke_rest (c : TabRefreshCoordinator) (tabId : TabId)
    (expectedWindowId : Option WindowId) :
    (c.revokeIndexedParticipant tabId expectedWindowId).2.panelWindows = c.panelWindows ∧
      (c.revokeIndexedParticipant tabId expectedWindowId).2.pendingRefreshes =
        c.pendingRefreshes := by
  unfold revokeIndexedParticipant
  split
  · exact ⟨rfl, rfl⟩
  · split
    · exact ⟨rfl, rfl⟩
    · exact ⟨rfl, rfl⟩

/-- A tab without a pending refresh. -/
theorem TabInvariant.of_idle
    (hw : ∀ windowId, c.participantWindows.get? tabId = some windowId →
      c.panelWindows.get? tabId = some windowId)
    (hp : c.pendingRefreshes.get? tabId = none) : TabInvariant c tabId :=
  ⟨hw, fun i hi => by rw [hp] at hi; cases hi⟩

theorem closePanel_inv (inv : OperationsInvariant c)
    (hw : ∀ windowId, c.participantWindows.get? tabId = some windowId →
      c.panelWindows.get? tabId = some windowId) (expectedWindowId : Option WindowId) :
    TabInvariant (c.closePanel tabId expectedWindowId) tabId := by
  have hcancel := cancelTabRefresh_tabFrame (c.clearPanelWindow tabId expectedWindowId) tabId tabId
  have hrest := revoke_rest ((c.clearPanelWindow tabId expectedWindowId).cancelTabRefresh tabId) tabId
    expectedWindowId
  refine .of_idle (fun windowId h => ?_) ?_
  · unfold closePanel at h ⊢
    rw [get?_revoke, hcancel.participant, clearPanelWindow_participants,
      Option.filter_eq_some_iff] at h
    rw [hrest.1, hcancel.panel, get?_clearPanel, hw windowId h.1, Option.filter_some, if_pos h.2]
  · unfold closePanel
    rw [hrest.2]
    exact (inv.frame (clearPanelWindow_operationsFrame c tabId expectedWindowId)).pending_cancel tabId

theorem TabInvariant.idle_of_no_panel (hc : TabInvariant c tabId)
    (h : c.currentPanelWindow tabId = none) :
    c.participantWindows.get? tabId = none ∧ c.pendingRefreshes.get? tabId = none := by
  simp only [currentPanelWindow, Option.or_eq_none_iff] at h
  refine ⟨h.2, ?_⟩
  cases hp : c.pendingRefreshes.get? tabId with
  | none => rfl
  | some i =>
    obtain ⟨v, -, hpart, -⟩ := hc.pending i hp
    rw [h.2] at hpart
    cases hpart

theorem movePanel_inv (inv : OperationsInvariant c) (hc : TabInvariant c tabId)
    (windowId : WindowId) : TabInvariant (c.movePanel tabId windowId) tabId := by
  have hpanel : (c.movePanel tabId windowId).panelWindows.get? tabId = some windowId := by
    simp [movePanel]
  have hsuff : (∀ w, (c.leavePanel tabId windowId).participantWindows.get? tabId = some w →
      w = windowId) ∧ (c.leavePanel tabId windowId).pendingRefreshes.get? tabId = none := by
    simp only [leavePanel]
    cases hprev : c.currentPanelWindow tabId with
    | none =>
      have hidle := hc.idle_of_no_panel hprev
      refine ⟨fun w hw => ?_, by simpa using hidle.2⟩
      have hw : c.participantWindows.get? tabId = some w := by simpa using hw
      rw [hidle.1] at hw
      cases hw
    | some previous =>
      have hcancel := cancelTabRefresh_tabFrame c tabId tabId
      have hpart : ∀ w, c.participantWindows.get? tabId = some w → w = previous := by
        intro w hw
        rw [currentPanelWindow, hc.participant w hw, Option.some_or] at hprev
        exact Option.some.inj hprev
      simp only [Option.isSome_some, if_true, Bool.true_and, ne_eq, Option.some.injEq,
        decide_not, Bool.not_eq_true', decide_eq_false_iff_not]
      split
      · have hrest := revoke_rest ((c.cancelTabRefresh tabId).clearPanelWindow tabId (some previous))
          tabId (some previous)
        refine ⟨fun w hw => ?_, ?_⟩
        · rw [get?_revoke, clearPanelWindow_participants, hcancel.participant,
            Option.filter_eq_some_iff] at hw
          have := hpart w hw.1
          simp [this] at hw
        · rw [hrest.2]
          have hf := clearPanelWindow_operationsFrame (c.cancelTabRefresh tabId) tabId (some previous)
          rw [hf.pendingRefreshes]
          exact inv.pending_cancel tabId
      · rename_i he
        refine ⟨fun w hw => ?_, inv.pending_cancel tabId⟩
        rw [hcancel.participant] at hw
        rw [hpart w hw]
        exact not_not.mp he
  refine .of_idle (fun w hw => ?_) hsuff.2
  rw [hpanel, hsuff.1 w hw]

theorem grantParticipant_inv (hc : TabInvariant c tabId)
    (hpanel : c.panelWindows.get? tabId = some windowId) :
    TabInvariant (c.grantParticipant windowId tabId) tabId := by
  simp only [grantParticipant]
  split
  · exact hc
  · rename_i hne
    cases hp : c.participantWindows.get? tabId with
    | some previous =>
      -- it would take part in another window than its panel's
      have := hc.participant previous hp
      rw [hpanel] at this
      rw [hp] at hne
      exact absurd this.symm hne
    | none =>
      refine .of_idle (fun w hw => ?_) ?_
      · simp only [setParticipant, OrderedMap.get?_set, if_true, Option.some.injEq] at hw ⊢
        rw [← hw]
        exact hpanel
      · show c.pendingRefreshes.get? tabId = none
        cases hpend : c.pendingRefreshes.get? tabId with
        | none => rfl
        | some i =>
          obtain ⟨v, -, hpart, -⟩ := hc.pending i hpend
          rw [hp] at hpart
          cases hpart

theorem revoke_inv {expectedWindowId : Option WindowId}
    (hw : ∀ windowId, c.participantWindows.get? tabId = some windowId →
      c.panelWindows.get? tabId = some windowId)
    (hp : c.pendingRefreshes.get? tabId = none) :
    TabInvariant (c.revokeIndexedParticipant tabId expectedWindowId).2 tabId := by
  have hrest := revoke_rest c tabId expectedWindowId
  refine .of_idle (fun windowId h => ?_) (hrest.2 ▸ hp)
  rw [get?_revoke, Option.filter_eq_some_iff] at h
  rw [hrest.1]
  exact hw windowId h.1

/-! ## Moves -/

theorem ParticipationInvariant.move {marked : Option WindowId → Prop}
    (inv : OperationsInvariant c) (hc : ParticipationInvariant c) (h : Move true marked c c') :
    ParticipationInvariant c' := by
  intro tabId'
  have hother := hc tabId'
  cases h with
  | frame h => exact (h.tabFrame tabId').inv hother
  | cancel tabId => exact (cancelTabRefresh_tabFrame c tabId tabId').inv hother
  | clearPending windowId =>
    exact (clearRuntimePendingForWindow_tabFrame c windowId tabId').inv hother
  | move tabId windowId =>
    by_cases he : tabId' = tabId
    · subst he
      exact movePanel_inv inv hother windowId
    · refine ((leavePanel_tabFrame he c windowId).trans ?_).inv hother
      exact .same (by simp [movePanel, he]) rfl rfl rfl rfl
  | close tabId expectedWindowId =>
    by_cases he : tabId' = tabId
    · subst he
      exact closePanel_inv inv hother.participant expectedWindowId
    · exact (closePanel_tabFrame he c).inv hother
  | terminate tabId =>
    by_cases he : tabId' = tabId
    · subst he
      have hf : OperationsFrame c ((c.markTerminalTab tabId').advanceLifecycle tabId').2 :=
        .silent rfl rfl rfl rfl rfl
      exact closePanel_inv (inv.frame hf) hother.participant none
    · refine (TabFrame.trans ?_ (closePanel_tabFrame he _)).inv hother
      refine ⟨rfl, rfl, fun _ h => h, fun _ v hv => ⟨v, hv, rfl⟩, fun ht => ?_,
        List.mem_cons_of_mem _⟩
      exact (List.mem_cons.mp ht).resolve_left he
  | grant tabId windowId hpanel =>
    by_cases he : tabId' = tabId
    · subst he
      exact grantParticipant_inv hother hpanel
    · exact (grantParticipant_tabFrame he c windowId).inv hother
  | disable tabId windowId =>
    have hcancel := cancelTabRefresh_tabFrame c tabId tabId'
    by_cases he : tabId' = tabId
    · subst he
      exact revoke_inv (hcancel.inv hother).participant (inv.pending_cancel tabId')
    · exact (hcancel.trans (revokeIndexedParticipant_tabFrame he _)).inv hother
  | withdraw tabId windowId hpend =>
    by_cases he : tabId' = tabId
    · subst he
      exact revoke_inv hother.participant (hpend rfl)
    · exact (revokeIndexedParticipant_tabFrame he c).inv hother
  | raise loaded =>
    refine TabFrame.inv ?_ hother
    exact .same rfl rfl rfl rfl rfl
  | forget windowId =>
    refine TabFrame.inv ?_ hother
    exact .same rfl rfl rfl rfl rfl

/-! ## The queue -/

/-- Every tab has the windows it had, and at most the pending refresh it had. -/
def Steady (c c' : TabRefreshCoordinator) : Prop := ∀ tabId, TabFrame tabId c c'

theorem Steady.trans (h₁ : Steady c c') (h₂ : Steady c' c'') : Steady c c'' := fun tabId =>
  (h₁ tabId).trans (h₂ tabId)

theorem Steady.inv (h : Steady c c') (hc : ParticipationInvariant c) : ParticipationInvariant c' :=
  fun tabId => (h tabId).inv (hc tabId)

theorem steady_same (hpanel : c'.panelWindows = c.panelWindows)
    (hpart : c'.participantWindows = c.participantWindows)
    (hpend : c'.pendingRefreshes = c.pendingRefreshes) (hop : c'.operations = c.operations)
    (hterm : c'.terminalTabs = c.terminalTabs) : Steady c c' := fun _ =>
  .same (by rw [hpanel]) (by rw [hpart]) hpend hop hterm

theorem dispatched_steady (c : TabRefreshCoordinator) (after : Option AcceptedRefresh) :
    Steady c (c.dispatched after) := by
  cases after with
  | none => exact steady_same rfl rfl rfl rfl rfl
  | some r => exact steady_same rfl rfl rfl rfl rfl

theorem startDispatching_steady (c : TabRefreshCoordinator) (i : OperationId) :
    Steady c (c.startDispatching i) := by
  cases hv : c.operation? i with
  | none =>
    have he : c.startDispatching i = c := by
      unfold startDispatching
      rw [show c.operations[i]? = none from hv]
    rw [he]
    exact steady_same rfl rfl rfl rfl rfl
  | some v =>
    refine fun tabId => ⟨?_, ?_, ?_, fun j w hw => ?_, ?_⟩
    · rw [startDispatching_eq hv]
    · rw [startDispatching_eq hv]
    · rw [startDispatching_eq hv]
      exact fun _ h => h
    · rw [operation?_set (by rw [startDispatching_eq hv]) hv]
      by_cases hj : j = i
      · subst hj
        rw [hv] at hw
        cases hw
        exact ⟨_, if_pos rfl, rfl⟩
      · exact ⟨w, by rw [if_neg hj, hw], rfl⟩
    · rw [startDispatching_eq hv]

theorem dispatch_steady (c : TabRefreshCoordinator) (tabId : TabId) (i : OperationId)
    (after : Option AcceptedRefresh) : Steady c (c.dispatch tabId i after) := by
  unfold dispatch
  split
  · exact Steady.trans (fun t => completeTabRefresh_tabFrame c tabId i false t)
      (dispatched_steady _ after)
  · exact (startDispatching_steady c i).trans (steady_same rfl rfl rfl rfl rfl)

theorem dispatchPrepared_steady (c : TabRefreshCoordinator) (tabId : TabId) (i : OperationId)
    (after : Option AcceptedRefresh) : Steady c (c.dispatchPrepared tabId i after) := by
  unfold dispatchPrepared
  split
  · exact Steady.trans (fun t => completeTabRefresh_tabFrame c tabId i false t)
      (dispatched_steady _ after)
  · split
    · exact steady_same rfl rfl rfl rfl rfl
    · exact steady_same rfl rfl rfl rfl rfl

theorem dispatchSettled_steady (c : TabRefreshCoordinator) (tabId : TabId) (i : OperationId)
    (after : Option AcceptedRefresh) (succeeded : Bool) :
    Steady c (c.dispatchSettled tabId i after succeeded) :=
  Steady.trans (fun t => completeTabRefresh_tabFrame c tabId i _ t) (dispatched_steady _ after)

/-- A tab that takes part, without a pending refresh, gets a new one. -/
theorem stageTab_inv {r : AcceptedRefresh} {activeTabId : Option TabId} {stage : Stage}
    {state : Option (TabId × OperationId) × TabRefreshCoordinator}
    (hc : ParticipationInvariant state.2) :
    ParticipationInvariant (stageTab r activeTabId state stage).2 := by
  obtain ⟨active, c⟩ := state
  have hcancel : ParticipationInvariant (c.cancelTabRefresh stage.tabId) :=
    Steady.inv (fun t => cancelTabRefresh_tabFrame c stage.tabId t) hc
  simp only [stageTab]
  split
  · exact hcancel
  · split
    · exact hcancel
    · rename_i htakes
      generalize c.cancelTabRefresh stage.tabId = d at hcancel htakes
      intro tabId
      by_cases he : tabId = stage.tabId
      · subst he
        simp only [takesPart, Bool.not_eq_true', Bool.not_eq_false, Bool.and_eq_true,
          decide_eq_true_eq] at htakes
        refine ⟨(hcancel stage.tabId).participant, fun i hi => ?_⟩
        simp only [OrderedMap.get?_set, if_true, Option.some.injEq] at hi
        subst hi
        exact ⟨_, List.getElem?_concat_length, htakes.2, (panelWindow_of_current htakes.1).2⟩
      · refine TabFrame.inv (c := d) ⟨rfl, rfl, fun i hi => ?_, fun i v hv => ⟨v, ?_, rfl⟩, Iff.rfl⟩
          (hcancel tabId)
        · simpa [he] using hi
        · rw [operation?, List.getElem?_append_left (List.getElem?_eq_some_iff.mp hv).1]
          exact hv

theorem stageAll_inv {r : AcceptedRefresh} {activeTabId : Option TabId} {stages : List Stage}
    (hc : ParticipationInvariant c) : ParticipationInvariant (c.stageAll r activeTabId stages) := by
  have hfold : ∀ state : Option (TabId × OperationId) × TabRefreshCoordinator,
      ParticipationInvariant state.2 →
        ParticipationInvariant (stages.foldl (stageTab r activeTabId) state).2 := by
    induction stages with
    | nil => exact fun _ h => h
    | cons stage stages ih => exact fun state h => ih _ (stageTab_inv h)
  have hstate := hfold (none, c) hc
  simp only [stageAll]
  generalize stages.foldl (stageTab r activeTabId) (none, c) = state at hstate
  obtain ⟨active, d⟩ := state
  cases active with
  | none => exact Steady.inv (c := d) (steady_same rfl rfl rfl rfl rfl) hstate
  | some active => exact (dispatch_steady d active.1 active.2 (some r)).inv hstate

theorem commitNext_inv {r : AcceptedRefresh} {previousWatermark : Option WindowWatermark}
    {activeTabId : Option TabId} {rest : List TabRefreshState}
    {commits : List RefreshAdmissionCommit} {stages : List Stage} (hc : ParticipationInvariant c) :
    ParticipationInvariant (c.commitNext r previousWatermark activeTabId rest commits stages) := by
  cases rest with
  | nil => exact stageAll_inv hc
  | cons snapshot rest => exact Steady.inv (c := c) (steady_same rfl rfl rfl rfl rfl) hc

/-- The running operation leaves every tab as it is, or goes on with the rows of a refresh. -/
theorem proceed_cases {point : Running} {outcome : Outcome}
    (h : c.proceed point outcome = some c') :
    Steady c c' ∨ ∃ r previousWatermark activeTabId rest commits stages,
      c' = c.commitNext r previousWatermark activeTabId rest commits stages := by
  have same (c' : TabRefreshCoordinator) (h : Steady c c') :
      Steady c c' ∨ ∃ r previousWatermark activeTabId rest commits stages,
        c' = c.commitNext r previousWatermark activeTabId rest commits stages := .inl h
  unfold TabRefreshCoordinator.proceed at h
  split at h
  · cases h
    simp only [refreshLoaded]
    split
    · exact same _ (steady_same rfl rfl rfl rfl rfl)
    · exact same _ (steady_same rfl rfl rfl rfl rfl)
  · cases h
    exact same _ (steady_same rfl rfl rfl rfl rfl)
  · cases h
    split
    · exact same _ (steady_same rfl rfl rfl rfl rfl)
    · exact same _ (steady_same rfl rfl rfl rfl rfl)
  · cases h
    exact same _ (steady_same rfl rfl rfl rfl rfl)
  · cases h
    exact .inr ⟨_, _, _, _, _, _, rfl⟩
  · cases h
    exact .inr ⟨_, _, _, _, _, _, rfl⟩
  · split at h
    · cases h
    · cases h
      exact same _ (steady_same rfl rfl rfl rfl rfl)
  · simp only [Option.map_eq_some_iff] at h
    obtain ⟨ran, -, rfl⟩ := h
    exact .inr ⟨_, _, _, _, _, _, rfl⟩
  · cases h
    exact same _ (steady_same rfl rfl rfl rfl rfl)
  · split at h
    · cases h
    · split at h
      · cases h
      · cases h
        exact same _ (steady_same rfl rfl rfl rfl rfl)
  · split at h
    · cases h
      simp only [TabRefreshCoordinator.rolledBack]
      split
      · exact same _ (steady_same rfl rfl rfl rfl rfl)
      · split
        · exact same _ (steady_same rfl rfl rfl rfl rfl)
        · exact same _ (steady_same rfl rfl rfl rfl rfl)
    · cases h
      exact same _ (steady_same rfl rfl rfl rfl rfl)
    · cases h
  · split at h
    · cases h
    · cases h
      exact same _ (steady_same rfl rfl rfl rfl rfl)
  · cases h
    exact same _ (dispatchPrepared_steady _ _ _ _)
  · cases h
    exact same _ (dispatchSettled_steady _ _ _ _ _)
  · cases h
    exact same _ (dispatchSettled_steady _ _ _ _ _)
  · cases h
    exact same _ (steady_same rfl rfl rfl rfl rfl)
  · cases h
    unfold epochNext
    split
    · exact same _ (steady_same rfl rfl rfl rfl rfl)
    · exact same _ (steady_same rfl rfl rfl rfl rfl)
  · cases h
    exact same _ (steady_same rfl rfl rfl rfl rfl)
  · cases h
    exact same _ (steady_same rfl rfl rfl rfl rfl)
  · cases h
    unfold epochNext
    split
    · exact same _ (steady_same rfl rfl rfl rfl rfl)
    · exact same _ (steady_same rfl rfl rfl rfl rfl)
  · cases h
    exact same _ (steady_same rfl rfl rfl rfl rfl)
  · cases h

theorem ParticipationInvariant.proceed {point : Running} {outcome : Outcome}
    (hc : ParticipationInvariant c) (h : c.proceed point outcome = some c') :
    ParticipationInvariant c' := by
  rcases proceed_cases h with hs | ⟨r, previous, active, rest, commits, stages, rfl⟩
  · exact hs.inv hc
  · exact commitNext_inv hc

theorem begin_steady (c : TabRefreshCoordinator) (operation : QueuedOperation) :
    Steady c (c.begin operation) := by
  cases operation with
  | accept windowId incoming onTabCompleted => exact steady_same rfl rfl rfl rfl rfl
  | epoch windowId => exact steady_same rfl rfl rfl rfl rfl
  | activate tabId windowId =>
    simp only [TabRefreshCoordinator.begin]
    split
    · exact fun t => cancelTabRefresh_tabFrame c tabId t
    · split
      · exact steady_same rfl rfl rfl rfl rfl
      · split
        · exact steady_same rfl rfl rfl rfl rfl
        · split
          · exact steady_same rfl rfl rfl rfl rfl
          · exact dispatch_steady _ _ _ _

/-- The step lemma. -/
theorem ParticipationInvariant.apply {action : Action} (inv : OperationsInvariant c)
    (hc : ParticipationInvariant c) (hclean : c.Clean action = true) (h : c.apply action = some c') :
    ParticipationInvariant c' := by
  have hcases : Moves true (fun _ => True) c c' ∨ _ := apply_cases h (fun _ => hclean) fun _ _ => trivial
  rcases hcases with hm | ⟨operation, queue, -, -, -, rfl⟩ | ⟨point, outcome, -, -, hp⟩
  · have hboth : OperationsInvariant c' ∧ ParticipationInvariant c' := by
      clear h
      induction hm with
      | refl => exact ⟨inv, hc⟩
      | tail _ hmove ih => exact ⟨ih.1.move hmove, ih.2.move ih.1 hmove⟩
    exact hboth.2
  · refine (begin_steady _ operation).inv (Steady.inv ?_ hc)
    exact steady_same rfl rfl rfl rfl rfl
  · exact hc.proceed hp

/-- The run lemma, for runs whose steps are all clean. -/
theorem ParticipationInvariant.of_run {h : Trace}
    (run : Run Step TabRefreshCoordinator.initial h c)
    (hclean : ∀ t ∈ h, t.pre.Clean t.event = true) : ParticipationInvariant c := by
  induction run with
  | start => exact fun tabId => .of_idle (fun _ h => by cases h) rfl
  | next hr hs ih =>
    exact .apply (.of_run hr) (ih fun t ht => hclean t (List.mem_cons_of_mem _ ht))
      (hclean _ List.mem_cons_self) hs

end TabRefreshCoordinator

end PinOp.Refresh
