import PinOp.Refresh.Participation
import PinOp.Refresh.TabRefreshStateStore

/-!
# What rows and watermarks a step can leave

Outside the queue no step touches what the queue runs, and the watermark of a window only
changes when the rows are loaded at the start, or when the window is removed. What such a step
stores for a window is the watermark that is remembered for it, or the one that its row has; so
a bound on these stays a bound.
-/

namespace PinOp.Refresh

open PinOp.Lib PinOp.Browser PinOp.Protocol

namespace TabRefreshCoordinator

variable {c c' c'' : TabRefreshCoordinator} {strict : Bool} {marked : Option WindowId → Prop}
  {windowId : WindowId}

/-! ## Steps outside the queue -/

/-- What runs and the watermarks stay. -/
structure Apart (c c' : TabRefreshCoordinator) : Prop where
  running : c'.running = c.running
  watermarks : c'.watermarks = c.watermarks

theorem Apart.trans (h₁ : Apart c c') (h₂ : Apart c' c'') : Apart c c'' :=
  ⟨h₂.running.trans h₁.running, h₂.watermarks.trans h₁.watermarks⟩

theorem Frame.apart (h : Frame c c') : Apart c c' :=
  ⟨congrArg Core.running h.core, congrArg Core.watermarks h.core⟩

theorem completeTabRefresh_apart (c : TabRefreshCoordinator) (tabId : TabId) (i : OperationId)
    (accepted : Bool) : Apart c (c.completeTabRefresh tabId i accepted) := by
  obtain ⟨operations, pending, observed, he⟩ := completeTabRefresh_rest c tabId i accepted
  rw [he]
  exact ⟨rfl, rfl⟩

theorem cancelTabRefresh_apart (c : TabRefreshCoordinator) (tabId : TabId) :
    Apart c (c.cancelTabRefresh tabId) := by
  obtain ⟨operations, pending, observed, he⟩ := cancelTabRefresh_rest c tabId
  rw [he]
  exact ⟨rfl, rfl⟩

theorem clearRuntimePendingForWindow_apart (c : TabRefreshCoordinator) (windowId : WindowId) :
    Apart c (c.clearRuntimePendingForWindow windowId) := by
  unfold clearRuntimePendingForWindow
  generalize c.pendingRefreshes.entries = entries
  induction entries generalizing c with
  | nil => exact ⟨rfl, rfl⟩
  | cons entry entries ih =>
    simp only [List.foldl_cons]
    split
    · exact ih c
    · split
      · exact (completeTabRefresh_apart _ _ _ _).trans (ih _)
      · exact ih c

theorem clearPanelWindow_apart (c : TabRefreshCoordinator) (tabId : TabId)
    (expectedWindowId : Option WindowId) : Apart c (c.clearPanelWindow tabId expectedWindowId) := by
  unfold clearPanelWindow
  split
  · exact ⟨rfl, rfl⟩
  · split
    · exact ⟨rfl, rfl⟩
    · exact ⟨rfl, rfl⟩

theorem revokeIndexedParticipant_apart (c : TabRefreshCoordinator) (tabId : TabId)
    (expectedWindowId : Option WindowId) :
    Apart c (c.revokeIndexedParticipant tabId expectedWindowId).2 := by
  unfold revokeIndexedParticipant
  split
  · exact ⟨rfl, rfl⟩
  · split
    · exact ⟨rfl, rfl⟩
    · exact ⟨rfl, rfl⟩

theorem grantParticipant_apart (c : TabRefreshCoordinator) (windowId : WindowId) (tabId : TabId) :
    Apart c (c.grantParticipant windowId tabId) := by
  simp only [grantParticipant]
  split
  · exact ⟨rfl, rfl⟩
  · split
    · exact ⟨rfl, rfl⟩
    · exact ⟨rfl, rfl⟩

theorem closePanel_apart (c : TabRefreshCoordinator) (tabId : TabId)
    (expectedWindowId : Option WindowId) : Apart c (c.closePanel tabId expectedWindowId) :=
  ((clearPanelWindow_apart _ _ _).trans (cancelTabRefresh_apart _ _)).trans
    (revokeIndexedParticipant_apart _ _ _)

theorem leavePanel_apart (c : TabRefreshCoordinator) (tabId : TabId) (windowId : WindowId) :
    Apart c (c.leavePanel tabId windowId) := by
  simp only [leavePanel]
  generalize hd : (if (c.currentPanelWindow tabId).isSome = true then c.cancelTabRefresh tabId
    else c) = d
  have hd : Apart c d := by
    subst hd
    split
    · exact cancelTabRefresh_apart _ _
    · exact ⟨rfl, rfl⟩
  split
  · exact (hd.trans (clearPanelWindow_apart _ _ _)).trans (revokeIndexedParticipant_apart _ _ _)
  · exact hd

/-- A move touches watermarks only as it is marked. -/
theorem Move.cases_watermarks (h : Move strict marked c c') : c'.running = c.running ∧
    (c'.watermarks = c.watermarks ∨
      (marked none ∧ ∃ loaded : StoredStates,
        c'.watermarks = loaded.states.foldl raiseWatermark c.watermarks) ∨
      ∃ windowId, marked (some windowId) ∧ c'.watermarks = c.watermarks.delete windowId) := by
  have apart {d : TabRefreshCoordinator} (h : Apart c d) : d.running = c.running ∧
      (d.watermarks = c.watermarks ∨
        (marked none ∧ ∃ loaded : StoredStates,
          d.watermarks = loaded.states.foldl raiseWatermark c.watermarks) ∨
        ∃ windowId, marked (some windowId) ∧ d.watermarks = c.watermarks.delete windowId) :=
    ⟨h.running, .inl h.watermarks⟩
  cases h with
  | frame h => exact apart h.apart
  | cancel tabId => exact apart (cancelTabRefresh_apart c tabId)
  | clearPending windowId => exact apart (clearRuntimePendingForWindow_apart c windowId)
  | move tabId windowId _ =>
    exact apart ((leavePanel_apart c tabId windowId).trans ⟨rfl, rfl⟩)
  | close tabId expectedWindowId => exact apart (closePanel_apart c tabId expectedWindowId)
  | terminate tabId =>
    have hm : Apart c ((c.markTerminalTab tabId).advanceLifecycle tabId).2 := ⟨rfl, rfl⟩
    exact apart (hm.trans (closePanel_apart _ tabId none))
  | grant tabId windowId _ => exact apart (grantParticipant_apart c windowId tabId)
  | disable tabId windowId =>
    exact apart ((cancelTabRefresh_apart c tabId).trans (revokeIndexedParticipant_apart _ _ _))
  | withdraw tabId windowId _ => exact apart (revokeIndexedParticipant_apart c tabId _)
  | raise loaded h => exact ⟨rfl, .inr (.inl ⟨h, loaded, rfl⟩)⟩
  | forget windowId h => exact ⟨rfl, .inr (.inr ⟨windowId, h, rfl⟩)⟩

/-- Without raising, the watermark of a window stays, or it is forgotten. -/
theorem Moves.watermark (h : Moves strict marked c c') (hn : ¬marked none) (windowId : WindowId) :
    c'.running = c.running ∧ (c'.watermarks.get? windowId = c.watermarks.get? windowId ∨
      marked (some windowId) ∧ c'.watermarks.get? windowId = none) := by
  induction h with
  | refl => exact ⟨rfl, .inl rfl⟩
  | @tail d e _ hm ih =>
    obtain ⟨hrun, hw⟩ := ih
    obtain ⟨hrun', hw'⟩ := hm.cases_watermarks
    refine ⟨hrun'.trans hrun, ?_⟩
    rcases hw' with hw' | ⟨hmark, -⟩ | ⟨other, hmark, hw'⟩
    · rw [hw']
      exact hw
    · exact absurd hmark hn
    · rw [hw', OrderedMap.get?_delete]
      split
      · rename_i he
        subst he
        exact .inr ⟨hmark, rfl⟩
      · exact hw

/-- A step outside the queue leaves the watermark of a window, but for the start and the end of
that window. -/
theorem apply_watermark {action : Action} (h : c.apply action = some c')
    (hp : ∀ outcome, action ≠ .proceed outcome) (hb : action ≠ .begin) (windowId : WindowId) :
    c'.running = c.running ∧ (c'.watermarks.get? windowId = c.watermarks.get? windowId ∨
      (∃ attempt loaded, action = .settleInitialization attempt (some loaded) ∧
        c'.watermarks = loaded.states.foldl raiseWatermark c.watermarks) ∨
      c.mark? action = some (some windowId) ∧ c'.watermarks.get? windowId = none) := by
  by_cases hs : ∃ attempt loaded, action = .settleInitialization attempt loaded
  · obtain ⟨attempt, loaded, rfl⟩ := hs
    simp only [apply] at h
    split at h
    · cases h
      cases loaded with
      | none => exact ⟨rfl, .inl rfl⟩
      | some loaded => exact ⟨rfl, .inr (.inl ⟨attempt, loaded, rfl, rfl⟩)⟩
    · cases h
  · have hnone : c.mark? action ≠ some none := by
      intro hm
      unfold mark? at hm
      split at hm
      · exact hs ⟨_, _, rfl⟩
      · obtain ⟨_, -, hm⟩ := Option.map_eq_some_iff.mp hm
        cases hm
      · cases hm
    have hcases : Moves false (fun mark => c.mark? action = some mark) c c' ∨ _ :=
      apply_cases h (fun hs => by cases hs) fun _ hm => hm
    rcases hcases with hm | ⟨_, _, rfl, -⟩ | ⟨_, outcome, rfl, -⟩
    · obtain ⟨hrun, hw⟩ := hm.watermark hnone windowId
      refine ⟨hrun, ?_⟩
      rcases hw with hw | hw
      · exact .inl hw
      · exact .inr (.inr hw)
    · exact absurd rfl hb
    · exact absurd rfl (hp outcome)

end TabRefreshCoordinator

/-! ## Bounds -/

/-- A bound on watermarks: what is not newer than one within it is within it. -/
structure Bound (P : WindowWatermark → Prop) : Prop where
  le : ∀ a b, P b → ¬Before b a → P a
  styles : P ⟨0, .known .styles, none⟩

/-- A row stored with a watermark has it, but for an unknown mode at generation 0. -/
theorem not_before_snapshot (a : WindowWatermark) (tabId : TabId) (windowId : WindowId)
    (auto ide : Bool) : ¬Before a (stateWatermark ⟨tabId, windowId, auto, ide,
      (durableWatermarkSnapshot none (some a)).1, (durableWatermarkSnapshot none (some a)).2⟩) := by
  obtain ⟨generation, mode, incomingOf⟩ := a
  have hpos : generation = 0 ∨ 0 < generation := Nat.eq_zero_or_pos generation
  rcases mode with mode | _
  · cases mode with
    | styles =>
      rcases hpos with rfl | hpos
      · exact not_before_self _
      · simp [durableWatermarkSnapshot, stateWatermark, Before, hpos]
    | reload => simp [durableWatermarkSnapshot, stateWatermark, Before]
  · rcases hpos with rfl | hpos
    · simp [durableWatermarkSnapshot, stateWatermark, Before, watermarkModePrecedence]
    · simp [durableWatermarkSnapshot, stateWatermark, Before, hpos]

/-- The watermark that a row is stored with is that of its row, or the remembered one. -/
theorem Bound.durable {P : WindowWatermark → Prop} (hP : Bound P) {state : Option TabRefreshState}
    {remembered : Option WindowWatermark} {tabId : TabId} {windowId : WindowId} {auto ide : Bool}
    (hs : ∀ row, state = some row → P (stateWatermark row))
    (hr : ∀ a, remembered = some a → P a) :
    P (stateWatermark ⟨tabId, windowId, auto, ide, (durableWatermarkSnapshot state remembered).1,
      (durableWatermarkSnapshot state remembered).2⟩) := by
  have hremembered : P (stateWatermark ⟨tabId, windowId, auto, ide,
      (durableWatermarkSnapshot none remembered).1,
      (durableWatermarkSnapshot none remembered).2⟩) := by
    cases remembered with
    | none => exact hP.styles
    | some a =>
      exact hP.le _ a (hr a rfl) (not_before_snapshot a tabId windowId auto ide)
  cases state with
  | none => exact hremembered
  | some row =>
    by_cases hn : (remembered.all fun remembered =>
        !isNewerRefresh remembered (some (stateWatermark row))) = true
    · have he : durableWatermarkSnapshot (some row) remembered =
          (row.lastAcceptedGeneration, row.lastAcceptedMode) := if_pos hn
      rw [he]
      exact hs row rfl
    · have he : durableWatermarkSnapshot (some row) remembered =
          durableWatermarkSnapshot none remembered := if_neg hn
      rw [he]
      exact hremembered

namespace TabRefreshCoordinator

variable {P : WindowWatermark → Prop} {windowId : WindowId}

theorem panelUpdate_within (hP : Bound P) {c : TabRefreshCoordinator} {tabId : TabId}
    {windowId' : WindowId} {revision : ℕ} {current : Option TabRefreshState}
    (hcurrent : ∀ row, current = some row → row.windowId = windowId → P (stateWatermark row))
    (hr : ∀ a, c.watermarks.get? windowId = some a → P a) {durable : TabRefreshState}
    (h : c.panelUpdate tabId windowId' revision current = some durable)
    (hw : durable.windowId = windowId) : P (stateWatermark durable) := by
  simp only [TabRefreshCoordinator.panelUpdate] at h
  split at h
  · exact hcurrent durable h hw
  · cases h
    change windowId' = windowId at hw
    subst hw
    refine hP.durable (fun row hrow => ?_) hr
    split at hrow
    · cases hrow
    · rename_i hmoved
      subst hrow
      exact hcurrent row rfl (by simpa using hmoved)

theorem settingsUpdate_within (hP : Bound P) {c : TabRefreshCoordinator} {tabId : TabId}
    {windowId' : WindowId} {settings : TabRefreshSettings} {revision : ℕ}
    {current : Option TabRefreshState}
    (hcurrent : ∀ row, current = some row → row.windowId = windowId → P (stateWatermark row))
    (hr : ∀ a, c.watermarks.get? windowId = some a → P a) {durable : TabRefreshState}
    (h : c.settingsUpdate tabId windowId' settings revision current = some durable)
    (hw : durable.windowId = windowId) : P (stateWatermark durable) := by
  simp only [TabRefreshCoordinator.settingsUpdate] at h
  split at h
  · exact hcurrent durable h hw
  · cases h
    change windowId' = windowId at hw
    subst hw
    refine hP.durable (fun row hrow => ?_) hr
    rw [Option.filter_eq_some_iff] at hrow
    exact hcurrent row hrow.1 (by simpa using hrow.2)

/-- What the rows raise a watermark to is the watermark of one of them. -/
theorem get?_foldl_raiseWatermark (states : List TabRefreshState)
    (watermarks : OrderedMap WindowId WindowWatermark) (windowId : WindowId) :
    (states.foldl raiseWatermark watermarks).get? windowId = watermarks.get? windowId ∨
      ∃ row ∈ states, row.windowId = windowId ∧ isNewerRefresh (stateWatermark row)
        (watermarks.get? windowId) = true ∧
        (states.foldl raiseWatermark watermarks).get? windowId = some (stateWatermark row) := by
  induction states generalizing watermarks with
  | nil => exact .inl rfl
  | cons state states ih =>
    simp only [List.foldl_cons]
    by_cases hraise : isNewerRefresh (stateWatermark state) (watermarks.get? state.windowId) = true ∧
        state.windowId = windowId
    · obtain ⟨hnew, rfl⟩ := hraise
      have hget : (raiseWatermark watermarks state).get? state.windowId =
          some (stateWatermark state) := by
        rw [raiseWatermark, if_pos hnew, OrderedMap.get?_set, if_pos rfl]
      right
      rcases ih (raiseWatermark watermarks state) with he | ⟨row, hm, hwin, hnewer, he⟩
      · exact ⟨state, List.mem_cons_self, rfl, hnew, he.trans hget⟩
      · refine ⟨row, List.mem_cons_of_mem _ hm, hwin, ?_, he⟩
        rw [hget] at hnewer
        cases hprev : watermarks.get? state.windowId with
        | none => rfl
        | some previous =>
          rw [hprev] at hnew
          exact isNewerRefresh_some.mpr
            ((isNewerRefresh_some.mp hnew).trans (isNewerRefresh_some.mp hnewer))
    · -- the watermark of the window stays
      have hget : (raiseWatermark watermarks state).get? windowId = watermarks.get? windowId := by
        rw [raiseWatermark]
        split
        · rename_i hnew
          rw [OrderedMap.get?_set, if_neg]
          exact fun hwin => hraise ⟨hnew, hwin.symm⟩
        · rfl
      rcases ih (raiseWatermark watermarks state) with he | ⟨row, hm, hwin, hnewer, he⟩
      · exact .inl (he.trans hget)
      · exact .inr ⟨row, List.mem_cons_of_mem _ hm, hwin, hget ▸ hnewer, he⟩

end TabRefreshCoordinator

namespace StoredRefreshes

variable {P : WindowWatermark → Prop} {windowId : WindowId} {w w' : StoredRefreshes}

/-- What is remembered of the window and what its rows have is within the bound. -/
structure Bounded (P : WindowWatermark → Prop) (windowId : WindowId) (w : StoredRefreshes) :
    Prop where
  remembered : ∀ a, w.coordinator.watermarks.get? windowId = some a → P a
  rows : ∀ row ∈ w.rows.states, row.windowId = windowId → P (stateWatermark row)

theorem mem_update {rows : StoredStates} {candidate : Option TabRefreshState}
    {row : TabRefreshState} (h : row ∈ (rows.update candidate).states) :
    candidate = some row ∨ row ∈ rows.states := by
  cases candidate with
  | none => exact .inr h
  | some durable =>
    rcases StoredStates.mem_write h with rfl | ⟨hm, -⟩
    · exact .inl rfl
    · exact .inr hm

/-- A step outside the queue keeps a bound. -/
theorem Bounded.step (hP : Bound P) (hb : Bounded P windowId w) {event : Event}
    (hs : Step w event w') (hp : ∀ outcome, event.1 ≠ .proceed outcome)
    (hbegin : event.1 ≠ .begin) : Bounded P windowId w' := by
  obtain ⟨action, lands⟩ := event
  obtain ⟨hagrees, happly, hrows⟩ := hs.coordinator
  obtain ⟨-, hwater⟩ := TabRefreshCoordinator.apply_watermark happly hp hbegin windowId
  constructor
  · intro a ha
    rcases hwater with he | ⟨attempt, loaded, rfl, he⟩ | ⟨-, he⟩
    · exact hb.remembered a (he ▸ ha)
    · have hloaded : loaded = w.rows := by simpa [agrees] using hagrees
      subst hloaded
      rw [he] at ha
      rcases TabRefreshCoordinator.get?_foldl_raiseWatermark w.rows.states _ windowId with
        hsame | ⟨row, hm, hwin, -, hraised⟩
      · exact hb.remembered a (hsame ▸ ha)
      · rw [hraised] at ha
        cases ha
        exact hb.rows row hm hwin
    · rw [he] at ha
      cases ha
  · intro row hm hwin
    rw [hrows] at hm
    simp only [stored] at hm
    split at hm
    · rename_i updated updater hu
      split at hm
      · rcases mem_update hm with hcand | hm
        · have hcurrent : ∀ row, w.rows.row updated = some row → row.windowId = windowId →
              P (stateWatermark row) := fun row hrow =>
            hb.rows row (StoredStates.row_eq_some.mp hrow).1
          unfold TabRefreshCoordinator.update? at hu
          split at hu
          · split at hu
            · cases hu
              exact TabRefreshCoordinator.panelUpdate_within hP hcurrent hb.remembered hcand hwin
            · cases hu
              exact TabRefreshCoordinator.settingsUpdate_within hP hcurrent hb.remembered hcand hwin
            · cases hu
          · exact absurd rfl (hp _)
          · cases hu
        · exact hb.rows row hm hwin
      · exact hb.rows row hm hwin
    · split at hm
      · exact hb.rows row (List.mem_filter.mp hm).1 hwin
      · exact hb.rows row hm hwin
    · exact hb.rows row hm hwin

end StoredRefreshes

end PinOp.Refresh
