import PinOp.Refresh.RefreshQueue

/-!
# Accepted refreshes of a window

What a window has accepted since its epoch began, or since it was removed, grows. The watermark
is never behind it, a refresh that is being accepted is ahead of it, and so is the watermark
that a rollback restores.
-/

namespace PinOp.Refresh

open PinOp.Lib PinOp.Browser PinOp.Protocol

/-! ## What is observed of a window -/

namespace Observation

/-- It is about the acceptance of refreshes. -/
def ofWindow : Observation → Bool
  | .admitted _ _ _ => true
  | .returned _ _ _ => true
  | .epochBegun _ => true
  | .windowRemoved _ => true
  | _ => false

/-- The refreshes admitted since the window began an epoch or was removed. -/
def admittedSince (windowId : WindowId) : List Observation → List RefreshId
  | [] => []
  | .admitted refresh windowId' _ :: older =>
    if windowId' = windowId then refresh :: admittedSince windowId older
    else admittedSince windowId older
  | .epochBegun windowId' :: older =>
    if windowId' = windowId then [] else admittedSince windowId older
  | .windowRemoved windowId' :: older =>
    if windowId' = windowId then [] else admittedSince windowId older
  | _ :: older => admittedSince windowId older

/-- What was returned as accepted of these, newest first. -/
def returnedSince (windowId : WindowId) : List Observation → List WindowWatermark
  | [] => []
  | .returned refresh windowId' incoming :: older =>
    if windowId' = windowId ∧ refresh ∈ admittedSince windowId older then
      incoming :: returnedSince windowId older
    else returnedSince windowId older
  | .epochBegun windowId' :: older =>
    if windowId' = windowId then [] else returnedSince windowId older
  | .windowRemoved windowId' :: older =>
    if windowId' = windowId then [] else returnedSince windowId older
  | _ :: older => returnedSince windowId older

theorem since_cons_of_not {o : Observation} (h : o.ofWindow = false) (windowId : WindowId)
    (older : List Observation) : admittedSince windowId (o :: older) = admittedSince windowId older ∧
      returnedSince windowId (o :: older) = returnedSince windowId older := by
  cases o <;> first | exact ⟨rfl, rfl⟩ | cases h

theorem since_append {newer : List Observation} (h : ∀ o ∈ newer, o.ofWindow = false)
    (windowId : WindowId) (older : List Observation) :
    admittedSince windowId (newer ++ older) = admittedSince windowId older ∧
      returnedSince windowId (newer ++ older) = returnedSince windowId older := by
  induction newer with
  | nil => exact ⟨rfl, rfl⟩
  | cons o newer ih =>
    have ho := since_cons_of_not (h o List.mem_cons_self) windowId (newer ++ older)
    have ih := ih fun o ho => h o (List.mem_cons_of_mem _ ho)
    exact ⟨ho.1.trans ih.1, ho.2.trans ih.2⟩

end Observation

open Observation

/-! ## What is known of the running operation -/

/-- The refresh that was compared with the watermark. -/
def Running.compared : Running → Option AcceptedRefresh
  | .admitting r _ => some r
  | .locating r _ _ => some r
  | .committing point => some point.refresh
  | .rollingBack point => some point.refresh
  | .preparing _ _ after => after
  | .dispatching _ _ after => after
  | .returning r => some r
  | _ => none

/-- The refresh that has set the watermark. -/
def Running.admitted : Running → Option AcceptedRefresh
  | .admitting _ _ => none
  | point => point.compared

/-- The watermark that a rollback restores. -/
def Running.previous : Running → Option (AcceptedRefresh × Option WindowWatermark)
  | .locating r _ previous => some (r, previous)
  | .committing point => some (point.refresh, point.previousWatermark)
  | .rollingBack point => some (point.refresh, point.previousWatermark)
  | _ => none

namespace TabRefreshCoordinator

variable {c c' : TabRefreshCoordinator} {windowId : WindowId}

structure WatermarkInvariant (c : TabRefreshCoordinator) : Prop where
  increasing : ∀ windowId,
    (returnedSince windowId c.observed).Pairwise fun newer older => Before older newer
  floor : ∀ windowId, ∀ p ∈ returnedSince windowId c.observed,
    ∃ q, c.watermarks.get? windowId = some q ∧ ¬Before q p
  compared : ∀ r, c.running.bind Running.compared = some r →
    ∀ p ∈ returnedSince r.windowId c.observed, Before p r.incoming
  admitted : ∀ r, c.running.bind Running.admitted = some r →
    r.refresh ∈ admittedSince r.windowId c.observed →
      ∃ q, c.watermarks.get? r.windowId = some q ∧ ¬Before q r.incoming
  previous : ∀ r previous, c.running.bind Running.previous = some (r, previous) →
    ∀ p ∈ returnedSince r.windowId c.observed, ∃ q, previous = some q ∧ ¬Before q p

/-- The watermarks stay, and no more is known of the running operation than before. -/
structure Rerun (c c' : TabRefreshCoordinator) : Prop where
  watermarks : c'.watermarks = c.watermarks
  observed : ∃ newer, c'.observed = newer ++ c.observed ∧ ∀ o ∈ newer, o.ofWindow = false
  compared : ∀ r, c'.running.bind Running.compared = some r →
    c.running.bind Running.compared = some r
  admitted : ∀ r, c'.running.bind Running.admitted = some r →
    c.running.bind Running.admitted = some r
  previous : ∀ r, c'.running.bind Running.previous = some r →
    c.running.bind Running.previous = some r

namespace Rerun

theorem trans {c'' : TabRefreshCoordinator} (h₁ : Rerun c c') (h₂ : Rerun c' c'') :
    Rerun c c'' := by
  obtain ⟨newer₁, e₁, n₁⟩ := h₁.observed
  obtain ⟨newer₂, e₂, n₂⟩ := h₂.observed
  refine ⟨h₂.1.trans h₁.1, ⟨newer₂ ++ newer₁, by simp [e₂, e₁], fun o ho => ?_⟩,
    fun r hr => h₁.compared r (h₂.compared r hr), fun r hr => h₁.admitted r (h₂.admitted r hr),
    fun r hr => h₁.previous r (h₂.previous r hr)⟩
  rcases List.mem_append.mp ho with ho | ho
  · exact n₂ o ho
  · exact n₁ o ho

/-- The operation that runs stays where it is. -/
theorem same (newer : List Observation) (hw : c'.watermarks = c.watermarks)
    (hr : c'.running = c.running) (ho : c'.observed = newer ++ c.observed)
    (hn : ∀ o ∈ newer, o.ofWindow = false) : Rerun c c' :=
  ⟨hw, ⟨newer, ho, hn⟩, fun _ h => hr ▸ h, fun _ h => hr ▸ h, fun _ h => hr ▸ h⟩

theorem silent (hw : c'.watermarks = c.watermarks) (hr : c'.running = c.running)
    (ho : c'.observed = c.observed) : Rerun c c' :=
  same [] hw hr ho (by simp)

theorem refl (c : TabRefreshCoordinator) : Rerun c c := silent rfl rfl rfl

/-- The operation that runs moves on, to a point of which no more is known. -/
theorem run {point : Running} (hw : c'.watermarks = c.watermarks) (hr : c'.running = some point)
    (ho : c'.observed = c.observed)
    (hc : ∀ r, point.compared = some r → c.running.bind Running.compared = some r)
    (ha : ∀ r, point.admitted = some r → c.running.bind Running.admitted = some r)
    (hp : ∀ r, point.previous = some r → c.running.bind Running.previous = some r) :
    Rerun c c' := by
  refine ⟨hw, ⟨[], ho, by simp⟩, fun r h => hc r ?_, fun r h => ha r ?_, fun r h => hp r ?_⟩
  · simpa [hr] using h
  · simpa [hr] using h
  · simpa [hr] using h

theorem finish (c : TabRefreshCoordinator) : Rerun c c.finish :=
  ⟨rfl, ⟨[], rfl, by simp⟩, nofun, nofun, nofun⟩

end Rerun

theorem completeTabRefresh_rerun (c : TabRefreshCoordinator) (tabId : TabId) (i : OperationId)
    (accepted : Bool) : Rerun c (c.completeTabRefresh tabId i accepted) := by
  rcases completeTabRefresh_cases c tabId i accepted with ⟨he, -⟩ | ⟨v, -, -, he⟩
  · rw [he]
    exact .refl c
  · rw [he]
    refine .same _ rfl rfl rfl fun o ho => ?_
    unfold completion at ho
    split at ho
    · cases List.mem_singleton.mp ho
      rfl
    · cases ho

theorem cancelTabRefresh_rerun (c : TabRefreshCoordinator) (tabId : TabId) :
    Rerun c (c.cancelTabRefresh tabId) := by
  unfold cancelTabRefresh
  split
  · exact .refl c
  · exact completeTabRefresh_rerun _ _ _ _

theorem clearRuntimePendingForWindow_rerun (c : TabRefreshCoordinator) (windowId : WindowId) :
    Rerun c (c.clearRuntimePendingForWindow windowId) := by
  unfold clearRuntimePendingForWindow
  generalize c.pendingRefreshes.entries = entries
  induction entries generalizing c with
  | nil => exact .refl c
  | cons entry entries ih =>
    simp only [List.foldl_cons]
    split
    · exact ih c
    · split
      · exact (completeTabRefresh_rerun _ _ _ _).trans (ih _)
      · exact ih c

theorem clearPanelWindow_rerun (c : TabRefreshCoordinator) (tabId : TabId)
    (expectedWindowId : Option WindowId) :
    Rerun c (c.clearPanelWindow tabId expectedWindowId) := by
  unfold clearPanelWindow
  split
  · exact .refl c
  · split
    · exact .refl c
    · exact .silent rfl rfl rfl

theorem revokeIndexedParticipant_rerun (c : TabRefreshCoordinator) (tabId : TabId)
    (expectedWindowId : Option WindowId) :
    Rerun c (c.revokeIndexedParticipant tabId expectedWindowId).2 := by
  unfold revokeIndexedParticipant
  split
  · exact .refl c
  · split
    · exact .refl c
    · exact Rerun.same [_] rfl rfl rfl (by simp [ofWindow])

theorem grantParticipant_rerun (c : TabRefreshCoordinator) (windowId : WindowId) (tabId : TabId) :
    Rerun c (c.grantParticipant windowId tabId) := by
  simp only [grantParticipant]
  split
  · exact .refl c
  · split
    · exact Rerun.same [_] rfl rfl rfl (by simp [ofWindow])
    · exact Rerun.same [_, _] rfl rfl rfl (by simp [ofWindow])

theorem Frame.rerun (h : Frame c c') : Rerun c c' := by
  obtain ⟨hc, newer, hob, hno⟩ := h
  refine .same newer (congrArg Core.watermarks hc) (congrArg Core.running hc) hob fun o ho => ?_
  have hpart := hno o ho
  cases o <;> first | rfl | cases hpart

theorem closePanel_rerun (c : TabRefreshCoordinator) (tabId : TabId)
    (expectedWindowId : Option WindowId) : Rerun c (c.closePanel tabId expectedWindowId) :=
  ((clearPanelWindow_rerun _ _ _).trans (cancelTabRefresh_rerun _ _)).trans
    (revokeIndexedParticipant_rerun _ _ _)

theorem leavePanel_rerun (c : TabRefreshCoordinator) (tabId : TabId) (windowId : WindowId) :
    Rerun c (c.leavePanel tabId windowId) := by
  simp only [leavePanel]
  generalize hd : (if (c.currentPanelWindow tabId).isSome = true then c.cancelTabRefresh tabId
    else c) = d
  have hd : Rerun c d := by
    subst hd
    split
    · exact cancelTabRefresh_rerun _ _
    · exact .refl c
  split
  · exact (hd.trans (clearPanelWindow_rerun _ _ _)).trans (revokeIndexedParticipant_rerun _ _ _)
  · exact hd

/-- A row raises the watermark of its window. -/
theorem get?_raiseWatermark (watermarks : OrderedMap WindowId WindowWatermark)
    (states : List TabRefreshState) {p : WindowWatermark}
    (h : watermarks.get? windowId = some p) :
    ∃ q, (states.foldl raiseWatermark watermarks).get? windowId = some q ∧ ¬Before q p := by
  induction states generalizing watermarks p with
  | nil => exact ⟨p, h, not_before_self p⟩
  | cons state states ih =>
    have hstep : ∃ q, (raiseWatermark watermarks state).get? windowId = some q ∧ ¬Before q p := by
      unfold raiseWatermark
      split
      · rename_i hnew
        rw [OrderedMap.get?_set]
        split
        · rename_i he
          rw [← he, h] at hnew
          exact ⟨_, rfl, (isNewerRefresh_some.mp hnew).not_before⟩
        · exact ⟨p, h, not_before_self p⟩
      · exact ⟨p, h, not_before_self p⟩
    obtain ⟨q, hq, hle⟩ := hstep
    obtain ⟨q', hq', hle'⟩ := ih _ hq
    exact ⟨q', hq', not_before_trans hle hle'⟩

namespace WatermarkInvariant

theorem initial : WatermarkInvariant initial :=
  ⟨fun _ => List.Pairwise.nil, nofun, nofun, nofun, nofun⟩

theorem rerun (inv : WatermarkInvariant c) (h : Rerun c c') : WatermarkInvariant c' := by
  obtain ⟨hw, ⟨newer, hob, hno⟩, hc, ha, hp⟩ := h
  have hsince (windowId) := since_append hno windowId c.observed
  refine ⟨fun windowId => ?_, fun windowId p hm => ?_, fun r hr p hm => ?_, fun r hr hm => ?_,
    fun r previous hr p hm => ?_⟩
  · rw [hob, (hsince windowId).2]
    exact inv.increasing windowId
  · rw [hob, (hsince windowId).2] at hm
    rw [hw]
    exact inv.floor windowId p hm
  · rw [hob, (hsince r.windowId).2] at hm
    exact inv.compared r (hc r hr) p hm
  · rw [hob, (hsince r.windowId).1] at hm
    rw [hw]
    exact inv.admitted r (ha r hr) hm
  · rw [hob, (hsince r.windowId).2] at hm
    exact inv.previous r previous (hp _ hr) p hm

theorem finish (inv : WatermarkInvariant c) : WatermarkInvariant c.finish := inv.rerun (.finish c)

theorem raise (inv : WatermarkInvariant c) (loaded : StoredStates) :
    WatermarkInvariant { c with watermarks := loaded.states.foldl raiseWatermark c.watermarks } := by
  have hraise {w : WindowId} {p : WindowWatermark}
      (h : ∃ q, c.watermarks.get? w = some q ∧ ¬Before q p) :
      ∃ q, (loaded.states.foldl raiseWatermark c.watermarks).get? w = some q ∧ ¬Before q p := by
    obtain ⟨q, hq, hle⟩ := h
    obtain ⟨q', hq', hle'⟩ := get?_raiseWatermark c.watermarks loaded.states hq
    exact ⟨q', hq', not_before_trans hle hle'⟩
  exact ⟨inv.increasing, fun w p hm => hraise (inv.floor w p hm), inv.compared,
    fun r hr hm => hraise (inv.admitted r hr hm), inv.previous⟩

/-- The window begins anew: nothing of it counts as accepted any more. -/
theorem restart {o : Observation} (inv : WatermarkInvariant c)
    (ho : o = .epochBegun windowId ∨ o = .windowRemoved windowId)
    (hw : ∀ w, w ≠ windowId → c'.watermarks.get? w = c.watermarks.get? w)
    (hr : c'.running = c.running) (hob : c'.observed = o :: c.observed) :
    WatermarkInvariant c' := by
  have hself : admittedSince windowId c'.observed = [] ∧ returnedSince windowId c'.observed = [] := by
    rw [hob]
    rcases ho with rfl | rfl
    · simp [admittedSince, returnedSince]
    · simp [admittedSince, returnedSince]
  have hother (w) (hne : w ≠ windowId) : admittedSince w c'.observed = admittedSince w c.observed ∧
      returnedSince w c'.observed = returnedSince w c.observed := by
    rw [hob]
    rcases ho with rfl | rfl
    · simp [admittedSince, returnedSince, Ne.symm hne]
    · simp [admittedSince, returnedSince, Ne.symm hne]
  refine ⟨fun w => ?_, fun w p hm => ?_, fun r hrun p hm => ?_, fun r hrun hm => ?_,
    fun r previous hrun p hm => ?_⟩
  · by_cases he : w = windowId
    · rw [he, hself.2]
      exact List.Pairwise.nil
    · rw [(hother w he).2]
      exact inv.increasing w
  · by_cases he : w = windowId
    · rw [he, hself.2] at hm
      cases hm
    · rw [(hother w he).2] at hm
      rw [hw w he]
      exact inv.floor w p hm
  · rw [hr] at hrun
    by_cases he : r.windowId = windowId
    · rw [he, hself.2] at hm
      cases hm
    · rw [(hother _ he).2] at hm
      exact inv.compared r hrun p hm
  · rw [hr] at hrun
    by_cases he : r.windowId = windowId
    · rw [he, hself.1] at hm
      cases hm
    · rw [(hother _ he).1] at hm
      rw [hw _ he]
      exact inv.admitted r hrun hm
  · rw [hr] at hrun
    by_cases he : r.windowId = windowId
    · rw [he, hself.2] at hm
      cases hm
    · rw [(hother _ he).2] at hm
      exact inv.previous r previous hrun p hm

theorem move {strict : Bool} {marked : Option WindowId → Prop} (inv : WatermarkInvariant c) (h : Move strict marked c c') :
    WatermarkInvariant c' := by
  cases h with
  | frame h => exact inv.rerun h.rerun
  | cancel tabId => exact inv.rerun (cancelTabRefresh_rerun c tabId)
  | clearPending windowId => exact inv.rerun (clearRuntimePendingForWindow_rerun c windowId)
  | move tabId windowId =>
    exact inv.rerun ((leavePanel_rerun c tabId windowId).trans (.silent rfl rfl rfl))
  | close tabId expectedWindowId => exact inv.rerun (closePanel_rerun c tabId expectedWindowId)
  | terminate tabId =>
    refine inv.rerun (Rerun.trans ?_ (closePanel_rerun _ tabId none))
    exact .silent rfl rfl rfl
  | grant tabId windowId _ => exact inv.rerun (grantParticipant_rerun c windowId tabId)
  | disable tabId windowId =>
    exact inv.rerun ((cancelTabRefresh_rerun c tabId).trans (revokeIndexedParticipant_rerun _ _ _))
  | withdraw tabId windowId _ => exact inv.rerun (revokeIndexedParticipant_rerun c tabId _)
  | raise loaded => exact inv.raise loaded
  | forget windowId =>
    exact inv.restart (.inr rfl) (fun w hne => by simp [hne]) rfl rfl

/-! ## The queue -/

/-- The refresh is newer than all that the window has accepted. -/
theorem refreshLoaded {r : AcceptedRefresh} {states : List TabRefreshState}
    (inv : WatermarkInvariant c) : WatermarkInvariant (c.refreshLoaded r states) := by
  simp only [TabRefreshCoordinator.refreshLoaded]
  split
  · exact inv.finish
  · rename_i hnew
    simp only [Bool.not_eq_true', Bool.not_eq_false] at hnew
    refine ⟨inv.increasing, inv.floor, fun r' hr p hm => ?_, (fun _ h => by cases h),
      fun _ _ h => by cases h⟩
    cases hr
    obtain ⟨q, hq, hle⟩ := inv.floor r.windowId p hm
    rw [hq] at hnew
    obtain ⟨q', hq', hle'⟩ := currentWatermark_not_before
      (states.filter fun state => state.windowId = r.windowId) q
    rw [hq'] at hnew
    have hbefore := isNewerRefresh_some.mp hnew
    have hnot := not_before_trans hle hle'
    unfold Before at *
    omega

theorem refreshAdmitted {r : AcceptedRefresh} {windowStates : List TabRefreshState}
    (inv : WatermarkInvariant c) (hr : c.running.bind Running.compared = some r) :
    WatermarkInvariant (c.refreshAdmitted r windowStates) := by
  have hcmp := inv.compared r hr
  have hreturned (w) : returnedSince w (c.refreshAdmitted r windowStates).observed =
      returnedSince w c.observed := rfl
  refine ⟨inv.increasing, fun w p hm => ?_, fun r' hr' p hm => ?_, fun r' hr' hm => ?_,
    fun r' previous hr' p hm => ?_⟩
  · show ∃ q, (c.watermarks.set r.windowId r.incoming).get? w = some q ∧ ¬Before q p
    rw [OrderedMap.get?_set]
    split
    · rename_i he
      exact ⟨_, rfl, (hcmp p (he ▸ hm)).not_before⟩
    · exact inv.floor w p hm
  · cases hr'
    exact hcmp p hm
  · cases hr'
    refine ⟨r.incoming, ?_, not_before_self _⟩
    show (c.watermarks.set r.windowId r.incoming).get? r.windowId = _
    simp
  · cases hr'
    exact inv.floor r.windowId p hm

theorem finishAccepted {r : AcceptedRefresh} (inv : WatermarkInvariant c)
    (hc : c.running.bind Running.compared = some r)
    (ha : c.running.bind Running.admitted = some r) :
    WatermarkInvariant (c.finishAccepted r) := by
  have hcmp := inv.compared r hc
  have hob : (c.finishAccepted r).observed =
      .returned r.refresh r.windowId r.incoming :: c.observed := rfl
  have hsince (w) : returnedSince w (c.finishAccepted r).observed =
      if r.windowId = w ∧ r.refresh ∈ admittedSince w c.observed then
        r.incoming :: returnedSince w c.observed
      else returnedSince w c.observed := by
    rw [hob]
    rfl
  refine ⟨fun w => ?_, fun w p hm => ?_, nofun, nofun, nofun⟩
  · rw [hsince]
    split
    · rename_i h
      obtain ⟨rfl, -⟩ := h
      exact List.pairwise_cons.mpr ⟨hcmp, inv.increasing _⟩
    · exact inv.increasing w
  · rw [hsince] at hm
    split at hm
    · rename_i h
      obtain ⟨rfl, hmem⟩ := h
      rcases List.mem_cons.mp hm with rfl | hm
      · exact inv.admitted r ha hmem
      · exact inv.floor _ p hm
    · exact inv.floor w p hm

theorem rolledBack {point : RollingBack} (inv : WatermarkInvariant c)
    (hr : c.running = some (.rollingBack point)) : WatermarkInvariant (c.rolledBack point) := by
  have hprev := inv.previous point.refresh point.previousWatermark (by rw [hr]; rfl)
  simp only [TabRefreshCoordinator.rolledBack]
  split
  · exact inv.finish
  · split
    · rename_i previous hp
      refine ⟨inv.increasing, fun w p hm => ?_, (fun _ h => by cases h), (fun _ h => by cases h),
        fun _ _ h => by cases h⟩
      show ∃ q, (c.watermarks.set point.refresh.windowId previous).get? w = some q ∧ ¬Before q p
      rw [OrderedMap.get?_set]
      split
      · rename_i he
        obtain ⟨q, hq, hle⟩ := hprev p (he ▸ hm)
        rw [hp] at hq
        exact ⟨previous, rfl, by cases hq; exact hle⟩
      · exact inv.floor w p hm
    · rename_i hp
      refine ⟨inv.increasing, fun w p hm => ?_, (fun _ h => by cases h), (fun _ h => by cases h),
        fun _ _ h => by cases h⟩
      show ∃ q, (c.watermarks.delete point.refresh.windowId).get? w = some q ∧ ¬Before q p
      rw [OrderedMap.get?_delete]
      split
      · rename_i he
        obtain ⟨q, hq, -⟩ := hprev p (he ▸ hm)
        rw [hp] at hq
        cases hq
      · exact inv.floor w p hm

end WatermarkInvariant

/-- The refresh `r` has set the watermark, and is being accepted. -/
def Accepting (c : TabRefreshCoordinator) (r : AcceptedRefresh) : Prop :=
  c.running.bind Running.compared = some r ∧ c.running.bind Running.admitted = some r

theorem Accepting.of_same {r : AcceptedRefresh} (h : Accepting c r) (hr : c'.running = c.running) :
    Accepting c' r := by
  unfold Accepting at *
  rw [hr]
  exact h

theorem dispatched_rerun (c : TabRefreshCoordinator) {after : Option AcceptedRefresh}
    (h : ∀ r, after = some r → Accepting c r) : Rerun c (c.dispatched after) := by
  cases after with
  | none => exact .finish c
  | some r =>
    refine .run rfl rfl rfl (fun r' hr => ?_) (fun r' hr => ?_) nofun
    · cases hr
      exact (h r rfl).1
    · cases hr
      exact (h r rfl).2

theorem completeTabRefresh_running (c : TabRefreshCoordinator) (tabId : TabId) (i : OperationId)
    (accepted : Bool) : (c.completeTabRefresh tabId i accepted).running = c.running := by
  obtain ⟨_, _, _, he⟩ := completeTabRefresh_rest c tabId i accepted
  rw [he]

theorem completed_rerun (c : TabRefreshCoordinator) (tabId : TabId) (i : OperationId)
    (accepted : Bool) {after : Option AcceptedRefresh} (h : ∀ r, after = some r → Accepting c r) :
    Rerun c ((c.completeTabRefresh tabId i accepted).dispatched after) :=
  (completeTabRefresh_rerun c tabId i accepted).trans
    (dispatched_rerun _ fun r hr => (h r hr).of_same (completeTabRefresh_running _ _ _ _))

/-- A point of the dispatch keeps what awaits it. -/
theorem run_rerun (c : TabRefreshCoordinator) {point : Running} {after : Option AcceptedRefresh}
    (hp : point.compared = after) (hp' : point.admitted = after) (hp'' : point.previous = none)
    (h : ∀ r, after = some r → Accepting c r) : Rerun c (c.run point) := by
  refine .run rfl rfl rfl (fun r hr => ?_) (fun r hr => ?_) (fun r hr => ?_)
  · exact (h r (hp ▸ hr)).1
  · exact (h r (hp' ▸ hr)).2
  · rw [hp''] at hr
    cases hr

theorem dispatch_rerun (c : TabRefreshCoordinator) (tabId : TabId) (i : OperationId)
    {after : Option AcceptedRefresh} (h : ∀ r, after = some r → Accepting c r) :
    Rerun c (c.dispatch tabId i after) := by
  unfold dispatch
  split
  · exact completed_rerun c tabId i false h
  · have hs : Rerun c (c.startDispatching i) ∧ (c.startDispatching i).running = c.running := by
      unfold startDispatching
      split
      · exact ⟨.refl c, rfl⟩
      · exact ⟨.silent rfl rfl rfl, rfl⟩
    exact hs.1.trans (run_rerun _ rfl rfl rfl fun r hr => (h r hr).of_same hs.2)

theorem dispatchPrepared_rerun (c : TabRefreshCoordinator) (tabId : TabId) (i : OperationId)
    {after : Option AcceptedRefresh} (h : ∀ r, after = some r → Accepting c r) :
    Rerun c (c.dispatchPrepared tabId i after) := by
  unfold dispatchPrepared
  split
  · exact completed_rerun c tabId i false h
  · split
    · exact .refl c
    · rename_i v _
      have hd : Rerun c
          { c with observed := .dispatched v.refresh tabId v.pending :: c.observed } :=
        .same [_] rfl rfl rfl (by simp [ofWindow])
      exact hd.trans (run_rerun _ rfl rfl rfl fun r hr => (h r hr).of_same rfl)

theorem stageTab_rerun (r : AcceptedRefresh) (activeTabId : Option TabId) (stage : Stage)
    (state : Option (TabId × OperationId) × TabRefreshCoordinator) :
    Rerun state.2 (stageTab r activeTabId state stage).2 ∧
      (stageTab r activeTabId state stage).2.running = state.2.running := by
  obtain ⟨active, c⟩ := state
  have hc := cancelTabRefresh_rerun c stage.tabId
  have hr : (c.cancelTabRefresh stage.tabId).running = c.running := by
    obtain ⟨_, _, _, he⟩ := cancelTabRefresh_rest c stage.tabId
    rw [he]
  simp only [stageTab]
  split
  · exact ⟨hc, hr⟩
  · split
    · exact ⟨hc, hr⟩
    · refine ⟨hc.trans ?_, hr⟩
      exact .same [_] rfl rfl rfl (by simp [ofWindow])

namespace WatermarkInvariant

theorem stageAll {r : AcceptedRefresh} {activeTabId : Option TabId} {stages : List Stage}
    (inv : WatermarkInvariant c) (h : Accepting c r) :
    WatermarkInvariant (c.stageAll r activeTabId stages) := by
  have hfold : ∀ state : Option (TabId × OperationId) × TabRefreshCoordinator,
      WatermarkInvariant state.2 → Accepting state.2 r →
        WatermarkInvariant (stages.foldl (stageTab r activeTabId) state).2 ∧
          Accepting (stages.foldl (stageTab r activeTabId) state).2 r := by
    induction stages with
    | nil => exact fun _ hi ha => ⟨hi, ha⟩
    | cons stage stages ih =>
      intro state hi ha
      have hstep := stageTab_rerun r activeTabId stage state
      exact ih _ (hi.rerun hstep.1) (ha.of_same hstep.2)
  have hstate := hfold (none, c) inv h
  simp only [TabRefreshCoordinator.stageAll]
  generalize stages.foldl (stageTab r activeTabId) (none, c) = state at hstate
  obtain ⟨active, d⟩ := state
  cases active with
  | none => exact hstate.1.finishAccepted hstate.2.1 hstate.2.2
  | some active =>
    refine hstate.1.rerun (dispatch_rerun _ _ _ fun r' hr => ?_)
    cases hr
    exact hstate.2

theorem commitNext {r : AcceptedRefresh} {previousWatermark : Option WindowWatermark}
    {activeTabId : Option TabId} {rest : List TabRefreshState}
    {commits : List RefreshAdmissionCommit} {stages : List Stage} (inv : WatermarkInvariant c)
    (h : Accepting c r) (hp : c.running.bind Running.previous = some (r, previousWatermark)) :
    WatermarkInvariant (c.commitNext r previousWatermark activeTabId rest commits stages) := by
  cases rest with
  | nil => exact inv.stageAll h
  | cons snapshot rest =>
    refine inv.rerun (.run rfl rfl rfl (fun r' hr => ?_) (fun r' hr => ?_) (fun r' hr => ?_))
    · cases hr
      exact h.1
    · cases hr
      exact h.2
    · cases hr
      exact hp

/-- A point of the same refresh, of which as much is known. -/
theorem moveOn {point point' : Running} (inv : WatermarkInvariant c)
    (hr : c.running = some point) (hc : point'.compared = point.compared)
    (ha : point'.admitted = point.admitted) (hp : point'.previous = point.previous) :
    WatermarkInvariant (c.run point') := by
  refine inv.rerun (.run rfl rfl rfl (fun r h => ?_) (fun r h => ?_) (fun r h => ?_))
  · rw [hr, Option.bind_some, ← hc]
    exact h
  · rw [hr, Option.bind_some, ← ha]
    exact h
  · rw [hr, Option.bind_some, ← hp]
    exact h

theorem epochNext (inv : WatermarkInvariant c) (windowId : WindowId)
    (rest : List TabRefreshState) : WatermarkInvariant (c.epochNext windowId rest) := by
  cases rest with
  | nil => exact inv.finish
  | cons _ rest => exact inv.rerun (.run rfl rfl rfl nofun nofun nofun)

theorem proceed {point : Running} {outcome : Outcome} (inv : WatermarkInvariant c)
    (hr : c.running = some point) (h : c.proceed point outcome = some c') :
    WatermarkInvariant c' := by
  have accepting (r : AcceptedRefresh) (hc : point.compared = some r)
      (ha : point.admitted = some r) : Accepting c r := by
    unfold Accepting
    rw [hr]
    exact ⟨hc, ha⟩
  unfold TabRefreshCoordinator.proceed at h
  split at h
  · cases h
    exact inv.refreshLoaded
  · cases h
    exact inv.finish
  · cases h
    split
    · exact inv.refreshAdmitted (by rw [hr]; rfl)
    · exact inv.finish
  · cases h
    exact inv.finish
  · cases h
    exact inv.commitNext (accepting _ rfl rfl) (by rw [hr]; rfl)
  · cases h
    exact inv.commitNext (accepting _ rfl rfl) (by rw [hr]; rfl)
  · split at h
    · cases h
    · cases h
      exact inv.moveOn hr rfl rfl rfl
  · simp only [Option.map_eq_some_iff] at h
    obtain ⟨ran, -, rfl⟩ := h
    exact inv.commitNext (accepting _ rfl rfl) (by rw [hr]; rfl)
  · cases h
    exact inv.moveOn hr rfl rfl rfl
  · split at h
    · cases h
    · split at h
      · cases h
      · cases h
        exact inv.moveOn hr rfl rfl rfl
  · split at h
    · cases h
      exact inv.rolledBack hr
    · cases h
      exact inv.moveOn hr rfl rfl rfl
    · cases h
  · split at h
    · cases h
    · cases h
      exact inv.moveOn hr rfl rfl rfl
  · cases h
    exact inv.rerun (dispatchPrepared_rerun c _ _ fun r ha => accepting r ha ha)
  · cases h
    exact inv.rerun (completed_rerun c _ _ _ fun r ha => accepting r ha ha)
  · cases h
    exact inv.rerun (completed_rerun c _ _ _ fun r ha => accepting r ha ha)
  · cases h
    have ha := accepting _ rfl rfl
    exact inv.finishAccepted ha.1 ha.2
  · cases h
    exact inv.epochNext _ _
  · cases h
    exact inv.finish
  · cases h
    exact inv.rerun (.run rfl rfl rfl nofun nofun nofun)
  · cases h
    exact inv.epochNext _ _
  · cases h
    exact inv.finish
  · cases h

theorem begin {operation : QueuedOperation} (inv : WatermarkInvariant c) :
    WatermarkInvariant (c.begin operation) := by
  cases operation with
  | accept windowId incoming onTabCompleted =>
    exact inv.rerun
      (.run rfl rfl rfl (fun _ h => by cases h) (fun _ h => by cases h) (fun _ h => by cases h))
  | epoch windowId =>
    have hother (w) (hne : w ≠ windowId) :
        (c.watermarks.set windowId ⟨0, .known .styles, none⟩).get? w = c.watermarks.get? w := by
      simp [hne]
    have hset : WatermarkInvariant { c with
        watermarks := c.watermarks.set windowId ⟨0, .known .styles, none⟩
        observed := .epochBegun windowId :: c.observed } :=
      inv.restart (.inl rfl) hother rfl rfl
    exact hset.rerun
      (.run rfl rfl rfl (fun _ h => by cases h) (fun _ h => by cases h) (fun _ h => by cases h))
  | activate tabId windowId =>
    simp only [TabRefreshCoordinator.begin]
    split
    · exact inv.rerun (cancelTabRefresh_rerun c tabId)
    · split
      · exact inv
      · split
        · exact inv
        · split
          · exact inv
          · exact inv.rerun (dispatch_rerun c _ _ (fun _ h => by cases h))

/-- The step lemma. -/
theorem apply {action : Action} (inv : WatermarkInvariant c) (h : c.apply action = some c') :
    WatermarkInvariant c' := by
  have hcases : Moves false (fun _ => True) c c' ∨ _ := apply_cases h (fun hs => by cases hs) fun _ _ => trivial
  rcases hcases with hm | ⟨operation, queue, -, -, -, rfl⟩ | ⟨point, outcome, -, hr, hp⟩
  · clear h
    induction hm with
    | refl => exact inv
    | tail _ hmove ih => exact ih.move hmove
  · exact begin (inv.rerun (.silent rfl rfl rfl))
  · exact inv.proceed hr hp

theorem of_run {h : Trace} (run : Run Step TabRefreshCoordinator.initial h c) :
    WatermarkInvariant c :=
  run.invariant .initial fun _ _ _ inv hs => inv.apply hs

end WatermarkInvariant

end TabRefreshCoordinator

end PinOp.Refresh
