import PinOp.Refresh.Operations

/-!
# Operations through the queue

The running operation of the queue stages what it accepts, and dispatches. `proceed` and
`begin` keep `OperationsInvariant`, which makes it one of every run.
-/

namespace PinOp.Refresh

open PinOp.Lib PinOp.Browser PinOp.Protocol Observation

namespace TabRefreshCoordinator

variable {c c' : TabRefreshCoordinator}

/-! ## What completing leaves -/

theorem operation?_complete (c : TabRefreshCoordinator) (tabId : TabId) (i : OperationId)
    (accepted : Bool) (j : OperationId) :
    (c.completeTabRefresh tabId i accepted).operation? j =
      (c.operation? j).map fun w => { w with completed := w.completed || j = i } := by
  rcases completeTabRefresh_cases c tabId i accepted with ⟨he, hall⟩ | ⟨v, hv, hc, he⟩
  · rw [he]
    cases hw : c.operation? j with
    | none => rfl
    | some w =>
      by_cases hj : j = i
      · subst hj
        have hwc := hall w hw
        cases w
        simp_all
      · cases w
        simp [hj]
  · rw [operation?_set (by rw [he]) hv]
    by_cases hj : j = i
    · subst hj
      simp [hv]
    · cases hw : c.operation? j with
      | none => simp [hj]
      | some w => simp [hj]

theorem operation?_cancel (c : TabRefreshCoordinator) (tabId : TabId) (j : OperationId) :
    (c.cancelTabRefresh tabId).operation? j =
      (c.operation? j).map fun w =>
        { w with completed := w.completed || c.pendingRefreshes.get? tabId = some j } := by
  unfold cancelTabRefresh
  split
  · rename_i h
    cases hw : c.operation? j with
    | none => rfl
    | some w =>
      cases w
      simp [h]
  · rename_i i h
    rw [operation?_complete]
    simp only [h, Option.some.injEq, eq_comm]

/-- Completing changes nothing but operations, pending refreshes and what is observed. -/
theorem completeTabRefresh_rest (c : TabRefreshCoordinator) (tabId : TabId) (i : OperationId)
    (accepted : Bool) : ∃ operations pendingRefreshes observed,
      c.completeTabRefresh tabId i accepted = { c with
        operations := operations
        pendingRefreshes := pendingRefreshes
        observed := observed } := by
  rcases completeTabRefresh_cases c tabId i accepted with ⟨he, -⟩ | ⟨v, -, -, he⟩
  · exact ⟨c.operations, c.pendingRefreshes, c.observed, he⟩
  · exact ⟨_, _, _, he⟩

theorem cancelTabRefresh_rest (c : TabRefreshCoordinator) (tabId : TabId) :
    ∃ operations pendingRefreshes observed, c.cancelTabRefresh tabId = { c with
      operations := operations
      pendingRefreshes := pendingRefreshes
      observed := observed } := by
  unfold cancelTabRefresh
  split
  · exact ⟨c.operations, c.pendingRefreshes, c.observed, rfl⟩
  · exact completeTabRefresh_rest _ _ _ _

theorem finish_complete (c : TabRefreshCoordinator) (tabId : TabId) (i : OperationId)
    (accepted : Bool) :
    (c.completeTabRefresh tabId i accepted).finish =
      c.finish.completeTabRefresh tabId i accepted := by
  rcases completeTabRefresh_cases c tabId i accepted with ⟨h₁, a₁⟩ | ⟨v, hv, hc, h₁⟩
  · rcases completeTabRefresh_cases c.finish tabId i accepted with ⟨h₂, -⟩ | ⟨w, hw, hc, -⟩
    · rw [h₁, h₂]
    · rw [a₁ w hw] at hc
      cases hc
  · rcases completeTabRefresh_cases c.finish tabId i accepted with ⟨-, a₂⟩ | ⟨w, hw, -, h₂⟩
    · rw [a₂ v hv] at hc
      cases hc
    · rw [show c.finish.operation? i = c.operation? i from rfl, hv] at hw
      cases hw
      rw [h₁, h₂]
      rfl

theorem finish_cancel (c : TabRefreshCoordinator) (tabId : TabId) :
    (c.cancelTabRefresh tabId).finish = c.finish.cancelTabRefresh tabId := by
  unfold cancelTabRefresh
  have hp : c.finish.pendingRefreshes = c.pendingRefreshes := rfl
  rw [hp]
  split
  · rfl
  · exact finish_complete _ _ _ _

theorem startDispatching_eq {i : OperationId} {v : TabRefreshOperation}
    (hv : c.operation? i = some v) : c.startDispatching i =
      { c with operations := c.operations.set i { v with phase := .dispatching } } := by
  unfold startDispatching
  rw [operation?] at hv
  simp [hv]

namespace OperationsInvariant

/-! ## The running operation -/

/-- Only what is known of the running operation is lost. -/
theorem finish (inv : OperationsInvariant c) : OperationsInvariant c.finish := by
  refine ⟨inv.distinct, inv.older, inv.completed, inv.dispatched, inv.unstaged, inv.staged,
    inv.pending, ?_, ?_, ?_⟩
  · intro tabId i after h
    cases h
  · intro tabId i after h
    cases h
  · intro point r tabs h
    cases h

/-- A point that is none of the dispatch, and none that still has tabs to stage. -/
theorem run {point : Running} (inv : OperationsInvariant c.finish)
    (hp : ∀ tabId i after, point ≠ .preparing tabId i after)
    (hd : ∀ tabId i after, point ≠ .dispatching tabId i after) (ha : point.accepting = none) :
    OperationsInvariant (c.run point) := by
  refine ⟨inv.distinct, inv.older, inv.completed, inv.dispatched, inv.unstaged, inv.staged,
    inv.pending, ?_, ?_, ?_⟩
  · intro tabId i after h
    cases h
    exact absurd rfl (hp tabId i after)
  · intro tabId i after h
    cases h
    exact absurd rfl (hd tabId i after)
  · intro point' r tabs h h'
    cases h
    rw [ha] at h'
    cases h'

/-- A point from which operations of the refresh are staged for the tabs. -/
theorem runAccepting {point : Running} {r : AcceptedRefresh} {tabs : List TabId}
    (inv : OperationsInvariant c.finish) (ha : point.accepting = some (r, tabs))
    (hnd : tabs.Nodup) (hlt : r.refresh < c.nextRefresh)
    (hall : ∀ i v, c.operation? i = some v → v.refresh < r.refresh) :
    OperationsInvariant (c.run point) := by
  refine ⟨inv.distinct, inv.older, inv.completed, inv.dispatched, inv.unstaged, inv.staged,
    inv.pending, ?_, ?_, ?_⟩
  · intro tabId i after h
    cases h
    cases ha
  · intro tabId i after h
    cases h
    cases ha
  · intro point' r' tabs' h h'
    cases h
    rw [ha] at h'
    cases h'
    exact ⟨hnd, hlt, hall⟩

theorem afterDispatch (inv : OperationsInvariant c.finish) (after : Option AcceptedRefresh) :
    OperationsInvariant (c.dispatched after) := by
  cases after with
  | none => exact inv
  | some r => exact inv.run nofun nofun rfl

/-! ## Dispatching -/

theorem startDispatching {i : OperationId} {v : TabRefreshOperation}
    (inv : OperationsInvariant c.finish) (hv : c.operation? i = some v) :
    OperationsInvariant (c.startDispatching i).finish := by
  rw [startDispatching_eq hv]
  generalize hd : ({ c with operations := c.operations.set i { v with phase := .dispatching } } :
    TabRefreshCoordinator).finish = d
  have hop (j) : d.operation? j = if j = i then some { v with phase := .dispatching } else
      c.operation? j := operation?_set (by rw [← hd]; rfl) hv
  have hp : d.pendingRefreshes = c.pendingRefreshes := by rw [← hd]; rfl
  have hob : d.observed = c.observed := by rw [← hd]; rfl
  have hn : d.nextRefresh = c.nextRefresh := by rw [← hd]; rfl
  have hr : d.running = none := by rw [← hd]; rfl
  -- an operation of the new state is one of the old state but for its phase
  have back (j w) (hw : d.operation? j = some w) : ∃ w', c.operation? j = some w' ∧
      w'.refresh = w.refresh ∧ w'.tabId = w.tabId ∧ w'.completed = w.completed ∧
        (w'.phase = .dispatching → w.phase = .dispatching) := by
    rw [hop] at hw
    split at hw
    · rename_i hj
      cases hw
      exact ⟨v, hj ▸ hv, rfl, rfl, rfl, fun _ => rfl⟩
    · exact ⟨w, hw, rfl, rfl, rfl, id⟩
  have forth (j w) (hw : c.operation? j = some w) : ∃ w', d.operation? j = some w' ∧
      w'.refresh = w.refresh ∧ w'.tabId = w.tabId ∧ w'.windowId = w.windowId ∧
        w'.completed = w.completed := by
    rw [hop]
    split
    · rename_i hj
      subst hj
      rw [hv] at hw
      cases hw
      exact ⟨_, rfl, rfl, rfl, rfl, rfl⟩
    · exact ⟨w, hw, rfl, rfl, rfl, rfl⟩
  refine ⟨?_, ?_, ?_, ?_, ?_, ?_, ?_, ?_, ?_, ?_⟩
  · intro j k w x hw hx hrf htb
    obtain ⟨w', hw', er, et, -⟩ := back j w hw
    obtain ⟨x', hx', er', et', -⟩ := back k x hx
    exact inv.distinct j k w' x' hw' hx' (by rw [er, er', hrf]) (by rw [et, et', htb])
  · intro j w hw
    obtain ⟨w', hw', er, -⟩ := back j w hw
    rw [hn, ← er]
    exact inv.older j w' hw'
  · intro j w hw
    obtain ⟨w', hw', er, et, ec, -⟩ := back j w hw
    rw [hob, ← er, ← et, ← ec]
    exact inv.completed j w' hw'
  · intro j w hw
    obtain ⟨w', hw', er, et, -, ep⟩ := back j w hw
    have hold := inv.dispatched j w' hw'
    rw [er, et] at hold
    rw [hob]
    refine hold.trans ?_
    split
    · rename_i hph
      rw [if_pos (ep hph)]
    · exact Nat.zero_le _
  · intro refresh tab hu
    rw [hob]
    refine inv.unstaged refresh tab fun j w hw hrf => ?_
    obtain ⟨w', hw', er, et, -⟩ := forth j w hw
    rw [← et]
    exact hu j w' hw' (er.trans hrf)
  · intro refresh tab windowId hm
    rw [hob] at hm
    obtain ⟨j, w, hw, hrf, htb, hwin⟩ := inv.staged refresh tab windowId hm
    obtain ⟨w', hw', er, et, ew, -⟩ := forth j w hw
    exact ⟨j, w', hw', er.trans hrf, et.trans htb, ew.trans hwin⟩
  · intro tab j hj
    rw [hp] at hj
    obtain ⟨w, hw, ht, hc, hl⟩ := inv.pending tab j hj
    obtain ⟨w', hw', er, et, -, ec⟩ := forth j w hw
    exact ⟨w', hw', et.trans ht, ec.trans hc, by rw [hob, er]; exact hl⟩
  · intro tab j after hrun
    rw [hr] at hrun
    cases hrun
  · intro tab j after hrun
    rw [hr] at hrun
    cases hrun
  · intro point r tabs hrun
    rw [hr] at hrun
    cases hrun

/-- An operation that was not dispatched yet. -/
theorem dispatch {tabId : TabId} {i : OperationId} {v : TabRefreshOperation}
    (inv : OperationsInvariant c.finish) (hv : c.operation? i = some v) (ht : v.tabId = tabId)
    (hph : v.phase = .pending) (after : Option AcceptedRefresh) :
    OperationsInvariant (c.dispatch tabId i after) := by
  unfold TabRefreshCoordinator.dispatch
  split
  · refine afterDispatch ?_ after
    rw [finish_complete]
    refine inv.complete (fun w hw => ?_) false
    rw [show c.finish.operation? i = c.operation? i from rfl, hv] at hw
    cases hw
    exact ht
  · have hs := inv.startDispatching hv
    have hop : (c.startDispatching i).operation? i = some { v with phase := .dispatching } := by
      rw [operation?_set (by rw [startDispatching_eq hv]) hv, if_pos rfl]
    have hob : (c.startDispatching i).observed = c.observed := by
      rw [startDispatching_eq hv]
    have hz : c.observed.countP (dispatches v.refresh v.tabId) ≤ 0 := by
      have hle := inv.dispatched i v hv
      rwa [hph, if_neg (by decide)] at hle
    refine ⟨hs.distinct, hs.older, hs.completed, hs.dispatched, hs.unstaged, hs.staged,
      hs.pending, ?_, ?_, ?_⟩
    · intro tab j after' h
      cases h
      refine ⟨_, hop, ht, rfl, ?_⟩
      rw [show ((c.startDispatching i).run (.preparing tabId i after)).observed =
        (c.startDispatching i).observed from rfl, hob, ← ht]
      exact Nat.le_zero.mp hz
    · intro tab j after' h
      cases h
    · intro point r tabs h ha
      cases h
      cases ha

theorem dispatchPrepared {tabId : TabId} {i : OperationId} {after : Option AcceptedRefresh}
    (inv : OperationsInvariant c) (hr : c.running = some (.preparing tabId i after)) :
    OperationsInvariant (c.dispatchPrepared tabId i after) := by
  obtain ⟨v, hv, ht, hph, hz⟩ := inv.preparing tabId i after hr
  unfold TabRefreshCoordinator.dispatchPrepared
  split
  · refine afterDispatch ?_ after
    rw [finish_complete]
    refine inv.finish.complete (fun w hw => ?_) false
    rw [show c.finish.operation? i = c.operation? i from rfl, hv] at hw
    cases hw
    exact ht
  · have hv' : c.operations[i]? = some v := hv
    rw [hv']
    refine ⟨inv.distinct, inv.older, ?_, ?_, ?_, ?_, ?_, ?_, ?_, ?_⟩
    · intro j w hw
      have hle := inv.completed j w hw
      simpa [TabRefreshCoordinator.run, List.countP_cons, completes] using hle
    · intro j w hw
      have hle := inv.dispatched j w hw
      simp only [TabRefreshCoordinator.run, List.countP_cons, dispatches, Bool.and_eq_true,
        decide_eq_true_eq]
      by_cases hj : j = i
      · -- the operation itself: it was not dispatched before
        subst hj
        rw [show c.operation? j = some w from hw] at hv
        cases hv
        rw [hph, if_pos rfl, ht, hz]
        split <;> omega
      · have hdiff : ¬(v.refresh = w.refresh ∧ tabId = w.tabId) := by
          rintro ⟨hrf, htb⟩
          exact hj (inv.distinct j i w v hw hv hrf.symm (htb.symm.trans ht.symm))
        rw [if_neg hdiff]
        exact hle
    · intro refresh tab hu
      have hz' := inv.unstaged refresh tab hu
      have hdiff : ¬(v.refresh = refresh ∧ tabId = tab) := by
        rintro ⟨hrf, htb⟩
        exact hu i v hv hrf (ht.trans htb)
      simp only [TabRefreshCoordinator.run, List.countP_cons, dispatches, completes,
        Bool.and_eq_true, decide_eq_true_eq, if_neg hdiff]
      exact hz'
    · intro refresh tab windowId hm
      exact inv.staged refresh tab windowId (by simpa [TabRefreshCoordinator.run] using hm)
    · exact inv.pending
    · intro tab j after' h
      cases h
    · intro tab j after' h
      cases h
      exact ⟨v, hv, ht, List.mem_cons_self⟩
    · intro point r tabs h ha
      cases h
      cases ha

theorem dispatchSettled {tabId : TabId} {i : OperationId} {after : Option AcceptedRefresh}
    (inv : OperationsInvariant c) (hr : c.running = some (.dispatching tabId i after))
    (succeeded : Bool) : OperationsInvariant (c.dispatchSettled tabId i after succeeded) := by
  obtain ⟨v, hv, ht, -⟩ := inv.dispatching tabId i after hr
  unfold TabRefreshCoordinator.dispatchSettled
  refine afterDispatch ?_ after
  rw [finish_complete]
  refine inv.finish.complete (fun w hw => ?_) _
  rw [show c.finish.operation? i = c.operation? i from rfl, hv] at hw
  cases hw
  exact ht

/-! ## Staging -/

/-- A new operation becomes the pending one of its tab. -/
theorem stage {v : TabRefreshOperation} (inv : OperationsInvariant c.finish)
    (hlt : v.refresh < c.nextRefresh) (hco : v.completed = false)
    (hnew : ∀ i w, c.operation? i = some w → w.refresh = v.refresh → w.tabId ≠ v.tabId) :
    OperationsInvariant { c.finish with
      operations := c.operations ++ [v]
      pendingRefreshes := c.pendingRefreshes.set v.tabId c.operations.length
      observed := .staged v.refresh v.tabId v.windowId :: c.observed } := by
  generalize hd : ({ c.finish with
    operations := c.operations ++ [v]
    pendingRefreshes := c.pendingRefreshes.set v.tabId c.operations.length
    observed := .staged v.refresh v.tabId v.windowId :: c.observed } : TabRefreshCoordinator) = d
  have hop (j) : d.operation? j = if j = c.operations.length then some v else c.operation? j := by
    rw [← hd]
    by_cases hj : j = c.operations.length
    · subst hj
      simp [operation?]
    · rw [if_neg hj]
      simp only [operation?, List.getElem?_append]
      split
      · rfl
      · rename_i hlt
        have hge : c.operations.length ≤ j := Nat.le_of_not_lt hlt
        rw [List.getElem?_eq_none hge, List.getElem?_eq_none]
        exact Nat.sub_pos_of_lt (Nat.lt_of_le_of_ne hge (Ne.symm hj))
  have hob : d.observed = .staged v.refresh v.tabId v.windowId :: c.observed := by rw [← hd]
  have hn : d.nextRefresh = c.nextRefresh := by rw [← hd]; rfl
  have hr : d.running = none := by rw [← hd]; rfl
  have hp : d.pendingRefreshes = c.pendingRefreshes.set v.tabId c.operations.length := by rw [← hd]
  have hbound (j w) (hw : c.operation? j = some w) : j ≠ c.operations.length :=
    (List.getElem?_eq_some_iff.mp hw).1.ne
  have hnone := inv.unstaged v.refresh v.tabId hnew
  have hcount (refresh tab) : d.observed.countP (completes refresh tab) =
      c.observed.countP (completes refresh tab) := by
    rw [hob, List.countP_cons]
    rfl
  have hdispatch (refresh tab) : d.observed.countP (dispatches refresh tab) =
      c.observed.countP (dispatches refresh tab) := by
    rw [hob, List.countP_cons]
    rfl
  refine ⟨?_, ?_, ?_, ?_, ?_, ?_, ?_, ?_, ?_, ?_⟩
  · intro j k w x hw hx hrf htb
    rw [hop] at hw hx
    split at hw <;> split at hx
    · rename_i hj hk
      exact hj.trans hk.symm
    · cases hw
      exact absurd htb.symm (hnew k x hx hrf.symm)
    · cases hx
      exact absurd htb (hnew j w hw hrf)
    · exact inv.distinct j k w x hw hx hrf htb
  · intro j w hw
    rw [hop] at hw
    rw [hn]
    split at hw
    · cases hw
      exact hlt
    · exact inv.older j w hw
  · intro j w hw
    rw [hop] at hw
    rw [hcount]
    split at hw
    · cases hw
      rw [show c.observed.countP (completes v.refresh v.tabId) = 0 from hnone.1]
      exact Nat.zero_le _
    · exact inv.completed j w hw
  · intro j w hw
    rw [hop] at hw
    rw [hdispatch]
    split at hw
    · cases hw
      rw [show c.observed.countP (dispatches v.refresh v.tabId) = 0 from hnone.2]
      exact Nat.zero_le _
    · exact inv.dispatched j w hw
  · intro refresh tab hu
    rw [hcount, hdispatch]
    refine inv.unstaged refresh tab fun j w hw => ?_
    refine hu j w ?_
    rw [hop, if_neg (hbound j w hw)]
    exact hw
  · intro refresh tab windowId hm
    rw [hob] at hm
    rcases List.mem_cons.mp hm with hm | hm
    · cases hm
      exact ⟨c.operations.length, v, by rw [hop, if_pos rfl], rfl, rfl, rfl⟩
    · obtain ⟨j, w, hw, hrest⟩ := inv.staged refresh tab windowId hm
      exact ⟨j, w, by rw [hop, if_neg (hbound j w hw)]; exact hw, hrest⟩
  · intro tab j hj
    rw [hp, OrderedMap.get?_set] at hj
    split at hj
    · rename_i ht
      subst ht
      cases hj
      exact ⟨v, by rw [hop, if_pos rfl], rfl, hco, by rw [hob]; simp [lastStaged]⟩
    · rename_i ht
      obtain ⟨w, hw, hwt, hc, hl⟩ := inv.pending tab j hj
      refine ⟨w, by rw [hop, if_neg (hbound j w hw)]; exact hw, hwt, hc, ?_⟩
      rw [hob, lastStaged, if_neg (Ne.symm ht)]
      exact hl
  · intro tab j after h
    rw [hr] at h
    cases h
  · intro tab j after h
    rw [hr] at h
    cases h
  · intro point r tabs h
    rw [hr] at h
    cases h

/-- What the staging loop keeps: the stages that are left are of tabs that the refresh has no
operation for, and the operation of the active tab is still to be dispatched. -/
structure Staging (r : AcceptedRefresh) (stages : List Stage)
    (state : Option (TabId × OperationId) × TabRefreshCoordinator) : Prop where
  inv : OperationsInvariant state.2.finish
  older : r.refresh < state.2.nextRefresh
  nodup : (stages.map (·.tabId)).Nodup
  fresh : ∀ stage ∈ stages, ∀ i v, state.2.operation? i = some v → v.refresh = r.refresh →
    v.tabId ≠ stage.tabId
  active : ∀ tabId i, state.1 = some (tabId, i) → ∃ v, state.2.operation? i = some v ∧
    v.tabId = tabId ∧ v.phase = .pending

theorem Staging.cancel {r : AcceptedRefresh} {stages : List Stage}
    {state : Option (TabId × OperationId) × TabRefreshCoordinator} (h : Staging r stages state)
    (tabId : TabId) : Staging r stages (state.1, state.2.cancelTabRefresh tabId) := by
  obtain ⟨operations, pendingRefreshes, observed, he⟩ := cancelTabRefresh_rest state.2 tabId
  refine ⟨?_, ?_, h.nodup, ?_, ?_⟩
  · rw [finish_cancel]
    exact h.inv.cancel tabId
  · rw [he]
    exact h.older
  · intro stage hs i v hv
    rw [operation?_cancel, Option.map_eq_some_iff] at hv
    obtain ⟨w, hw, rfl⟩ := hv
    exact h.fresh stage hs i w hw
  · intro tab i ha
    obtain ⟨v, hv, ht, hph⟩ := h.active tab i ha
    have hm := operation?_cancel state.2 tabId i
    rw [hv, Option.map_some] at hm
    exact ⟨_, hm, ht, hph⟩

theorem Staging.step {r : AcceptedRefresh} {activeTabId : Option TabId} {stage : Stage}
    {stages : List Stage} {state : Option (TabId × OperationId) × TabRefreshCoordinator}
    (h : Staging r (stage :: stages) state) :
    Staging r stages (stageTab r activeTabId state stage) := by
  have hc := h.cancel stage.tabId
  obtain ⟨active, c⟩ := state
  have hnd := List.nodup_cons.mp (List.map_cons (f := fun s : Stage => s.tabId) ▸ h.nodup)
  have hrest : Staging r stages (active, c.cancelTabRefresh stage.tabId) :=
    ⟨hc.inv, hc.older, hnd.2, fun s hs => hc.fresh s (List.mem_cons_of_mem _ hs), hc.active⟩
  simp only [stageTab]
  split
  · exact hrest
  · split
    · exact hrest
    · generalize hd : c.cancelTabRefresh stage.tabId = d at hc hrest
      have hbound (j w) (hw : d.operation? j = some w) : j < d.operations.length :=
        (List.getElem?_eq_some_iff.mp hw).1
      refine ⟨?_, hrest.older, hnd.2, ?_, ?_⟩
      · have hs := hc.inv.stage
          (v := ⟨r.refresh, stage.tabId, r.windowId, stage.revision, r.pending, r.onTabCompleted,
            .pending, false⟩) hc.older rfl (hc.fresh stage List.mem_cons_self)
        exact hs
      · intro s hs i v hv hrf
        have hv : (d.operations ++ [_])[i]? = some v := hv
        rw [List.getElem?_append] at hv
        split at hv
        · exact hrest.fresh s hs i v hv hrf
        · -- the operation that is new is of the tab of this stage
          rw [List.getElem?_singleton] at hv
          split at hv
          · cases hv
            rintro ht
            exact hnd.1 (List.mem_map.mpr ⟨s, hs, ht.symm⟩)
          · cases hv
      · intro tab i ha
        simp only at ha
        split at ha
        · cases ha
          refine ⟨_, List.getElem?_concat_length, rfl, rfl⟩
        · obtain ⟨v, hv, hvt, hph⟩ := hrest.active tab i ha
          refine ⟨v, ?_, hvt, hph⟩
          rw [operation?, List.getElem?_append_left (hbound i v hv)]
          exact hv

theorem Staging.fold {r : AcceptedRefresh} {activeTabId : Option TabId} {stages : List Stage}
    {state : Option (TabId × OperationId) × TabRefreshCoordinator} (h : Staging r stages state) :
    Staging r [] (stages.foldl (stageTab r activeTabId) state) := by
  induction stages generalizing state with
  | nil => exact h
  | cons stage stages ih => exact ih h.step

theorem stageAll {r : AcceptedRefresh} {activeTabId : Option TabId} {stages : List Stage}
    (inv : OperationsInvariant c.finish) (hnd : (stages.map (·.tabId)).Nodup)
    (hlt : r.refresh < c.nextRefresh)
    (hall : ∀ i v, c.operation? i = some v → v.refresh < r.refresh) :
    OperationsInvariant (c.stageAll r activeTabId stages) := by
  have h : Staging r stages (none, c) := by
    refine ⟨inv, hlt, hnd, fun _ _ i v hv hrf => ?_, fun _ _ ha => by cases ha⟩
    exact absurd hrf (Nat.ne_of_lt (hall i v hv))
  have h : Staging r [] (stages.foldl (stageTab r activeTabId) (none, c)) := h.fold
  simp only [TabRefreshCoordinator.stageAll]
  generalize stages.foldl (stageTab r activeTabId) (none, c) = state at h
  obtain ⟨active, d⟩ := state
  cases active with
  | none => exact h.inv.frame ⟨rfl, rfl, rfl, rfl, [_], rfl, by simp [ofOperation]⟩
  | some active =>
    obtain ⟨tabId, i⟩ := active
    obtain ⟨v, hv, ht, hph⟩ := h.active tabId i rfl
    exact h.inv.dispatch hv ht hph (some r)

/-! ## The queue -/

theorem commitNext {r : AcceptedRefresh} {previousWatermark : Option WindowWatermark}
    {activeTabId : Option TabId} {rest : List TabRefreshState}
    {commits : List RefreshAdmissionCommit} {stages : List Stage}
    (inv : OperationsInvariant c.finish)
    (hnd : (stages.map (·.tabId) ++ rest.map (·.tabId)).Nodup) (hlt : r.refresh < c.nextRefresh)
    (hall : ∀ i v, c.operation? i = some v → v.refresh < r.refresh) :
    OperationsInvariant (c.commitNext r previousWatermark activeTabId rest commits stages) := by
  cases rest with
  | nil => exact inv.stageAll (by simpa using hnd) hlt hall
  | cons snapshot rest => exact inv.runAccepting rfl hnd hlt hall

theorem proceed {point : Running} {outcome : Outcome} (inv : OperationsInvariant c)
    (hr : c.running = some point) (h : c.proceed point outcome = some c') :
    OperationsInvariant c' := by
  have fin := inv.finish
  unfold TabRefreshCoordinator.proceed at h
  split at h
  · -- the rows arrive
    rename_i r loaded
    obtain ⟨-, hlt, hall⟩ := inv.accepting _ r [] hr rfl
    cases h
    simp only [TabRefreshCoordinator.refreshLoaded]
    split
    · exact fin
    · refine fin.runAccepting rfl ?_ hlt hall
      exact loaded.nodup.sublist (List.filter_sublist.map _)
  · cases h
    exact fin
  · rename_i r windowStates admitted
    obtain ⟨hnd, hlt, hall⟩ := inv.accepting _ r _ hr rfl
    cases h
    split
    · refine runAccepting (fin.frame ?_) rfl hnd hlt hall
      exact ⟨rfl, rfl, rfl, rfl, [_], rfl, by simp [ofOperation]⟩
    · exact fin
  · cases h
    exact fin
  · rename_i r windowStates previous tabId
    obtain ⟨hnd, hlt, hall⟩ := inv.accepting _ r _ hr rfl
    cases h
    exact fin.commitNext hnd hlt hall
  · rename_i r windowStates previous
    obtain ⟨hnd, hlt, hall⟩ := inv.accepting _ r _ hr rfl
    cases h
    exact fin.commitNext hnd hlt hall
  · rename_i point current
    split at h
    · cases h
    · obtain ⟨hnd, hlt, hall⟩ := inv.accepting _ _ _ hr rfl
      cases h
      exact fin.runAccepting rfl hnd hlt hall
  · rename_i point
    obtain ⟨hnd, hlt, hall⟩ := inv.accepting _ _ _ hr rfl
    simp only [Option.map_eq_some_iff] at h
    obtain ⟨ran, -, rfl⟩ := h
    exact fin.commitNext (by simpa using hnd) hlt hall
  · cases h
    exact fin.run (by rintro _ _ _ ⟨⟩) (by rintro _ _ _ ⟨⟩) rfl
  · split at h
    · cases h
    · split at h
      · cases h
      · cases h
        exact fin.run (by rintro _ _ _ ⟨⟩) (by rintro _ _ _ ⟨⟩) rfl
  · split at h
    · cases h
      simp only [TabRefreshCoordinator.rolledBack]
      split
      · exact fin
      · split
        · exact fin.frame (.silent rfl rfl rfl rfl rfl)
        · exact fin.frame (.silent rfl rfl rfl rfl rfl)
    · cases h
      exact fin.run (by rintro _ _ _ ⟨⟩) (by rintro _ _ _ ⟨⟩) rfl
    · cases h
  · split at h
    · cases h
    · cases h
      exact fin.run (by rintro _ _ _ ⟨⟩) (by rintro _ _ _ ⟨⟩) rfl
  · cases h
    exact inv.dispatchPrepared hr
  · cases h
    exact inv.dispatchSettled hr true
  · cases h
    exact inv.dispatchSettled hr false
  · cases h
    exact fin.frame ⟨rfl, rfl, rfl, rfl, [_], rfl, by simp [ofOperation]⟩
  · rename_i windowId loaded
    cases h
    unfold epochNext
    split
    · exact fin
    · exact fin.run (by rintro _ _ _ ⟨⟩) (by rintro _ _ _ ⟨⟩) rfl
  · cases h
    exact fin
  · cases h
    exact fin.run (by rintro _ _ _ ⟨⟩) (by rintro _ _ _ ⟨⟩) rfl
  · cases h
    unfold epochNext
    split
    · exact fin
    · exact fin.run (by rintro _ _ _ ⟨⟩) (by rintro _ _ _ ⟨⟩) rfl
  · cases h
    exact fin
  · cases h

theorem begin {operation : QueuedOperation} (inv : OperationsInvariant c) :
    OperationsInvariant (c.begin operation) := by
  have fin := inv.finish
  cases operation with
  | accept windowId incoming onTabCompleted =>
    refine runAccepting ?_ rfl List.nodup_nil (Nat.lt_succ_self _) inv.older
    exact ⟨fin.distinct, fun i v hv => (fin.older i v hv).trans (Nat.lt_succ_self _),
      fin.completed, fin.dispatched, fin.unstaged, fin.staged, fin.pending, fin.preparing,
      fin.dispatching, fun _ _ _ h => by cases h⟩
  | epoch windowId =>
    refine run (fin.frame ?_) nofun nofun rfl
    exact ⟨rfl, rfl, rfl, rfl, [_], rfl, by simp [ofOperation]⟩
  | activate tabId windowId =>
    simp only [TabRefreshCoordinator.begin]
    split
    · exact inv.cancel tabId
    · split
      · exact inv
      · rename_i i hi
        obtain ⟨v, hv, ht, -⟩ := inv.pending tabId i hi
        rw [show c.operations[i]? = some v from hv]
        simp only
        split
        · exact inv
        · rename_i hph
          exact fin.dispatch hv ht (by simpa using hph) none

/-- The step lemma. -/
theorem apply {action : Action} (inv : OperationsInvariant c) (h : c.apply action = some c') :
    OperationsInvariant c' := by
  have hcases : Moves false (fun _ => True) c c' ∨ _ := apply_cases h (fun hs => by cases hs) fun _ _ => trivial
  rcases hcases with hm | ⟨operation, queue, -, -, -, rfl⟩ | ⟨point, outcome, -, hr, hp⟩
  · exact inv.moves hm
  · refine begin (inv.frame ?_)
    exact .silent rfl rfl rfl rfl rfl
  · exact inv.proceed hr hp

end OperationsInvariant

/-! ## Runs -/

def Step (c : TabRefreshCoordinator) (action : Action) (c' : TabRefreshCoordinator) : Prop :=
  c.apply action = some c'

abbrev Trace := List (Transition TabRefreshCoordinator Action)

theorem OperationsInvariant.of_run {h : Trace} (run : Run Step TabRefreshCoordinator.initial h c) :
    OperationsInvariant c :=
  run.invariant .initial fun _ _ _ inv hs => inv.apply hs

end TabRefreshCoordinator

end PinOp.Refresh
