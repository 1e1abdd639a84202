import PinOp.Refresh.Moves

/-!
# Refresh operations

An operation is staged for one refresh and one tab, and no other is. Its callback is called when
it is completed, its dispatch is called when it has left the pending phase, and a pending
operation of a tab is the one staged last for it.
-/

namespace PinOp.Refresh

open PinOp.Lib PinOp.Browser PinOp.Protocol

/-! ## What is observed of operations -/

namespace Observation

/-- The callback of the refresh is called for the tab. -/
def completes (refresh : RefreshId) (tabId : TabId) : Observation → Bool
  | .completed refresh' completion => refresh' = refresh && completion.tabId = tabId
  | _ => false

/-- The refresh is dispatched to the tab. -/
def dispatches (refresh : RefreshId) (tabId : TabId) : Observation → Bool
  | .dispatched refresh' tabId' _ => refresh' = refresh && tabId' = tabId
  | _ => false

/-- It is about a refresh operation. -/
def ofOperation : Observation → Bool
  | .staged _ _ _ => true
  | .dispatched _ _ _ => true
  | .completed _ _ => true
  | _ => false

variable {newer older : List Observation} {o : Observation} {refresh : RefreshId} {tabId : TabId}

/-- The refresh that was staged last for the tab. -/
def lastStaged (tabId : TabId) : List Observation → Option RefreshId
  | [] => none
  | .staged refresh tabId' _ :: older =>
    if tabId' = tabId then some refresh else lastStaged tabId older
  | _ :: older => lastStaged tabId older

theorem completes_of_not (h : o.ofOperation = false) : o.completes refresh tabId = false := by
  cases o <;> first | rfl | cases h

theorem dispatches_of_not (h : o.ofOperation = false) : o.dispatches refresh tabId = false := by
  cases o <;> first | rfl | cases h

theorem countP_completes_append (h : ∀ o ∈ newer, o.ofOperation = false) :
    (newer ++ older).countP (completes refresh tabId) = older.countP (completes refresh tabId) := by
  rw [List.countP_append, List.countP_eq_zero.mpr, Nat.zero_add]
  intro o ho
  simp [completes_of_not (h o ho)]

theorem countP_dispatches_append (h : ∀ o ∈ newer, o.ofOperation = false) :
    (newer ++ older).countP (dispatches refresh tabId) =
      older.countP (dispatches refresh tabId) := by
  rw [List.countP_append, List.countP_eq_zero.mpr, Nat.zero_add]
  intro o ho
  simp [dispatches_of_not (h o ho)]

theorem lastStaged_cons_of_not (h : ∀ refresh windowId, o ≠ .staged refresh tabId windowId) :
    lastStaged tabId (o :: older) = lastStaged tabId older := by
  cases o with
  | staged refresh tabId' windowId =>
    simp only [lastStaged]
    split
    · rename_i he
      subst he
      exact absurd rfl (h refresh windowId)
    · rfl
  | participant _ _ _ => rfl
  | admitted _ _ _ => rfl
  | dispatched _ _ _ => rfl
  | completed _ _ => rfl
  | returned _ _ _ => rfl
  | epochBegun _ => rfl
  | windowRemoved _ => rfl

theorem lastStaged_append (h : ∀ o ∈ newer, o.ofOperation = false) :
    lastStaged tabId (newer ++ older) = lastStaged tabId older := by
  induction newer with
  | nil => rfl
  | cons o newer ih =>
    rw [List.cons_append, lastStaged_cons_of_not, ih fun o ho => h o (List.mem_cons_of_mem _ ho)]
    rintro refresh windowId rfl
    cases h _ List.mem_cons_self

end Observation

open Observation

/-- The refresh that is being accepted and not yet staged, with the tabs it is staged for. -/
def Running.accepting : Running → Option (AcceptedRefresh × List TabId)
  | .loading r => some (r, [])
  | .admitting r windowStates => some (r, windowStates.map (·.tabId))
  | .locating r windowStates _ => some (r, windowStates.map (·.tabId))
  | .committing point =>
    some (point.refresh,
      point.stages.map (·.tabId) ++ point.tabId :: point.rest.map (·.tabId))
  | _ => none

namespace TabRefreshCoordinator

variable {c c' : TabRefreshCoordinator} {strict : Bool} {marked : Option WindowId → Prop}

/-! ## The invariant -/

abbrev operation? (c : TabRefreshCoordinator) (i : OperationId) : Option TabRefreshOperation :=
  c.operations[i]?

structure OperationsInvariant (c : TabRefreshCoordinator) : Prop where
  distinct : ∀ i j v w, c.operation? i = some v → c.operation? j = some w →
    v.refresh = w.refresh → v.tabId = w.tabId → i = j
  older : ∀ i v, c.operation? i = some v → v.refresh < c.nextRefresh
  completed : ∀ i v, c.operation? i = some v →
    c.observed.countP (completes v.refresh v.tabId) ≤ if v.completed then 1 else 0
  dispatched : ∀ i v, c.operation? i = some v →
    c.observed.countP (dispatches v.refresh v.tabId) ≤ if v.phase = .dispatching then 1 else 0
  unstaged : ∀ refresh tabId,
    (∀ i v, c.operation? i = some v → v.refresh = refresh → v.tabId ≠ tabId) →
    c.observed.countP (completes refresh tabId) = 0 ∧
      c.observed.countP (dispatches refresh tabId) = 0
  staged : ∀ refresh tabId windowId, .staged refresh tabId windowId ∈ c.observed →
    ∃ i v, c.operation? i = some v ∧ v.refresh = refresh ∧ v.tabId = tabId ∧
      v.windowId = windowId
  pending : ∀ tabId i, c.pendingRefreshes.get? tabId = some i →
    ∃ v, c.operation? i = some v ∧ v.tabId = tabId ∧ v.completed = false ∧
      lastStaged tabId c.observed = some v.refresh
  preparing : ∀ tabId i after, c.running = some (.preparing tabId i after) →
    ∃ v, c.operation? i = some v ∧ v.tabId = tabId ∧ v.phase = .dispatching ∧
      c.observed.countP (dispatches v.refresh tabId) = 0
  dispatching : ∀ tabId i after, c.running = some (.dispatching tabId i after) →
    ∃ v, c.operation? i = some v ∧ v.tabId = tabId ∧
      .dispatched v.refresh tabId v.pending ∈ c.observed
  accepting : ∀ point r tabs, c.running = some point → point.accepting = some (r, tabs) →
    tabs.Nodup ∧ r.refresh < c.nextRefresh ∧ ∀ i v, c.operation? i = some v →
      v.refresh < r.refresh

/-- Nothing about operations changes. -/
structure OperationsFrame (c c' : TabRefreshCoordinator) : Prop where
  operations : c'.operations = c.operations
  pendingRefreshes : c'.pendingRefreshes = c.pendingRefreshes
  nextRefresh : c'.nextRefresh = c.nextRefresh
  running : c'.running = c.running
  observed : ∃ newer, c'.observed = newer ++ c.observed ∧ ∀ o ∈ newer, o.ofOperation = false

theorem OperationsFrame.trans {c'' : TabRefreshCoordinator} (h₁ : OperationsFrame c c')
    (h₂ : OperationsFrame c' c'') : OperationsFrame c c'' := by
  obtain ⟨newer₁, e₁, n₁⟩ := h₁.observed
  obtain ⟨newer₂, e₂, n₂⟩ := h₂.observed
  refine ⟨h₂.1.trans h₁.1, h₂.2.trans h₁.2, h₂.3.trans h₁.3, h₂.4.trans h₁.4, newer₂ ++ newer₁,
    by simp [e₂, e₁], fun o ho => ?_⟩
  rcases List.mem_append.mp ho with ho | ho
  · exact n₂ o ho
  · exact n₁ o ho

theorem OperationsFrame.refl (c : TabRefreshCoordinator) : OperationsFrame c c :=
  ⟨rfl, rfl, rfl, rfl, [], rfl, by simp⟩

namespace OperationsInvariant

/-- At most one callback and one dispatch for a refresh and a tab. -/
theorem once (inv : OperationsInvariant c) (refresh : RefreshId) (tabId : TabId) :
    c.observed.countP (completes refresh tabId) ≤ 1 ∧
      c.observed.countP (dispatches refresh tabId) ≤ 1 := by
  by_cases h : ∀ i v, c.operation? i = some v → v.refresh = refresh → v.tabId ≠ tabId
  · have hz := inv.unstaged refresh tabId h
    omega
  · simp only [not_forall, not_not] at h
    obtain ⟨i, v, hv, rfl, rfl⟩ := h
    have hc := inv.completed i v hv
    have hd := inv.dispatched i v hv
    split at hc <;> split at hd <;> omega

theorem initial : OperationsInvariant initial := by
  refine ⟨?_, ?_, ?_, ?_, ?_, ?_, ?_, ?_, ?_, ?_⟩
  · intro i j v w hv
    simp [TabRefreshCoordinator.initial] at hv
  · intro i v hv
    simp [TabRefreshCoordinator.initial] at hv
  · intro i v hv
    simp [TabRefreshCoordinator.initial] at hv
  · intro i v hv
    simp [TabRefreshCoordinator.initial] at hv
  · intro refresh tabId _
    exact ⟨rfl, rfl⟩
  · intro refresh tabId windowId h
    cases h
  · intro tabId i h
    cases h
  · intro tabId i after h
    cases h
  · intro tabId i after h
    cases h
  · intro point r tabs h
    cases h

theorem frame (inv : OperationsInvariant c) (h : OperationsFrame c c') :
    OperationsInvariant c' := by
  obtain ⟨hoperations, hp, hn, hr, newer, hob, hno⟩ := h
  have ho : ∀ i, c'.operation? i = c.operation? i := fun i => by rw [operation?, hoperations]
  have hcount (refresh tabId) :
      c'.observed.countP (completes refresh tabId) = c.observed.countP (completes refresh tabId) := by
    simp only [hob, countP_completes_append hno]
  have hdispatch (refresh tabId) : c'.observed.countP (dispatches refresh tabId) =
      c.observed.countP (dispatches refresh tabId) := by
    simp only [hob, countP_dispatches_append hno]
  refine ⟨?_, ?_, ?_, ?_, ?_, ?_, ?_, ?_, ?_, ?_⟩
  · simp only [ho]
    exact inv.distinct
  · simp only [ho, hn]
    exact inv.older
  · simp only [ho]
    intro i v hv
    rw [hcount]
    exact inv.completed i v hv
  · simp only [ho]
    intro i v hv
    rw [hdispatch]
    exact inv.dispatched i v hv
  · simp only [ho]
    intro refresh tabId hu
    rw [hcount, hdispatch]
    exact inv.unstaged refresh tabId hu
  · simp only [ho, hob]
    intro refresh tabId windowId hm
    rcases List.mem_append.mp hm with hm | hm
    · cases hno _ hm
    · exact inv.staged refresh tabId windowId hm
  · simp only [ho, hp, hob]
    intro tabId i hi
    rw [lastStaged_append hno]
    exact inv.pending tabId i hi
  · simp only [ho, hr]
    intro tabId i after hrun
    simp only [hdispatch]
    exact inv.preparing tabId i after hrun
  · simp only [ho, hr, hob]
    intro tabId i after hrun
    obtain ⟨v, hv, ht, hm⟩ := inv.dispatching tabId i after hrun
    exact ⟨v, hv, ht, List.mem_append_right _ hm⟩
  · simp only [ho, hr, hn]
    exact inv.accepting

end OperationsInvariant

/-! ## Completing -/

theorem operation?_set {i j : OperationId} {v w : TabRefreshOperation}
    (h : c'.operations = c.operations.set i w) (hv : c.operation? i = some v) :
    c'.operation? j = if j = i then some w else c.operation? j := by
  have hi : i < c.operations.length := (List.getElem?_eq_some_iff.mp hv).1
  rw [operation?, h, List.getElem?_set]
  by_cases he : i = j
  · subst he
    simp [hi]
  · simp [he, Ne.symm he]

/-- What a completion tells, if the operation has a callback. -/
def completion (tabId : TabId) (v : TabRefreshOperation) (accepted : Bool) : List Observation :=
  if v.onTabCompleted then
    [.completed v.refresh
      ⟨tabId, v.windowId, v.pending.generation, v.pending.mode, accepted⟩]
  else []

/-- Nothing is completed twice. -/
theorem completeTabRefresh_cases (c : TabRefreshCoordinator) (tabId : TabId) (i : OperationId)
    (accepted : Bool) :
    (c.completeTabRefresh tabId i accepted = c ∧ ∀ v, c.operation? i = some v → v.completed = true) ∨
      ∃ v, c.operation? i = some v ∧ v.completed = false ∧
        c.completeTabRefresh tabId i accepted = { c with
          operations := c.operations.set i { v with completed := true }
          pendingRefreshes :=
            if c.pendingRefreshes.get? tabId = some i then c.pendingRefreshes.delete tabId
            else c.pendingRefreshes
          observed := completion tabId v accepted ++ c.observed } := by
  unfold completeTabRefresh
  split
  · rename_i hn
    refine .inl ⟨rfl, fun v hv => ?_⟩
    rw [operation?, hn] at hv
    cases hv
  · rename_i v hv
    split
    · rename_i hc
      refine .inl ⟨rfl, fun w hw => ?_⟩
      rw [operation?, hv] at hw
      cases hw
      exact hc
    · rename_i hc
      refine .inr ⟨v, hv, by simpa using hc, ?_⟩
      by_cases hp : c.pendingRefreshes.get? tabId = some i
      · by_cases ht : v.onTabCompleted = true
        · simp [hp, ht, completion]
        · simp [hp, ht, completion]
      · by_cases ht : v.onTabCompleted = true
        · simp [hp, ht, completion]
        · simp [hp, ht, completion]

theorem countP_completion (tabId : TabId) (v : TabRefreshOperation) (accepted : Bool)
    (observed : List Observation) (refresh : RefreshId) (tabId' : TabId) :
    (completion tabId v accepted ++ observed).countP (completes refresh tabId') ≤
      observed.countP (completes refresh tabId') +
        if v.refresh = refresh ∧ tabId = tabId' then 1 else 0 := by
  unfold completion
  split
  · simp only [List.singleton_append, List.countP_cons, completes, Bool.and_eq_true,
      decide_eq_true_eq]
    split <;> omega
  · simp

theorem countP_dispatches_completion (tabId : TabId) (v : TabRefreshOperation) (accepted : Bool)
    (observed : List Observation) (refresh : RefreshId) (tabId' : TabId) :
    (completion tabId v accepted ++ observed).countP (dispatches refresh tabId') =
      observed.countP (dispatches refresh tabId') := by
  unfold completion
  split
  · simp [dispatches]
  · rfl

theorem lastStaged_completion (tabId : TabId) (v : TabRefreshOperation) (accepted : Bool)
    (observed : List Observation) (tabId' : TabId) :
    lastStaged tabId' (completion tabId v accepted ++ observed) = lastStaged tabId' observed := by
  unfold completion
  split
  · rfl
  · rfl

theorem mem_completion_append {tabId : TabId} {v : TabRefreshOperation} {accepted : Bool}
    {observed : List Observation} {o : Observation}
    (ho : ∀ refresh completion, o ≠ .completed refresh completion) :
    o ∈ completion tabId v accepted ++ observed ↔ o ∈ observed := by
  unfold completion
  split
  · simp [ho]
  · simp

namespace OperationsInvariant

/-- An operation is completed for its own tab. -/
theorem complete {tabId : TabId} {i : OperationId} (inv : OperationsInvariant c)
    (h : ∀ v, c.operation? i = some v → v.tabId = tabId) (accepted : Bool) :
    OperationsInvariant (c.completeTabRefresh tabId i accepted) := by
  rcases completeTabRefresh_cases c tabId i accepted with ⟨he, -⟩ | ⟨v, hv, hc, he⟩
  · rw [he]
    exact inv
  rw [he]
  generalize hd : ({ c with
    operations := c.operations.set i { v with completed := true }
    pendingRefreshes :=
      if c.pendingRefreshes.get? tabId = some i then c.pendingRefreshes.delete tabId
      else c.pendingRefreshes
    observed := completion tabId v accepted ++ c.observed } : TabRefreshCoordinator) = d
  have hop (j) : d.operation? j = if j = i then some { v with completed := true } else
      c.operation? j := operation?_set (by rw [← hd]) hv
  have hp : d.pendingRefreshes =
      if c.pendingRefreshes.get? tabId = some i then c.pendingRefreshes.delete tabId
      else c.pendingRefreshes := by rw [← hd]
  have hob : d.observed = completion tabId v accepted ++ c.observed := by rw [← hd]
  have hn : d.nextRefresh = c.nextRefresh := by rw [← hd]
  have hr : d.running = c.running := by rw [← hd]
  have ht : v.tabId = tabId := h v hv
  -- an operation of the new state is one of the old state but for `completed`
  have back (j w) (hw : d.operation? j = some w) : ∃ w', c.operation? j = some w' ∧
      w'.refresh = w.refresh ∧ w'.tabId = w.tabId ∧ w'.phase = w.phase ∧
        (j ≠ i → w' = w) ∧ (j = i → w.completed = true) := by
    rw [hop] at hw
    split at hw
    · rename_i hj
      cases hw
      exact ⟨v, hj ▸ hv, rfl, rfl, rfl, fun hne => absurd hj hne, fun _ => rfl⟩
    · rename_i hj
      exact ⟨w, hw, rfl, rfl, rfl, fun _ => rfl, fun he => absurd he hj⟩
  have forth (j w) (hw : c.operation? j = some w) : ∃ w', d.operation? j = some w' ∧
      w'.refresh = w.refresh ∧ w'.tabId = w.tabId ∧ w'.windowId = w.windowId ∧
        w'.phase = w.phase ∧ w'.pending = w.pending ∧ (j ≠ i → w' = w) := by
    rw [hop]
    split
    · rename_i hj
      subst hj
      rw [hv] at hw
      cases hw
      exact ⟨_, rfl, rfl, rfl, rfl, rfl, rfl, fun hne => absurd rfl hne⟩
    · exact ⟨w, hw, rfl, rfl, rfl, rfl, rfl, fun _ => rfl⟩
  refine ⟨?_, ?_, ?_, ?_, ?_, ?_, ?_, ?_, ?_, ?_⟩
  · intro j k w x hw hx hrf htb
    obtain ⟨w', hw', er, et, -⟩ := back j w hw
    obtain ⟨x', hx', er', et', -⟩ := back k x hx
    exact inv.distinct j k w' x' hw' hx' (by rw [er, er', hrf]) (by rw [et, et', htb])
  · intro j w hw
    obtain ⟨w', hw', er, -⟩ := back j w hw
    rw [hn, ← er]
    exact inv.older j w' hw'
  · intro j w hw
    obtain ⟨w', hw', er, et, -, hne, heq⟩ := back j w hw
    have hle := countP_completion tabId v accepted c.observed w.refresh w.tabId
    rw [← hob] at hle
    have hold := inv.completed j w' hw'
    rw [er, et] at hold
    by_cases hj : j = i
    · -- the operation itself: it was not completed before
      subst hj
      rw [hv] at hw'
      cases hw'
      rw [heq rfl]
      simp only [hc, Bool.false_eq_true, if_false] at hold
      simp only [if_true]
      split at hle <;> omega
    · have hdiff : ¬(v.refresh = w.refresh ∧ tabId = w.tabId) := by
        rintro ⟨hrf, htb⟩
        exact hj (inv.distinct j i w' v hw' hv (er.trans hrf.symm) (et.trans (htb.symm.trans ht.symm)))
      rw [if_neg hdiff] at hle
      rw [hne hj] at hold
      omega
  · intro j w hw
    obtain ⟨w', hw', er, et, ep, -⟩ := back j w hw
    rw [hob, countP_dispatches_completion, ← er, ← et, ← ep]
    exact inv.dispatched j w' hw'
  · intro refresh tab hu
    have hu' : ∀ j w, c.operation? j = some w → w.refresh = refresh → w.tabId ≠ tab := by
      intro j w hw hrf
      obtain ⟨w', hw', er, et, -⟩ := forth j w hw
      rw [← et]
      exact hu j w' hw' (er.trans hrf)
    have hle := countP_completion tabId v accepted c.observed refresh tab
    have hdiff : ¬(v.refresh = refresh ∧ tabId = tab) := by
      rintro ⟨hrf, htb⟩
      exact hu' i v hv hrf (ht.trans htb)
    rw [if_neg hdiff] at hle
    have hz := inv.unstaged refresh tab hu'
    rw [hob, countP_dispatches_completion]
    exact ⟨by omega, hz.2⟩
  · intro refresh tab windowId hm
    rw [hob, mem_completion_append (by simp)] at hm
    obtain ⟨j, w, hw, hrf, htb, hwin⟩ := inv.staged refresh tab windowId hm
    obtain ⟨w', hw', er, et, ew, -⟩ := forth j w hw
    exact ⟨j, w', hw', er.trans hrf, et.trans htb, ew.trans hwin⟩
  · intro tab j hj
    rw [hob, lastStaged_completion]
    have hold : c.pendingRefreshes.get? tab = some j ∧ j ≠ i := by
      rw [hp] at hj
      split at hj
      · rename_i hpi
        rw [OrderedMap.get?_delete] at hj
        split at hj
        · cases hj
        · rename_i hne
          refine ⟨hj, ?_⟩
          rintro rfl
          obtain ⟨w, hw, hwt, -⟩ := inv.pending tab j hj
          rw [hv] at hw
          cases hw
          exact hne (hwt.symm.trans ht)
      · rename_i hpi
        refine ⟨hj, ?_⟩
        rintro rfl
        obtain ⟨w, hw, hwt, -⟩ := inv.pending tab j hj
        rw [hv] at hw
        cases hw
        rw [ht] at hwt
        exact hpi (hwt ▸ hj)
    obtain ⟨hold, hne⟩ := hold
    obtain ⟨w, hw, hrest⟩ := inv.pending tab j hold
    exact ⟨w, by rw [hop, if_neg hne, hw], hrest⟩
  · intro tab j after hrun
    rw [hr] at hrun
    obtain ⟨w, hw, hwt, hph, hz⟩ := inv.preparing tab j after hrun
    obtain ⟨w', hw', er, et, -, ep, -⟩ := forth j w hw
    exact ⟨w', hw', et.trans hwt, ep.trans hph, by rw [hob, countP_dispatches_completion, er, hz]⟩
  · intro tab j after hrun
    rw [hr] at hrun
    obtain ⟨w, hw, hwt, hm⟩ := inv.dispatching tab j after hrun
    obtain ⟨w', hw', er, et, -, -, epd, -⟩ := forth j w hw
    refine ⟨w', hw', et.trans hwt, ?_⟩
    rw [hob, mem_completion_append (by simp), er, epd]
    exact hm
  · intro point r tabs hrun hacc
    rw [hr] at hrun
    obtain ⟨hnd, hlt, hall⟩ := inv.accepting point r tabs hrun hacc
    refine ⟨hnd, hn ▸ hlt, fun j w hw => ?_⟩
    obtain ⟨w', hw', er, -⟩ := back j w hw
    rw [← er]
    exact hall j w' hw'

theorem cancel (inv : OperationsInvariant c) (tabId : TabId) :
    OperationsInvariant (c.cancelTabRefresh tabId) := by
  unfold cancelTabRefresh
  split
  · exact inv
  · rename_i i hi
    obtain ⟨v, hv, ht, -⟩ := inv.pending tabId i hi
    refine inv.complete (fun w hw => ?_) false
    rw [hv] at hw
    cases hw
    exact ht

/-- Then no refresh is pending for the tab. -/
theorem pending_cancel (inv : OperationsInvariant c) (tabId : TabId) :
    (c.cancelTabRefresh tabId).pendingRefreshes.get? tabId = none := by
  unfold cancelTabRefresh
  split
  · rename_i h
    exact h
  · rename_i i hi
    obtain ⟨v, hv, -, hc, -⟩ := inv.pending tabId i hi
    rcases completeTabRefresh_cases c tabId i false with ⟨-, hall⟩ | ⟨w, -, -, he⟩
    · rw [hall v hv] at hc
      cases hc
    · rw [he]
      simp [hi]

theorem clearPending (inv : OperationsInvariant c) (windowId : WindowId) :
    OperationsInvariant (c.clearRuntimePendingForWindow windowId) := by
  unfold clearRuntimePendingForWindow
  have htab : ∀ entry ∈ c.pendingRefreshes.entries, ∀ v, c.operation? entry.2 = some v →
      v.tabId = entry.1 := by
    intro entry hm v hv
    obtain ⟨w, hw, ht, -⟩ := inv.pending entry.1 entry.2 (OrderedMap.get?_eq_some.mpr hm)
    rw [hv] at hw
    cases hw
    exact ht
  generalize c.pendingRefreshes.entries = entries at htab
  induction entries generalizing c with
  | nil => exact inv
  | cons entry entries ih =>
    simp only [List.foldl_cons]
    have hrest := fun e he => htab e (List.mem_cons_of_mem _ he)
    split
    · exact ih inv hrest
    · rename_i v hv
      split
      · refine ih (inv.complete (htab entry List.mem_cons_self) false) fun e he w hw => ?_
        -- completing one operation leaves the tabs of all as they are
        rcases completeTabRefresh_cases c entry.1 entry.2 false with ⟨heq, -⟩ | ⟨x, hx, -, heq⟩
        · rw [heq] at hw
          exact hrest e he w hw
        · rw [operation?_set (by rw [heq]) hx] at hw
          split at hw
          · rename_i hj
            cases hw
            exact hrest e he x (hj ▸ hx)
          · exact hrest e he w hw
      · exact ih inv hrest

end OperationsInvariant

/-! ## Moves -/

theorem OperationsFrame.silent (hop : c'.operations = c.operations)
    (hp : c'.pendingRefreshes = c.pendingRefreshes) (hn : c'.nextRefresh = c.nextRefresh)
    (hr : c'.running = c.running) (hob : c'.observed = c.observed) : OperationsFrame c c' :=
  ⟨hop, hp, hn, hr, [], by simp [hob], by simp⟩

theorem Frame.operationsFrame (h : Frame c c') : OperationsFrame c c' := by
  obtain ⟨hc, newer, hob, hno⟩ := h
  refine ⟨congrArg Core.operations hc, congrArg Core.pendingRefreshes hc,
    congrArg Core.nextRefresh hc, congrArg Core.running hc, newer, hob, fun o ho => ?_⟩
  have hpart := hno o ho
  cases o <;> first | rfl | cases hpart

theorem clearPanelWindow_operationsFrame (c : TabRefreshCoordinator) (tabId : TabId)
    (expectedWindowId : Option WindowId) :
    OperationsFrame c (c.clearPanelWindow tabId expectedWindowId) := by
  unfold clearPanelWindow
  split
  · exact .refl c
  · split
    · exact .refl c
    · exact .silent rfl rfl rfl rfl rfl

theorem revokeIndexedParticipant_operationsFrame (c : TabRefreshCoordinator) (tabId : TabId)
    (expectedWindowId : Option WindowId) :
    OperationsFrame c (c.revokeIndexedParticipant tabId expectedWindowId).2 := by
  unfold revokeIndexedParticipant
  split
  · exact .refl c
  · split
    · exact .refl c
    · exact ⟨rfl, rfl, rfl, rfl, [_], rfl, by simp [ofOperation]⟩

theorem grantParticipant_operationsFrame (c : TabRefreshCoordinator) (windowId : WindowId)
    (tabId : TabId) : OperationsFrame c (c.grantParticipant windowId tabId) := by
  simp only [grantParticipant]
  split
  · exact .refl c
  · split
    · exact ⟨rfl, rfl, rfl, rfl, [_], rfl, by simp [ofOperation]⟩
    · exact ⟨rfl, rfl, rfl, rfl, [_, _], rfl, by simp [ofOperation]⟩

namespace OperationsInvariant

theorem closePanel (inv : OperationsInvariant c) (tabId : TabId)
    (expectedWindowId : Option WindowId) :
    OperationsInvariant (c.closePanel tabId expectedWindowId) := by
  unfold TabRefreshCoordinator.closePanel
  have h₁ := inv.frame (clearPanelWindow_operationsFrame c tabId expectedWindowId)
  exact (h₁.cancel tabId).frame (revokeIndexedParticipant_operationsFrame _ _ _)

theorem leavePanel (inv : OperationsInvariant c) (tabId : TabId) (windowId : WindowId) :
    OperationsInvariant (c.leavePanel tabId windowId) := by
  simp only [TabRefreshCoordinator.leavePanel]
  generalize hd : (if (c.currentPanelWindow tabId).isSome = true then c.cancelTabRefresh tabId
    else c) = d
  have hd : OperationsInvariant d := by
    subst hd
    split
    · exact inv.cancel tabId
    · exact inv
  split
  · exact (hd.frame (clearPanelWindow_operationsFrame _ _ _)).frame
      (revokeIndexedParticipant_operationsFrame _ _ _)
  · exact hd

theorem move (inv : OperationsInvariant c) (h : Move strict marked c c') : OperationsInvariant c' := by
  cases h with
  | frame h => exact inv.frame h.operationsFrame
  | cancel tabId => exact inv.cancel tabId
  | clearPending windowId => exact inv.clearPending windowId
  | move tabId windowId =>
    refine frame (inv.leavePanel tabId windowId) ?_
    exact .silent rfl rfl rfl rfl rfl
  | close tabId expectedWindowId => exact inv.closePanel tabId expectedWindowId
  | terminate tabId =>
    refine closePanel (inv.frame ?_) tabId none
    exact .silent rfl rfl rfl rfl rfl
  | grant tabId windowId _ => exact inv.frame (grantParticipant_operationsFrame _ _ _)
  | disable tabId windowId =>
    exact (inv.cancel tabId).frame (revokeIndexedParticipant_operationsFrame _ _ _)
  | withdraw tabId windowId _ => exact inv.frame (revokeIndexedParticipant_operationsFrame _ _ _)
  | raise loaded => exact inv.frame (.silent rfl rfl rfl rfl rfl)
  | forget windowId => exact inv.frame ⟨rfl, rfl, rfl, rfl, [_], rfl, by simp [ofOperation]⟩

theorem moves (inv : OperationsInvariant c) (h : Moves strict marked c c') : OperationsInvariant c' := by
  induction h with
  | refl => exact inv
  | tail _ h ih => exact ih.move h

end OperationsInvariant

end TabRefreshCoordinator

end PinOp.Refresh
