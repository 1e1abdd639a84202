import PinOp.Refresh.RefreshSafety
import PinOp.Refresh.RowBounds

/-!
# Failed admissions

`acceptPageRefresh` publishes the watermark of a refresh before it stages the rows of the
window, and takes both back when an update fails. Until then the watermark is what every other
updater reads, and a row that one of them stores with it is not the rollback's: the refresh is
refused when it is tried again. Where no updater of another call stores such a row, the rollback
leaves the rows, the watermark and the admission of the refresh as they were.
-/

namespace PinOp.Refresh

open PinOp.Lib PinOp.Browser PinOp.Protocol

namespace TabRefreshCoordinator

variable {c c' : TabRefreshCoordinator} {r : AcceptedRefresh}

/-! ## What runs after a dispatch -/

theorem dispatched_running (c : TabRefreshCoordinator) (after : Option AcceptedRefresh) :
    (c.dispatched after).running = after.map Running.returning := by
  cases after with
  | none => rfl
  | some r => rfl

theorem dispatch_running (c : TabRefreshCoordinator) (tabId : TabId) (i : OperationId)
    (after : Option AcceptedRefresh) :
    (c.dispatch tabId i after).running = after.map Running.returning ∨
      (c.dispatch tabId i after).running = some (.preparing tabId i after) := by
  unfold dispatch
  split
  · exact .inl (dispatched_running _ _)
  · exact .inr rfl

theorem dispatchPrepared_running (c : TabRefreshCoordinator) (tabId : TabId) (i : OperationId)
    (after : Option AcceptedRefresh) :
    (c.dispatchPrepared tabId i after).running = after.map Running.returning ∨
      (c.dispatchPrepared tabId i after).running = c.running ∨
      (c.dispatchPrepared tabId i after).running = some (.dispatching tabId i after) := by
  unfold dispatchPrepared
  split
  · exact .inl (dispatched_running _ _)
  · split
    · exact .inr (.inl rfl)
    · exact .inr (.inr rfl)

theorem stageAll_running (c : TabRefreshCoordinator) (r : AcceptedRefresh)
    (activeTabId : Option TabId) (stages : List Stage) :
    (c.stageAll r activeTabId stages).running = none ∨
      (c.stageAll r activeTabId stages).running = some (.returning r) ∨
      ∃ tabId i, (c.stageAll r activeTabId stages).running = some (.preparing tabId i (some r)) := by
  simp only [stageAll]
  split
  · exact .inl rfl
  · rename_i tabId i d _
    rcases dispatch_running d tabId i (some r) with h | h
    · exact .inr (.inl h)
    · exact .inr (.inr ⟨tabId, i, h⟩)

/-- The refresh that is compared is the one that the rows were loaded for. -/
theorem proceed_admitting {point : Running} {outcome : Outcome}
    {windowStates : List TabRefreshState} (hrun : c.running = some point)
    (h : c.proceed point outcome = some c')
    (ha : c'.running = some (.admitting r windowStates)) :
    ∃ loaded, outcome = .loaded loaded ∧ c' = c.refreshLoaded r loaded.states := by
  have hnext {previous activeTabId rest commits stages} {r' : AcceptedRefresh}
      (hn : (c.commitNext r' previous activeTabId rest commits stages).running =
        some (.admitting r windowStates)) : False := by
    cases rest with
    | nil =>
      rcases stageAll_running c r' activeTabId stages with h | h | ⟨_, _, h⟩
      all_goals
        rw [show c.commitNext r' previous activeTabId [] commits stages =
          c.stageAll r' activeTabId stages from rfl, h] at hn
        cases hn
    | cons => cases hn
  have hafter {after : Option AcceptedRefresh} :
      after.map Running.returning ≠ some (.admitting r windowStates) := by
    cases after <;> simp
  unfold TabRefreshCoordinator.proceed at h
  split at h
  · rename_i r' loaded
    cases h
    refine ⟨loaded, rfl, ?_⟩
    have hr : r' = r := by
      simp only [refreshLoaded] at ha
      split at ha
      · cases ha
      · cases ha
        rfl
    rw [hr]
  · cases h
    cases ha
  · cases h
    split at ha
    · cases ha
    · cases ha
  · cases h
    cases ha
  · cases h
    exact absurd ha hnext
  · cases h
    exact absurd ha hnext
  · split at h
    · cases h
    · cases h
      cases ha
  · simp only [Option.map_eq_some_iff] at h
    obtain ⟨ran, -, rfl⟩ := h
    exact absurd ha hnext
  · cases h
    cases ha
  · split at h
    · cases h
    · split at h
      · cases h
      · cases h
        cases ha
  · split at h
    · cases h
      simp only [TabRefreshCoordinator.rolledBack] at ha
      split at ha
      · cases ha
      · split at ha
        · cases ha
        · cases ha
    · cases h
      cases ha
    · cases h
  · split at h
    · cases h
    · cases h
      cases ha
  · rename_i tabId i after
    cases h
    rcases dispatchPrepared_running c tabId i after with h | h | h
    · exact absurd (h ▸ ha) hafter
    · rw [h, hrun] at ha
      cases ha
    · rw [h] at ha
      cases ha
  · cases h
    exact absurd ((dispatched_running _ _).symm.trans ha) hafter
  · cases h
    exact absurd ((dispatched_running _ _).symm.trans ha) hafter
  · cases h
    cases ha
  · cases h
    unfold epochNext at ha
    split at ha
    · cases ha
    · cases ha
  · cases h
    cases ha
  · cases h
    cases ha
  · cases h
    unfold epochNext at ha
    split at ha
    · cases ha
    · cases ha
  · cases h
    cases ha
  · cases h

theorem begin_admitting {operation : QueuedOperation} {windowStates : List TabRefreshState}
    (hrun : c.running = none) : (c.begin operation).running ≠ some (.admitting r windowStates) := by
  intro ha
  cases operation with
  | accept windowId incoming onTabCompleted => cases ha
  | epoch windowId => cases ha
  | activate tabId windowId =>
    simp only [TabRefreshCoordinator.begin] at ha
    split at ha
    · rw [(cancelTabRefresh_apart c tabId).running, hrun] at ha
      cases ha
    · split at ha
      · rw [hrun] at ha
        cases ha
      · split at ha
        · rw [hrun] at ha
          cases ha
        · split at ha
          · rw [hrun] at ha
            cases ha
          · rename_i i _ _ _ _ _
            rcases dispatch_running c tabId i none with h | h
            · rw [h] at ha
              cases ha
            · rw [h] at ha
              cases ha

/-- What comes before the refresh admits it. -/
theorem isNewerRefresh_currentWatermark {states : List TabRefreshState} {incoming : WindowWatermark}
    {remembered : Option WindowWatermark} (hr : ∀ a, remembered = some a → Before a incoming)
    (hs : ∀ row ∈ states, Before (stateWatermark row) incoming) :
    isNewerRefresh incoming (currentWatermark remembered states) = true := by
  induction states generalizing remembered with
  | nil =>
    cases remembered with
    | none => rfl
    | some a => exact isNewerRefresh_some.mpr (hr a rfl)
  | cons state states ih =>
    simp only [currentWatermark, List.foldl_cons]
    split
    · refine ih (fun a ha => ?_) fun row hm => hs row (List.mem_cons_of_mem _ hm)
      cases ha
      exact hs state List.mem_cons_self
    · exact ih hr fun row hm => hs row (List.mem_cons_of_mem _ hm)

/-- What admits the refresh comes before it. -/
theorem before_of_isNewerRefresh {states : List TabRefreshState} {incoming : WindowWatermark}
    {remembered : Option WindowWatermark}
    (h : isNewerRefresh incoming (currentWatermark remembered states) = true) :
    (∀ a, remembered = some a → Before a incoming) ∧
      ∀ row ∈ states, Before (stateWatermark row) incoming := by
  induction states generalizing remembered with
  | nil =>
    refine ⟨fun a ha => ?_, fun row hm => by cases hm⟩
    subst ha
    exact isNewerRefresh_some.mp h
  | cons state states ih =>
    simp only [currentWatermark, List.foldl_cons] at h
    split at h
    · rename_i hnew
      obtain ⟨hr, hs⟩ := ih h
      have hstate := hr _ rfl
      refine ⟨fun a ha => ?_, fun row hm => ?_⟩
      · subst ha
        exact (isNewerRefresh_some.mp hnew).trans hstate
      · rcases List.mem_cons.mp hm with rfl | hm
        · exact hstate
        · exact hs row hm
    · rename_i hold
      obtain ⟨hr, hs⟩ := ih h
      refine ⟨hr, fun row hm => ?_⟩
      rcases List.mem_cons.mp hm with rfl | hm
      · cases remembered with
        | none => exact absurd rfl hold
        | some a =>
          have hle : ¬Before a (stateWatermark row) := fun hlt => hold (isNewerRefresh_some.mpr hlt)
          have ha := hr a rfl
          unfold Before at *
          omega
      · exact hs row hm

theorem admissionUpdate_cases (c : TabRefreshCoordinator) (r : AcceptedRefresh) (tabId : TabId)
    (revision : ℕ) (state : Option TabRefreshState) :
    ((c.admissionUpdate r tabId revision state).1 = none ∧
      (c.admissionUpdate r tabId revision state).2 = state) ∨
    ∃ row, state = some row ∧ row.windowId = r.windowId ∧
      ∃ after : TabRefreshState, after.tabId = row.tabId ∧
        ¬Before r.incoming (stateWatermark after) ∧
        c.admissionUpdate r tabId revision state = (some ⟨tabId, row, after⟩, some after) := by
  cases state with
  | none => exact .inl ⟨rfl, rfl⟩
  | some row =>
    simp only [admissionUpdate]
    split
    · exact .inl ⟨rfl, rfl⟩
    · rename_i hcur
      simp only [ne_eq, decide_not, Bool.or_eq_true, Bool.not_eq_true', decide_eq_false_iff_not,
        not_or, not_not] at hcur
      refine .inr ⟨row, rfl, hcur.1, _, ?_, ?_, rfl⟩
      · rfl
      · exact not_before_self _

end TabRefreshCoordinator

namespace Running

/-- The commits that are not rolled back. -/
def outstanding : Running → List RefreshAdmissionCommit
  | .committing point => point.commits ++ (point.ran.bind (·.1)).toList
  | .rollingBack point => if point.ran = some true then point.commits.tail else point.commits
  | _ => []

/-- The tabs whose rows are still to be staged. -/
def remaining : Running → List TabId
  | .locating _ windowStates _ => windowStates.map (·.tabId)
  | .committing point =>
    if point.ran.isSome then point.rest.map (·.tabId)
    else point.tabId :: point.rest.map (·.tabId)
  | _ => []

/-- No update of the rollback has failed so far; `landed` is whether the last one was written. -/
def restoring (landed : Bool) : Running → Prop
  | .rollingBack point => point.rolledBack = true ∧
      (point.commits = [] ∨ point.ran = none ∨ (point.ran = some true ∧ landed = true))
  | _ => True

end Running

namespace StoredRefreshes

variable {w w' w₁ : StoredRefreshes} {r : AcceptedRefresh} {point : Running}

/-! ## The store in a step -/

theorem length_stored {event : Event} (h : w.rows.states.length ≤ maxPersistedTabRefreshStates) :
    (w.stored event.1 event.2).1.states.length ≤ maxPersistedTabRefreshStates := by
  simp only [stored]
  split
  · rename_i updated updater hu
    split
    · cases updater (w.rows.row updated) with
      | none => exact h
      | some durable => exact StoredStates.length_write h durable
    · exact h
  · split
    · exact (List.length_filter_le _ _).trans h
    · exact h
  · exact h

theorem length_of_run {value : List TabRefreshState} {h : Trace}
    (run : Run Step (start (parseStoredStates value)) h w) :
    w.rows.states.length ≤ maxPersistedTabRefreshStates := by
  have hstep (w event w') (hle : w.rows.states.length ≤ maxPersistedTabRefreshStates)
      (hs : Step w event w') : w'.rows.states.length ≤ maxPersistedTabRefreshStates := by
    rw [hs.coordinator.2.2]
    exact length_stored hle
  exact run.invariant (P := fun w => w.rows.states.length ≤ maxPersistedTabRefreshStates)
    (length_parseStoredStates value) hstep

theorem Step.landed_eq {event : Event} (hs : Step w event w') : w'.landed =
    match event.1 with
    | .proceed (.updating _) => (w.stored event.1 event.2).2
    | _ => w.landed := by
  unfold Step StoredRefreshes.apply at hs
  split at hs
  · cases hs
  · simp only [Option.map_eq_some_iff] at hs
    obtain ⟨c, -, rfl⟩ := hs
    rfl

/-- A step outside the queue leaves whether the last update of the queue was written. -/
theorem Step.landed {event : Event} (hs : Step w event w')
    (hp : ∀ outcome, event.1 ≠ .proceed outcome) : w'.landed = w.landed := by
  rw [hs.landed_eq]
  split
  · rename_i current he
    exact absurd he (hp _)
  · rfl

/-- A step of the queue that updates nothing leaves the rows. -/
theorem Step.proceed_rows {outcome : Outcome} {lands : Bool}
    (hs : Step w (.proceed outcome, lands) w') (ho : ∀ current, outcome ≠ .updating current) :
    w'.rows = w.rows ∧ w'.landed = w.landed := by
  have hu : w.coordinator.update? (.proceed outcome) = none := by
    unfold TabRefreshCoordinator.update?
    split
    · rename_i he
      cases he
    · rename_i current he
      cases he
      exact absurd rfl (ho current)
    · rfl
  refine ⟨?_, ?_⟩
  · rw [hs.coordinator.2.2]
    simp [stored, hu, TabRefreshCoordinator.removal?]
  · rw [hs.landed_eq]
    split
    · rename_i current he
      cases he
      exact absurd rfl (ho current)
    · rfl

/-- The queue updates the row of a tab that has one, or leaves it. -/
theorem Step.updating {current : Option TabRefreshState} {lands : Bool} {tabId : TabId}
    {updater : Option TabRefreshState → Option TabRefreshState}
    (hs : Step w (.proceed (.updating current), lands) w')
    (hu : w.coordinator.update? (.proceed (.updating current)) = some (tabId, updater))
    (hle : w.rows.states.length ≤ maxPersistedTabRefreshStates)
    (hcand : updater none = none) :
    current = w.rows.row tabId ∧
      (∀ tabId', tabId' ≠ tabId → w'.rows.row tabId' = w.rows.row tabId') ∧
      ((w'.landed = true ∧ w'.rows.row tabId = (updater current).or current) ∨
        (w'.landed = false ∧ w'.rows.row tabId = current)) ∧
      ∀ row ∈ w'.rows.states, updater current = some row ∨ row ∈ w.rows.states := by
  obtain ⟨hagrees, -, hrows⟩ := hs.coordinator
  have hlanded := hs.landed_eq
  have hcurrent : current = w.rows.row tabId := by simpa [agrees, hu] using hagrees
  subst hcurrent
  simp only [stored, hu] at hrows hlanded
  split at hrows
  · rename_i hlands
    rw [if_pos hlands] at hlanded
    simp only [Bool.and_eq_true] at hlands
    have hmem (row) (hm : row ∈ w'.rows.states) :
        updater (w.rows.row tabId) = some row ∨ row ∈ w.rows.states :=
      mem_update (by rw [hrows] at hm; exact hm)
    suffices h : (∀ tabId', tabId' ≠ tabId → w'.rows.row tabId' = w.rows.row tabId') ∧
        w'.rows.row tabId = (updater (w.rows.row tabId)).or (w.rows.row tabId) from
      ⟨rfl, h.1, .inl ⟨hlanded, h.2⟩, hmem⟩
    cases hc : updater (w.rows.row tabId) with
    | none => simp [hrows, hc, StoredStates.update]
    | some durable =>
      have ht : durable.tabId = tabId := by simpa [hc] using hlands.2
      have hrow : (w.rows.row durable.tabId).isSome := by
        rw [ht, Option.isSome_iff_ne_none]
        intro hn
        rw [hn, hcand] at hc
        cases hc
      simp only [hrows, hc, StoredStates.update, StoredStates.row_write hle hrow]
      simp +contextual [ht]
  · rename_i hlands
    rw [if_neg hlands] at hlanded
    refine ⟨rfl, fun _ _ => by rw [hrows], .inr ⟨hlanded, by rw [hrows]⟩, fun row hm => .inr ?_⟩
    rw [hrows] at hm
    exact hm

/-! ## The refresh that is compared -/

/-- What is known while it is decided whether to admit a refresh: nothing of the window is newer,
and where there are rows, all is older. -/
structure Comparing (w : StoredRefreshes) (r : AcceptedRefresh)
    (windowStates : List TabRefreshState) : Prop where
  nodup : (windowStates.map (·.tabId)).Nodup
  within : Bounded (fun a => ¬Before r.incoming a) r.windowId w
  earlier : windowStates ≠ [] → Before ⟨0, .known .styles, none⟩ r.incoming ∧
    Bounded (fun a => Before a r.incoming) r.windowId w

theorem bound_within (incoming : WindowWatermark) : Bound fun a => ¬Before incoming a := by
  refine ⟨fun a b hb hle ha => ?_, ?_⟩
  · unfold Before at *
    omega
  · simp [Before, watermarkModePrecedence]

theorem bound_earlier {incoming : WindowWatermark}
    (h : Before ⟨0, .known .styles, none⟩ incoming) : Bound fun a => Before a incoming := by
  refine ⟨fun a b hb hle => ?_, h⟩
  unfold Before at *
  omega

theorem Bounded.mono {P Q : WindowWatermark → Prop} {windowId : WindowId}
    (h : Bounded P windowId w) (hi : ∀ a, P a → Q a) : Bounded Q windowId w :=
  ⟨fun a ha => hi a (h.remembered a ha), fun row hm hw => hi _ (h.rows row hm hw)⟩

theorem comparing_of_loaded {loaded : StoredStates} {windowStates : List TabRefreshState}
    (hloaded : loaded = w.rows) (hrows : w'.rows = w.rows)
    (hc : w'.coordinator = w.coordinator.refreshLoaded r loaded.states)
    (ha : w'.coordinator.running = some (.admitting r windowStates)) :
    Comparing w' r windowStates := by
  subst hloaded
  rw [hc] at ha
  simp only [TabRefreshCoordinator.refreshLoaded] at hc ha
  split at ha
  · cases ha
  · rename_i hnew
    cases ha
    rw [if_neg hnew] at hc
    simp only [Bool.not_eq_true, Bool.not_eq_false'] at hnew
    obtain ⟨hr, hs⟩ := TabRefreshCoordinator.before_of_isNewerRefresh hnew
    have hb : Bounded (fun a => Before a r.incoming) r.windowId w' := by
      refine ⟨fun a ha => hr a ?_, fun row hm hw => hs row ?_⟩
      · rw [hc] at ha
        exact ha
      · rw [hrows] at hm
        exact List.mem_filter.mpr ⟨hm, by simpa using hw⟩
    refine ⟨w.rows.nodup.sublist (List.filter_sublist.map _), hb.mono fun _ h => h.not_before,
      fun hne => ⟨?_, hb⟩⟩
    obtain ⟨row, hm⟩ := List.exists_mem_of_ne_nil _ hne
    have hlt := hs row hm
    have hle : ¬Before (stateWatermark row) ⟨0, .known .styles, none⟩ := by
      simp [Before, watermarkModePrecedence]
    unfold Before at *
    omega

theorem comparing_of_run {rows : StoredStates} {h : Trace} (run : Run Step (start rows) h w) :
    ∀ r windowStates, w.coordinator.running = some (.admitting r windowStates) →
      Comparing w r windowStates := by
  refine run.invariant (P := fun w => ∀ r windowStates,
    w.coordinator.running = some (.admitting r windowStates) → Comparing w r windowStates)
    (fun _ _ h => by cases h) ?_
  rintro w ⟨action, lands⟩ w' ih hs r windowStates ha
  obtain ⟨hagrees, happly, -⟩ := hs.coordinator
  by_cases hp : ∃ outcome, action = .proceed outcome
  · obtain ⟨outcome, rfl⟩ := hp
    simp only [TabRefreshCoordinator.apply, Option.bind_eq_some_iff] at happly
    obtain ⟨point, hrun, hproceed⟩ := happly
    obtain ⟨loaded, rfl, hc⟩ := TabRefreshCoordinator.proceed_admitting hrun hproceed ha
    refine comparing_of_loaded ?_ (hs.proceed_rows (fun _ h => by cases h)).1 hc ha
    simpa [agrees] using hagrees
  · simp only [not_exists] at hp
    by_cases hb : action = .begin
    · subst hb
      simp only [TabRefreshCoordinator.apply] at happly
      split at happly
      · rename_i operation queue hrun hq
        rw [← Option.some.inj happly] at ha
        exact absurd ha (TabRefreshCoordinator.begin_admitting hrun)
      · cases happly
    · have hrun := (TabRefreshCoordinator.apply_watermark happly hp hb r.windowId).1
      obtain ⟨hnd, hwithin, hearlier⟩ := ih r windowStates (hrun ▸ ha)
      refine ⟨hnd, hwithin.step (bound_within _) hs hp hb, fun hne => ?_⟩
      obtain ⟨hstyles, hb'⟩ := hearlier hne
      exact ⟨hstyles, hb'.step (bound_earlier hstyles) hs hp hb⟩

/-! ## The admission -/

/-- The tab whose row the step stages. -/
def staging? (w : StoredRefreshes) (event : Event) : Option TabId :=
  match w.coordinator.running, event.1 with
  | some (.committing point), .proceed (.updating current) =>
    (w.coordinator.admissionUpdate point.refresh point.tabId point.revision current).1.map (·.tabId)
  | _, _ => none

def staged (h : Trace) : List TabId := h.filterMap fun t => t.pre.staging? t.event

/-- The tabs that are staged and not rolled back. -/
def outstandingTabs (w : StoredRefreshes) : List TabId :=
  (w.coordinator.running.map Running.outstanding).getD [] |>.map (·.tabId)

/-- The row of the tab is what it was, or is none of the window and was never staged. -/
def Kept (w₁ : StoredRefreshes) (windowId : WindowId) (staged : List TabId) (w : StoredRefreshes)
    (tabId : TabId) : Prop :=
  w.rows.row tabId = w₁.rows.row tabId ∨
    (tabId ∉ staged ∧ ∀ row, w.rows.row tabId = some row → row.windowId ≠ windowId)

/-- No step of another call changes a row, unless of a tab that is staged and not rolled back, or
of one that is not staged and then is in another window. -/
def SparesRows (windowId : WindowId) : Trace → Prop
  | [] => True
  | t :: older => SparesRows windowId older ∧
      ((∀ outcome, t.event.1 ≠ .proceed outcome) → ∀ tabId ∉ t.pre.outstandingTabs,
        Kept t.pre windowId (staged older) t.post tabId)

/-- What is known from the publication of the watermark at `w₁` to the end of a rollback. -/
structure Admission (w₁ : StoredRefreshes) (r : AcceptedRefresh) (staged : List TabId)
    (w : StoredRefreshes) (point : Running) : Prop where
  running : w.coordinator.running = some point
  previous : point.previous = some (r, w₁.coordinator.watermarks.get? r.windowId)
  nodup : point.remaining.Nodup
  fresh : ∀ tabId ∈ point.remaining, tabId ∉ staged
  commits : ∀ commit ∈ point.outstanding, commit.tabId ∈ staged ∧
    w₁.rows.row commit.tabId = some commit.before ∧ commit.after.tabId = commit.tabId
  earlier : Bounded (fun a => Before a r.incoming) r.windowId w₁ ∨
    ∃ previous, point = .locating r [] previous
  length : w.rows.states.length ≤ maxPersistedTabRefreshStates
  within : Bounded (fun a => ¬Before r.incoming a) r.windowId w
  watermark : w.coordinator.watermarks.get? r.windowId = some r.incoming
  rows : point.restoring w.landed → ∀ tabId, tabId ∉ point.outstanding.map (·.tabId) →
    Kept w₁ r.windowId staged w tabId

namespace Admission

variable {staged : List TabId} {point' : Running}

/-- The watermark is published. -/
theorem publish {windowStates : List TabRefreshState} (hc : Comparing w₁ r windowStates)
    (hle : w₁.rows.states.length ≤ maxPersistedTabRefreshStates) (hrows : w.rows = w₁.rows)
    (hw : w.coordinator = w₁.coordinator.refreshAdmitted r windowStates) :
    Admission w₁ r [] w
      (.locating r windowStates (w₁.coordinator.watermarks.get? r.windowId)) := by
  have hwatermark : w.coordinator.watermarks.get? r.windowId = some r.incoming := by
    rw [hw]
    exact (OrderedMap.get?_set _ _ _ _).trans (if_pos rfl)
  have hrun : w.coordinator.running =
      some (.locating r windowStates (w₁.coordinator.watermarks.get? r.windowId)) := by
    rw [hw]
    rfl
  have hlength : w.rows.states.length ≤ maxPersistedTabRefreshStates := by
    rw [hrows]
    exact hle
  refine ⟨hrun, rfl, hc.nodup, fun _ _ => List.not_mem_nil,
    fun _ hm => absurd hm List.not_mem_nil, ?_, hlength,
    ⟨fun a ha => ?_, fun row hm => ?_⟩, hwatermark, fun _ tabId _ => ?_⟩
  · cases windowStates with
    | nil => exact .inr ⟨_, rfl⟩
    | cons state states => exact .inl (hc.earlier (List.cons_ne_nil _ _)).2
  · rw [hwatermark] at ha
    cases ha
    exact not_before_self _
  · rw [hrows] at hm
    exact hc.within.rows row hm
  · exact .inl (by rw [hrows])

/-- The queue goes on without an update. -/
theorem settle (ha : Admission w₁ r staged w point) (hrows : w'.rows = w.rows)
    (hw : w'.coordinator = w.coordinator.run point') (hprev : point'.previous = point.previous)
    (hrem : point'.remaining.Sublist point.remaining)
    (hout : ∀ commit ∈ point'.outstanding, commit ∈ point.outstanding)
    (hearlier : ∀ previous, point ≠ .locating r [] previous)
    (hrest : point'.restoring w'.landed → point.restoring w.landed ∧
      ∀ commit ∈ point.outstanding, commit ∈ point'.outstanding) :
    Admission w₁ r staged w' point' := by
  have hwater : w'.coordinator.watermarks = w.coordinator.watermarks := by
    rw [hw]
    rfl
  have hlength : w'.rows.states.length ≤ maxPersistedTabRefreshStates := by
    rw [hrows]
    exact ha.length
  refine ⟨congrArg _ hw, hprev.trans ha.previous, ha.nodup.sublist hrem,
    fun t ht => ha.fresh t (hrem.subset ht), fun commit hm => ha.commits commit (hout commit hm),
    .inl (ha.earlier.resolve_right fun h => h.elim hearlier), hlength, ⟨?_, ?_⟩,
    hwater ▸ ha.watermark, ?_⟩
  · rw [hwater]
    exact ha.within.remembered
  · rw [hrows]
    exact ha.within.rows
  · intro hrestoring tabId ht
    obtain ⟨hold, hsub⟩ := hrest hrestoring
    have hkept := ha.rows hold tabId fun hm => by
      obtain ⟨commit, hc, rfl⟩ := List.mem_map.mp hm
      exact ht (List.mem_map.mpr ⟨commit, hsub commit hc, rfl⟩)
    unfold Kept at hkept ⊢
    rw [hrows]
    exact hkept

/-- The store runs the updater of the loop. -/
theorem commit {p : Committing} {current : Option TabRefreshState} {lands : Bool}
    (ha : Admission w₁ r staged w (.committing p)) (hran : p.ran = none)
    (hs : Step w (.proceed (.updating current), lands) w')
    (hw : w'.coordinator = w.coordinator.run (.committing { p with
      ran := some (w.coordinator.admissionUpdate p.refresh p.tabId p.revision current) })) :
    Admission w₁ r ((w.staging? (.proceed (.updating current), lands)).toList ++ staged) w'
      (.committing { p with
        ran := some (w.coordinator.admissionUpdate p.refresh p.tabId p.revision current) }) := by
  have hu : w.coordinator.update? (.proceed (.updating current)) = some (p.tabId, fun current =>
      (w.coordinator.admissionUpdate p.refresh p.tabId p.revision current).2) := by
    simp [TabRefreshCoordinator.update?, ha.running]
  obtain ⟨hcurrent, hother, hself, hmem⟩ := hs.updating hu ha.length rfl
  have hwater : w'.coordinator.watermarks = w.coordinator.watermarks := by
    rw [hw]
    rfl
  have hlength : w'.rows.states.length ≤ maxPersistedTabRefreshStates := by
    rw [hs.coordinator.2.2]
    exact length_stored ha.length
  have hearlier : Bounded (fun a => Before a r.incoming) r.windowId w₁ :=
    ha.earlier.resolve_right (by rintro ⟨previous, ⟨⟩⟩)
  have hr : p.refresh = r := congrArg Prod.fst (Option.some.inj ha.previous)
  have hnd := ha.nodup
  have hfresh := ha.fresh
  have hkept := ha.rows trivial
  have hcommits := ha.commits
  simp only [Running.remaining, Running.outstanding, hran, Option.isSome_none, Bool.false_eq_true,
    if_false, Option.bind_none, Option.toList_none, List.append_nil, List.nodup_cons,
    List.mem_cons, forall_eq_or_imp] at hnd hfresh hkept hcommits
  rcases TabRefreshCoordinator.admissionUpdate_cases w.coordinator p.refresh p.tabId p.revision
    current with ⟨hnone, hsame⟩ | ⟨row, hrow, hwin, after, hafter, hnot, he⟩
  · -- the row is none of the window any more, or its tab has moved on
    have hrows : ∀ tabId, w'.rows.row tabId = w.rows.row tabId := by
      intro tabId
      by_cases ht : tabId = p.tabId
      · subst ht
        rw [hsame, Option.or_self] at hself
        rcases hself with ⟨-, h⟩ | ⟨-, h⟩
        · rw [h, hcurrent]
        · rw [h, hcurrent]
      · exact hother tabId ht
    have hstaging : w.staging? (.proceed (.updating current), lands) = none := by
      simp [staging?, ha.running, hnone]
    rw [hstaging]
    refine ⟨congrArg _ hw, ha.previous, hnd.2, hfresh.2, ?_, .inl hearlier, hlength, ⟨?_, ?_⟩,
      hwater ▸ ha.watermark, fun _ tabId ht => ?_⟩
    · simpa [Running.outstanding, hnone] using hcommits
    · rw [hwater]
      exact ha.within.remembered
    · intro row hm
      rcases hmem row hm with hcand | hm
      · rw [hsame, hcurrent] at hcand
        exact ha.within.rows row (StoredStates.row_eq_some.mp hcand).1
      · exact ha.within.rows row hm
    · have hold := hkept tabId (by simpa [Running.outstanding, hnone] using ht)
      unfold Kept at hold ⊢
      rw [hrows]
      exact hold
  · -- the row is the one from before the call
    have hnot' : p.tabId ∉ p.commits.map (·.tabId) := by
      intro hm
      obtain ⟨commit, hc, ht⟩ := List.mem_map.mp hm
      exact hfresh.1 (ht ▸ (hcommits commit hc).1)
    have hrow₁ : w₁.rows.row p.tabId = some row := by
      rcases hkept p.tabId hnot' with hold | ⟨-, hleft⟩
      · rw [← hold, ← hcurrent, hrow]
      · exact absurd (hr ▸ hwin) (hleft row (by rw [← hcurrent, hrow]))
    have htab : row.tabId = p.tabId :=
      (StoredStates.row_eq_some.mp (hcurrent ▸ hrow)).2
    have hstaging : w.staging? (.proceed (.updating current), lands) = some p.tabId := by
      simp [staging?, ha.running, he]
    rw [hstaging]
    refine ⟨congrArg _ hw, ha.previous, hnd.2, fun tabId hm => ?_, fun commit hm => ?_,
      .inl hearlier, hlength, ⟨?_, ?_⟩, hwater ▸ ha.watermark, fun _ tabId ht => ?_⟩
    · rw [Option.toList_some, List.singleton_append, List.mem_cons, not_or]
      exact ⟨fun heq => hnd.1 (heq ▸ hm), hfresh.2 tabId hm⟩
    · simp only [Running.outstanding, he, Option.bind_some, Option.toList_some, List.mem_append,
        List.mem_singleton] at hm
      rcases hm with hm | rfl
      · obtain ⟨hs₁, hs₂⟩ := hcommits commit hm
        exact ⟨List.mem_append_right _ hs₁, hs₂⟩
      · exact ⟨by simp, hrow₁, hafter.trans htab⟩
    · rw [hwater]
      exact ha.within.remembered
    · intro row' hm hwin'
      rcases hmem row' hm with hcand | hm
      · rw [he] at hcand
        cases hcand
        exact hr ▸ hnot
      · exact ha.within.rows row' hm hwin'
    · simp only [Running.outstanding, he, Option.bind_some, Option.toList_some, List.map_append,
        List.map_cons, List.map_nil, List.mem_append, List.mem_singleton, not_or] at ht
      have hold := hkept tabId ht.1
      unfold Kept at hold ⊢
      rw [hother tabId ht.2]
      refine hold.imp_right fun h => ⟨?_, h.2⟩
      rw [Option.toList_some, List.singleton_append, List.mem_cons, not_or]
      exact ⟨ht.2, h.1⟩

/-- The store runs the updater of the rollback. -/
theorem restore {p : RollingBack} {commit : RefreshAdmissionCommit}
    {rest : List RefreshAdmissionCommit} {current : Option TabRefreshState} {lands : Bool}
    (ha : Admission w₁ r staged w (.rollingBack p)) (hran : p.ran = none)
    (hcommits : p.commits = commit :: rest)
    (hs : Step w (.proceed (.updating current), lands) w')
    (hw : w'.coordinator = w.coordinator.run (.rollingBack { p with
      ran := some (TabRefreshCoordinator.restores commit current) })) :
    Admission w₁ r staged w' (.rollingBack { p with
      ran := some (TabRefreshCoordinator.restores commit current) }) := by
  have hu : w.coordinator.update? (.proceed (.updating current)) =
      some (commit.tabId, TabRefreshCoordinator.rollbackUpdate commit) := by
    simp [TabRefreshCoordinator.update?, ha.running, hcommits]
  obtain ⟨hcurrent, hother, hself, hmem⟩ := hs.updating hu ha.length rfl
  have hwater : w'.coordinator.watermarks = w.coordinator.watermarks := by
    rw [hw]
    rfl
  have hlength : w'.rows.states.length ≤ maxPersistedTabRefreshStates := by
    rw [hs.coordinator.2.2]
    exact length_stored ha.length
  have hearlier : Bounded (fun a => Before a r.incoming) r.windowId w₁ :=
    ha.earlier.resolve_right (by rintro ⟨previous, ⟨⟩⟩)
  have hbefore : w₁.rows.row commit.tabId = some commit.before :=
    (ha.commits commit (by simp [Running.outstanding, hran, hcommits])).2.1
  refine ⟨congrArg _ hw, ha.previous, List.nodup_nil, List.forall_mem_nil _, fun other hm => ?_,
    .inl hearlier, hlength, ⟨?_, ?_⟩, hwater ▸ ha.watermark, fun hrest tabId ht => ?_⟩
  · refine ha.commits other ?_
    simp only [Running.outstanding, hran, reduceCtorEq, if_false]
    simp only [Running.outstanding] at hm
    split at hm
    · exact List.mem_of_mem_tail hm
    · exact hm
  · rw [hwater]
    exact ha.within.remembered
  · intro row hm hwin
    rcases hmem row hm with hcand | hm
    · have he : row = commit.before := by
        unfold TabRefreshCoordinator.rollbackUpdate at hcand
        split at hcand
        · cases hcand
        · split at hcand
          · cases hcand
          · exact (Option.some.inj hcand).symm
      subst he
      exact (hearlier.rows _ (StoredStates.row_eq_some.mp hbefore).1 hwin).not_before
    · exact ha.within.rows row hm hwin
  · -- it has restored the row, and that is written
    simp only [Running.restoring, hcommits, List.cons_ne_nil, reduceCtorEq, false_or,
      Option.some.injEq] at hrest
    obtain ⟨hrolled, hrestores, hlanded⟩ := hrest
    by_cases htab : tabId = commit.tabId
    · subst htab
      left
      have hnl : ¬w'.landed = false := by simp [hlanded]
      have hself := (hself.resolve_right fun h => hnl h.1).2
      rw [hself, hbefore]
      unfold TabRefreshCoordinator.restores at hrestores
      unfold TabRefreshCoordinator.rollbackUpdate
      split
      · rename_i hb
        rw [hb]
        rfl
      · rename_i hb
        have hafter : current = some commit.after := by simpa [hb] using hrestores
        rw [if_neg (by simp [hafter])]
        rfl
    · have hold := ha.rows ⟨hrolled, .inr (.inl hran)⟩ tabId (by
        simp only [Running.outstanding, hran, reduceCtorEq, if_false, hcommits, List.map_cons,
          List.mem_cons, not_or]
        refine ⟨htab, ?_⟩
        simpa [Running.outstanding, hrestores, hcommits] using ht)
      unfold Kept at hold ⊢
      rw [hother tabId htab]
      exact hold

/-- A step of another call. -/
theorem step (ha : Admission w₁ r staged w point) {event : Event} (hs : Step w event w')
    (hp : ∀ outcome, event.1 ≠ .proceed outcome)
    (hmark : w.coordinator.mark? event.1 ≠ some (some r.windowId))
    (hspares : ∀ tabId ∉ w.outstandingTabs, Kept w r.windowId staged w' tabId) :
    Admission w₁ r staged w' point := by
  obtain ⟨hagrees, happly, -⟩ := hs.coordinator
  have hbegin : event.1 ≠ .begin := by
    intro he
    rw [he] at happly
    simp [TabRefreshCoordinator.apply, ha.running] at happly
  obtain ⟨hrun, hwater⟩ := TabRefreshCoordinator.apply_watermark happly hp hbegin r.windowId
  have hwatermark : w'.coordinator.watermarks.get? r.windowId = some r.incoming := by
    rcases hwater with he | ⟨attempt, loaded, hevent, he⟩ | ⟨hm, -⟩
    · rw [he, ha.watermark]
    · have hloaded : loaded = w.rows := by simpa [agrees, hevent] using hagrees
      subst hloaded
      rw [he]
      rcases TabRefreshCoordinator.get?_foldl_raiseWatermark w.rows.states
        w.coordinator.watermarks r.windowId with hsame | ⟨row, hm, hwin, hnew, -⟩
      · rw [hsame, ha.watermark]
      · -- no row of the window is newer than the refresh
        rw [ha.watermark] at hnew
        exact absurd (isNewerRefresh_some.mp hnew) (ha.within.rows row hm hwin)
    · exact absurd hm hmark
  have hlength : w'.rows.states.length ≤ maxPersistedTabRefreshStates := by
    rw [hs.coordinator.2.2]
    exact length_stored ha.length
  refine ⟨hrun.trans ha.running, ha.previous, ha.nodup, ha.fresh, ha.commits, ha.earlier, hlength,
    ha.within.step (bound_within _) hs hp hbegin, hwatermark, fun hrest tabId ht => ?_⟩
  rw [hs.landed hp] at hrest
  have hout : tabId ∉ w.outstandingTabs := by simpa [outstandingTabs, ha.running] using ht
  rcases hspares tabId hout with hsame | hleft
  · have hkept := ha.rows hrest tabId ht
    unfold Kept at hkept ⊢
    rw [hsame]
    exact hkept
  · exact .inr hleft

/-- The next row is staged, or the admission ends. -/
theorem next {previous : Option WindowWatermark} {activeTabId : Option TabId}
    {rest : List TabRefreshState} {commits : List RefreshAdmissionCommit} {stages : List Stage}
    (ha : Admission w₁ r staged w point) (hrows : w'.rows = w.rows)
    (hw : w'.coordinator = w.coordinator.commitNext r previous activeTabId rest commits stages)
    (hon : (w'.coordinator.running.bind Running.previous).isSome)
    (hprev : point.previous = some (r, previous))
    (hrem : point.remaining = rest.map (·.tabId)) (hout : point.outstanding = commits)
    (hearlier : ∀ previous, point ≠ .locating r [] previous)
    (hrest : point.restoring w.landed) : ∃ point', Admission w₁ r staged w' point' := by
  cases rest with
  | nil =>
    have hw : w'.coordinator = w.coordinator.stageAll r activeTabId stages := hw
    rcases TabRefreshCoordinator.stageAll_running w.coordinator r activeTabId stages with
      he | he | ⟨tabId, i, he⟩
    all_goals
      rw [hw, he] at hon
      cases hon
  | cons state rest =>
    refine ⟨_, ha.settle hrows hw hprev.symm ?_ ?_ hearlier fun _ => ⟨hrest, ?_⟩⟩
    · rw [hrem]
      exact .refl _
    · rw [hout]
      intro commit hm
      simpa [Running.outstanding] using hm
    · rw [hout]
      intro commit hm
      simpa [Running.outstanding] using hm

/-- A step of the queue in which the admission does not end. -/
theorem proceed (ha : Admission w₁ r staged w point) {outcome : Outcome} {lands : Bool}
    (hs : Step w (.proceed outcome, lands) w')
    (hon : (w'.coordinator.running.bind Running.previous).isSome) :
    ∃ point', Admission w₁ r ((w.staging? (.proceed outcome, lands)).toList ++ staged) w' point' := by
  obtain ⟨hagrees, happly, -⟩ := hs.coordinator
  simp only [TabRefreshCoordinator.apply, ha.running, Option.bind_some] at happly
  have hprev := ha.previous
  cases point with
  | locating r' windowStates previous =>
    obtain ⟨rfl, rfl⟩ := Prod.mk.inj (Option.some.inj hprev)
    have hstaging : w.staging? (.proceed outcome, lands) = none := by
      simp [staging?, ha.running]
    rw [hstaging]
    have hlocate (tabId : Option TabId) (hrows : w'.rows = w.rows)
        (hw : w.coordinator.commitNext r' (w₁.coordinator.watermarks.get? r'.windowId) tabId
          windowStates [] [] = w'.coordinator) :
        ∃ point', Admission w₁ r' ([] ++ staged) w' point' := by
      cases windowStates with
      | nil =>
        have hw : w.coordinator.stageAll r' tabId [] = w'.coordinator := hw
        rcases TabRefreshCoordinator.stageAll_running w.coordinator r' tabId [] with
          he | he | ⟨tabId, i, he⟩
        all_goals
          rw [← hw, he] at hon
          cases hon
      | cons state states =>
        exact ha.next hrows hw.symm hon rfl rfl rfl (fun _ h => by cases h) trivial
    cases outcome with
    | activeTab tabId =>
      exact hlocate tabId (hs.proceed_rows (fun _ h => by cases h)).1 (Option.some.inj happly)
    | rejected =>
      exact hlocate none (hs.proceed_rows (fun _ h => by cases h)).1 (Option.some.inj happly)
    | resolved => cases happly
    | loaded => cases happly
    | updating => cases happly
    | admitted => cases happly
  | committing p =>
    obtain ⟨rfl, hprevious⟩ := Prod.mk.inj (Option.some.inj hprev)
    cases outcome with
    | updating current =>
      simp only [TabRefreshCoordinator.proceed] at happly
      split at happly
      · cases happly
      · rename_i hran
        exact ⟨_, ha.commit (by simpa using hran) hs (Option.some.inj happly).symm⟩
    | resolved =>
      have hstaging : w.staging? (.proceed .resolved, lands) = none := by
        simp [staging?, ha.running]
      rw [hstaging]
      simp only [TabRefreshCoordinator.proceed, Option.map_eq_some_iff] at happly
      obtain ⟨⟨commit, updated⟩, hran, hw⟩ := happly
      refine ha.next (hs.proceed_rows (fun _ h => by cases h)).1 hw.symm hon rfl ?_ ?_
        (fun _ h => by cases h) trivial
      · simp [Running.remaining, hran]
      · simp [Running.outstanding, hran]
    | rejected =>
      have hstaging : w.staging? (.proceed .rejected, lands) = none := by
        simp [staging?, ha.running]
      rw [hstaging]
      refine ⟨_, ha.settle (hs.proceed_rows (fun _ h => by cases h)).1
        (Option.some.inj happly).symm rfl
        (List.nil_sublist _) ?_ (fun _ h => by cases h) fun _ => ⟨trivial, ?_⟩⟩
      · intro commit hm
        simpa [Running.outstanding, or_comm] using hm
      · intro commit hm
        simpa [Running.outstanding, or_comm] using hm
    | loaded => cases happly
    | activeTab => cases happly
    | admitted => cases happly
  | rollingBack p =>
    have hstaging : w.staging? (.proceed outcome, lands) = none := by
      simp [staging?, ha.running]
    rw [hstaging]
    cases outcome with
    | updating current =>
      simp only [TabRefreshCoordinator.proceed] at happly
      split at happly
      · cases happly
      · rename_i commit rest hcommits
        split at happly
        · cases happly
        · rename_i hran
          exact ⟨_, ha.restore (by simpa using hran) hcommits hs (Option.some.inj happly).symm⟩
    | resolved =>
      simp only [TabRefreshCoordinator.proceed] at happly
      split at happly
      · -- the rollback is over
        rw [← Option.some.inj happly] at hon
        simp only [TabRefreshCoordinator.rolledBack] at hon
        split at hon
        · cases hon
        · split at hon
          · cases hon
          · cases hon
      · rename_i commit rest restored hcommits hran
        have hlanded : w.landed = true := by
          simpa [agrees, TabRefreshCoordinator.awaitsUpdate, ha.running, hcommits] using hagrees
        refine ⟨_, ha.settle (hs.proceed_rows (fun _ h => by cases h)).1
          (Option.some.inj happly).symm rfl
          (List.nil_sublist _) ?_ (fun _ h => by cases h) ?_⟩
        · intro other hm
          simp only [Running.outstanding, hcommits, hran] at hm ⊢
          split
          · exact hm
          · exact List.mem_cons_of_mem _ hm
        · intro hrest
          simp only [Running.restoring, Bool.and_eq_true, or_true, true_or, and_true] at hrest
          obtain ⟨hrolled, rfl⟩ := hrest
          refine ⟨⟨hrolled, .inr (.inr ⟨hran, hlanded⟩)⟩, fun other hm => ?_⟩
          simpa [Running.outstanding, hcommits, hran] using hm
      · cases happly
    | rejected =>
      simp only [TabRefreshCoordinator.proceed] at happly
      split at happly
      · cases happly
      · rename_i commit rest hcommits
        refine ⟨_, ha.settle (hs.proceed_rows (fun _ h => by cases h)).1
          (Option.some.inj happly).symm rfl
          (List.nil_sublist _) ?_ (fun _ h => by cases h)
          (fun h => by simp [Running.restoring] at h)⟩
        intro other hm
        simp only [Running.outstanding, hcommits] at hm ⊢
        split
        · exact hm
        · exact List.mem_cons_of_mem _ hm
    | loaded => cases happly
    | activeTab => cases happly
    | admitted => cases happly
  | _ => cases hprev

end Admission

/-- The admission of the refresh goes on in every state of the run, and the window is not removed
meanwhile. -/
def GoesOn (r : AcceptedRefresh) (h : Trace) : Prop := ∀ t ∈ h,
  (t.pre.coordinator.running.bind Running.previous).map (·.1) = some r ∧
    t.pre.coordinator.mark? t.event.1 ≠ some (some r.windowId)

/-- The run lemma. -/
theorem Admission.of_run {h : Trace} {w₂ : StoredRefreshes} (ha : Admission w₁ r [] w₂ point)
    (run : Run Step w₂ h w) (hon : GoesOn r h) (hspares : SparesRows r.windowId h)
    (hlast : (w.coordinator.running.bind Running.previous).isSome) :
    ∃ point', Admission w₁ r (staged h) w point' := by
  induction run with
  | start => exact ⟨point, ha⟩
  | @next older w w' event run hs ih =>
    obtain ⟨hgoes, hmark⟩ := hon _ List.mem_cons_self
    have hsome : (w.coordinator.running.bind Running.previous).isSome := by
      obtain ⟨_, he, -⟩ := Option.map_eq_some_iff.mp hgoes
      simp [he]
    obtain ⟨point', ha'⟩ := ih (fun t ht => hon t (List.mem_cons_of_mem _ ht)) hspares.1 hsome
    by_cases hp : ∃ outcome, event.1 = .proceed outcome
    · obtain ⟨outcome, he⟩ := hp
      obtain ⟨action, lands⟩ := event
      cases he
      obtain ⟨point'', ha''⟩ := ha'.proceed hs hlast
      refine ⟨point'', ?_⟩
      have hcons : staged (⟨w, (.proceed outcome, lands), w'⟩ :: older) =
          (w.staging? (.proceed outcome, lands)).toList ++ staged older := by
        rw [staged, List.filterMap_cons]
        split
        · rename_i hnone
          rw [hnone]
          rfl
        · rename_i tabId hsome
          rw [hsome]
          rfl
      rw [hcons]
      exact ha''
    · simp only [not_exists] at hp
      refine ⟨point', ?_⟩
      have hnone : w.staging? event = none := by
        unfold staging?
        split
        · rename_i current _ he
          exact absurd he (hp _)
        · rfl
      have he : staged (⟨w, event, w'⟩ :: older) = staged older := by
        simp [staged, hnone]
      rw [he]
      exact ha'.step hs hp hmark (hspares.2 hp)

/-- A call for the refresh on these rows is admitted. -/
def Admits (w : StoredRefreshes) (windowId : WindowId) (pending : PendingTabRefresh) : Prop :=
  ∀ r : AcceptedRefresh, r.windowId = windowId → r.pending = pending →
    w.coordinator.refreshLoaded r w.rows.states = w.coordinator.run
      (.admitting r (w.rows.states.filter fun state => state.windowId = r.windowId))

/-- In every run: where a refresh is admitted, an update fails and the rollback succeeds, the rows
it staged and the watermark are what they were, and the same refresh is admitted again; as long
as no updater of another call changes a row but one that is staged and not rolled back, or one
that is not staged and leaves the window. -/
theorem failedAdmissionCanBeRetried {value : List TabRefreshState} {h₀ h : Trace}
    {w₂ : StoredRefreshes} {windowStates : List TabRefreshState} {p : RollingBack}
    {lands lands' : Bool} (run₀ : Run Step (start (parseStoredStates value)) h₀ w₁)
    (hadmitting : w₁.coordinator.running = some (.admitting r windowStates))
    (hpublish : Step w₁ (.proceed (.admitted true), lands) w₂) (run : Run Step w₂ h w)
    (hon : GoesOn r h) (hspares : SparesRows r.windowId h)
    (hlast : w.coordinator.running = some (.rollingBack p)) (hcommits : p.commits = [])
    (hrolledBack : p.rolledBack = true) (hend : Step w (.proceed .resolved, lands') w') :
    (∀ tabId ∈ staged h, w'.rows.row tabId = w₁.rows.row tabId) ∧
      w'.coordinator.watermarks.get? r.windowId = w₁.coordinator.watermarks.get? r.windowId ∧
      w'.Admits r.windowId r.pending := by
  have hcomparing := comparing_of_run run₀ r windowStates hadmitting
  have hpublished : w₂.coordinator = w₁.coordinator.refreshAdmitted r windowStates := by
    have happly := hpublish.coordinator.2.1
    simp only [TabRefreshCoordinator.apply, hadmitting, Option.bind_some] at happly
    exact (Option.some.inj happly).symm
  have hstart := Admission.publish hcomparing (length_of_run run₀)
    (hpublish.proceed_rows (fun _ h => by cases h)).1 hpublished
  obtain ⟨point, ha⟩ := hstart.of_run run hon hspares (by rw [hlast]; rfl)
  obtain rfl : point = .rollingBack p := Option.some.inj (ha.running.symm.trans hlast)
  obtain ⟨hr, hprevious⟩ := Prod.mk.inj (Option.some.inj ha.previous)
  have hearlier : Bounded (fun a => Before a r.incoming) r.windowId w₁ :=
    ha.earlier.resolve_right (by rintro ⟨previous, ⟨⟩⟩)
  have hrows : w'.rows = w.rows := (hend.proceed_rows (fun _ h => by cases h)).1
  have hkept (tabId : TabId) : Kept w₁ r.windowId (staged h) w' tabId := by
    have hold := ha.rows ⟨hrolledBack, .inl hcommits⟩ tabId (by
      simp [Running.outstanding, hcommits])
    unfold Kept at hold ⊢
    rw [hrows]
    exact hold
  have hwatermark : w'.coordinator.watermarks.get? r.windowId =
      w₁.coordinator.watermarks.get? r.windowId := by
    have happly := hend.coordinator.2.1
    simp only [TabRefreshCoordinator.apply, hlast, Option.bind_some, TabRefreshCoordinator.proceed,
      hcommits] at happly
    rw [← Option.some.inj happly]
    simp only [TabRefreshCoordinator.rolledBack, hrolledBack, hr, ha.watermark, hprevious,
      decide_true, Bool.and_true, Bool.not_true, Bool.false_eq_true, if_false]
    split
    · rename_i previous hw
      rw [hw]
      exact (OrderedMap.get?_set _ _ _ _).trans (if_pos rfl)
    · rename_i hw
      rw [hw]
      exact (OrderedMap.get?_delete _ _ _).trans (if_pos rfl)
  refine ⟨fun tabId ht => (hkept tabId).resolve_right fun h => h.1 ht, hwatermark, ?_⟩
  rintro r' hwin hpend
  have hnewer : isNewerRefresh r'.incoming (currentWatermark
      (w'.coordinator.watermarks.get? r'.windowId)
      (w'.rows.states.filter fun state => state.windowId = r'.windowId)) = true := by
    have hincoming (a : WindowWatermark) (hb : Before a r.incoming) : Before a r'.incoming := by
      simpa [Before, AcceptedRefresh.incoming, hpend] using hb
    rw [hwin]
    refine TabRefreshCoordinator.isNewerRefresh_currentWatermark (fun a hw => ?_) fun row hm => ?_
    · exact hincoming a (hearlier.remembered a (hwatermark ▸ hw))
    · obtain ⟨hm, hrow⟩ := List.mem_filter.mp hm
      have hrow : row.windowId = r.windowId := by simpa using hrow
      have hget : w'.rows.row row.tabId = some row := StoredStates.row_eq_some.mpr ⟨hm, rfl⟩
      refine hincoming _ (hearlier.rows row ?_ hrow)
      rcases hkept row.tabId with hsame | ⟨-, hleft⟩
      · exact (StoredStates.row_eq_some.mp (hsame ▸ hget)).1
      · exact absurd hrow (hleft row hget)
  simp only [TabRefreshCoordinator.refreshLoaded, hnewer, Bool.not_true, Bool.false_eq_true,
    if_false]

/-! ## Two runs -/

theorem sparesRows_of_proceed {windowId : WindowId} {h : Trace}
    (hp : ∀ t ∈ h, ∃ outcome, t.event.1 = .proceed outcome) : SparesRows windowId h := by
  induction h with
  | nil => trivial
  | cons t older ih =>
    obtain ⟨outcome, he⟩ := hp t List.mem_cons_self
    exact ⟨ih fun t ht => hp t (List.mem_cons_of_mem _ ht), fun hn => absurd he (hn outcome)⟩

/-- The refresh of a window with one row is to be admitted. -/
def admittingEvents : List Event :=
  [(.acceptPageRefresh 7 ⟨"session-1", ⟨"ide-1"⟩, 5, .styles⟩ true, true),
    (.settleInitialization 0 (some TabRefreshCoordinator.sampleRows), true),
    (.resume 0 .resolved, true), (.begin, true),
    (.proceed (.loaded TabRefreshCoordinator.sampleRows), true)]

/-- The update of the row fails, and the rollback finds it as it was. -/
def failingEvents : List Event :=
  [(.proceed (.activeTab none), true),
    (.proceed (.updating (some (TabRefreshCoordinator.sampleRow 0 none))), false),
    (.proceed .rejected, true),
    (.proceed (.updating (some (TabRefreshCoordinator.sampleRow 0 none))), true),
    (.proceed .resolved, true)]

/-- The panel of another tab of the window is opened, and its row stored. -/
def openingEvents : List Event :=
  [(.panelOpened 12 7, true), (.resume 0 .resolved, true), (.resume 0 (.updating none), true)]

def sampleRefresh : AcceptedRefresh := ⟨0, 7, ⟨5, .styles⟩, true⟩

def sampleRollback : RollingBack := ⟨sampleRefresh, some ⟨0, .known .styles, none⟩, [], true, none⟩

/-- The attempt that goes on with the events once the watermark is published: the states before and
after that, and before and after the end of the rollback, and what happens between. -/
def attempt (events : List Event) :
    Option ((StoredRefreshes × StoredRefreshes) × Trace × StoredRefreshes × StoredRefreshes) :=
  (admittingEvents.foldlM (fun w event => apply w event.1 event.2)
      (start (parseStoredStates [TabRefreshCoordinator.sampleRow 0 none]))).bind fun w₁ =>
    (w₁.apply (.proceed (.admitted true)) true).bind fun w₂ =>
      (Run.history (fun w event => apply w event.1 event.2) w₂ events).bind fun r =>
        (r.2.apply (.proceed .resolved) true).map fun w' => ((w₁, w₂), r.1, r.2, w')

theorem attempt_runs {events : List Event} {h : Trace} {w₂ : StoredRefreshes}
    (ha : attempt events = some ((w₁, w₂), h, w, w')) :
    (∃ h₀, Run Step (start (parseStoredStates [TabRefreshCoordinator.sampleRow 0 none])) h₀ w₁) ∧
      Step w₁ (.proceed (.admitted true), true) w₂ ∧ Run Step w₂ h w ∧
      Step w (.proceed .resolved, true) w' := by
  simp only [attempt, Option.bind_eq_some_iff, Option.map_eq_some_iff] at ha
  obtain ⟨_, hstart, _, hpublish, ⟨_, _⟩, hrun, _, hend, he⟩ := ha
  cases he
  obtain ⟨h₀, run₀, -⟩ := Run.of_foldlM hstart
  exact ⟨⟨h₀, run₀⟩, hpublish, Run.of_history hrun, hend⟩

/-- The attempt goes on from the sample refresh to the end of its rollback. -/
def isSampleAttempt : (StoredRefreshes × StoredRefreshes) × Trace × StoredRefreshes ×
    StoredRefreshes → Bool
  | ((w₁, _), h, w, _) =>
    w₁.coordinator.running =
        some (.admitting sampleRefresh [TabRefreshCoordinator.sampleRow 0 none]) &&
      w.coordinator.running = some (.rollingBack sampleRollback) &&
      h.all fun t => (t.pre.coordinator.running.bind Running.previous).map (·.1) =
        some sampleRefresh &&
          t.pre.coordinator.mark? t.event.1 ≠ some (some sampleRefresh.windowId)

theorem isSampleAttempt_goesOn {h : Trace} {w₂ : StoredRefreshes}
    (ha : isSampleAttempt ((w₁, w₂), h, w, w') = true) :
    w₁.coordinator.running =
        some (.admitting sampleRefresh [TabRefreshCoordinator.sampleRow 0 none]) ∧
      w.coordinator.running = some (.rollingBack sampleRollback) ∧ GoesOn sampleRefresh h := by
  simp only [isSampleAttempt, Bool.and_eq_true, decide_eq_true_eq, List.all_eq_true] at ha
  exact ⟨ha.1.1, ha.1.2, fun t ht => by simpa using ha.2 t ht⟩

theorem failedAdmissionCanBeRetried_sample : ∃ h₀ h w₁ w₂ w w',
    Run Step (start (parseStoredStates [TabRefreshCoordinator.sampleRow 0 none])) h₀ w₁ ∧
    Step w₁ (.proceed (.admitted true), true) w₂ ∧ Run Step w₂ h w ∧
    Step w (.proceed .resolved, true) w' ∧ staged h = [11] ∧
    w'.rows.row 11 = w₁.rows.row 11 ∧ w'.Admits 7 ⟨5, .styles⟩ := by
  have hrun : ((attempt failingEvents).map fun r => isSampleAttempt r && staged r.2.1 = [11] &&
      r.2.1.map (·.event) = failingEvents.reverse) = some true := by
    decide +kernel
  simp only [Option.map_eq_some_iff, Bool.and_eq_true, decide_eq_true_eq] at hrun
  obtain ⟨⟨⟨w₁, w₂⟩, h, w, w'⟩, ha, ⟨hsample, hstaged⟩, hevents⟩ := hrun
  obtain ⟨⟨h₀, run₀⟩, hpublish, run, hend⟩ := attempt_runs ha
  obtain ⟨hadmitting, hlast, hon⟩ := isSampleAttempt_goesOn hsample
  have hspares : SparesRows 7 h := sparesRows_of_proceed fun t ht => by
    have hm : t.event ∈ failingEvents.reverse := hevents ▸ List.mem_map_of_mem ht
    simp only [failingEvents, List.reverse_cons, List.reverse_nil, List.nil_append,
      List.cons_append, List.mem_cons, List.not_mem_nil, or_false] at hm
    rcases hm with he | he | he | he | he
    all_goals exact ⟨_, congrArg Prod.fst he⟩
  obtain ⟨hrows, -, hadmits⟩ := failedAdmissionCanBeRetried run₀ hadmitting hpublish run hon hspares
    hlast rfl rfl hend
  exact ⟨h₀, h, w₁, w₂, w, w', run₀, hpublish, run, hend, hstaged,
    hrows 11 (hstaged ▸ List.mem_singleton_self _), hadmits⟩

/-- The row of another tab has the watermark that is taken back. -/
theorem failedAdmission_refused : ∃ h₀ h w₁ w₂ w w',
    Run Step (start (parseStoredStates [TabRefreshCoordinator.sampleRow 0 none])) h₀ w₁ ∧
    w₁.coordinator.running =
      some (.admitting sampleRefresh [TabRefreshCoordinator.sampleRow 0 none]) ∧
    Step w₁ (.proceed (.admitted true), true) w₂ ∧ Run Step w₂ h w ∧ GoesOn sampleRefresh h ∧
    w.coordinator.running = some (.rollingBack sampleRollback) ∧
    Step w (.proceed .resolved, true) w' ∧ ¬w'.Admits 7 ⟨5, .styles⟩ := by
  have hrun : ((attempt (openingEvents ++ failingEvents)).map fun r => isSampleAttempt r &&
      r.2.2.2.coordinator.refreshLoaded sampleRefresh r.2.2.2.rows.states =
        r.2.2.2.coordinator.finish) = some true := by
    decide +kernel
  simp only [Option.map_eq_some_iff, Bool.and_eq_true, decide_eq_true_eq] at hrun
  obtain ⟨⟨⟨w₁, w₂⟩, h, w, w'⟩, ha, hsample, hrefused⟩ := hrun
  obtain ⟨⟨h₀, run₀⟩, hpublish, run, hend⟩ := attempt_runs ha
  obtain ⟨hadmitting, hlast, hon⟩ := isSampleAttempt_goesOn hsample
  refine ⟨h₀, h, w₁, w₂, w, w', run₀, hadmitting, hpublish, run, hon, hlast, hend,
    fun hadmits => ?_⟩
  have hrunning := congrArg TabRefreshCoordinator.running
    (hrefused.symm.trans (hadmits sampleRefresh rfl rfl))
  cases hrunning

end StoredRefreshes

end PinOp.Refresh
