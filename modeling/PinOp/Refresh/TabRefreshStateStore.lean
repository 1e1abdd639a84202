import Mathlib.Data.List.Sort
import PinOp.Refresh.RefreshQueue

/-!
# The store of the rows

The rows that the store keeps, and the coordinator beside it. The store runs one operation at
a time, and the coordinator goes on with what an operation gives before the store begins the
next one; so an updater reads the row and writes it in one step, as does what loads all rows.
Whether a write that fails has landed all the same, the step says. An update of the queue
succeeds only if it has landed.
-/

namespace PinOp.Refresh

open PinOp.Lib PinOp.Browser PinOp.Protocol

def maxPersistedTabRefreshStates : ℕ := 4096

/-- Rows of other tabs are dropped, from the lowest id on, while there are too many. -/
def compactStates (states : List TabRefreshState) (retainedTabId : TabId) : List TabRefreshState :=
  (fun states => states.eraseP fun state => state.tabId ≠ retainedTabId)^[states.length -
    maxPersistedTabRefreshStates] states

theorem compactStates_sublist (states : List TabRefreshState) (retainedTabId : TabId) :
    (compactStates states retainedTabId).Sublist states := by
  unfold compactStates
  generalize states.length - maxPersistedTabRefreshStates = excess
  induction excess generalizing states with
  | zero => exact .refl _
  | succ excess ih => exact (ih _).trans List.eraseP_sublist

theorem mem_compactStates {states : List TabRefreshState} {state : TabRefreshState}
    (h : state ∈ states) : state ∈ compactStates states state.tabId := by
  unfold compactStates
  generalize states.length - maxPersistedTabRefreshStates = excess
  induction excess generalizing states with
  | zero => exact h
  | succ excess ih =>
    refine ih ?_
    exact (List.mem_eraseP_of_neg (by simp)).mpr h

/-- The rows of a stored list in their order; nothing where a tab has two. -/
def parseCandidates (candidates : List TabRefreshState) : StoredStates :=
  if h : (candidates.map TabRefreshState.tabId).Nodup then
    ⟨candidates.insertionSort fun a b => a.tabId ≤ b.tabId,
      ((List.perm_insertionSort _ _).map _).nodup_iff.mpr h⟩
  else ⟨[], List.nodup_nil⟩

/-- `parseStoredStates` of what is stored, where every entry is a row. -/
def parseStoredStates (value : List TabRefreshState) : StoredStates :=
  parseCandidates (value.drop (value.length - maxPersistedTabRefreshStates))

theorem length_parseCandidates (candidates : List TabRefreshState) :
    (parseCandidates candidates).states.length ≤ candidates.length := by
  unfold parseCandidates
  split
  · exact (List.length_insertionSort _ _).le
  · exact Nat.zero_le _

theorem length_parseStoredStates (value : List TabRefreshState) :
    (parseStoredStates value).states.length ≤ maxPersistedTabRefreshStates := by
  refine (length_parseCandidates _).trans ?_
  rw [List.length_drop]
  omega

/-- One row too many: another row is dropped. -/
theorem length_compactStates {states : List TabRefreshState}
    (hnd : (states.map TabRefreshState.tabId).Nodup) (retainedTabId : TabId)
    (h : states.length ≤ maxPersistedTabRefreshStates + 1) :
    (compactStates states retainedTabId).length ≤ maxPersistedTabRefreshStates := by
  unfold compactStates
  rcases Nat.lt_or_ge maxPersistedTabRefreshStates states.length with hlt | hle
  · have he : states.length - maxPersistedTabRefreshStates = 1 := by omega
    rw [he, Function.iterate_one]
    obtain ⟨state, hm, hne⟩ : ∃ state ∈ states, state.tabId ≠ retainedTabId := by
      by_contra hall
      simp only [not_exists, not_and, not_not] at hall
      -- the rows would all be of one tab
      have hone : (states.map TabRefreshState.tabId) =
          List.replicate states.length retainedTabId := by
        refine List.eq_replicate_iff.mpr ⟨List.length_map _, fun tabId ht => ?_⟩
        obtain ⟨state, hm, rfl⟩ := List.mem_map.mp ht
        exact hall state hm
      rw [hone, List.nodup_replicate] at hnd
      have hpos : 1 ≤ maxPersistedTabRefreshStates := by decide
      omega
    rw [List.length_eraseP_of_mem hm (by simpa using hne)]
    omega
  · rw [Nat.sub_eq_zero_of_le hle]
    exact hle

theorem compactStates_of_le {states : List TabRefreshState} {retainedTabId : TabId}
    (h : states.length ≤ maxPersistedTabRefreshStates) :
    compactStates states retainedTabId = states := by
  unfold compactStates
  rw [Nat.sub_eq_zero_of_le h]
  rfl

namespace StoredStates

variable {rows : StoredStates} {tabId : TabId} {state : TabRefreshState}

def row (rows : StoredStates) (tabId : TabId) : Option TabRefreshState :=
  rows.states.find? fun state => state.tabId = tabId

theorem row_eq_some : rows.row tabId = some state ↔ state ∈ rows.states ∧ state.tabId = tabId := by
  constructor
  · intro h
    exact ⟨List.mem_of_find?_eq_some h, by simpa using List.find?_some h⟩
  · rintro ⟨hm, rfl⟩
    obtain ⟨other, hf⟩ : ∃ other, rows.row state.tabId = some other := by
      apply Option.isSome_iff_exists.mp
      rw [row, List.find?_isSome]
      exact ⟨state, hm, by simp⟩
    have hid : other.tabId = state.tabId := by simpa using List.find?_some hf
    have := List.inj_on_of_nodup_map rows.nodup (List.mem_of_find?_eq_some hf) hm hid
    rw [hf, this]

theorem row_eq_none : rows.row tabId = none ↔ ∀ state ∈ rows.states, state.tabId ≠ tabId := by
  simp [row]

theorem nodup_write (rows : StoredStates) (durable : TabRefreshState) :
    ((rows.states.filter (fun state => state.tabId ≠ durable.tabId) ++ [durable]).map
      TabRefreshState.tabId).Nodup := by
  rw [List.map_append, List.nodup_append]
  refine ⟨rows.nodup.sublist (List.filter_sublist.map _), by simp, ?_⟩
  intro a ha b hb
  obtain ⟨state, hs, rfl⟩ := List.mem_map.mp ha
  simp only [List.map_cons, List.map_nil, List.mem_singleton] at hb
  subst hb
  simpa using (List.mem_filter.mp hs).2

/-- `updateTab` writes the row of a tab. -/
def write (rows : StoredStates) (durable : TabRefreshState) : StoredStates where
  states := compactStates
    ((rows.states.filter (fun state => state.tabId ≠ durable.tabId) ++ [durable]).insertionSort
      fun a b => a.tabId ≤ b.tabId) durable.tabId
  nodup := by
    refine List.Nodup.sublist ((compactStates_sublist _ _).map _) ?_
    exact ((List.perm_insertionSort _ _).map _).nodup_iff.mpr (nodup_write rows durable)

/-- What `updateTab` leaves when the updater gives the candidate. -/
def update (rows : StoredStates) (candidate : Option TabRefreshState) : StoredStates :=
  match candidate with
  | none => rows
  | some durable => rows.write durable

def remove (rows : StoredStates) (tabId : TabId) : StoredStates where
  states := rows.states.filter fun state => state.tabId ≠ tabId
  nodup := rows.nodup.sublist (List.filter_sublist.map _)

theorem states_write (rows : StoredStates) (durable : TabRefreshState) :
    (rows.write durable).states = compactStates
      ((rows.states.filter (fun state => state.tabId ≠ durable.tabId) ++ [durable]).insertionSort
        fun a b => a.tabId ≤ b.tabId) durable.tabId := by
  rw [write]

theorem mem_write {durable : TabRefreshState} (h : state ∈ (rows.write durable).states) :
    state = durable ∨ (state ∈ rows.states ∧ state.tabId ≠ durable.tabId) := by
  rw [states_write] at h
  have h := (compactStates_sublist _ _).subset h
  rw [List.mem_insertionSort, List.mem_append, List.mem_filter, List.mem_singleton] at h
  rcases h with ⟨hm, hne⟩ | rfl
  · exact .inr ⟨hm, by simpa using hne⟩
  · exact .inl rfl

@[simp] theorem row_write_self (rows : StoredStates) (durable : TabRefreshState) :
    (rows.write durable).row durable.tabId = some durable := by
  refine row_eq_some.mpr ⟨?_, rfl⟩
  rw [states_write]
  exact mem_compactStates (by simp [List.mem_insertionSort])

/-- The row of another tab stays, or is dropped. -/
theorem row_write_of_ne {durable : TabRefreshState} (h : tabId ≠ durable.tabId) :
    (rows.write durable).row tabId = rows.row tabId ∨ (rows.write durable).row tabId = none := by
  cases hr : (rows.write durable).row tabId with
  | none => exact .inr rfl
  | some state =>
    left
    obtain ⟨hm, rfl⟩ := row_eq_some.mp hr
    rcases mem_write hm with rfl | ⟨hm, -⟩
    · exact absurd rfl h
    · exact (row_eq_some.mpr ⟨hm, rfl⟩).symm

/-- There never are too many rows. -/
theorem length_write (h : rows.states.length ≤ maxPersistedTabRefreshStates)
    (durable : TabRefreshState) :
    (rows.write durable).states.length ≤ maxPersistedTabRefreshStates := by
  rw [states_write]
  refine length_compactStates ?_ _ ?_
  · exact ((List.perm_insertionSort _ _).map _).nodup_iff.mpr (nodup_write rows durable)
  · rw [List.length_insertionSort, List.length_append, List.length_singleton]
    exact Nat.add_le_add_right ((List.length_filter_le _ _).trans h) 1

/-- Where the tab has a row, no other row is dropped. -/
theorem row_write (h : rows.states.length ≤ maxPersistedTabRefreshStates)
    {durable : TabRefreshState} (hrow : (rows.row durable.tabId).isSome) (tabId : TabId) :
    (rows.write durable).row tabId =
      if tabId = durable.tabId then some durable else rows.row tabId := by
  split
  · rename_i he
    rw [he, row_write_self]
  · rename_i hne
    have hstates : (rows.write durable).states =
        (rows.states.filter (fun state => state.tabId ≠ durable.tabId) ++ [durable]).insertionSort
          fun a b => a.tabId ≤ b.tabId := by
      rw [states_write]
      refine compactStates_of_le ?_
      obtain ⟨state, hs⟩ := Option.isSome_iff_exists.mp hrow
      obtain ⟨hm, ht⟩ := row_eq_some.mp hs
      have hlt : (rows.states.filter fun state => state.tabId ≠ durable.tabId).length <
          rows.states.length :=
        List.length_filter_lt_length_iff_exists.mpr ⟨state, hm, by simp [ht]⟩
      rw [List.length_insertionSort, List.length_append, List.length_singleton]
      exact Nat.le_trans hlt h
    cases hr : rows.row tabId with
    | none =>
      refine row_eq_none.mpr fun state hm => ?_
      rcases mem_write hm with rfl | ⟨hm, -⟩
      · exact Ne.symm hne
      · exact row_eq_none.mp hr state hm
    | some state =>
      obtain ⟨hm, rfl⟩ := row_eq_some.mp hr
      refine row_eq_some.mpr ⟨?_, rfl⟩
      rw [hstates, List.mem_insertionSort, List.mem_append, List.mem_filter]
      exact .inl ⟨hm, by simpa using hne⟩

theorem row_remove (rows : StoredStates) (tabId : TabId) : (rows.remove tabId).row tabId = none := by
  refine row_eq_none.mpr fun state hm => ?_
  simpa using (List.mem_filter.mp hm).2

theorem row_remove_of_none (removed : TabId) (h : rows.row tabId = none) :
    (rows.remove removed).row tabId = none :=
  row_eq_none.mpr fun state hm => row_eq_none.mp h state (List.mem_filter.mp hm).1

end StoredStates

/-! ## The coordinator and its store -/

structure StoredRefreshes where
  coordinator : TabRefreshCoordinator
  rows : StoredStates
  /-- The last update of the queue was written. -/
  landed : Bool
  deriving DecidableEq

namespace TabRefreshCoordinator

/-- The updater of `beginWindowEpoch`. -/
def epochUpdate (windowId : WindowId) (current : Option TabRefreshState) : Option TabRefreshState :=
  current.map fun current =>
    if current.windowId = windowId then
      { current with lastAcceptedGeneration := 0, lastAcceptedMode := none }
    else current

/-- The updater of `rollbackRefreshAdmission`. -/
def rollbackUpdate (commit : RefreshAdmissionCommit) (current : Option TabRefreshState) :
    Option TabRefreshState :=
  if current = some commit.before then none
  else if current ≠ some commit.after then none
  else some commit.before

/-- The update that waits for the store: the tab of the row, and the updater. -/
def update? (c : TabRefreshCoordinator) :
    Action → Option (TabId × (Option TabRefreshState → Option TabRefreshState))
  | .resume index (.updating _) =>
    match c.tasks[index]? with
    | some (.panelUpdating tabId windowId revision none) =>
      some (tabId, c.panelUpdate tabId windowId revision)
    | some (.settingsUpdating tabId windowId settings revision none) =>
      some (tabId, c.settingsUpdate tabId windowId settings revision)
    | _ => none
  | .proceed (.updating _) =>
    match c.running with
    | some (.committing point) =>
      some (point.tabId, fun current =>
        (c.admissionUpdate point.refresh point.tabId point.revision current).2)
    | some (.rollingBack point) =>
      point.commits.head?.map fun commit => (commit.tabId, rollbackUpdate commit)
    | some (.epochUpdating windowId tabId false _) => some (tabId, epochUpdate windowId)
    | _ => none
  | _ => none

/-- The removal of a row that the store has tried, and whether it succeeded. -/
def removal? (c : TabRefreshCoordinator) : Action → Option (TabId × Bool)
  | .resume index .resolved =>
    match c.tasks[index]? with
    | some (.tabRemoving tabId _) => some (tabId, true)
    | _ => none
  | .resume index .rejected =>
    match c.tasks[index]? with
    | some (.tabRemoving tabId _) => some (tabId, false)
    | _ => none
  | _ => none

/-- The running operation awaits an update of the store. -/
def awaitsUpdate (c : TabRefreshCoordinator) : Bool :=
  match c.running with
  | some (.committing _) => true
  | some (.rollingBack point) => !point.commits.isEmpty
  | some (.epochUpdating _ _ _ _) => true
  | _ => false

end TabRefreshCoordinator

namespace StoredRefreshes

variable (w : StoredRefreshes)

/-- What the step is told of the store is what the store has. -/
def agrees (action : TabRefreshCoordinator.Action) : Bool :=
  match action with
  | .settleInitialization _ (some loaded) => loaded = w.rows
  | .resume _ (.updating current) =>
    (w.coordinator.update? action).all fun update => current = w.rows.row update.1
  | .proceed (.updating current) =>
    (w.coordinator.update? action).all fun update => current = w.rows.row update.1
  | .proceed (.loaded states) => states = w.rows
  | .proceed .resolved => !w.coordinator.awaitsUpdate || w.landed
  | _ => true

/-- The rows after the step and, if it updates one, whether that is written. `lands` is whether the
store succeeds in what it writes; it refuses a row of another tab. -/
def stored (action : TabRefreshCoordinator.Action) (lands : Bool) : StoredStates × Bool :=
  match w.coordinator.update? action, w.coordinator.removal? action with
  | some (tabId, updater), _ =>
    let candidate := updater (w.rows.row tabId)
    if lands && candidate.all (fun durable => durable.tabId = tabId) then
      (w.rows.update candidate, true)
    else (w.rows, false)
  | none, some (tabId, succeeded) =>
    (if succeeded || lands then w.rows.remove tabId else w.rows, w.landed)
  | none, none => (w.rows, w.landed)

/-- The step of an action; `none` is no step. -/
def apply (action : TabRefreshCoordinator.Action) (lands : Bool) : Option StoredRefreshes :=
  if !w.agrees action then none
  else
    (w.coordinator.apply action).map fun coordinator =>
      { coordinator := coordinator
        rows := (w.stored action lands).1
        landed :=
          match action with
          | .proceed (.updating _) => (w.stored action lands).2
          | _ => w.landed }

/-- What happens, and whether what the store writes lands. -/
abbrev Event := TabRefreshCoordinator.Action × Bool

def Step (w : StoredRefreshes) (event : Event) (w' : StoredRefreshes) : Prop :=
  w.apply event.1 event.2 = some w'

abbrev Trace := List (Transition StoredRefreshes Event)

/-- The coordinator starts with the rows that are stored. -/
def start (rows : StoredStates) : StoredRefreshes := ⟨.initial, rows, false⟩

variable {w w' : StoredRefreshes}

theorem Step.coordinator {event : Event} (h : Step w event w') :
    w.agrees event.1 = true ∧ w.coordinator.apply event.1 = some w'.coordinator ∧
      w'.rows = (w.stored event.1 event.2).1 := by
  unfold Step apply at h
  split at h
  · cases h
  · rename_i ha
    simp only [Option.map_eq_some_iff] at h
    obtain ⟨c, hc, rfl⟩ := h
    exact ⟨by simpa using ha, hc, rfl⟩

/-- The run of the coordinator alone. -/
theorem run_coordinator {rows : StoredStates} {h : Trace} (run : Run Step (start rows) h w) :
    ∃ h', Run TabRefreshCoordinator.Step .initial h' w.coordinator := by
  induction run with
  | start => exact ⟨[], .start⟩
  | next _ hs ih =>
    obtain ⟨h', run⟩ := ih
    exact ⟨_, run.next hs.coordinator.2.1⟩

end StoredRefreshes

end PinOp.Refresh
