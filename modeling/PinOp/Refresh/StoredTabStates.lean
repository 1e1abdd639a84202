import PinOp.Lib.JsNumber
import PinOp.Refresh.TabRefreshStateStore

/-!
# What is stored of the rows

The storage may hold anything under the key of the rows. `parseStoredStates` takes it apart, and
`snapshotState` is what is written: what was written is read back as it was.
-/

namespace PinOp.Refresh

open PinOp.Lib PinOp.Browser PinOp.Protocol

/-- A value of the storage. A property without a name is one of a symbol, and one without a value
has an accessor. -/
inductive StoredData where
  | undefined
  | null
  | boolean (value : Bool)
  | number (value : JsNumber)
  | string (value : String)
  | array (items : List StoredData)
  | record (properties : List (Option String × Option StoredData))
  | other

namespace StoredData

def boolean? : StoredData → Option Bool
  | boolean value => some value
  | _ => none

/-- The value, if it is the id of a tab or a window. -/
def browserId? : StoredData → Option ℤ
  | number value => value.integer?.filter isBrowserId
  | _ => none

def generation? : StoredData → Option ℕ
  | number value =>
    value.integer?.bind fun generation =>
      if 0 ≤ generation ∧ generation ≤ Limits.generation then some generation.toNat else none
  | _ => none

def refreshMode? : StoredData → Option PageRefreshMode
  | string "styles" => some .styles
  | string "reload" => some .reload
  | _ => none

def isUndefined : StoredData → Bool
  | undefined => true
  | _ => false

/-- `=== false` -/
def isFalse : StoredData → Bool
  | boolean false => true
  | _ => false

/-- What may be absent: `none` is neither absent nor valid. -/
def optional {α : Type} (parse : StoredData → Option α) (value : StoredData) : Option (Option α) :=
  if value.isUndefined then some none else (parse value).map some

end StoredData

/-- The properties of a record without symbols and accessors. -/
abbrev DataRecord := List (String × StoredData)

def DataRecord.keys (record : DataRecord) : List String := record.map Prod.fst

def DataRecord.get (record : DataRecord) (key : String) : StoredData :=
  ((record.find? fun property => property.1 = key).map Prod.snd).getD .undefined

def snapshotExactOptionalRecord (value : StoredData) (requiredKeys optionalKeys : List String) :
    Option DataRecord :=
  match value with
  | .record properties => do
    let record ← properties.mapM fun property => do
      let key ← property.1
      let data ← property.2
      some (key, data)
    let keys := DataRecord.keys record
    if keys.length < requiredKeys.length ∨ requiredKeys.length + optionalKeys.length < keys.length ∨
        requiredKeys.any (fun key => !keys.contains key) ∨
        keys.any (fun key => !requiredKeys.contains key && !optionalKeys.contains key) then
      none
    else some record
  | _ => none

/-! ## Rows -/

def tabStateRequiredKeys : List String :=
  ["tabId", "windowId", "autoRefreshEnabled", "ideHighlightEnabled", "participant",
    "lastAcceptedGeneration"]

def tabStateOptionalKeys : List String := ["lastAcceptedMode", "pending"]

def storedStateRequiredKeys : List String :=
  ["tabId", "windowId", "autoRefreshEnabled", "ideHighlightEnabled", "participant",
    "lastAcceptedGeneration"]

def storedStateOptionalKeys : List String := ["lastAcceptedMode", "pending"]

/-- A row with what the runtime keeps beside it. -/
structure RuntimeTabRefreshState extends TabRefreshState where
  participant : Bool
  pending : Option PendingTabRefresh
  deriving DecidableEq

def durableState (state : RuntimeTabRefreshState) : TabRefreshState := state.toTabRefreshState

def parsePendingTabRefresh (value : StoredData) : Option PendingTabRefresh := do
  let record ← snapshotExactOptionalRecord value ["generation", "mode"] []
  let generation ← (record.get "generation").generation?
  let mode ← (record.get "mode").refreshMode?
  some ⟨generation, mode⟩

def parseTabRefreshState (value : StoredData) : Option RuntimeTabRefreshState := do
  let record ← snapshotExactOptionalRecord value tabStateRequiredKeys tabStateOptionalKeys
  let tabId ← (record.get "tabId").browserId?
  let windowId ← (record.get "windowId").browserId?
  let autoRefreshEnabled ← (record.get "autoRefreshEnabled").boolean?
  let ideHighlightEnabled ← (record.get "ideHighlightEnabled").boolean?
  let participant ← (record.get "participant").boolean?
  let lastAcceptedGeneration ← (record.get "lastAcceptedGeneration").generation?
  let lastAcceptedMode ← (record.get "lastAcceptedMode").optional StoredData.refreshMode?
  if participant && !autoRefreshEnabled then none
  else
    let pending ← (record.get "pending").optional parsePendingTabRefresh
    if pending.any fun pending => !autoRefreshEnabled || !participant ||
        pending.generation ≠ lastAcceptedGeneration ||
        lastAcceptedMode.any (fun mode => pending.mode ≠ mode) then
      none
    else some {
      tabId := tabId
      windowId := windowId
      autoRefreshEnabled := autoRefreshEnabled
      ideHighlightEnabled := ideHighlightEnabled
      lastAcceptedGeneration := lastAcceptedGeneration
      lastAcceptedMode := lastAcceptedMode
      participant := participant
      pending := pending }

/-- A record of data properties. -/
def dataRecord (properties : DataRecord) : StoredData :=
  .record (properties.map fun property => (some property.1, some property.2))

structure ParsedStoredState where
  state : TabRefreshState
  needsRewrite : Bool
  deriving DecidableEq

/-- What a stored row is parsed as: its participation does not count. -/
def normalizedRecord (record : DataRecord) : DataRecord :=
  let mode := record.get "lastAcceptedMode"
  [("tabId", record.get "tabId"),
    ("windowId", record.get "windowId"),
    ("autoRefreshEnabled", record.get "autoRefreshEnabled"),
    ("ideHighlightEnabled", record.get "ideHighlightEnabled"),
    ("participant", .boolean false),
    ("lastAcceptedGeneration", record.get "lastAcceptedGeneration")] ++
      if mode.isUndefined then [] else [("lastAcceptedMode", mode)]

def parseStoredState (value : StoredData) : Option ParsedStoredState := do
  let record ← snapshotExactOptionalRecord value storedStateRequiredKeys storedStateOptionalKeys
  let normalized ← parseTabRefreshState (dataRecord (normalizedRecord record))
  some {
    state := durableState normalized
    needsRewrite := !(record.get "participant").isFalse || record.keys.contains "pending" ||
      record.keys.contains "lastAcceptedMode" && (record.get "lastAcceptedMode").isUndefined }

def refreshModeData : PageRefreshMode → StoredData
  | .styles => .string "styles"
  | .reload => .string "reload"

/-- The properties of a row that is written. -/
def rowRecord (state : TabRefreshState) : DataRecord :=
  [("tabId", .number (.finite state.tabId)),
    ("windowId", .number (.finite state.windowId)),
    ("autoRefreshEnabled", .boolean state.autoRefreshEnabled),
    ("ideHighlightEnabled", .boolean state.ideHighlightEnabled),
    ("participant", .boolean false),
    ("lastAcceptedGeneration", .number (.finite state.lastAcceptedGeneration))] ++
      (state.lastAcceptedMode.map fun mode => ("lastAcceptedMode", refreshModeData mode)).toList

def snapshotState (state : TabRefreshState) : StoredData := dataRecord (rowRecord state)

/-! ## All rows -/

structure ParsedStoredStates where
  states : StoredStates
  needsRewrite : Bool
  deriving DecidableEq

namespace TabRefreshStateStore

/-- The loop over the candidates; the tabs of those before are seen. -/
def parseCandidates (seen : List TabId) : List StoredData → Option (List ParsedStoredState)
  | [] => some []
  | candidate :: candidates => do
    let parsed ← parseStoredState candidate
    if seen.contains parsed.state.tabId then none
    else
      let rest ← parseCandidates (parsed.state.tabId :: seen) candidates
      some (parsed :: rest)

theorem parseCandidates_nodup {candidates : List StoredData} :
    ∀ {seen : List TabId} {parsed : List ParsedStoredState},
      parseCandidates seen candidates = some parsed →
        (parsed.map (·.state.tabId)).Nodup ∧ ∀ entry ∈ parsed, entry.state.tabId ∉ seen := by
  induction candidates with
  | nil =>
    intro seen parsed h
    cases h
    exact ⟨List.nodup_nil, List.forall_mem_nil _⟩
  | cons candidate candidates ih =>
    intro seen parsed h
    unfold parseCandidates at h
    obtain ⟨first, -, h⟩ := Option.bind_eq_some_iff.1 h
    split at h
    · cases h
    · rename_i hnew
      obtain ⟨rest, hrest, h⟩ := Option.bind_eq_some_iff.1 h
      cases h
      obtain ⟨hnodup, hout⟩ := ih hrest
      have hfirst : first.state.tabId ∉ seen := by simpa using hnew
      refine ⟨?_, ?_⟩
      · rw [List.map_cons, List.nodup_cons]
        refine ⟨fun hmem => ?_, hnodup⟩
        obtain ⟨other, hother, heq⟩ := List.mem_map.1 hmem
        exact hout other hother (heq ▸ List.mem_cons_self)
      · intro entry hmem
        rcases List.mem_cons.1 hmem with rfl | hmem
        · exact hfirst
        · exact fun hin => hout entry hmem (List.mem_cons_of_mem _ hin)

/-- The rows in the order of their tabs. -/
def sortStates (parsed : List ParsedStoredState) (h : (parsed.map (·.state.tabId)).Nodup) :
    StoredStates where
  states := (parsed.map ParsedStoredState.state).insertionSort fun a b => a.tabId ≤ b.tabId
  nodup := by
    refine ((List.perm_insertionSort _ _).map _).nodup_iff.mpr ?_
    rw [List.map_map]
    exact h

def parseStoredStates (value : StoredData) : Option ParsedStoredStates :=
  match value with
  | .array items =>
    let candidates :=
      if maxPersistedTabRefreshStates < items.length then
        items.drop (items.length - maxPersistedTabRefreshStates)
      else items
    match h : parseCandidates [] candidates with
    | none => none
    | some parsed =>
      let states := sortStates parsed (parseCandidates_nodup h).1
      some {
        states := states
        needsRewrite := decide (candidates.length ≠ items.length) ||
          parsed.any ParsedStoredState.needsRewrite ||
          decide (states.states.map TabRefreshState.tabId ≠ parsed.map (·.state.tabId)) }
  | _ => none

/-! ## What is read -/

/-- A row whose ids and generation are in their bounds. -/
def ValidRow (state : TabRefreshState) : Prop :=
  isBrowserId state.tabId = true ∧ isBrowserId state.windowId = true ∧
    state.lastAcceptedGeneration ≤ Limits.generation

/-- The rows as the store writes them. -/
structure KeptRows (rows : StoredStates) : Prop where
  sorted : rows.states.Pairwise fun a b => a.tabId < b.tabId
  bounded : rows.states.length ≤ maxPersistedTabRefreshStates
  valid : ∀ state ∈ rows.states, ValidRow state

theorem browserId?_valid {value : StoredData} {id : ℤ} (h : value.browserId? = some id) :
    isBrowserId id = true := by
  cases value with
  | number value => exact (Option.filter_eq_some_iff.1 h).2
  | _ => cases h

theorem generation?_valid {value : StoredData} {generation : ℕ}
    (h : value.generation? = some generation) : generation ≤ Limits.generation := by
  cases value with
  | number value =>
    obtain ⟨integer, -, h⟩ := Option.bind_eq_some_iff.1 h
    split at h
    · cases h
      omega
    · cases h
  | _ => cases h

theorem parseTabRefreshState_valid {value : StoredData} {state : RuntimeTabRefreshState}
    (h : parseTabRefreshState value = some state) : ValidRow (durableState state) := by
  unfold parseTabRefreshState at h
  obtain ⟨record, -, h⟩ := Option.bind_eq_some_iff.1 h
  obtain ⟨tabId, htabId, h⟩ := Option.bind_eq_some_iff.1 h
  obtain ⟨windowId, hwindowId, h⟩ := Option.bind_eq_some_iff.1 h
  obtain ⟨autoRefreshEnabled, -, h⟩ := Option.bind_eq_some_iff.1 h
  obtain ⟨ideHighlightEnabled, -, h⟩ := Option.bind_eq_some_iff.1 h
  obtain ⟨participant, -, h⟩ := Option.bind_eq_some_iff.1 h
  obtain ⟨lastAcceptedGeneration, hgeneration, h⟩ := Option.bind_eq_some_iff.1 h
  obtain ⟨lastAcceptedMode, -, h⟩ := Option.bind_eq_some_iff.1 h
  split at h
  · cases h
  · obtain ⟨pending, -, h⟩ := Option.bind_eq_some_iff.1 h
    split at h
    · cases h
    · cases h
      exact ⟨browserId?_valid htabId, browserId?_valid hwindowId, generation?_valid hgeneration⟩

theorem parseStoredState_valid {value : StoredData} {parsed : ParsedStoredState}
    (h : parseStoredState value = some parsed) : ValidRow parsed.state := by
  unfold parseStoredState at h
  obtain ⟨record, -, h⟩ := Option.bind_eq_some_iff.1 h
  obtain ⟨normalized, hnormalized, h⟩ := Option.bind_eq_some_iff.1 h
  cases h
  exact parseTabRefreshState_valid hnormalized

theorem parseCandidates_valid {candidates : List StoredData} :
    ∀ {seen : List TabId} {parsed : List ParsedStoredState},
      parseCandidates seen candidates = some parsed →
        parsed.length = candidates.length ∧ ∀ entry ∈ parsed, ValidRow entry.state := by
  induction candidates with
  | nil =>
    intro seen parsed h
    cases h
    exact ⟨rfl, List.forall_mem_nil _⟩
  | cons candidate candidates ih =>
    intro seen parsed h
    unfold parseCandidates at h
    obtain ⟨first, hfirst, h⟩ := Option.bind_eq_some_iff.1 h
    split at h
    · cases h
    · obtain ⟨rest, hrest, h⟩ := Option.bind_eq_some_iff.1 h
      cases h
      obtain ⟨hlength, hvalid⟩ := ih hrest
      refine ⟨by rw [List.length_cons, hlength, List.length_cons], fun entry hmem => ?_⟩
      rcases List.mem_cons.1 hmem with rfl | hmem
      · exact parseStoredState_valid hfirst
      · exact hvalid entry hmem

/-- Sorted rows of different tabs go up strictly. -/
theorem sorted_of_nodup {states : List TabRefreshState}
    (hnodup : (states.map TabRefreshState.tabId).Nodup) :
    (states.insertionSort fun a b => a.tabId ≤ b.tabId).Pairwise fun a b => a.tabId < b.tabId := by
  have hperm := List.perm_insertionSort (fun a b : TabRefreshState => a.tabId ≤ b.tabId) states
  have hne : (states.insertionSort fun a b => a.tabId ≤ b.tabId).Pairwise
      fun a b => a.tabId ≠ b.tabId :=
    List.pairwise_map.1 ((hperm.map _).nodup_iff.mpr hnodup)
  have hle := List.pairwise_insertionSort (fun a b : TabRefreshState => a.tabId ≤ b.tabId) states
  exact hle.imp₂ (fun _ _ hle hne => lt_of_le_of_ne hle hne) hne

theorem parseStoredStates_kept {value : StoredData} {parsed : ParsedStoredStates}
    (h : parseStoredStates value = some parsed) : KeptRows parsed.states := by
  unfold parseStoredStates at h
  cases value with
  | array items =>
    dsimp only at h
    split at h
    · cases h
    · rename_i entries hentries
      cases h
      obtain ⟨hlength, hvalid⟩ := parseCandidates_valid hentries
      have hnodup := (parseCandidates_nodup hentries).1
      refine ⟨sorted_of_nodup (by rw [List.map_map]; exact hnodup), ?_, fun state hmem => ?_⟩
      · show (List.insertionSort _ _).length ≤ _
        rw [List.length_insertionSort, List.length_map, hlength]
        split
        · rw [List.length_drop]
          omega
        · omega
      · have hmem : state ∈ entries.map ParsedStoredState.state := (List.mem_insertionSort _).1 hmem
        obtain ⟨entry, hentry, rfl⟩ := List.mem_map.1 hmem
        exact hvalid entry hentry
  | _ => cases h

/-! ## What is written is read back -/

theorem mapM_dataRecord (properties : DataRecord) :
    (properties.map fun property => (some property.1, some property.2)).mapM
      (fun property : Option String × Option StoredData => do
        let key ← property.1
        let data ← property.2
        some (key, data)) = some properties := by
  induction properties with
  | nil => rfl
  | cons property properties ih =>
    rw [List.map_cons, List.mapM_cons, ih]
    rfl

/-- A record with the right keys is taken as it is. -/
theorem snapshotExactOptionalRecord_eq {record : DataRecord} {requiredKeys optionalKeys : List String}
    (hmin : requiredKeys.length ≤ record.keys.length)
    (hmax : record.keys.length ≤ requiredKeys.length + optionalKeys.length)
    (hrequired : requiredKeys.any (fun key => !record.keys.contains key) = false)
    (hknown : record.keys.any
      (fun key => !requiredKeys.contains key && !optionalKeys.contains key) = false) :
    snapshotExactOptionalRecord (dataRecord record) requiredKeys optionalKeys = some record := by
  unfold snapshotExactOptionalRecord dataRecord
  dsimp only
  rw [mapM_dataRecord]
  show (if _ then none else some record) = some record
  rw [if_neg]
  rw [hrequired, hknown]
  simp only [Bool.false_eq_true, or_false]
  omega

theorem browserId?_cast {id : ℤ} (h : isBrowserId id = true) :
    (StoredData.number (.finite id)).browserId? = some id := by
  simp [StoredData.browserId?, JsNumber.integer?, h]

theorem generation?_cast {generation : ℕ} (h : generation ≤ Limits.generation) :
    (StoredData.number (.finite generation)).generation? = some generation := by
  simp [StoredData.generation?, JsNumber.integer?, h]

/-- The keys of a row, with the optional one or without. -/
def rowKeys (hasMode : Bool) : List String :=
  tabStateRequiredKeys ++ if hasMode then ["lastAcceptedMode"] else []

theorem rowRecord_keys (state : TabRefreshState) :
    DataRecord.keys (rowRecord state) = rowKeys state.lastAcceptedMode.isSome := by
  unfold rowRecord
  cases state.lastAcceptedMode with
  | none => rfl
  | some mode => rfl

theorem snapshot_rowRecord (state : TabRefreshState) :
    snapshotExactOptionalRecord (snapshotState state) tabStateRequiredKeys tabStateOptionalKeys =
      some (rowRecord state) := by
  have hkeys := rowRecord_keys state
  refine snapshotExactOptionalRecord_eq ?_ ?_ ?_ ?_
  · rw [hkeys]
    cases state.lastAcceptedMode.isSome <;> decide
  · rw [hkeys]
    cases state.lastAcceptedMode.isSome <;> decide
  · rw [hkeys]
    cases state.lastAcceptedMode.isSome <;> decide
  · rw [hkeys]
    cases state.lastAcceptedMode.isSome <;> decide

theorem rowRecord_mode (state : TabRefreshState) :
    (DataRecord.get (rowRecord state) "lastAcceptedMode").optional StoredData.refreshMode? =
      some state.lastAcceptedMode := by
  unfold rowRecord
  cases hmode : state.lastAcceptedMode with
  | none => rfl
  | some mode =>
    cases mode with
    | styles => rfl
    | reload => rfl

theorem parse_snapshotState {state : TabRefreshState} (h : ValidRow state) :
    parseTabRefreshState (snapshotState state) = some ⟨state, false, none⟩ := by
  obtain ⟨htab, hwindow, hgeneration⟩ := h
  unfold parseTabRefreshState
  rw [snapshot_rowRecord]
  have hmode := rowRecord_mode state
  have hpending : (DataRecord.get (rowRecord state) "pending").optional parsePendingTabRefresh =
      some none := by
    unfold rowRecord
    cases state.lastAcceptedMode with
    | none => rfl
    | some mode => rfl
  show (Option.bind (StoredData.browserId? (.number (.finite state.tabId))) _) = _
  rw [browserId?_cast htab]
  show (Option.bind (StoredData.browserId? (.number (.finite state.windowId))) _) = _
  rw [browserId?_cast hwindow]
  show (Option.bind (StoredData.generation? (.number (.finite state.lastAcceptedGeneration))) _) = _
  rw [generation?_cast hgeneration]
  show (Option.bind ((DataRecord.get (rowRecord state) "lastAcceptedMode").optional _) _) = _
  rw [hmode]
  show (Option.bind ((DataRecord.get (rowRecord state) "pending").optional _) _) = _
  rw [hpending]
  rfl

theorem normalizedRecord_rowRecord (state : TabRefreshState) :
    normalizedRecord (rowRecord state) = rowRecord state := by
  unfold rowRecord
  cases state.lastAcceptedMode with
  | none => rfl
  | some mode =>
    cases mode with
    | styles => rfl
    | reload => rfl

theorem rowRecord_clean (state : TabRefreshState) :
    (!(DataRecord.get (rowRecord state) "participant").isFalse ||
      (DataRecord.keys (rowRecord state)).contains "pending" ||
      (DataRecord.keys (rowRecord state)).contains "lastAcceptedMode" &&
        (DataRecord.get (rowRecord state) "lastAcceptedMode").isUndefined) = false := by
  unfold rowRecord
  cases state.lastAcceptedMode with
  | none => rfl
  | some mode =>
    cases mode with
    | styles => rfl
    | reload => rfl

theorem parseStored_snapshotState {state : TabRefreshState} (h : ValidRow state) :
    parseStoredState (snapshotState state) = some ⟨state, false⟩ := by
  unfold parseStoredState
  rw [show snapshotExactOptionalRecord (snapshotState state) storedStateRequiredKeys
    storedStateOptionalKeys = some (rowRecord state) from snapshot_rowRecord state]
  show Option.bind (parseTabRefreshState (dataRecord (normalizedRecord (rowRecord state)))) _ = _
  rw [normalizedRecord_rowRecord]
  show Option.bind (parseTabRefreshState (snapshotState state)) _ = _
  rw [parse_snapshotState h]
  show some (ParsedStoredState.mk state _) = _
  rw [rowRecord_clean]

theorem parseCandidates_snapshots {states : List TabRefreshState} :
    ∀ {seen : List TabId}, (∀ state ∈ states, ValidRow state) →
      (∀ state ∈ states, state.tabId ∉ seen) → (states.map TabRefreshState.tabId).Nodup →
      parseCandidates seen (states.map snapshotState) =
        some (states.map fun state => ⟨state, false⟩) := by
  induction states with
  | nil => exact fun _ _ _ => rfl
  | cons state states ih =>
    intro seen hvalid hout hnodup
    rw [List.map_cons, List.nodup_cons] at hnodup
    rw [List.map_cons, parseCandidates, parseStored_snapshotState (hvalid state List.mem_cons_self)]
    have hnew : seen.contains state.tabId = false := by simpa using hout state List.mem_cons_self
    have hrest := @ih (state.tabId :: seen)
      (fun other hmem => hvalid other (List.mem_cons_of_mem _ hmem)) ?_ hnodup.2
    · show (if seen.contains state.tabId then none else Option.bind _ _) = _
      rw [hnew, if_neg (by simp), hrest]
      rfl
    · intro other hmem
      rw [List.mem_cons, not_or]
      exact ⟨fun heq => hnodup.1 (heq ▸ List.mem_map_of_mem hmem),
        hout other (List.mem_cons_of_mem _ hmem)⟩

theorem storedStates_ext {rows other : StoredStates} (h : rows.states = other.states) : rows = other := by
  cases rows
  cases other
  cases h
  rfl

/-- What was written is read back, and is not written again. -/
theorem parseStoredStates_snapshots {rows : StoredStates} (h : KeptRows rows) :
    parseStoredStates (.array (rows.states.map snapshotState)) = some ⟨rows, false⟩ := by
  have hcandidates := @parseCandidates_snapshots rows.states [] h.valid
    (fun _ _ => List.not_mem_nil) rows.nodup
  have hfits : ¬maxPersistedTabRefreshStates < (rows.states.map snapshotState).length := by
    rw [List.length_map]
    exact not_lt.2 h.bounded
  have hsorted : (rows.states.insertionSort fun a b => a.tabId ≤ b.tabId) = rows.states :=
    (h.sorted.imp fun hlt => le_of_lt hlt).insertionSort_eq
  unfold parseStoredStates
  dsimp only
  split
  · rename_i hnone
    rw [if_neg hfits, hcandidates] at hnone
    cases hnone
  · rename_i parsed hparsed
    have hsame : parsed = rows.states.map fun state => ⟨state, false⟩ := by
      rw [if_neg hfits, hcandidates] at hparsed
      exact (Option.some.inj hparsed).symm
    subst hsame
    have hstates : sortStates (rows.states.map fun state => ⟨state, false⟩)
        (parseCandidates_nodup hparsed).1 = rows := by
      refine storedStates_ext ?_
      show ((rows.states.map _).map ParsedStoredState.state).insertionSort _ = _
      rw [List.map_map]
      exact (congrArg (List.insertionSort _) (List.map_id _)).trans hsorted
    rw [hstates, if_neg hfits]
    simp [List.map_map, Function.comp_def]

/-! ## What is written next -/

theorem KeptRows.write {rows : StoredStates} (h : KeptRows rows) {durable : TabRefreshState}
    (hdurable : ValidRow durable) : KeptRows (rows.write durable) where
  sorted := by
    rw [StoredStates.states_write]
    exact (sorted_of_nodup (StoredStates.nodup_write rows durable)).sublist (compactStates_sublist _ _)
  bounded := StoredStates.length_write h.bounded durable
  valid := by
    intro state hmem
    rcases StoredStates.mem_write hmem with rfl | ⟨hmem, -⟩
    · exact hdurable
    · exact h.valid state hmem

theorem KeptRows.remove {rows : StoredStates} (h : KeptRows rows) (tabId : TabId) :
    KeptRows (rows.remove tabId) where
  sorted := h.sorted.sublist List.filter_sublist
  bounded := (List.length_filter_le _ _).trans h.bounded
  valid := fun state hmem => h.valid state (List.mem_filter.1 hmem).1

end TabRefreshStateStore

end PinOp.Refresh
