import PinOp.Refresh.StoreSerial

/-!
# Runs of the store

However the calls of the store and the answers of the storage come in, the results are those of the
operations one after another, in the order of their calls, and every array that is written has the
rows in their order, without participation and without a pending refresh.
-/

namespace PinOp.Refresh.TabRefreshStateStore

open PinOp.Lib PinOp.Browser PinOp.Protocol

variable {rows : StoredStates} {op : StoreOperation}

/-! ## What is written -/

/-- An array that is written has kept rows. -/
def Orderly : StorageCall → Prop
  | .setStates value =>
    ∃ rows, KeptRows rows ∧ rows.states ≠ [] ∧ value = .array (rows.states.map snapshotState)
  | _ => True

theorem calls_writeStates (h : KeptRows rows) : (writeStates rows).Calls Orderly := by
  unfold writeStates
  split
  · exact (Async.calls_await trivial).bind fun _ => trivial
  · rename_i hsome
    exact (Async.calls_await ⟨rows, h, hsome, rfl⟩).bind fun _ => trivial

theorem calls_cleanup : cleanupLegacyRecoveryBestEffort.Calls Orderly :=
  cleanup_calls.mono fun call hcall => by
    rcases hcall with rfl | rfl <;> trivial

theorem keptRows_noStates : KeptRows noStates :=
  ⟨List.Pairwise.nil, Nat.zero_le _, List.forall_mem_nil _⟩

theorem calls_loadAll : loadAllUnlocked.Calls Orderly := by
  unfold loadAllUnlocked
  refine (Async.calls_await trivial).bind fun stored => ?_
  have hread : ∀ rows : StoredStates, (do
      cleanupLegacyRecoveryBestEffort
      pure rows : StoreProgram StoredStates).Calls Orderly :=
    fun _ => calls_cleanup.bind fun _ => trivial
  cases stored with
  | none => exact hread noStates
  | some value =>
    dsimp only
    cases hparsed : parseStoredStates value with
    | none =>
      refine Async.Calls.bind (Async.Calls.ignoreError ?_) fun _ => hread noStates
      exact (Async.calls_await trivial).bind fun _ => trivial
    | some parsed =>
      dsimp only
      split
      · refine Async.Calls.bind (Async.Calls.ignoreError ?_) fun _ => hread parsed.states
        exact calls_writeStates (parseStoredStates_kept hparsed)
      · exact hread parsed.states

theorem gives_loadAll : loadAllUnlocked.Gives KeptRows := by
  unfold loadAllUnlocked
  refine Async.Gives.bind fun stored => ?_
  have hread : ∀ rows : StoredStates, KeptRows rows → (do
      cleanupLegacyRecoveryBestEffort
      pure rows : StoreProgram StoredStates).Gives KeptRows :=
    fun _ hrows => Async.Gives.bind fun _ => hrows
  cases stored with
  | none => exact hread noStates keptRows_noStates
  | some value =>
    dsimp only
    cases hparsed : parseStoredStates value with
    | none => exact Async.Gives.bind fun _ => hread noStates keptRows_noStates
    | some parsed =>
      have hkept := parseStoredStates_kept hparsed
      dsimp only
      split
      · exact Async.Gives.bind fun _ => hread parsed.states hkept
      · exact hread parsed.states hkept

/-- What an operation does with the rows that it has read. -/
theorem calls_loaded {f : StoredStates → StoreProgram StoreResult}
    (hf : ∀ rows, KeptRows rows → (f rows).Calls Orderly) : (loadAllUnlocked >>= f).Calls Orderly :=
  calls_loadAll.bind_gives gives_loadAll hf

theorem calls_write {value : StoreResult} (h : KeptRows rows) : (do
    writeStates rows
    pure value : StoreProgram StoreResult).Calls Orderly :=
  (calls_writeStates h).bind fun _ => trivial

theorem calls_save {durable : TabRefreshState} (hdurable : ValidRow durable) :
    (saveProgram durable).Calls Orderly := by
  refine calls_loaded fun rows hrows => ?_
  have hnext := hrows.write hdurable
  generalize rows.write durable = next at hnext ⊢
  exact calls_write hnext

theorem calls_update (tabId : TabId) (update : Option TabRefreshState → Except String StoredData) :
    (updateProgram tabId update).Calls Orderly := by
  refine calls_loaded fun rows hrows => ?_
  dsimp only
  split
  · trivial
  · split
    · trivial
    · split
      · trivial
      · rename_i parsed hparsed
        split
        · trivial
        · have hnext := hrows.write (parseTabRefreshState_valid hparsed)
          generalize rows.write (durableState parsed) = next at hnext ⊢
          exact calls_write hnext

theorem calls_remove (tabId : TabId) : (removeProgram tabId).Calls Orderly := by
  refine calls_loaded fun rows hrows => ?_
  split
  · trivial
  · exact calls_write (hrows.remove tabId)

theorem calls_clear : clearProgram.Calls Orderly := by
  refine (Async.calls_await trivial).bind fun _ => ?_
  refine Async.Calls.bind (Async.Calls.ignoreError ?_) fun _ => trivial
  exact (Async.calls_await trivial).bind fun _ => trivial

theorem calls_program : op.program.Calls Orderly := by
  unfold StoreOperation.program StoreOperation.request
  cases op with
  | load tabId windowId =>
    dsimp only
    split
    · rename_i program hprogram
      split at hprogram
      · cases hprogram
        exact calls_loaded fun _ _ => trivial
      · cases hprogram
    · trivial
  | loadAll => exact calls_loaded fun _ _ => trivial
  | save state =>
    dsimp only
    cases hparsed : parseTabRefreshState state with
    | none => trivial
    | some parsed =>
      exact calls_save (parseTabRefreshState_valid hparsed)
  | updateTab tabId update =>
    dsimp only
    split
    · rename_i program hprogram
      split at hprogram
      · cases hprogram
        exact calls_update tabId update
      · cases hprogram
    · trivial
  | removeTab tabId =>
    dsimp only
    split
    · rename_i program hprogram
      split at hprogram
      · cases hprogram
        exact calls_remove tabId
      · cases hprogram
    · trivial
  | clear => exact calls_clear

/-! ## Runs -/

/-- The operations one after another, in their meaning. -/
inductive SpecRun : Option StoredData → List StoreOperation → List (Except String StoreResult) →
    Option StoredData → Prop where
  | nil (stored : Option StoredData) : SpecRun stored [] [] stored
  | cons {before between after : Option StoredData} {op : StoreOperation}
      {result : Except String StoreResult} {ops results} :
      Performs op before result between → SpecRun between ops results after →
      SpecRun before (op :: ops) (result :: results) after

theorem SpecRun.of_sequential {ops : List StoreOperation} {results : List (Except String StoreResult)}
    {s s' : Bool × Storage}
    (h : Sequential serve s (ops.map StoreOperation.program) results s') :
    SpecRun s.2.states ops results s'.2.states := by
  induction ops generalizing s results with
  | nil =>
    cases h
    exact .nil _
  | cons op ops ih =>
    cases h with
    | cons hruns hrest => exact .cons (performs hruns) (ih hrest)

variable {initial : Storage} {h : StoreHistory} {store store' : StoreState} {e : StoreEvent}

theorem chainEvent_operation (e : StoreEvent) : e.chainEvent.operation =
    match e with
    | .call op => [op.program]
    | _ => [] := by
  cases e with
  | call op =>
    cases hrequest : op.request with
    | ok program => simp [StoreEvent.chainEvent, StoreOperation.program, ChainEvent.operation, hrequest]
    | error e => simp [StoreEvent.chainEvent, StoreOperation.program, ChainEvent.operation, hrequest]
  | started index => rfl
  | answered index succeeds => rfl

theorem run_serial (run : Run Step (Chain.start false initial) h store) :
    Serial serve (false, initial) store.tasks (store.memory, store.world) :=
  run.invariant
    (P := fun store : StoreState => Serial serve (false, initial) store.tasks (store.memory, store.world))
    (.nil _) fun _ _ _ hserial hs => hserial.step hs

theorem run_origins (run : Run Step (Chain.start false initial) h store) :
    store.tasks.map Task.origin = (operations h).map StoreOperation.program := by
  induction run with
  | start => rfl
  | @next _ _ _ e _ hs ih =>
    rw [Chain.Step.origins hs, ih, chainEvent_operation]
    cases e with
    | call op => rw [operations, List.map_append]; rfl
    | started index => exact List.append_nil _
    | answered index succeeds => exact List.append_nil _

theorem run_calls (run : Run Step (Chain.start false initial) h store) :
    ∀ task ∈ store.tasks, task.program.Calls Orderly :=
  run.invariant (P := fun store : StoreState => ∀ task ∈ store.tasks, task.program.Calls Orderly)
    (fun _ hmem => absurd hmem List.not_mem_nil)
    fun store e store' hall hs => Chain.Step.calls hs hall fun operation hmem => by
      rw [chainEvent_operation] at hmem
      split at hmem
      · rw [List.mem_singleton.1 hmem]
        exact calls_program
      · cases hmem

/-- What is stored is what was, or what was written. -/
def Stored (initial : Storage) (store : StoreState) : Prop :=
  store.world.states = initial.states ∨ ∃ rows, KeptRows rows ∧ store.world.states = written rows

theorem stored_serve {call : StorageCall} {storage : Storage} (hcall : Orderly call) :
    (serve call storage).2.states = storage.states ∨
      ∃ rows, KeptRows rows ∧ (serve call storage).2.states = written rows := by
  cases call with
  | get key =>
    left
    cases key with
    | states => rfl
    | recovery => rfl
  | setStates value =>
    obtain ⟨rows, hrows, hsome, rfl⟩ := hcall
    exact .inr ⟨rows, hrows, (if_neg hsome).symm⟩
  | remove key =>
    cases key with
    | states => exact .inr ⟨noStates, keptRows_noStates, rfl⟩
    | recovery => exact .inl rfl

theorem run_stored (run : Run Step (Chain.start false initial) h store) : Stored initial store := by
  induction run with
  | start => exact .inl rfl
  | next run hs ih =>
    unfold Stored at ih ⊢
    rcases Chain.Step.world hs with hsame | ⟨task, hmem, c, k, hprogram, hworld⟩
    · rw [hsame]
      exact ih
    · have hcall : Orderly c := by
        have hcalls := run_calls run task hmem
        rw [hprogram] at hcalls
        exact hcalls.1
      rw [hworld]
      rcases stored_serve hcall with hkept | hwritten
      · rw [hkept]
        exact ih
      · exact .inr hwritten

/-- The results are those of the operations one after another. -/
structure Serialised (initial : Storage) (ops : List StoreOperation) (store : StoreState) : Prop where
  /-- What has settled before anything that has not was done in the order of the calls. An operation
  that is on its way will do what it would do alone from there, and behind it nothing was done. -/
  inOrder : ∃ done rest results mid, store.tasks = done ++ rest ∧
    done.map Task.result? = results.map some ∧
    Sequential serve (false, initial) ((ops.take done.length).map StoreOperation.program) results mid ∧
    SpecRun initial.states (ops.take done.length) results mid.2.states ∧
    (rest = [] ∧ mid = (store.memory, store.world) ∨
      ∃ task behind op, rest = task :: behind ∧ ops[done.length]? = some op ∧ task.result? = none ∧
        (∀ result s, task.program.Runs serve (store.memory, store.world) result s →
          op.program.Runs serve mid result s ∧ Performs op mid.2.states result s.2.states) ∧
        ∀ other ∈ behind, Task.Idle other)
  /-- Where all have settled, all was done in the order of the calls. -/
  settled : ∀ results, store.tasks.map Task.result? = results.map some →
    Sequential serve (false, initial) (ops.map StoreOperation.program) results
        (store.memory, store.world) ∧
      SpecRun initial.states ops results store.world.states
  /-- What has not settled goes on, also behind one that has failed. -/
  goesOn : ∀ task ∈ store.tasks, task.result? = none →
    ∃ index, (∃ store', Step store (.started index) store') ∨
      ∀ succeeds, ∃ store', Step store (.answered index succeeds) store'

/-- An array on its way to the storage. -/
def WrittenArray (value : StoredData) : Prop :=
  ∃ rows, KeptRows rows ∧ value = .array (rows.states.map snapshotState) ∧
    parseStoredStates value = some ⟨rows, false⟩ ∧
    ∀ state ∈ rows.states, parseTabRefreshState (snapshotState state) = some ⟨state, false, none⟩

theorem Orderly.written {value : StoredData} (h : Orderly (.setStates value)) : WrittenArray value := by
  obtain ⟨rows, hrows, -, rfl⟩ := h
  exact ⟨rows, hrows, rfl, parseStoredStates_snapshots hrows,
    fun state hmem => parse_snapshotState (hrows.valid state hmem)⟩

theorem run_serialised (run : Run Step (Chain.start false initial) h store) :
    Serialised initial (operations h) store where
  inOrder := by
    obtain ⟨done, rest, results, mid, htasks, hresults, hsequential, hrest⟩ := (run_serial run).split
    have horigins := run_origins run
    rw [htasks, List.map_append] at horigins
    have hdone : done.map Task.origin =
        ((operations h).take done.length).map StoreOperation.program := by
      rw [List.map_take, ← horigins, ← List.length_map Task.origin, List.take_left]
    rw [hdone] at hsequential
    refine ⟨done, rest, results, mid, htasks, hresults, hsequential, .of_sequential hsequential, ?_⟩
    rcases hrest with hend | ⟨task, behind, rfl, hnone, hruns, -, hidle⟩
    · exact .inl hend
    · have hop : ((operations h).map StoreOperation.program)[done.length]? = some task.origin := by
        rw [← horigins, List.getElem?_append_right (List.length_map _).le, List.length_map,
          Nat.sub_self]
        rfl
      rw [List.getElem?_map, Option.map_eq_some_iff] at hop
      obtain ⟨op, hop, horigin⟩ := hop
      refine .inr ⟨task, behind, op, rfl, hop, hnone, fun result s hs => ?_, hidle⟩
      have halone := hruns result s hs
      rw [← horigin] at halone
      exact ⟨halone, performs halone⟩
  settled := by
    intro results hresults
    have hsequential := (run_serial run).sequential hresults
    rw [run_origins run] at hsequential
    exact ⟨hsequential, .of_sequential hsequential⟩
  goesOn := fun task hmem hnone => (run_serial run).progress hmem hnone

/-- However calls and answers come in: the results are those of the operations one after another,
only kept rows are written, and what is stored was there or was written so. -/
theorem store_serialises (run : Run Step (Chain.start false initial) h store) :
    Serialised initial (operations h) store ∧
      (∀ task ∈ store.tasks, ∀ value k, task.program = .call (.setStates value) k →
        WrittenArray value) ∧
      (store.world.states = initial.states ∨
        ∃ rows, KeptRows rows ∧ store.world.states = written rows ∧
          readRows store.world.states = rows) := by
  refine ⟨run_serialised run, fun task hmem value k hprogram => ?_, ?_⟩
  · have hcalls := run_calls run task hmem
    rw [hprogram] at hcalls
    exact Orderly.written hcalls.1
  · rcases run_stored run with hsame | ⟨rows, hrows, hwritten⟩
    · exact .inl hsame
    · refine .inr ⟨rows, hrows, hwritten, ?_⟩
      rw [hwritten]
      exact readRows_written hrows

/-- The second of two saves that were called at once is rejected by the storage. -/
def rejectedWriteEvents : List StoreEvent :=
  [.call (.save (snapshotState (createDefaultTabRefreshState 7 1))),
    .call (.save (snapshotState (createDefaultTabRefreshState 3 1))), .call .loadAll,
    .started 0, .answered 0 true, .answered 0 true, .answered 0 true,
    .started 1, .answered 1 true, .answered 1 false,
    .started 2, .answered 2 true]

theorem store_serialises_sample : ∃ h store,
    Run Step (Chain.start false ⟨none, none⟩) h store ∧
      store.tasks.map Task.result? = [some (.ok .void), some (.error "rejected"),
        some (.ok (.states ⟨[createDefaultTabRefreshState 7 1], List.nodup_singleton _⟩))] ∧
      Serialised ⟨none, none⟩ (operations h) store := by
  have hrun : ((Run.history (fun store e => Chain.step serve store (StoreEvent.chainEvent e))
      (Chain.start false ⟨none, none⟩) rejectedWriteEvents).map fun r =>
      r.2.tasks.map Task.result?) = some [some (.ok .void), some (.error "rejected"),
        some (.ok (.states ⟨[createDefaultTabRefreshState 7 1], List.nodup_singleton _⟩))] := by
    decide +kernel
  rw [Option.map_eq_some_iff] at hrun
  obtain ⟨⟨h, store⟩, hr, hresults⟩ := hrun
  have run := Run.of_history hr
  exact ⟨h, store, run, hresults, (store_serialises run).1⟩

end PinOp.Refresh.TabRefreshStateStore
