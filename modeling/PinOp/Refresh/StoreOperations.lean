import PinOp.Lib.Async
import PinOp.Refresh.StoredTabStates

/-!
# The operations of the store

`TabRefreshStateStore` reads and writes all rows in every operation, so it begins an operation when
the one before it has settled. Whatever order its calls and the answers of the storage come in, the
operations do what they would do one after another, and what the storage rejects is not written.
-/

namespace PinOp.Refresh.TabRefreshStateStore

open PinOp.Lib PinOp.Browser PinOp.Protocol

/-! ## The storage -/

/-- `pin-op.tabRefreshStates`, and the key of a recovery that earlier versions have kept. -/
inductive StorageKey where
  | states
  | recovery
  deriving DecidableEq

inductive StorageCall where
  | get (key : StorageKey)
  | setStates (value : StoredData)
  | remove (key : StorageKey)

/-- What is stored under each key; `none` is no property of that name. -/
structure Storage where
  states : Option StoredData
  recovery : Option StoredData

/-- What an answer gives, and what the storage has then. -/
def serve : StorageCall → Storage → Option StoredData × Storage
  | .get .states, storage => (storage.states, storage)
  | .get .recovery, storage => (storage.recovery, storage)
  | .setStates value, storage => (none, { storage with states := some value })
  | .remove .states, storage => (none, { storage with states := none })
  | .remove .recovery, storage => (none, { storage with recovery := none })

inductive StoreResult where
  | void
  | state (state : TabRefreshState)
  | states (states : StoredStates)
  | updated (state : Option TabRefreshState)
  deriving DecidableEq

/-- The memory of the store is `legacyRecoveryClean`. -/
abbrev StoreProgram := Async Bool StorageCall (Option StoredData)

/-! ## The operations -/

def cleanupLegacyRecoveryBestEffort : StoreProgram Unit := do
  let legacyRecoveryClean ← Async.memory
  if legacyRecoveryClean then pure ()
  else
    Async.ignoreError do
      let stored ← Async.await (.get .recovery)
      if stored.isSome then
        let _ ← Async.await (.remove .recovery)
      Async.setMemory true

def writeStates (states : StoredStates) : StoreProgram Unit :=
  if states.states = [] then do
    let _ ← Async.await (.remove .states)
  else do
    let _ ← Async.await (.setStates (.array (states.states.map snapshotState)))

def noStates : StoredStates := ⟨[], List.nodup_nil⟩

def loadAllUnlocked : StoreProgram StoredStates := do
  let stored ← Async.await (.get .states)
  match stored with
  | none => do
    cleanupLegacyRecoveryBestEffort
    pure noStates
  | some value =>
    match parseStoredStates value with
    | none => do
      Async.ignoreError do
        let _ ← Async.await (.remove .states)
      cleanupLegacyRecoveryBestEffort
      pure noStates
    | some parsed => do
      if parsed.needsRewrite then Async.ignoreError (writeStates parsed.states)
      cleanupLegacyRecoveryBestEffort
      pure parsed.states

/-- An updater may throw, and gives `undefined` where nothing is to be written. -/
inductive StoreOperation where
  | load (tabId : TabId) (windowId : WindowId)
  | loadAll
  | save (state : StoredData)
  | updateTab (tabId : TabId) (update : Option TabRefreshState → Except String StoredData)
  | removeTab (tabId : TabId)
  | clear

def invalidIdentity : String := "Invalid browser tab refresh identity"

/-- The row of the tab in its window. -/
def rowOf (states : StoredStates) (tabId : TabId) (windowId : WindowId) : TabRefreshState :=
  (states.states.find? fun state => state.tabId = tabId ∧ state.windowId = windowId).getD
    (createDefaultTabRefreshState tabId windowId)

def saveProgram (durable : TabRefreshState) : StoreProgram StoreResult := do
  let states ← loadAllUnlocked
  writeStates (states.write durable)
  pure .void

def updateProgram (tabId : TabId) (update : Option TabRefreshState → Except String StoredData) :
    StoreProgram StoreResult := do
  let states ← loadAllUnlocked
  let current := states.row tabId
  match update current with
  | .error e => Async.throw e
  | .ok candidate =>
    if candidate.isUndefined then pure (.updated current)
    else
      match parseTabRefreshState candidate with
      | none => Async.throw "Invalid browser tab refresh state update"
      | some parsed =>
        if parsed.tabId ≠ tabId then Async.throw "Invalid browser tab refresh state update"
        else do
          let durable := durableState parsed
          writeStates (states.write durable)
          pure (.updated (some durable))

def removeProgram (tabId : TabId) : StoreProgram StoreResult := do
  let states ← loadAllUnlocked
  if (states.row tabId).isNone then pure .void
  else do
    writeStates (states.remove tabId)
    pure .void

def clearProgram : StoreProgram StoreResult := do
  let _ ← Async.await (.remove .states)
  Async.ignoreError do
    let _ ← Async.await (.remove .recovery)
    Async.setMemory true
  pure .void

/-- What is queued for an operation, unless it is rejected at once. -/
def StoreOperation.request : StoreOperation → Except String (StoreProgram StoreResult)
  | .load tabId windowId =>
    if validIdentity tabId windowId then
      .ok do
        let states ← loadAllUnlocked
        pure (.state (rowOf states tabId windowId))
    else .error invalidIdentity
  | .loadAll =>
    .ok do
      let states ← loadAllUnlocked
      pure (.states states)
  | .save state =>
    match parseTabRefreshState state with
    | none => .error "Invalid browser tab refresh state"
    | some parsed => .ok (saveProgram (durableState parsed))
  | .updateTab tabId update =>
    if validIdentity tabId 0 then .ok (updateProgram tabId update) else .error invalidIdentity
  | .removeTab tabId =>
    if validIdentity tabId 0 then .ok (removeProgram tabId) else .error invalidIdentity
  | .clear => .ok clearProgram

/-! ## Runs -/

inductive StoreEvent where
  | call (operation : StoreOperation)
  | started (index : ℕ)
  | answered (index : ℕ) (succeeds : Bool)

/-- `enqueue`, or what the storage answers. -/
def StoreEvent.chainEvent : StoreEvent → ChainEvent Bool StorageCall (Option StoredData) StoreResult
  | .call operation =>
    match operation.request with
    | .ok program => .called program
    | .error e => .rejected e
  | .started index => .started index
  | .answered index succeeds => .answered index succeeds

abbrev StoreState := Chain Bool StorageCall (Option StoredData) StoreResult Storage

def Step (store : StoreState) (e : StoreEvent) (store' : StoreState) : Prop :=
  Chain.Step serve store e.chainEvent store'

abbrev StoreHistory := List (Transition StoreState StoreEvent)

/-- The operations in the order of their calls. -/
def operations : StoreHistory → List StoreOperation
  | [] => []
  | t :: before =>
    match t.event with
    | .call operation => operations before ++ [operation]
    | _ => operations before

end PinOp.Refresh.TabRefreshStateStore
