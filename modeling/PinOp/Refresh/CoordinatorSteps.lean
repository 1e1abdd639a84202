import PinOp.Refresh.TabRefreshCoordinator

/-!
# The calls, the queue and their steps

Every call, what it goes on to when a task of it is resumed, the operations of the queue from
one point to the next, and the step relation they make up.
-/

namespace PinOp.Refresh

open PinOp.Lib PinOp.Browser PinOp.Protocol

/-- What something suspended is resumed with. -/
inductive Outcome where
  /-- what is awaited is over; nothing is looked at -/
  | resolved
  | rejected
  /-- the rows that `loadAll` gives -/
  | loaded (states : StoredStates)
  /-- the store runs the updater on the row it has -/
  | updating (current : Option TabRefreshState)
  /-- whether `onAccepted` admits the refresh; what is not `false` admits it -/
  | admitted (admitted : Bool)
  | activeTab (tabId : Option TabId)
  deriving DecidableEq

namespace TabRefreshCoordinator

variable (c : TabRefreshCoordinator)

/-! ## Panels -/

def panelOpened (tabId : TabId) (windowId : WindowId) : TabRefreshCoordinator :=
  if !validIdentity tabId windowId || c.terminalTabs.contains tabId ||
      c.windowRemovals.has windowId then c
  else
    let previousWindowId := c.currentPanelWindow tabId
    let c := if previousWindowId.isSome then c.cancelTabRefresh tabId else c
    let c :=
      if previousWindowId.isSome && previousWindowId ≠ some windowId then
        ((c.clearPanelWindow tabId previousWindowId).revokeIndexedParticipant tabId
          previousWindowId).2
      else c
    let c := { c with panelWindows := c.panelWindows.set tabId windowId }
    let (revision, c) := c.advanceLifecycle tabId
    c.awaitInitialized (.panelOpened tabId windowId revision)

/-- The updater of `panelOpened`. -/
def panelUpdate (tabId : TabId) (windowId : WindowId) (revision : ℕ)
    (existing : Option TabRefreshState) : Option TabRefreshState :=
  if !c.isCurrentPanelLifecycle tabId windowId revision then existing
  else
    let moved := existing.any fun existing => existing.windowId ≠ windowId
    let current := existing.getD (createDefaultTabRefreshState tabId windowId)
    let watermark := durableWatermarkSnapshot (if moved then none else existing)
      (c.watermarks.get? windowId)
    some
      { tabId := tabId
        windowId := windowId
        autoRefreshEnabled := current.autoRefreshEnabled
        ideHighlightEnabled := current.ideHighlightEnabled
        lastAcceptedGeneration := watermark.1
        lastAcceptedMode := watermark.2 }

/-- `panelOpened` from its update on. -/
def panelUpdated (tabId : TabId) (windowId : WindowId) (revision : ℕ)
    (updated : Option TabRefreshState) : TabRefreshCoordinator :=
  let durable := updated.getD (createDefaultTabRefreshState tabId windowId)
  if !c.isCurrentPanelLifecycle tabId windowId revision then c
  else if durable.autoRefreshEnabled then c.grantParticipant windowId tabId
  else (c.revokeIndexedParticipant tabId (some windowId)).2

/-- `panelOpened` when something it awaited failed. -/
def panelFailed (tabId : TabId) (windowId : WindowId) (revision : ℕ) : TabRefreshCoordinator :=
  if !c.isCurrentLifecycle tabId revision then c
  else
    let c := (c.clearPanelWindow tabId (some windowId)).cancelTabRefresh tabId
    (c.revokeIndexedParticipant tabId (some windowId)).2.retireLifecycle tabId revision

/-- `none` is no window. -/
def panelClosed (tabId : TabId) (windowId : Option WindowId) : TabRefreshCoordinator :=
  if c.terminalTabs.contains tabId then c
  else
    match c.currentPanelWindow tabId with
    | none => c.awaitInitialized .initializeOnly
    | some currentWindowId =>
      if windowId.any (· ≠ currentWindowId) then c.awaitInitialized .initializeOnly
      else
        let (revision, c) := c.advanceLifecycle tabId
        let c := (c.clearPanelWindow tabId (some currentWindowId)).cancelTabRefresh tabId
        let c :=
          match c.revokeIndexedParticipant tabId (some currentWindowId) with
          | (none, c) => c.setParticipant currentWindowId tabId false
          | (some _, c) => c
        match c.windowRemovals.get? currentWindowId with
        | some removal => c.suspend (.removalAwaited removal tabId revision)
        | none => c.awaitInitialized (.panelClosed tabId revision)

/-! ## Settings -/

def updateSettings (tabId : TabId) (windowId : WindowId) (settings : TabRefreshSettings) :
    TabRefreshCoordinator :=
  if !validIdentity tabId windowId then c
  else
    let revision := c.lifecycleRevision tabId
    let c :=
      if settings.autoRefreshEnabled then c
      else ((c.cancelTabRefresh tabId).revokeIndexedParticipant tabId (some windowId)).2
    c.awaitInitialized (.updateSettings tabId windowId settings revision)

/-- The updater of `updateSettings`. -/
def settingsUpdate (tabId : TabId) (windowId : WindowId) (settings : TabRefreshSettings)
    (revision : ℕ) (stored : Option TabRefreshState) : Option TabRefreshState :=
  if !c.isCurrentLifecycle tabId revision then stored
  else
    let watermark := durableWatermarkSnapshot (stored.filter fun stored => stored.windowId = windowId)
      (c.watermarks.get? windowId)
    some
      { tabId := tabId
        windowId := windowId
        autoRefreshEnabled := settings.autoRefreshEnabled
        ideHighlightEnabled := settings.ideHighlightEnabled
        lastAcceptedGeneration := watermark.1
        lastAcceptedMode := watermark.2 }

/-- The `finally` of `updateSettings`, and what follows it when the update succeeded. -/
def settingsUpdated (tabId : TabId) (windowId : WindowId) (settings : TabRefreshSettings)
    (revision : ℕ) (succeeded : Bool) : TabRefreshCoordinator :=
  let c :=
    if !settings.autoRefreshEnabled && c.isCurrentPanelLifecycle tabId windowId revision then
      (c.revokeIndexedParticipant tabId (some windowId)).2
    else c
  if succeeded && c.isCurrentPanelLifecycle tabId windowId revision && settings.autoRefreshEnabled
  then c.grantParticipant windowId tabId
  else c

/-! ## Windows and tabs -/

def acceptPageRefresh (windowId : WindowId) (message : PageRefreshMessage)
    (onTabCompleted : Bool) : TabRefreshCoordinator :=
  if !validRefresh message || !isBrowserId windowId then c
  else
    c.awaitInitialized
      (.acceptPageRefresh windowId ⟨message.refreshGeneration, message.mode⟩ onTabCompleted)

def beginWindowEpoch (windowId : WindowId) : TabRefreshCoordinator :=
  if !isBrowserId windowId then c
  else (c.clearRuntimePendingForWindow windowId).awaitInitialized (.beginWindowEpoch windowId)

def clearWindowPending (windowId : WindowId) : TabRefreshCoordinator :=
  if isBrowserId windowId then c.clearRuntimePendingForWindow windowId else c

def activateTab (tabId : TabId) (windowId : WindowId) : TabRefreshCoordinator :=
  c.awaitInitialized (.activateTab tabId windowId)

def removeTab (tabId : TabId) : TabRefreshCoordinator :=
  if !validIdentity tabId 0 then c
  else
    let (revision, c) := (c.markTerminalTab tabId).advanceLifecycle tabId
    let c := (c.clearPanelWindow tabId none).cancelTabRefresh tabId
    (c.revokeIndexedParticipant tabId none).2.suspend (.tabRemoving tabId revision)

def detachTab (tabId : TabId) (windowId : WindowId) : TabRefreshCoordinator :=
  if !isBrowserId tabId || !isBrowserId windowId then c
  else if c.currentPanelWindow tabId ≠ some windowId then
    c.awaitInitialized (.detachTab tabId none)
  else
    let (revision, c) := c.advanceLifecycle tabId
    let c := (c.clearPanelWindow tabId (some windowId)).cancelTabRefresh tabId
    let c :=
      match c.revokeIndexedParticipant tabId (some windowId) with
      | (none, c) => c.setParticipant windowId tabId false
      | (some _, c) => c
    c.awaitInitialized (.detachTab tabId (some revision))

def removeWindow (windowId : WindowId) : TabRefreshCoordinator :=
  if c.windowRemovals.has windowId then c
  else
    let (revisions, c) := c.fenceWindowLifecycle windowId ∅
    let removal := c.nextRemoval
    let c := { c with nextRemoval := removal + 1 }.awaitInitialized
      (.removeWindow windowId removal revisions)
    { c with windowRemovals := c.windowRemovals.set windowId removal }

/-- The `finally` of `performWindowRemoval`. -/
def finishWindowRemoval (windowId : WindowId) (removal : RemovalId)
    (revisions : OrderedMap TabId ℕ) : TabRefreshCoordinator :=
  let c := { c with
    watermarks := c.watermarks.delete windowId
    observed := .windowRemoved windowId :: c.observed }
  let c := revisions.entries.foldl (fun c entry => c.retireLifecycle entry.1 entry.2) c
  { c with settledRemovals := removal :: c.settledRemovals }.suspend
    (.removalClearing windowId removal)

def clearWindowRemoval (windowId : WindowId) (removal : RemovalId) : TabRefreshCoordinator :=
  if c.windowRemovals.get? windowId = some removal then
    { c with windowRemovals := c.windowRemovals.delete windowId }
  else c

def retireDetached (tabId : TabId) (revision : Option ℕ) : TabRefreshCoordinator :=
  match revision with
  | none => c
  | some revision => c.retireLifecycle tabId revision

/-! ## Tasks -/

/-- A call goes on after `await this.ensureInitialized()`. -/
def resumeInitialized (call : Call) (succeeded : Bool) : TabRefreshCoordinator :=
  match call with
  | .initializeOnly => c
  | .panelOpened tabId windowId revision =>
    if succeeded then c.suspend (.panelUpdating tabId windowId revision none)
    else c.panelFailed tabId windowId revision
  | .panelClosed tabId revision =>
    if succeeded then c.suspend (.closedLoading tabId revision)
    else c.retireLifecycle tabId revision
  | .updateSettings tabId windowId settings revision =>
    if succeeded then c.suspend (.settingsUpdating tabId windowId settings revision none) else c
  | .acceptPageRefresh windowId incoming onTabCompleted =>
    if succeeded then c.enqueue (.accept windowId incoming onTabCompleted) else c
  | .beginWindowEpoch windowId => if succeeded then c.enqueue (.epoch windowId) else c
  | .activateTab tabId windowId => if succeeded then c.enqueue (.activate tabId windowId) else c
  | .detachTab tabId revision =>
    if succeeded then c.suspend (.detachLoading tabId revision)
    else c.retireDetached tabId revision
  | .removeWindow windowId removal revisions =>
    if succeeded then
      let (revisions, c) := c.fenceWindowLifecycle windowId revisions
      c.suspend (.removalLoading windowId removal revisions)
    else c.finishWindowRemoval windowId removal revisions

/-- A task goes on; `none` is an outcome that it does not await. -/
def resume (task : Task) (outcome : Outcome) : Option TabRefreshCoordinator :=
  match task, outcome with
  | .initializing attempt call, .resolved =>
    (c.attempts[attempt]?.join).map fun succeeded => c.resumeInitialized call succeeded
  | .panelUpdating tabId windowId revision none, .updating current =>
    some (c.suspend (.panelUpdating tabId windowId revision
      (some (c.panelUpdate tabId windowId revision current))))
  | .panelUpdating tabId windowId revision (some updated), .resolved =>
    some (c.panelUpdated tabId windowId revision updated)
  | .panelUpdating tabId windowId revision _, .rejected =>
    some (c.panelFailed tabId windowId revision)
  | .settingsUpdating tabId windowId settings revision none, .updating current =>
    some (c.suspend (.settingsUpdating tabId windowId settings revision
      (some (c.settingsUpdate tabId windowId settings revision current))))
  | .settingsUpdating tabId windowId settings revision (some _), .resolved =>
    some (c.settingsUpdated tabId windowId settings revision true)
  | .settingsUpdating tabId windowId settings revision _, .rejected =>
    some (c.settingsUpdated tabId windowId settings revision false)
  | .removalAwaited removal tabId revision, .resolved =>
    if c.settledRemovals.contains removal then some (c.suspend (.closedLoading tabId revision))
    else none
  | .closedLoading tabId revision, .resolved => some (c.retireLifecycle tabId revision)
  | .closedLoading tabId revision, .rejected => some (c.retireLifecycle tabId revision)
  | .tabRemoving tabId revision, .resolved => some (c.retireLifecycle tabId revision)
  | .tabRemoving tabId revision, .rejected => some (c.retireLifecycle tabId revision)
  | .detachLoading tabId revision, .resolved => some (c.retireDetached tabId revision)
  | .detachLoading tabId revision, .rejected => some (c.retireDetached tabId revision)
  | .removalLoading windowId removal revisions, .resolved =>
    some (c.finishWindowRemoval windowId removal revisions)
  | .removalLoading windowId removal revisions, .rejected =>
    some (c.finishWindowRemoval windowId removal revisions)
  | .removalClearing windowId removal, .resolved => some (c.clearWindowRemoval windowId removal)
  | _, _ => none

/-! ## Dispatching -/

/-- The running operation of the queue is over. -/
def finish : TabRefreshCoordinator := { c with running := none }

def run (point : Running) : TabRefreshCoordinator := { c with running := some point }

/-- `acceptPageRefresh` returns `true`. -/
def finishAccepted (r : AcceptedRefresh) : TabRefreshCoordinator :=
  { c with observed := .returned r.refresh r.windowId r.incoming :: c.observed }.finish

/-- What awaits `dispatch` goes on. -/
def dispatched (after : Option AcceptedRefresh) : TabRefreshCoordinator :=
  match after with
  | none => c.finish
  | some r => c.run (.returning r)

def startDispatching (operation : OperationId) : TabRefreshCoordinator :=
  match c.operations[operation]? with
  | none => c
  | some value =>
    { c with operations := c.operations.set operation { value with phase := .dispatching } }

def dispatch (tabId : TabId) (operation : OperationId) (after : Option AcceptedRefresh) :
    TabRefreshCoordinator :=
  if !c.isCurrentRefreshOperation tabId operation then
    (c.completeTabRefresh tabId operation false).dispatched after
  else (c.startDispatching operation).run (.preparing tabId operation after)

/-- `dispatch` when the transition is prepared. -/
def dispatchPrepared (tabId : TabId) (operation : OperationId) (after : Option AcceptedRefresh) :
    TabRefreshCoordinator :=
  if !c.isCurrentRefreshOperation tabId operation then
    (c.completeTabRefresh tabId operation false).dispatched after
  else
    match c.operations[operation]? with
    | none => c
    | some value =>
      { c with observed := .dispatched value.refresh tabId value.pending :: c.observed }.run
        (.dispatching tabId operation after)

/-- `dispatch` when `dispatchRefresh` has settled. -/
def dispatchSettled (tabId : TabId) (operation : OperationId) (after : Option AcceptedRefresh)
    (succeeded : Bool) : TabRefreshCoordinator :=
  (c.completeTabRefresh tabId operation
    (succeeded && c.isCurrentRefreshOperation tabId operation)).dispatched after

/-! ## Accepting a refresh -/

/-- The updater of the loop of `acceptPageRefresh`. -/
def admissionUpdate (r : AcceptedRefresh) (tabId : TabId) (revision : ℕ)
    (state : Option TabRefreshState) : Option RefreshAdmissionCommit × Option TabRefreshState :=
  match state with
  | none => (none, none)
  | some current =>
    if current.windowId ≠ r.windowId || !c.isCurrentLifecycle tabId revision then (none, state)
    else
      let after := { current with
        lastAcceptedGeneration := r.pending.generation
        lastAcceptedMode := some r.pending.mode }
      (some ⟨tabId, current, after⟩, some after)

/-- The updater of `rollbackRefreshAdmission`: whether it restores, or has nothing to. -/
def restores (commit : RefreshAdmissionCommit) (current : Option TabRefreshState) : Bool :=
  current = some commit.before || current = some commit.after

/-- The tab takes part in the refresh. -/
def takesPart (r : AcceptedRefresh) (stage : Stage) : Bool :=
  c.isCurrentPanelLifecycle stage.tabId r.windowId stage.revision &&
    c.participantWindows.get? stage.tabId = some r.windowId

/-- A step of the loop that stages; with the operation of the active tab. -/
def stageTab (r : AcceptedRefresh) (activeTabId : Option TabId)
    (state : Option (TabId × OperationId) × TabRefreshCoordinator) (stage : Stage) :
    Option (TabId × OperationId) × TabRefreshCoordinator :=
  let (activeOperation, c) := state
  if !(c.takesPart r stage && stage.updated.any (·.autoRefreshEnabled)) then
    (activeOperation, c.cancelTabRefresh stage.tabId)
  else
    let c := c.cancelTabRefresh stage.tabId
    if !c.takesPart r stage then (activeOperation, c)
    else
      let operation := c.operations.length
      let value : TabRefreshOperation :=
        { refresh := r.refresh
          tabId := stage.tabId
          windowId := r.windowId
          revision := stage.revision
          pending := r.pending
          onTabCompleted := r.onTabCompleted
          phase := .pending
          completed := false }
      (if activeTabId = some stage.tabId then some (stage.tabId, operation) else activeOperation,
        { c with
          operations := c.operations ++ [value]
          pendingRefreshes := c.pendingRefreshes.set stage.tabId operation
          observed := .staged r.refresh stage.tabId r.windowId :: c.observed })

def stageAll (r : AcceptedRefresh) (activeTabId : Option TabId) (stages : List Stage) :
    TabRefreshCoordinator :=
  match stages.foldl (stageTab r activeTabId) (none, c) with
  | (none, c) => c.finishAccepted r
  | (some (tabId, operation), c) => c.dispatch tabId operation (some r)

/-- The loop of `acceptPageRefresh` over the rows that are left. -/
def commitNext (r : AcceptedRefresh) (previousWatermark : Option WindowWatermark)
    (activeTabId : Option TabId) (rest : List TabRefreshState)
    (commits : List RefreshAdmissionCommit) (stages : List Stage) : TabRefreshCoordinator :=
  match rest with
  | [] => c.stageAll r activeTabId stages
  | snapshot :: rest =>
    c.run (.committing
      { refresh := r
        previousWatermark := previousWatermark
        activeTabId := activeTabId
        tabId := snapshot.tabId
        revision := c.lifecycleRevision snapshot.tabId
        ran := none
        rest := rest
        commits := commits
        stages := stages })

def commitSettled (point : Committing) (commit : Option RefreshAdmissionCommit)
    (updated : Option TabRefreshState) : TabRefreshCoordinator :=
  c.commitNext point.refresh point.previousWatermark point.activeTabId point.rest
    (point.commits ++ commit.toList) (point.stages ++ [⟨point.tabId, point.revision, updated⟩])

def commitFailed (point : Committing) : TabRefreshCoordinator :=
  let commit := point.ran.bind (·.1)
  c.run (.rollingBack
    { refresh := point.refresh
      previousWatermark := point.previousWatermark
      commits := (point.commits ++ commit.toList).reverse
      rolledBack := true
      ran := none })

/-- The end of a rollback; `acceptPageRefresh` throws. -/
def rolledBack (point : RollingBack) : TabRefreshCoordinator :=
  let windowId := point.refresh.windowId
  if !(point.rolledBack && c.watermarks.get? windowId = some point.refresh.incoming) then c.finish
  else
    match point.previousWatermark with
    | some previous => { c with watermarks := c.watermarks.set windowId previous }.finish
    | none => { c with watermarks := c.watermarks.delete windowId }.finish

/-- `acceptPageRefresh` from the rows on. -/
def refreshLoaded (r : AcceptedRefresh) (states : List TabRefreshState) : TabRefreshCoordinator :=
  let windowStates := states.filter fun state => state.windowId = r.windowId
  let current := currentWatermark (c.watermarks.get? r.windowId) windowStates
  if !isNewerRefresh r.incoming current then c.finish
  else c.run (.admitting r windowStates)

def refreshAdmitted (r : AcceptedRefresh) (windowStates : List TabRefreshState) :
    TabRefreshCoordinator :=
  let previousWatermark := c.watermarks.get? r.windowId
  { c with
    watermarks := c.watermarks.set r.windowId r.incoming
    observed := .admitted r.refresh r.windowId r.incoming :: c.observed }.run
      (.locating r windowStates previousWatermark)

/-- The loop of `beginWindowEpoch` over the rows that are left. -/
def epochNext (windowId : WindowId) (rest : List TabRefreshState) : TabRefreshCoordinator :=
  match rest with
  | [] => c.finish
  | state :: rest => c.run (.epochUpdating windowId state.tabId false rest)

/-- The running operation goes on; `none` is an outcome that it does not await. -/
def proceed (point : Running) (outcome : Outcome) : Option TabRefreshCoordinator :=
  match point, outcome with
  | .loading r, .loaded loaded => some (c.refreshLoaded r loaded.states)
  | .loading _, .rejected => some c.finish
  | .admitting r windowStates, .admitted admitted =>
    some (if admitted then c.refreshAdmitted r windowStates else c.finish)
  | .admitting _ _, .rejected => some c.finish
  | .locating r windowStates previous, .activeTab tabId =>
    some (c.commitNext r previous tabId windowStates [] [])
  | .locating r windowStates previous, .rejected =>
    some (c.commitNext r previous none windowStates [] [])
  | .committing point, .updating current =>
    if point.ran.isSome then none
    else
      let ran := c.admissionUpdate point.refresh point.tabId point.revision current
      some (c.run (.committing { point with ran := some ran }))
  | .committing point, .resolved =>
    point.ran.map fun (commit, updated) => c.commitSettled point commit updated
  | .committing point, .rejected => some (c.commitFailed point)
  | .rollingBack point, .updating current =>
    match point.commits with
    | [] => none
    | commit :: _ =>
      if point.ran.isSome then none
      else some (c.run (.rollingBack { point with ran := some (restores commit current) }))
  | .rollingBack point, .resolved =>
    match point.commits, point.ran with
    | [], _ => some (c.rolledBack point)
    | _ :: rest, some restored =>
      some (c.run (.rollingBack { point with
        commits := rest
        rolledBack := point.rolledBack && restored
        ran := none }))
    | _ :: _, none => none
  | .rollingBack point, .rejected =>
    match point.commits with
    | [] => none
    | _ :: rest =>
      some (c.run (.rollingBack { point with commits := rest, rolledBack := false, ran := none }))
  | .preparing tabId operation after, .resolved => some (c.dispatchPrepared tabId operation after)
  | .dispatching tabId operation after, .resolved =>
    some (c.dispatchSettled tabId operation after true)
  | .dispatching tabId operation after, .rejected =>
    some (c.dispatchSettled tabId operation after false)
  | .returning r, .resolved => some (c.finishAccepted r)
  | .epochLoading windowId, .loaded loaded =>
    some (c.epochNext windowId (loaded.states.filter fun state => state.windowId = windowId))
  | .epochLoading _, .rejected => some c.finish
  | .epochUpdating windowId tabId false rest, .updating _ =>
    some (c.run (.epochUpdating windowId tabId true rest))
  | .epochUpdating windowId _ true rest, .resolved => some (c.epochNext windowId rest)
  | .epochUpdating _ _ _ _, .rejected => some c.finish
  | _, _ => none

/-- An operation of the queue begins. -/
def begin (operation : QueuedOperation) : TabRefreshCoordinator :=
  match operation with
  | .accept windowId incoming onTabCompleted =>
    { c with nextRefresh := c.nextRefresh + 1 }.run
      (.loading ⟨c.nextRefresh, windowId, incoming, onTabCompleted⟩)
  | .epoch windowId =>
    { c with
      watermarks := c.watermarks.set windowId ⟨0, .known .styles, none⟩
      observed := .epochBegun windowId :: c.observed }.run (.epochLoading windowId)
  | .activate tabId windowId =>
    if c.panelWindows.get? tabId ≠ some windowId || c.participantWindows.get? tabId ≠ some windowId
    then c.cancelTabRefresh tabId
    else
      match c.pendingRefreshes.get? tabId with
      | none => c
      | some operation =>
        match c.operations[operation]? with
        | none => c
        | some value => if value.phase ≠ .pending then c else c.dispatch tabId operation none

/-! ## Steps -/

inductive Action where
  | initializeOnly
  | panelOpened (tabId : TabId) (windowId : WindowId)
  | panelClosed (tabId : TabId) (windowId : Option WindowId)
  | updateSettings (tabId : TabId) (windowId : WindowId) (settings : TabRefreshSettings)
  | acceptPageRefresh (windowId : WindowId) (message : PageRefreshMessage) (onTabCompleted : Bool)
  | beginWindowEpoch (windowId : WindowId)
  | clearWindowPending (windowId : WindowId)
  | activateTab (tabId : TabId) (windowId : WindowId)
  | removeTab (tabId : TabId)
  | detachTab (tabId : TabId) (windowId : WindowId)
  | removeWindow (windowId : WindowId)
  /-- the rows of an attempt to initialize arrive, or it fails -/
  | settleInitialization (attempt : AttemptId) (loaded : Option StoredStates)
  | resume (index : ℕ) (outcome : Outcome)
  /-- the next operation of the queue begins -/
  | begin
  | proceed (outcome : Outcome)
  deriving DecidableEq

/-- `none` is no step: nothing waits there, or not for that. -/
def apply : Action → Option TabRefreshCoordinator
  | .initializeOnly => some (c.awaitInitialized .initializeOnly)
  | .panelOpened tabId windowId => some (c.panelOpened tabId windowId)
  | .panelClosed tabId windowId => some (c.panelClosed tabId windowId)
  | .updateSettings tabId windowId settings => some (c.updateSettings tabId windowId settings)
  | .acceptPageRefresh windowId message onTabCompleted =>
    some (c.acceptPageRefresh windowId message onTabCompleted)
  | .beginWindowEpoch windowId => some (c.beginWindowEpoch windowId)
  | .clearWindowPending windowId => some (c.clearWindowPending windowId)
  | .activateTab tabId windowId => some (c.activateTab tabId windowId)
  | .removeTab tabId => some (c.removeTab tabId)
  | .detachTab tabId windowId => some (c.detachTab tabId windowId)
  | .removeWindow windowId => some (c.removeWindow windowId)
  | .settleInitialization attempt loaded =>
    if c.attempts[attempt]? = some none then some (c.settleInitialization attempt loaded) else none
  | .resume index outcome =>
    match c.tasks[index]? with
    | none => none
    | some task => { c with tasks := c.tasks.eraseIdx index }.resume task outcome
  | .begin =>
    match c.running, c.queue with
    | none, operation :: queue => some ({ c with queue := queue }.begin operation)
    | _, _ => none
  | .proceed outcome => c.running.bind fun point => c.proceed point outcome

end TabRefreshCoordinator

end PinOp.Refresh
