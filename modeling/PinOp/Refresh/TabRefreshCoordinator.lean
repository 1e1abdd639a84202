import PinOp.Refresh.RefreshState

/-!
# The coordinator of tab refreshes

A call runs until it awaits something; what is left of it then is a task of the world around
the coordinator, which is resumed with an outcome. The operations of the serial queue run one
at a time, and the one that runs keeps its own point. The store is the world's: it may run the
updater it is given on any row, and may fail before or after. A callback does not call back
into the coordinator, and what a call returns is looked at only where it is the acceptance of a
refresh. What can be seen of a run is in `observed`, newest first.
-/

namespace PinOp.Refresh

open PinOp.Lib PinOp.Browser PinOp.Protocol

abbrev OperationId := ℕ

abbrev AttemptId := ℕ

abbrev RemovalId := ℕ

inductive RefreshPhase where
  | pending
  | dispatching
  deriving DecidableEq

/-- An object of this type is told from others by its place in `operations`. `refresh` and
`tabId` are those it is staged for. -/
structure TabRefreshOperation where
  refresh : RefreshId
  tabId : TabId
  windowId : WindowId
  revision : ℕ
  pending : PendingTabRefresh
  onTabCompleted : Bool
  phase : RefreshPhase
  completed : Bool
  deriving DecidableEq

structure TabRefreshCompletion where
  tabId : TabId
  windowId : WindowId
  refreshGeneration : ℕ
  mode : PageRefreshMode
  accepted : Bool
  deriving DecidableEq

structure RefreshAdmissionCommit where
  tabId : TabId
  before : TabRefreshState
  after : TabRefreshState
  deriving DecidableEq

/-- A row that `acceptPageRefresh` has updated. -/
structure Stage where
  tabId : TabId
  revision : ℕ
  updated : Option TabRefreshState
  deriving DecidableEq

/-- What can be seen of a run. -/
inductive Observation where
  /-- a call of `setRefreshParticipant` -/
  | participant (windowId : WindowId) (tabId : TabId) (participant : Bool)
  /-- the watermark of the window becomes that of the refresh -/
  | admitted (refresh : RefreshId) (windowId : WindowId) (incoming : WindowWatermark)
  /-- the refresh becomes the pending one of the tab -/
  | staged (refresh : RefreshId) (tabId : TabId) (windowId : WindowId)
  /-- a call of `dispatchRefresh` -/
  | dispatched (refresh : RefreshId) (tabId : TabId) (command : PendingTabRefresh)
  /-- a call of `onTabCompleted` -/
  | completed (refresh : RefreshId) (completion : TabRefreshCompletion)
  /-- `acceptPageRefresh` returns `true` -/
  | returned (refresh : RefreshId) (windowId : WindowId) (incoming : WindowWatermark)
  | epochBegun (windowId : WindowId)
  | windowRemoved (windowId : WindowId)
  deriving DecidableEq

/-! ## What is suspended -/

/-- A call that awaits `ensureInitialized`. -/
inductive Call where
  /-- `initialize` and `state`; nothing here depends on what they go on to -/
  | initializeOnly
  | panelOpened (tabId : TabId) (windowId : WindowId) (revision : ℕ)
  | panelClosed (tabId : TabId) (revision : ℕ)
  | updateSettings (tabId : TabId) (windowId : WindowId) (settings : TabRefreshSettings)
    (revision : ℕ)
  | acceptPageRefresh (windowId : WindowId) (incoming : PendingTabRefresh) (onTabCompleted : Bool)
  | beginWindowEpoch (windowId : WindowId)
  | activateTab (tabId : TabId) (windowId : WindowId)
  | detachTab (tabId : TabId) (revision : Option ℕ)
  | removeWindow (windowId : WindowId) (removal : RemovalId) (revisions : OrderedMap TabId ℕ)
  deriving DecidableEq

/-- A suspended call. `ran` is what an update of the store gives, once the store has run its
updater. -/
inductive Task where
  | initializing (attempt : AttemptId) (call : Call)
  | panelUpdating (tabId : TabId) (windowId : WindowId) (revision : ℕ)
    (ran : Option (Option TabRefreshState))
  | settingsUpdating (tabId : TabId) (windowId : WindowId) (settings : TabRefreshSettings)
    (revision : ℕ) (ran : Option (Option TabRefreshState))
  /-- `panelClosed` awaits the removal of the window -/
  | removalAwaited (removal : RemovalId) (tabId : TabId) (revision : ℕ)
  /-- `panelClosed` awaits the rows -/
  | closedLoading (tabId : TabId) (revision : ℕ)
  | tabRemoving (tabId : TabId) (revision : ℕ)
  | detachLoading (tabId : TabId) (revision : Option ℕ)
  | removalLoading (windowId : WindowId) (removal : RemovalId) (revisions : OrderedMap TabId ℕ)
  /-- the removal is over; `clearWindowRemoval` is to be called -/
  | removalClearing (windowId : WindowId) (removal : RemovalId)
  deriving DecidableEq

/-- A waiting operation of the queue. -/
inductive QueuedOperation where
  | accept (windowId : WindowId) (incoming : PendingTabRefresh) (onTabCompleted : Bool)
  | epoch (windowId : WindowId)
  | activate (tabId : TabId) (windowId : WindowId)
  deriving DecidableEq

/-- The refresh that the running operation accepts. -/
structure AcceptedRefresh where
  refresh : RefreshId
  windowId : WindowId
  pending : PendingTabRefresh
  onTabCompleted : Bool
  deriving DecidableEq

def AcceptedRefresh.incoming (r : AcceptedRefresh) : WindowWatermark :=
  ⟨r.pending.generation, .known r.pending.mode, some r.refresh⟩

/-- The loop over the rows of the window, at an update. -/
structure Committing where
  refresh : AcceptedRefresh
  previousWatermark : Option WindowWatermark
  activeTabId : Option TabId
  tabId : TabId
  revision : ℕ
  ran : Option (Option RefreshAdmissionCommit × Option TabRefreshState)
  rest : List TabRefreshState
  commits : List RefreshAdmissionCommit
  stages : List Stage
  deriving DecidableEq

/-- `rollbackRefreshAdmission`; it updates the first of `commits`, or is over. -/
structure RollingBack where
  refresh : AcceptedRefresh
  previousWatermark : Option WindowWatermark
  commits : List RefreshAdmissionCommit
  rolledBack : Bool
  /-- `restored`, once the store has run the updater -/
  ran : Option Bool
  deriving DecidableEq

/-- Where the running operation of the queue is suspended. -/
inductive Running where
  | loading (refresh : AcceptedRefresh)
  | admitting (refresh : AcceptedRefresh) (windowStates : List TabRefreshState)
  | locating (refresh : AcceptedRefresh) (windowStates : List TabRefreshState)
    (previousWatermark : Option WindowWatermark)
  | committing (point : Committing)
  | rollingBack (point : RollingBack)
  /-- `beforeControlledTransition` is awaited; `after` is the refresh that is being accepted -/
  | preparing (tabId : TabId) (operation : OperationId) (after : Option AcceptedRefresh)
  | dispatching (tabId : TabId) (operation : OperationId) (after : Option AcceptedRefresh)
  /-- the dispatch is over, and the refresh is accepted -/
  | returning (refresh : AcceptedRefresh)
  | epochLoading (windowId : WindowId)
  | epochUpdating (windowId : WindowId) (tabId : TabId) (ran : Bool) (rest : List TabRefreshState)
  deriving DecidableEq

structure TabRefreshCoordinator where
  watermarks : OrderedMap WindowId WindowWatermark
  lifecycleRevisions : OrderedMap TabId ℕ
  panelWindows : OrderedMap TabId WindowId
  participantWindows : OrderedMap TabId WindowId
  pendingRefreshes : OrderedMap TabId OperationId
  windowRemovals : OrderedMap WindowId RemovalId
  terminalTabs : List TabId
  nextLifecycleRevision : ℕ
  initialization : Option AttemptId
  /-- whether an attempt to initialize has succeeded, once it is settled -/
  attempts : List (Option Bool)
  nextRemoval : RemovalId
  settledRemovals : List RemovalId
  operations : List TabRefreshOperation
  nextRefresh : RefreshId
  queue : List QueuedOperation
  running : Option Running
  tasks : List Task
  observed : List Observation
  deriving DecidableEq

namespace TabRefreshCoordinator

variable (c : TabRefreshCoordinator)

def initial : TabRefreshCoordinator :=
  ⟨∅, ∅, ∅, ∅, ∅, ∅, [], 1, none, [], 0, [], [], 0, [], none, [], []⟩

/-! ## Lifecycles -/

def advanceLifecycle (tabId : TabId) : ℕ × TabRefreshCoordinator :=
  (c.nextLifecycleRevision, { c with
    nextLifecycleRevision := c.nextLifecycleRevision + 1
    lifecycleRevisions := c.lifecycleRevisions.set tabId c.nextLifecycleRevision })

def lifecycleRevision (tabId : TabId) : ℕ := (c.lifecycleRevisions.get? tabId).getD 0

def isCurrentLifecycle (tabId : TabId) (revision : ℕ) : Bool :=
  c.lifecycleRevision tabId = revision

def isCurrentPanelLifecycle (tabId : TabId) (windowId : WindowId) (revision : ℕ) : Bool :=
  c.isCurrentLifecycle tabId revision && c.panelWindows.get? tabId = some windowId &&
    !c.terminalTabs.contains tabId && !c.windowRemovals.has windowId

def retireLifecycle (tabId : TabId) (revision : ℕ) : TabRefreshCoordinator :=
  if c.isCurrentLifecycle tabId revision then
    { c with lifecycleRevisions := c.lifecycleRevisions.delete tabId }
  else c

def markTerminalTab (tabId : TabId) : TabRefreshCoordinator :=
  { c with terminalTabs := tabId :: c.terminalTabs }

/-! ## Panels and participants -/

def currentPanelWindow (tabId : TabId) : Option WindowId :=
  (c.panelWindows.get? tabId).or (c.participantWindows.get? tabId)

/-- `none` is no expectation. -/
def clearPanelWindow (tabId : TabId) (expectedWindowId : Option WindowId) :
    TabRefreshCoordinator :=
  match c.panelWindows.get? tabId with
  | none => c
  | some windowId =>
    if expectedWindowId.any (· ≠ windowId) then c
    else { c with panelWindows := c.panelWindows.delete tabId }

def setParticipant (windowId : WindowId) (tabId : TabId) (participant : Bool) :
    TabRefreshCoordinator :=
  { c with observed := .participant windowId tabId participant :: c.observed }

def grantParticipant (windowId : WindowId) (tabId : TabId) : TabRefreshCoordinator :=
  let previousWindowId := c.participantWindows.get? tabId
  if previousWindowId = some windowId then c
  else
    let c :=
      match previousWindowId with
      | none => c
      | some previous =>
        { c with participantWindows := c.participantWindows.delete tabId }.setParticipant previous
          tabId false
    { c with participantWindows := c.participantWindows.set tabId windowId }.setParticipant windowId
      tabId true

/-- With the window it is revoked in. -/
def revokeIndexedParticipant (tabId : TabId) (expectedWindowId : Option WindowId) :
    Option WindowId × TabRefreshCoordinator :=
  match c.participantWindows.get? tabId with
  | none => (none, c)
  | some windowId =>
    if expectedWindowId.any (· ≠ windowId) then (none, c)
    else
      (some windowId,
        { c with participantWindows := c.participantWindows.delete tabId }.setParticipant windowId
          tabId false)

/-! ## Refresh operations -/

def completeTabRefresh (tabId : TabId) (operation : OperationId) (accepted : Bool) :
    TabRefreshCoordinator :=
  match c.operations[operation]? with
  | none => c
  | some value =>
    if value.completed then c
    else
      let c := { c with operations := c.operations.set operation { value with completed := true } }
      let c :=
        if c.pendingRefreshes.get? tabId = some operation then
          { c with pendingRefreshes := c.pendingRefreshes.delete tabId }
        else c
      if !value.onTabCompleted then c
      else
        let completion : TabRefreshCompletion :=
          { tabId := tabId
            windowId := value.windowId
            refreshGeneration := value.pending.generation
            mode := value.pending.mode
            accepted := accepted }
        { c with observed := .completed value.refresh completion :: c.observed }

def cancelTabRefresh (tabId : TabId) : TabRefreshCoordinator :=
  match c.pendingRefreshes.get? tabId with
  | none => c
  | some operation => c.completeTabRefresh tabId operation false

def isCurrentRefreshOperation (tabId : TabId) (operation : OperationId) : Bool :=
  match c.operations[operation]? with
  | none => false
  | some value =>
    !value.completed && c.pendingRefreshes.get? tabId = some operation &&
      c.isCurrentPanelLifecycle tabId value.windowId value.revision &&
      c.participantWindows.get? tabId = some value.windowId

def clearRuntimePendingForWindow (windowId : WindowId) : TabRefreshCoordinator :=
  c.pendingRefreshes.entries.foldl (fun next entry =>
    match next.operations[entry.2]? with
    | none => next
    | some value =>
      if value.windowId = windowId then next.completeTabRefresh entry.1 entry.2 false else next) c

/-- The tabs of the window, by panel and then by participation. -/
def tabsOfWindow (windowId : WindowId) : List TabId :=
  let panels := (c.panelWindows.entries.filter (·.2 = windowId)).map (·.1)
  let participants := (c.participantWindows.entries.filter (·.2 = windowId)).map (·.1)
  panels ++ participants.filter fun tabId => !panels.contains tabId

/-- A step of the loop of `fenceWindowLifecycle`. -/
def fenceTab (windowId : WindowId) (state : OrderedMap TabId ℕ × TabRefreshCoordinator)
    (tabId : TabId) : OrderedMap TabId ℕ × TabRefreshCoordinator :=
  let (revisions, c) := state
  let fence := fun (c : TabRefreshCoordinator) =>
    let hadPanel := c.panelWindows.get? tabId = some windowId
    let c := (c.clearPanelWindow tabId (some windowId)).cancelTabRefresh tabId
    match c.revokeIndexedParticipant tabId (some windowId) with
    | (none, c) => if hadPanel then c.setParticipant windowId tabId false else c
    | (some _, c) => c
  match revisions.get? tabId with
  | none =>
    let (revision, c) := c.advanceLifecycle tabId
    (revisions.set tabId revision, fence c)
  | some revision => if c.isCurrentLifecycle tabId revision then (revisions, fence c) else state

def fenceWindowLifecycle (windowId : WindowId) (revisions : OrderedMap TabId ℕ) :
    OrderedMap TabId ℕ × TabRefreshCoordinator :=
  (c.tabsOfWindow windowId).foldl (fenceTab windowId) (revisions, c)

/-! ## The queue and the start -/

/-- The attempt to await. -/
def ensureInitialized : AttemptId × TabRefreshCoordinator :=
  match c.initialization with
  | some attempt => (attempt, c)
  | none =>
    (c.attempts.length, { c with
      initialization := some c.attempts.length
      attempts := c.attempts ++ [none] })

def suspend (task : Task) : TabRefreshCoordinator := { c with tasks := c.tasks ++ [task] }

/-- `await this.ensureInitialized()` -/
def awaitInitialized (call : Call) : TabRefreshCoordinator :=
  let (attempt, c) := c.ensureInitialized
  c.suspend (.initializing attempt call)

def enqueue (operation : QueuedOperation) : TabRefreshCoordinator :=
  { c with queue := c.queue ++ [operation] }

/-- A row raises the watermark of its window. -/
def raiseWatermark (watermarks : OrderedMap WindowId WindowWatermark) (state : TabRefreshState) :
    OrderedMap WindowId WindowWatermark :=
  if isNewerRefresh (stateWatermark state) (watermarks.get? state.windowId) then
    watermarks.set state.windowId (stateWatermark state)
  else watermarks

/-- The rows of an attempt arrive, or it fails. -/
def settleInitialization (attempt : AttemptId) (loaded : Option StoredStates) :
    TabRefreshCoordinator :=
  match loaded with
  | some loaded =>
    { c with
      watermarks := loaded.states.foldl raiseWatermark c.watermarks
      attempts := c.attempts.set attempt (some true) }
  | none =>
    { c with
      initialization := if c.initialization = some attempt then none else c.initialization
      attempts := c.attempts.set attempt (some false) }

end TabRefreshCoordinator

end PinOp.Refresh
