import PinOp.Browser.StylesProtocol

/-!
# The model of matched styles

`MatchedStylesModel` keeps the styles of the current selection. A method runs until it awaits
a request or the end of another load; what is left of it then is a task of the world around
the model, as are the queued invalidation and the timers of cancelled loads. Objects that the
source compares by identity carry an `id`, taken from `nextObject`. Listeners and callbacks
are not modelled, as none of them reads or writes the model; what they would see is in
`observed`, newest first, with the authority the model takes over and gives up.
-/

namespace PinOp.Browser

open PinOp.Protocol

abbrev ObjectId := ℕ

structure SelectionIdentity where
  documentEpoch : ℕ
  nodeRef : String
  selectionRevision : ℕ
  deriving DecidableEq

/-- A frozen `MatchedStylesModelSelection` object. -/
structure MatchedStylesModelSelection where
  id : ObjectId
  identity : SelectionIdentity
  deriving DecidableEq

/-- A frozen `MatchedStylesModelKey` object. -/
structure MatchedStylesModelKey where
  id : ObjectId
  identity : SelectionIdentity
  authority : StylesRevisionAuthority
  deriving DecidableEq

inductive MatchedStylesModelState where
  | idle
  | loading
  | ready
  | partly
  | error
  deriving DecidableEq

inductive SnapshotKey where
  | selection (selection : MatchedStylesModelSelection)
  | key (key : MatchedStylesModelKey)
  deriving DecidableEq

def SnapshotKey.identity : SnapshotKey → SelectionIdentity
  | .selection current => current.identity
  | .key accepted => accepted.identity

structure MatchedStylesModelSnapshot where
  state : MatchedStylesModelState
  generation : ℕ
  key : Option SnapshotKey
  styles : Option MatchedStyles
  errorCode : Option StylesErrorCode
  deriving DecidableEq

structure StylesheetReset where
  documentEpoch : ℕ
  stylesheetRevision : ℕ
  deriving DecidableEq

/-- A pseudo-state intent that goes on once the load it awaits is over. -/
structure PseudoIntent where
  canonical : List PseudoState
  selection : MatchedStylesModelSelection
  intentGeneration : ℕ
  reconciliationCount : ℕ
  deriving DecidableEq

structure LoadTask where
  generation : ℕ
  controller : ObjectId
  selection : MatchedStylesModelSelection
  request : StylesGetMatchedRequest
  awaitedBy : Option PseudoIntent
  deriving DecidableEq

structure PseudoSetTask where
  generation : ℕ
  controller : ObjectId
  selection : MatchedStylesModelSelection
  accepted : MatchedStylesModelKey
  intentGeneration : ℕ
  request : StylesSetPseudoStatesRequest
  deriving DecidableEq

inductive Task where
  | load (task : LoadTask)
  | pseudoSet (task : PseudoSetTask)
  | resume (intent : PseudoIntent)
  deriving DecidableEq

structure RetryTimer where
  id : ObjectId
  generation : ℕ
  selection : MatchedStylesModelSelection
  deriving DecidableEq

/-- What can be seen of a run. -/
inductive Observation where
  /-- with the selection at that moment -/
  | published (snapshot : MatchedStylesModelSnapshot)
    (selection : Option MatchedStylesModelSelection)
  /-- the authority of a response that is accepted -/
  | accepted (authority : StylesRevisionAuthority)
  /-- the authority of an invalidation that is admitted -/
  | admitted (authority : StylesRevisionAuthority)
  | cleared
  deriving DecidableEq

structure MatchedStylesModel where
  state : MatchedStylesModelSnapshot
  generation : ℕ
  pseudoIntentGeneration : ℕ
  nextRequestSequence : ℕ
  controller : Option ObjectId
  aborted : List ObjectId
  selection : Option MatchedStylesModelSelection
  revisionAuthority : Option StylesRevisionAuthority
  lastAcceptedKey : Option MatchedStylesModelKey
  lastStylesheetReset : Option StylesheetReset
  invalidationQueued : Bool
  pendingInvalidation : Option StylesRevisionAuthority
  pendingReloadGeneration : Option ℕ
  cancelledRetries : ℕ
  cancelledRetryTimers : List RetryTimer
  disposed : Bool
  nextObject : ObjectId
  tasks : List Task
  /-- the generations of the queued callbacks -/
  microtasks : List ℕ
  observed : List Observation
  deriving DecidableEq

/-- What `options.createRequestId` gives. -/
inductive CreatedRequestId where
  | missing
  | given (requestId : String)
  | thrown
  deriving DecidableEq

def maxCancelledLoadRetries : ℕ := 12

def maxPseudoIntentReconciliations : ℕ := 8

namespace MatchedStylesModel

def idle (generation : ℕ) : MatchedStylesModelSnapshot := ⟨.idle, generation, none, none, none⟩

def initial : MatchedStylesModel :=
  ⟨idle 0, 0, 0, 1, none, [], none, none, none, none, false, none, none, 0, [], false, 0, [], [],
    []⟩

/-! ## Parts of the methods -/

def publish (m : MatchedStylesModel) (snapshot : MatchedStylesModelSnapshot) :
    MatchedStylesModel :=
  if m.disposed then m
  else { m with state := snapshot, observed := .published snapshot m.selection :: m.observed }

def cancelCurrent (m : MatchedStylesModel) : MatchedStylesModel :=
  { m with controller := none, aborted := m.controller.toList ++ m.aborted }

def clearRevisionAuthority (m : MatchedStylesModel) : MatchedStylesModel :=
  { m with
    revisionAuthority := none
    lastAcceptedKey := none
    lastStylesheetReset := none
    pendingInvalidation := none
    invalidationQueued := false
    pendingReloadGeneration := none
    observed := .cleared :: m.observed }

/-- A new object. -/
def newObject (m : MatchedStylesModel) : ObjectId × MatchedStylesModel :=
  (m.nextObject, { m with nextObject := m.nextObject + 1 })

/-- `none` is a thrown error. -/
def createRequestId (m : MatchedStylesModel) (created : CreatedRequestId) :
    Option String × MatchedStylesModel :=
  match created with
  | .thrown => (none, m)
  | .given requestId =>
    (if jsLength requestId = 0 || 128 < jsLength requestId then none else some requestId, m)
  | .missing =>
    (some ("styles-model-" ++ m.nextRequestSequence.repr),
      { m with nextRequestSequence := m.nextRequestSequence + 1 })

def isCurrent (m : MatchedStylesModel) (generation : ℕ) (controller : ObjectId) : Bool :=
  !m.disposed && m.generation = generation && m.controller = some controller &&
    !m.aborted.contains controller

def isPseudoSetCurrent (m : MatchedStylesModel) (task : PseudoSetTask) : Bool :=
  m.isCurrent task.generation task.controller &&
    m.pseudoIntentGeneration = task.intentGeneration && m.selection = some task.selection &&
    m.lastAcceptedKey = some task.accepted

def isPseudoIntentCurrent (m : MatchedStylesModel) (intent : PseudoIntent) : Bool :=
  !m.disposed && m.pseudoIntentGeneration = intent.intentGeneration &&
    m.selection = some intent.selection

/-- The accepted key, when it is of the same selection. -/
def acceptedFor (m : MatchedStylesModel) (selection : MatchedStylesModelSelection) :
    Option MatchedStylesModelKey :=
  m.lastAcceptedKey.filter fun key => key.identity = selection.identity

def freshestPseudoAuthority (m : MatchedStylesModel) (selection : MatchedStylesModelSelection) :
    Option StylesRevisionAuthority :=
  let authority := m.revisionAuthority.filter fun authority =>
    authority.documentEpoch = selection.identity.documentEpoch
  match m.acceptedFor selection, authority with
  | none, _ => authority
  | some accepted, none => some accepted.authority
  | some accepted, some authority =>
    some (if revisionPairMeetsFloor accepted.authority authority then accepted.authority
      else authority)

/-- `notifyStylesheetReset`; what it tells the callback is what it keeps. -/
def notifyStylesheetReset (m : MatchedStylesModel) (authority : StylesRevisionAuthority) :
    MatchedStylesModel :=
  let reset : StylesheetReset := ⟨authority.documentEpoch, authority.stylesheetRevision⟩
  let previous := m.lastStylesheetReset.filter fun previous =>
    previous.documentEpoch = authority.documentEpoch
  let accepted := m.lastAcceptedKey.filter fun key =>
    key.identity.documentEpoch = authority.documentEpoch
  match previous, accepted with
  | some previous, _ =>
    if authority.stylesheetRevision ≤ previous.stylesheetRevision then m
    else { m with lastStylesheetReset := some reset }
  | none, some key =>
    if authority.stylesheetRevision ≤ key.authority.stylesheetRevision then m
    else { m with lastStylesheetReset := some reset }
  | none, none => { m with lastStylesheetReset := some reset }

/-! ## Loading -/

/-- `load` up to its request; `awaitedBy` goes on when the load is over. -/
def load (m : MatchedStylesModel) (selection : MatchedStylesModelSelection) (manualRefresh : Bool)
    (awaitedBy : Option PseudoIntent) (created : CreatedRequestId) : MatchedStylesModel :=
  let m := if m.selection = some selection then m else { m with cancelledRetries := 0 }
  let m := m.cancelCurrent
  let generation := m.generation + 1
  let m := { m with generation := generation, pendingReloadGeneration := none }
  let (controller, m) := m.newObject
  let m := { m with controller := some controller }
  let m := m.publish ⟨.loading, generation, some (.selection selection), none, none⟩
  let pseudoAuthority := m.freshestPseudoAuthority selection
  match m.createRequestId created with
  | (none, m) => m
  | (some requestId, m) =>
    let request : StylesGetMatchedRequest :=
      { requestId := requestId
        documentEpoch := selection.identity.documentEpoch
        nodeRef := selection.identity.nodeRef
        selectionRevision := selection.identity.selectionRevision
        pseudoStateRevision := (pseudoAuthority.map (·.pseudoStateRevision)).getD 0
        pseudoStates := (pseudoAuthority.map (·.pseudoStates)).getD []
        manualRefresh := manualRefresh }
    { m with tasks := m.tasks ++ [.load ⟨generation, controller, selection, request, awaitedBy⟩] }

/-- Whether it reloads, which it does instead of an error. -/
def reloadPendingFloor (m : MatchedStylesModel) (generation : ℕ)
    (selection : MatchedStylesModelSelection) (created : CreatedRequestId) :
    Bool × MatchedStylesModel :=
  match m.revisionAuthority with
  | none => (false, m)
  | some floor =>
    if m.pendingReloadGeneration ≠ some generation ||
        floor.documentEpoch ≠ selection.identity.documentEpoch then (false, m)
    else
      let m := { m with pendingReloadGeneration := none }.notifyStylesheetReset floor
      if !m.disposed && m.generation = generation && m.selection = some selection then
        (true, m.load selection false none created)
      else (true, m)

/-- Whether it retries later. -/
def retryCancelledLoad (m : MatchedStylesModel) (generation : ℕ)
    (selection : MatchedStylesModelSelection) (errorCode : StylesErrorCode) :
    Bool × MatchedStylesModel :=
  if errorCode ≠ .cancelled || maxCancelledLoadRetries ≤ m.cancelledRetries || m.disposed ||
      m.generation ≠ generation || m.selection ≠ some selection then (false, m)
  else
    let m := { m with cancelledRetries := m.cancelledRetries + 1, pendingReloadGeneration := none }
    let (timer, m) := m.newObject
    (true,
      { m with cancelledRetryTimers := m.cancelledRetryTimers ++ [⟨timer, generation, selection⟩] })

def publishError (m : MatchedStylesModel) (generation : ℕ) (key : SnapshotKey)
    (errorCode : StylesErrorCode) : MatchedStylesModel :=
  { m with pendingReloadGeneration := none }.publish
    ⟨.error, generation, some key, none, some errorCode⟩

def publishLoadErrorOrReload (m : MatchedStylesModel) (generation : ℕ)
    (selection : MatchedStylesModelSelection) (errorCode : StylesErrorCode)
    (created : CreatedRequestId) : MatchedStylesModel :=
  match m.reloadPendingFloor generation selection created with
  | (true, m) => m
  | (false, m) =>
    match m.retryCancelledLoad generation selection errorCode with
    | (true, m) => m
    | (false, m) => m.publishError generation (.selection selection) errorCode

def publishPseudoSetErrorOrReload (m : MatchedStylesModel) (task : PseudoSetTask)
    (errorCode : StylesErrorCode) (created : CreatedRequestId) : MatchedStylesModel :=
  match m.reloadPendingFloor task.generation task.selection created with
  | (true, m) => m
  | (false, m) => m.publishError task.generation (.key task.accepted) errorCode

/-- There is no floor, or the authority is of its epoch and meets it. -/
def meetsFloor (m : MatchedStylesModel) (authority : StylesRevisionAuthority) : Bool :=
  m.revisionAuthority.all fun floor =>
    floor.documentEpoch = authority.documentEpoch && revisionPairMeetsFloor authority floor

/-- The model takes the authority of a response over. -/
def accept (m : MatchedStylesModel) (identity : SelectionIdentity)
    (authority : StylesRevisionAuthority) : MatchedStylesModelKey × MatchedStylesModel :=
  let (id, m) := m.newObject
  let key : MatchedStylesModelKey := ⟨id, identity, authority⟩
  (key, { m with
    revisionAuthority := some authority
    lastAcceptedKey := some key
    observed := .accepted authority :: m.observed })

/-- A response whose authority meets the floor. -/
def acceptMatched (m : MatchedStylesModel) (task : LoadTask) (response : StylesMatchedResponse) :
    MatchedStylesModel :=
  let m := { m with pendingReloadGeneration := none }.notifyStylesheetReset response.authority
  if m.disposed || m.generation ≠ task.generation || m.selection ≠ some task.selection then m
  else
    let (key, m) := m.accept task.selection.identity response.authority
    { m with cancelledRetries := 0 }.publish
      ⟨if response.styles.isPartial then .partly else .ready, task.generation, some (.key key),
        some response.styles, none⟩

/-- `load` from its response on; `none` is a request that failed, or a response that does not
parse. -/
def loadSettled (m : MatchedStylesModel) (task : LoadTask) (outcome : Option StylesResponse)
    (created : CreatedRequestId) : MatchedStylesModel :=
  if !m.isCurrent task.generation task.controller then m
  else
    let m := { m with controller := none }
    let fail := fun code => m.publishLoadErrorOrReload task.generation task.selection code created
    match outcome with
    | none => fail .internalError
    | some response =>
      if !task.request.answeredBy response then fail .internalError
      else
        match response with
        | .error response => fail response.code
        | .pseudoStates _ => fail .internalError
        | .matched response =>
          if !m.meetsFloor response.authority then fail .internalError
          else m.acceptMatched task response

/-! ## Pseudo states -/

/-- `setPseudoStatesForIntent` from its request on. -/
def sendPseudoStates (m : MatchedStylesModel) (intent : PseudoIntent)
    (accepted : MatchedStylesModelKey) (created : CreatedRequestId) : MatchedStylesModel :=
  let m := m.cancelCurrent
  let generation := m.generation + 1
  let m := { m with generation := generation, pendingReloadGeneration := none }
  let (controller, m) := m.newObject
  let m := { m with controller := some controller }
  let m := m.publish ⟨.loading, generation, some (.key accepted), none, none⟩
  match m.createRequestId created with
  | (none, m) => m
  | (some requestId, m) =>
    let selection := intent.selection.identity
    let request : StylesSetPseudoStatesRequest :=
      { requestId := requestId
        documentEpoch := selection.documentEpoch
        nodeRef := selection.nodeRef
        selectionRevision := selection.selectionRevision
        expectedStylesRevision := accepted.authority.stylesRevision
        expectedPseudoStateRevision := accepted.authority.pseudoStateRevision
        states := intent.canonical }
    let task : PseudoSetTask :=
      ⟨generation, controller, intent.selection, accepted, intent.intentGeneration, request⟩
    if !m.isPseudoSetCurrent task then m else { m with tasks := m.tasks ++ [.pseudoSet task] }

/-- The floor is of the selection's epoch, and the accepted key does not meet it. -/
def acceptedBelowFloor (m : MatchedStylesModel) (selection : MatchedStylesModelSelection)
    (accepted : MatchedStylesModelKey) : Bool :=
  m.revisionAuthority.any fun floor =>
    floor.documentEpoch = selection.identity.documentEpoch &&
      !revisionPairMeetsFloor accepted.authority floor

def setPseudoStatesForIntent (m : MatchedStylesModel) (intent : PseudoIntent)
    (created : CreatedRequestId) : MatchedStylesModel :=
  if !m.isPseudoIntentCurrent intent then m
  else
    match m.acceptedFor intent.selection with
    | none => m
    | some accepted =>
      let next := { intent with reconciliationCount := intent.reconciliationCount + 1 }
      if maxPseudoIntentReconciliations ≤ intent.reconciliationCount then
        let m := m.cancelCurrent
        let m := { m with generation := m.generation + 1, pendingReloadGeneration := none }
        m.publish ⟨.error, m.generation, some (.key accepted), none, some .internalError⟩
      else if m.acceptedBelowFloor intent.selection accepted then
        m.load intent.selection false (some next) created
      else if intent.canonical = accepted.authority.pseudoStates then
        if m.state.state = .loading then m.load intent.selection false (some next) created else m
      else m.sendPseudoStates intent accepted created

/-- The response is the next revision after the one the request was sent with. -/
def follows (authority accepted : StylesRevisionAuthority) : Bool :=
  authority.stylesRevision = accepted.stylesRevision + 1 &&
    authority.stylesheetRevision = accepted.stylesheetRevision &&
    authority.pseudoStateRevision = accepted.pseudoStateRevision + 1

def pseudoSetSettled (m : MatchedStylesModel) (task : PseudoSetTask)
    (outcome : Option StylesResponse) (created : CreatedRequestId) : MatchedStylesModel :=
  if !m.isPseudoSetCurrent task then m
  else
    let m := { m with controller := none }
    let fail := fun code => m.publishPseudoSetErrorOrReload task code created
    match outcome with
    | none => fail .internalError
    | some response =>
      if !task.request.answeredBy response then fail .internalError
      else
        match response with
        | .error response => fail response.code
        | .matched _ => fail .internalError
        | .pseudoStates response =>
          if !follows response.authority task.accepted.authority then fail .internalError
          else if !m.meetsFloor response.authority then fail .internalError
          else
            let m := (m.accept task.selection.identity response.authority).2
            if !m.disposed && m.generation = task.generation && m.selection = some task.selection then
              m.load task.selection false none created
            else m

/-! ## The methods -/

/-- `requireSelection` -/
def validSelection (selection : SelectionIdentity) : Bool :=
  0 < jsLength selection.nodeRef && jsLength selection.nodeRef ≤ 128 &&
    validRevision selection.documentEpoch && validRevision selection.selectionRevision

def select (m : MatchedStylesModel) (selection : SelectionIdentity) (created : CreatedRequestId) :
    MatchedStylesModel :=
  if m.disposed || !validSelection selection then m
  else
    let (id, m) := m.newObject
    let key : MatchedStylesModelSelection := ⟨id, selection⟩
    if m.selection.any (fun current => current.identity = selection) && m.state.state ≠ .error then m
    else
      let otherEpoch :=
        m.selection.any (fun current => current.identity.documentEpoch ≠ selection.documentEpoch) ||
          m.revisionAuthority.any fun authority =>
            authority.documentEpoch ≠ selection.documentEpoch
      let m := if otherEpoch then m.clearRevisionAuthority else m
      { m with selection := some key }.load key false none created

def refresh (m : MatchedStylesModel) (created : CreatedRequestId) : MatchedStylesModel :=
  match m.selection with
  | none => m
  | some selection => if m.disposed then m else m.load selection true none created

def setPseudoStates (m : MatchedStylesModel) (states : List PseudoState)
    (created : CreatedRequestId) : MatchedStylesModel :=
  if m.disposed || !validPseudoStates states then m
  else
    match m.selection with
    | none => m
    | some selection =>
      if (m.acceptedFor selection).isNone then m
      else
        let m := { m with pseudoIntentGeneration := m.pseudoIntentGeneration + 1 }.cancelCurrent
        m.setPseudoStatesForIntent ⟨states, selection, m.pseudoIntentGeneration, 0⟩ created

/-- The invalidation is of another document than the selection, or not newer than the authority. -/
def refusesInvalidation (m : MatchedStylesModel) (event : StylesRevisionAuthority) : Bool :=
  m.selection.any (fun selection => event.documentEpoch ≠ selection.identity.documentEpoch) ||
    m.revisionAuthority.any fun authority =>
      event.documentEpoch < authority.documentEpoch ||
        (event.documentEpoch = authority.documentEpoch && !strictlyNewerRevisionPair event authority)

def invalidate (m : MatchedStylesModel) (event : StylesRevisionAuthority) : MatchedStylesModel :=
  if m.disposed || m.refusesInvalidation event then m
  else
    let m := { m with
      revisionAuthority := some event
      cancelledRetries := 0
      observed := .admitted event :: m.observed }
    if m.selection.isNone then m
    else if m.state.state = .loading then
      { m with pendingReloadGeneration := some m.generation }
    else
      let m := { m with pendingInvalidation := some event }
      if m.invalidationQueued then m
      else { m with invalidationQueued := true, microtasks := m.microtasks ++ [m.generation] }

/-- The callback that `invalidate` enqueues. -/
def runInvalidation (m : MatchedStylesModel) (generation : ℕ) (created : CreatedRequestId) :
    MatchedStylesModel :=
  let latest := m.pendingInvalidation
  let stale := m.disposed || generation ≠ m.generation
  let m := { m with invalidationQueued := false, pendingInvalidation := none }
  if stale then m
  else
    match latest, m.selection with
    | some latest, some liveSelection =>
      if latest.documentEpoch ≠ liveSelection.identity.documentEpoch then m
      else
        let m := m.notifyStylesheetReset latest
        if m.disposed || generation ≠ m.generation || m.selection ≠ some liveSelection then m
        else m.load liveSelection false none created
    | _, _ => m

/-- The callback of a timer. -/
def runRetry (m : MatchedStylesModel) (timer : RetryTimer) (created : CreatedRequestId) :
    MatchedStylesModel :=
  if m.disposed || m.generation ≠ timer.generation || m.selection ≠ some timer.selection then m
  else m.load timer.selection false none created

def reset (m : MatchedStylesModel) : MatchedStylesModel :=
  if m.disposed then m
  else
    let m := m.cancelCurrent
    let m := { m with generation := m.generation + 1, selection := none }.clearRevisionAuthority
    m.publish (idle m.generation)

def dispose (m : MatchedStylesModel) : MatchedStylesModel :=
  if m.disposed then m
  else
    let m := { m with cancelledRetryTimers := [] }.cancelCurrent
    let m := { m with
      disposed := true
      generation := m.generation + 1
      selection := none }.clearRevisionAuthority
    { m with state := idle m.generation }

/-! ## Steps -/

/-- What happens next: a call, the settling of a request, or the turn of something that waits.
`created` is what the option of that name gives if the step asks for a request id. -/
inductive Action where
  | select (selection : SelectionIdentity) (created : CreatedRequestId)
  | refresh (created : CreatedRequestId)
  | setPseudoStates (states : List PseudoState) (created : CreatedRequestId)
  | invalidate (event : StylesRevisionAuthority)
  | reset
  | dispose
  | settle (index : ℕ) (outcome : Option StylesResponse) (created : CreatedRequestId)
  | resume (index : ℕ) (created : CreatedRequestId)
  | microtask (index : ℕ) (created : CreatedRequestId)
  | timer (index : ℕ) (created : CreatedRequestId)
  deriving DecidableEq

/-- The intent that awaits the load goes on in a turn of its own. -/
def resumeLater (m : MatchedStylesModel) (awaitedBy : Option PseudoIntent) : MatchedStylesModel :=
  { m with tasks := m.tasks ++ awaitedBy.toList.map Task.resume }

/-- The step of an action; an index that nothing waits at is no step. -/
def apply (m : MatchedStylesModel) : Action → Option MatchedStylesModel
  | .select selection created => some (m.select selection created)
  | .refresh created => some (m.refresh created)
  | .setPseudoStates states created => some (m.setPseudoStates states created)
  | .invalidate event => some (m.invalidate event)
  | .reset => some m.reset
  | .dispose => some m.dispose
  | .settle index outcome created =>
    let rest := { m with tasks := m.tasks.eraseIdx index }
    match m.tasks[index]? with
    | some (.load task) =>
      some ((rest.loadSettled task outcome created).resumeLater task.awaitedBy)
    | some (.pseudoSet task) => some (rest.pseudoSetSettled task outcome created)
    | _ => none
  | .resume index created =>
    match m.tasks[index]? with
    | some (.resume intent) =>
      some ({ m with tasks := m.tasks.eraseIdx index }.setPseudoStatesForIntent intent created)
    | _ => none
  | .microtask index created =>
    match m.microtasks[index]? with
    | some generation =>
      some ({ m with microtasks := m.microtasks.eraseIdx index }.runInvalidation generation created)
    | none => none
  | .timer index created =>
    match m.cancelledRetryTimers[index]? with
    | some timer =>
      some ({ m with cancelledRetryTimers := m.cancelledRetryTimers.eraseIdx index }.runRetry timer
        created)
    | none => none

end MatchedStylesModel

end PinOp.Browser
