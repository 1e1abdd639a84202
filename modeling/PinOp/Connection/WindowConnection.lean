import PinOp.Connection.WindowRecord

/-!
# The connection of a window

What the coordinator does to one window. Listeners and panels are told of states and do not call
back in; a client reports to the callbacks it was made with, `connecting` at most before `link` or
`connect` returns.
-/

namespace PinOp.Connection

open PinOp.Protocol PinOp.Refresh

def reconnectBaseDelayMs : ℕ := 1000
def reconnectMaxDelayMs : ℕ := 5000
def reconnectMaxAttempts : ℕ := 5

namespace Window

/-! ## Authority, timers and clients -/

def revokeClientAuthority (w : Window) : Window :=
  { w with record := { w.record with clientAuthority := none } }

def beginClientAuthority (w : Window) (generation : ℕ) (clientToken : ObjectId) : Window :=
  let w := w.revokeClientAuthority
  if !w.isCurrentToken w.record.id generation clientToken then w
  else
    { w with
      next := w.next + 1
      record := { w.record with
        clientAuthority := some ⟨w.next, generation, clientToken, [], false⟩ } }

def setState (w : Window) (state : BrowserWindowConnectionState) : Window :=
  let w := if state ≠ .linked then w.revokeClientAuthority else w
  if w.record.state = state then w
  else { w with record := { w.record with state := state }, log := .state state :: w.log }

def cancelReconnect (w : Window) : Window :=
  match w.record.reconnectTimer with
  | none => w
  | some timer =>
    { w with
      timers := w.timers.filter fun t => t.id ≠ timer
      record := { w.record with reconnectTimer := none } }

def invalidate (w : Window) : Window :=
  let w := { w with record := { w.record with protocolMismatchTransition := none } }
  let w := w.revokeClientAuthority
  let w := { w with record := { w.record with generation := w.record.generation + 1 } }
  w.cancelReconnect.note .invalidated

/-- `revokeClient` and `disconnectClient`: they differ in what is asked of the client. -/
def disconnectClient (w : Window) : Window :=
  let w := w.revokeClientAuthority
  { w with
    record := { w.record with client := none, clientToken := none, clientConnected := false } }

def revokeClient (w : Window) : Window := w.disconnectClient

/-- What `linkWindow`, `unlinkWindow` and others make of the mapping and of what is pending. -/
def forget (w : Window) (source : Option ClientSource) : Window :=
  { w with
    record := { w.record with
      link := none
      pendingLink := none
      connectionSource := source
      credentialsWritePending := false } }

def resetAttempts (w : Window) : Window :=
  { w with record := { w.record with reconnectAttempts := 0 } }

def clearParticipants (w : Window) : Window :=
  { w with record := { w.record with refreshParticipants := [] } }

def clearMismatch (w : Window) : Window :=
  { w with record := { w.record with protocolMismatch := none } }

def dropPending (w : Window) : Window :=
  { w with record := { w.record with pendingLink := none, credentialsWritePending := false } }

def enqueueStore (w : Window) (task : StoreTask) : Window := { w with queue := w.queue ++ [task] }

def clearOperation (w : Window) : Window :=
  { w with record := { w.record with linkOperationToken := none } }

/-! ## Ends of a connection -/

def stopStoredReconnect (w : Window) : Window :=
  (w.invalidate.disconnectClient.dropPending.resetAttempts).setState .offline

def stopTerminalAttempt (w : Window) (state : BrowserWindowConnectionState) : Window :=
  (w.invalidate.disconnectClient.dropPending.resetAttempts).setState state

def rejectAuthentication (w : Window) : Window :=
  let w := w.invalidate
  let generation := w.record.generation
  let w := ((w.disconnectClient.forget none).resetAttempts).setState .notLinked
  w.enqueueStore (.reject w.record.id generation)

def releaseUnownedConnection (w : Window) : Window :=
  let w := w.invalidate.disconnectClient
  let w := if w.record.link.isNone then w.forget none else w
  w.resetAttempts.setState (if w.record.link.isSome then .offline else .notLinked)

def cancelWindowOperation (w : Window) (generation : ℕ) : Window :=
  if !w.isCurrent w.record.id generation then w
  else ((w.invalidate.revokeClient.forget none).resetAttempts).setState .notLinked

/-! ## Reconnecting -/

def canScheduleReconnect (w : Window) (generation : ℕ) (token : ObjectId) : Bool :=
  w.record.reconnectTimer.isNone && w.record.linkOperationToken.isNone &&
    w.record.hasConnectionOwner && w.record.hasReconnectIntent && w.record.client.isSome &&
      w.isCurrentToken w.record.id generation token

def setTimer (w : Window) (generation : ℕ) (token : ObjectId) : Window :=
  let delay := min (reconnectBaseDelayMs * 2 ^ w.record.reconnectAttempts) reconnectMaxDelayMs
  { w with
    next := w.next + 1
    timers := ⟨w.next, w.record.id, generation, token, delay⟩ :: w.timers
    record := { w.record with
      reconnectAttempts := w.record.reconnectAttempts + 1
      reconnectTimer := some w.next }
    log := .scheduled :: w.log }

def scheduleReconnect (w : Window) (generation : ℕ) (token : Option ObjectId) : Window :=
  match token with
  | none => w
  | some token =>
    if !w.canScheduleReconnect generation token then w
    else if reconnectMaxAttempts ≤ w.record.reconnectAttempts then w.stopStoredReconnect
    else
      let w := w.setState .reconnecting
      if !w.canScheduleReconnect generation token then w else w.setTimer generation token

/-! ## What a client says -/

def beginProtocolMismatchTransition (w : Window) (generation : ℕ) (clientToken : ObjectId) :
    Window :=
  if !w.isCurrentToken w.record.id generation clientToken then w
  else if w.record.protocolMismatchTransition.any fun t =>
      t.generation = generation && t.clientToken = clientToken then w
  else
    let transition := ⟨w.next, generation, clientToken, none⟩
    { w with
      next := w.next + 1
      record := { w.record with protocolMismatchTransition := some transition }
      transitions := transition :: w.transitions }

/-- A connection that ends while a call for the window is in preparation is not made anew. -/
def markLost (w : Window) (token : ObjectId) : Window :=
  if w.record.linkOperationToken.isSome then { w with lost := some token } else w

def endConnection (w : Window) : Window :=
  ({ w with record := { w.record with clientConnected := false } }).revokeClientAuthority

/-- The case `disconnected`, once the client's authority is revoked. -/
def handleDisconnected (w : Window) (generation : ℕ) (token : ObjectId) : Window :=
  match w.record.pendingLink with
  | some (.code _) => w.stopTerminalAttempt .error
  | pendingLink =>
    if pendingLink.isSome && w.record.credentialsWritePending then w.setState .offline
    else if w.record.hasConnectionOwner && w.record.hasReconnectIntent then
      w.scheduleReconnect generation (some token)
    else w.setState (if w.record.link.isSome then .offline else .notLinked)

/-- The case `connected`. -/
def handleConnected (w : Window) (generation : ℕ) (token : ObjectId) : Window :=
  let wasConnected := w.record.clientConnected
  let w := { w with record := { w.record with clientConnected := true } }
  let w :=
    if !wasConnected || w.record.clientAuthority.isNone then w.beginClientAuthority generation token
    else w
  let w := w.clearMismatch.resetAttempts.cancelReconnect
  if w.record.link.isSome && !w.record.credentialsWritePending then w.setState .linked else w

def handleClientState (w : Window) (record generation : ℕ) (token : ObjectId)
    (state : BrowserConnectionState) : Window :=
  if !w.isCurrentToken record generation token then w
  else
    match state with
    | .connecting | .linking =>
      let w := w.endConnection
      if w.record.state ≠ .reconnecting then w.setState .linking else w
    | .reconnecting => w.endConnection.setState .reconnecting
    | .connected => w.handleConnected generation token
    | .disconnected => (w.markLost token).endConnection.handleDisconnected generation token
    | .error => w.endConnection.setState .error
    | .incompatible => w.beginProtocolMismatchTransition generation token

/-- The callback `onStateChanged` of a client. -/
def clientReports (w : Window) (handle : ClientHandle) (state : BrowserConnectionState) : Window :=
  (w.note (.reported handle.token state)).handleClientState handle.record handle.generation
    handle.token state

/-- The code of a `BrowserProtocolError`. -/
inductive ErrorCode where
  | instanceChanged
  | tokenRejected
  | rateLimited
  | invalidCode
  | unreachable
  | linkRejected
  | bridgeOffline
  | other
  deriving DecidableEq

def handleClientError (w : Window) (record generation : ℕ) (token : ObjectId) (code : ErrorCode) :
    Window :=
  if !w.isCurrentToken record generation token then w
  else
    match code with
    | .instanceChanged | .tokenRejected => w.rejectAuthentication
    | .rateLimited => w.stopTerminalAttempt .rateLimited
    | .invalidCode | .unreachable | .linkRejected => w.stopTerminalAttempt .error
    | .bridgeOffline => w.stopStoredReconnect
    | .other => w

/-- `persistCredentials`, up to its operation of the store. -/
def persistCredentials (w : Window) (record generation : ℕ) (token : ObjectId)
    (credentials : BrowserCredentials) : Window :=
  if !w.isCurrentToken record generation token || w.record.credentialsWritePending then w
  else
    match w.record.pendingLink with
    | some (.code pending) =>
      let link : BrowserWindowLink := {
        url := pending.url
        port := pending.port
        sessionId := credentials.sessionId
        bridgeInstanceId := credentials.bridgeInstanceId
        authToken := credentials.authToken
        displayLinkCode := pending.displayLinkCode }
      let w := { w with
        record := { w.record with
          pendingLink := some (.credentials link pending.source)
          credentialsWritePending := true } }
      w.enqueueStore (.save w.record.id generation token link)
    | _ => w

/-- `persistCredentials`, once the store is done. -/
def credentialsPersisted (w : Window) (record generation : ℕ) (token : ObjectId)
    (link : BrowserWindowLink) (outcome : StoreOutcome) : Window :=
  if !w.isCurrentToken record generation token then w
  else
    match outcome with
    | .failed => (w.dropPending.disconnectClient.setState .error).enqueueStore .discard
    | .succeeded _ =>
      let w := { w with
        record := { w.record with
          credentialsWritePending := false
          link := some link
          pendingLink := none } }
      if w.record.clientConnected then w.setState .linked
      else if w.record.hasConnectionOwner then w.scheduleReconnect generation (some token)
      else w

/-! ## Opening clients -/

/-- How a client is made and started: whether `createClient`, a subscription, or `link` or `connect`
throws, and whether the client reports `connecting` before these return. -/
inductive ClientStart where
  | notCreated
  | notSubscribed
  | started (connecting : Bool) (throws : Bool)
  deriving DecidableEq

/-- A call of `link` or `connect`. -/
def startClient (w : Window) (handle : ClientHandle) (connecting : Bool) : Window :=
  if connecting then w.clientReports handle .connecting else w

def openClient (w : Window) (generation : ℕ) (start : ClientStart) : Window :=
  if !w.isCurrent w.record.id generation then w
  else
    let w := w.revokeClientAuthority
    let token := w.next
    let handle : ClientHandle := ⟨token, w.record.id, generation⟩
    let w := { w with
      next := w.next + 1
      record := { w.record with clientToken := some token, clientConnected := false }
      log := .opened token :: w.log }
    match start with
    | .notCreated =>
      ({ w with record := { w.record with clientToken := none } }).setState .error
    | .notSubscribed =>
      let w := { w with clients := handle :: w.clients }
      w.disconnectClient.setState .error
    | .started connecting throws =>
      let w := { w with
        clients := handle :: w.clients
        record := { w.record with client := some token } }
      let w := w.startClient handle connecting
      if throws && w.isCurrentToken handle.record generation token then
        w.disconnectClient.setState .error
      else w

/-! ## Panels and participants -/

def loadStoredLink (w : Window) (generation : ℕ) (source : ClientSource) : Window :=
  w.enqueueStore (.load w.record.id generation source)

/-- `loadStoredLink`, once the store is done. -/
def storedLinkLoaded (w : Window) (record generation : ℕ) (source : ClientSource)
    (outcome : StoreOutcome) (start : ClientStart) : Window :=
  if !w.isCurrent record generation then w
  else
    match outcome with
    | .failed => w.setState .error
    | .succeeded loaded =>
      if !w.record.hasConnectionOwner then w
      else
        match loaded with
        | none => w.setState .notLinked
        | some link =>
          let w := { w with
            record := { w.record with link := some link, connectionSource := some source } }
          (w.setState .linking).openClient generation start

def nextGeneration (w : Window) : Window :=
  { w with record := { w.record with generation := w.record.generation + 1 } }

def pendingSource : PendingLink → ClientSource
  | .code pending => pending.source
  | .credentials _ source => source

def activateFirstPanel (w : Window) (source : ClientSource) (start : ClientStart) : Window :=
  if w.record.client.isSome then
    if w.record.state ≠ .linked && w.record.state ≠ .linking && w.record.state ≠ .reconnecting &&
        w.record.state ≠ .incompatible && w.record.hasReconnectIntent then
      w.scheduleReconnect w.record.generation w.record.clientToken
    else w
  else if w.record.state = .linking && w.record.pendingLink.isNone && w.record.link.isNone then w
  else
    match w.record.pendingLink with
    | some pendingLink =>
      let w := { w with
        record := { w.record with connectionSource := some (pendingSource pendingLink) } }
      (w.setState .linking).openClient w.record.generation start
    | none =>
      let source := w.record.connectionSource.getD source
      if w.record.link.isSome then
        let w := w.nextGeneration
        let w := { w with record := { w.record with connectionSource := some source } }
        (w.setState .linking).openClient w.record.generation start
      else
        let w := w.nextGeneration
        w.loadStoredLink w.record.generation source

/-- `recordFor` -/
def ensureRecord (w : Window) : Window :=
  if w.present then w
  else { w with present := true, next := w.next + 1, record := .new w.next }

end Window

end PinOp.Connection
