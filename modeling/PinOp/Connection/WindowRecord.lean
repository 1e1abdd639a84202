import PinOp.Protocol.Messages
import PinOp.Refresh.RefreshState

/-!
# What is kept of a browser window

A window has a record while it is known, and a mapping in the store that outlives it. Objects that
the source tells apart by identity (records, tokens, clients, timers, authorities) are numbers
handed out in order. A client and the token it is opened under have one number.
-/

namespace PinOp.Connection

open PinOp.Protocol PinOp.Refresh

abbrev ObjectId := ℕ

inductive BrowserWindowConnectionState where
  | notLinked
  | linking
  | linked
  | reconnecting
  | offline
  | rateLimited
  | incompatible
  | error
  deriving DecidableEq

/-- The state of one client. -/
inductive BrowserConnectionState where
  | disconnected
  | connecting
  | linking
  | reconnecting
  | connected
  | incompatible
  | error
  deriving DecidableEq

structure BrowserWindowLink where
  url : String
  port : ℕ
  sessionId : String
  bridgeInstanceId : String
  authToken : String
  displayLinkCode : String
  deriving DecidableEq

structure BrowserCredentials where
  sessionId : String
  bridgeInstanceId : String
  authToken : String
  deriving DecidableEq

def credentialsFor (link : BrowserWindowLink) : BrowserCredentials :=
  ⟨link.sessionId, link.bridgeInstanceId, link.authToken⟩

structure ParsedLinkCode where
  value : String
  port : ℕ
  pin : String
  url : String
  deriving DecidableEq

structure PendingCodeLink where
  url : String
  port : ℕ
  pin : String
  displayLinkCode : String
  source : ClientSource
  deriving DecidableEq

inductive PendingLink where
  | code (pending : PendingCodeLink)
  | credentials (link : BrowserWindowLink) (source : ClientSource)
  deriving DecidableEq

structure RegistrationEntry where
  id : ObjectId
  tabId : TabId
  sourceId : String
  deriving DecidableEq

structure BrowserProtocolMismatch where
  peerProtocolVersion : Option ℕ
  deriving DecidableEq

structure ProtocolMismatchTransition where
  id : ObjectId
  generation : ℕ
  clientToken : ObjectId
  details : Option BrowserProtocolMismatch
  deriving DecidableEq

/-- `contexts` are the objects it authorises. -/
structure ClientAuthorityEpoch where
  id : ObjectId
  generation : ℕ
  clientToken : ObjectId
  contexts : List ObjectId
  revoked : Bool
  deriving DecidableEq

structure WindowRecord where
  id : ObjectId
  registrations : List RegistrationEntry
  refreshParticipants : List TabId
  generation : ℕ
  state : BrowserWindowConnectionState
  client : Option ObjectId
  clientToken : Option ObjectId
  clientAuthority : Option ClientAuthorityEpoch
  clientConnected : Bool
  connectionSource : Option ClientSource
  link : Option BrowserWindowLink
  pendingLink : Option PendingLink
  credentialsWritePending : Bool
  reconnectTimer : Option ObjectId
  reconnectAttempts : ℕ
  protocolMismatch : Option BrowserProtocolMismatch
  protocolMismatchTransition : Option ProtocolMismatchTransition
  linkOperationToken : Option ObjectId
  deriving DecidableEq

namespace WindowRecord

def hasReconnectIntent (r : WindowRecord) : Bool := r.link.isSome

def hasConnectionOwner (r : WindowRecord) : Bool :=
  0 < r.registrations.length || 0 < r.refreshParticipants.length

def hasLinkReplacement (r : WindowRecord) : Bool :=
  r.state = .linked || r.state = .linking || r.client.isSome || r.clientAuthority.isSome ||
    r.link.isSome || r.pendingLink.isSome

/-- A record as `recordFor` makes it. -/
def new (id : ObjectId) : WindowRecord where
  id := id
  registrations := []
  refreshParticipants := []
  generation := 0
  state := .notLinked
  client := none
  clientToken := none
  clientAuthority := none
  clientConnected := false
  connectionSource := none
  link := none
  pendingLink := none
  credentialsWritePending := false
  reconnectTimer := none
  reconnectAttempts := 0
  protocolMismatch := none
  protocolMismatchTransition := none
  linkOperationToken := none

end WindowRecord

/-! ## What goes on around a record -/

/-- What a callback of a client closes over; the token is the client's too. -/
structure ClientHandle where
  token : ObjectId
  record : ObjectId
  generation : ℕ
  deriving DecidableEq

structure ReconnectTimer where
  id : ObjectId
  record : ObjectId
  generation : ℕ
  token : ObjectId
  delay : ℕ
  deriving DecidableEq

inductive CallKind where
  | link (code : ParsedLinkCode) (source : ClientSource)
  | unlink
  | remove
  deriving DecidableEq

/-- How far a call of `linkWindow`, `unlinkWindow` or `removeWindow` is. -/
inductive Stage where
  /-- waits for `beforeControlledTransition` -/
  | hook
  | prepared
  /-- is aborted while it waited for the hook -/
  | hookFailed
  /-- waits for its operation of the store -/
  | store
  | stored (succeeded : Bool)
  | settled (fulfilled : Bool)
  deriving DecidableEq

/-- A call, under its `operationToken`. `record` is the one it found when it was made,
`preparation` the generation of then, and `generation` the one that it made itself. -/
structure Call where
  id : ObjectId
  kind : CallKind
  record : Option ObjectId
  preparation : ℕ
  generation : ℕ
  aborted : Bool
  stage : Stage
  deriving DecidableEq

/-- An operation in the queue of the window's store. -/
inductive StoreTask where
  /-- of a call -/
  | remove (call : ObjectId)
  /-- of `loadStoredLink` -/
  | load (record : ObjectId) (generation : ℕ) (source : ClientSource)
  /-- of `persistCredentials` -/
  | save (record : ObjectId) (generation : ℕ) (token : ObjectId) (link : BrowserWindowLink)
  /-- of `rejectAuthentication` -/
  | reject (record : ObjectId) (generation : ℕ)
  /-- of no one -/
  | discard
  deriving DecidableEq

/-- What the store is asked for. -/
inductive StoreAction where
  | remove
  | load
  | save (link : BrowserWindowLink)
  deriving DecidableEq

/-- How an operation went; `loaded` where it is a load. -/
inductive StoreOutcome where
  | succeeded (loaded : Option BrowserWindowLink)
  | failed
  deriving DecidableEq

/-- What can be seen of a window, newest first. -/
inductive Entry where
  /-- a call of `linkWindow`, or of `unlinkWindow` or `removeWindow` -/
  | called (call : ObjectId) (links : Bool)
  | fulfilled (call : ObjectId)
  | rejected (call : ObjectId)
  /-- a call of `registerPanel`, of a registration's `dispose`, or of `setRefreshParticipant` -/
  | owned
  /-- `createClient` is called -/
  | opened (client : ObjectId)
  /-- credentials are saved -/
  | saved
  | state (state : BrowserWindowConnectionState)
  | reported (client : ObjectId) (state : BrowserConnectionState)
  /-- a reconnect is scheduled -/
  | scheduled
  /-- a generation is over -/
  | invalidated
  /-- a message of the client's is accepted with the context -/
  | delivered (client : ObjectId) (context : ObjectId)
  /-- a send for the context failed -/
  | failed (client : ObjectId)
  deriving DecidableEq

/-- A window of the browser. `present` says whether `record` is the window's; a record that is no
longer is not looked at again. `lost` is a client whose connection ended while a call for the
window was in preparation. -/
structure Window where
  disposed : Bool
  next : ObjectId
  present : Bool
  record : WindowRecord
  clients : List ClientHandle
  timers : List ReconnectTimer
  calls : List Call
  transitions : List ProtocolMismatchTransition
  queue : List StoreTask
  running : Option StoreAction
  answers : List (StoreTask × StoreOutcome)
  stored : Option BrowserWindowLink
  log : List Entry
  lost : Option ObjectId
  deriving DecidableEq

namespace Window

/-- A window that the coordinator does not know yet. -/
def initial (stored : Option BrowserWindowLink) : Window where
  disposed := false
  next := 1
  present := false
  record := .new 0
  clients := []
  timers := []
  calls := []
  transitions := []
  queue := []
  running := none
  answers := []
  stored := stored
  log := []
  lost := none

def state (w : Window) : BrowserWindowConnectionState :=
  if w.present then w.record.state else .notLinked

def note (w : Window) (e : Entry) : Window := { w with log := e :: w.log }

def isCurrent (w : Window) (record : ObjectId) (generation : ℕ) : Bool :=
  !w.disposed && w.present && w.record.id = record && w.record.generation = generation

def isCurrentToken (w : Window) (record : ObjectId) (generation : ℕ) (token : ObjectId) : Bool :=
  w.isCurrent record generation && w.record.clientToken = some token

/-- `isCurrentLinkPreparation`, which `isCurrentLinkOperation` is too. -/
def isCurrentLinkOperation (w : Window) (record : ObjectId) (generation : ℕ)
    (operationToken : ObjectId) : Bool :=
  w.isCurrent record generation && w.record.linkOperationToken = some operationToken

end Window

end PinOp.Connection
