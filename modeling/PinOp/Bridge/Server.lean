import PinOp.Bridge.LinkAuthenticator
import PinOp.Bridge.PeerStateRegistry
import PinOp.Bridge.Router
import PinOp.Lib.Runs

/-!
# The connections of the bridge

What the server does with one connection: it authenticates with a hello, its messages are
routed, it unlinks or closes, and the heartbeat evicts its client when it does not answer.
A client that was evicted is still the client of its connection until that closes. What the
authenticator answers is part of an event; every effect of a step is listed in order.
-/

namespace PinOp.Bridge

open PinOp.Lib PinOp.Protocol

abbrev ConnectionId := ℕ

/-- The variables of `handleConnection`. -/
structure Connection where
  registered : Option RegisteredClient := none
  linkAttempted : Bool := false
  closing : Bool := false

/-- What is sent to a registered client. -/
inductive Outgoing where
  | authenticated
  | peerState (snapshot : PeerStateSnapshot)
  | ping
  | routed (message : PinOpMessage)

inductive Effect where
  | sent (recipient : String) (message : Outgoing)
  /-- `sendSocketError`, always fatal -/
  | failed (connection : ConnectionId) (code text : String)
  | linkAccepted (connection : ConnectionId)
  | closed (connection : ConnectionId)
  | terminated (client : String)
  /-- `registry.remove` deleted the client. -/
  | removed (client : String)
  /-- `onClientRemoved` ran. -/
  | clientRemoved (client : String)

/-- `registrations` are the clients `registry.add` has made so far, with their connections. -/
structure Server where
  registry : ClientRegistry
  missedPongs : String → ℕ
  peerStates : PeerStateRegistry
  replyRoutes : ReplyRouteRegistry
  connections : ConnectionId → Connection
  registrations : List (ConnectionId × RegisteredClient)

/-- A step leaves a state and its effects, or it throws. -/
abbrev Handling := Except String (Server × List Effect)

/-- A message as it is read from the socket. A hello comes with the client `registry.add` would make
of it, a link request with the error it is refused with. -/
inductive Incoming where
  | incompatible
  | invalid
  | linkRequest (refusal : Option (String × String))
  | hello (client : RegisteredClient) (sameInstance : Bool) (validation : TokenValidation)
  | unlink (sessionId : String)
  | pong
  | message (message : PinOpMessage) (outcome : Outcome)

/-- `isAllowedInboundMessage`, of the messages that are routed. -/
def isAllowedInboundMessage (client : RegisteredClient) : PinOpMessage → Bool
  | .inspect m => isInspector client && m.sessionId = client.sessionId &&
      m.source.role = client.source.role && m.source.id = client.source.id &&
      supportsCapability client .inspect
  | .resolution m => isIde client && m.sessionId = client.sessionId &&
      m.source.id = client.source.id && supportsCapability client .resolution
  | .rulesSources m => isIde client && m.sessionId = client.sessionId &&
      m.source.id = client.source.id && supportsCapability client .rulesSources
  | .sourceMatches m => isIde client && m.sessionId = client.sessionId &&
      m.source.id = client.source.id && supportsCapability client .sourcePresentation
  | .sourceOpen m => isInspector client && m.sessionId = client.sessionId &&
      supportsCapability client .sourcePresentation
  | .rulesOpen m => isInspector client && m.sessionId = client.sessionId &&
      supportsCapability client .rulesSources
  | .presentationSettings m => isInspector client && m.sessionId = client.sessionId &&
      supportsCapability client .presentationSettings
  | .sourceNavigate m => isInspector client && m.sessionId = client.sessionId &&
      supportsCapability client .sourceNavigation
  | .sourceNavigationState m => isIde client && m.sessionId = client.sessionId &&
      m.source.id = client.source.id && supportsCapability client .sourceNavigation
  | .pageRefresh m => isIde client && m.sessionId = client.sessionId &&
      m.source.id = client.source.id && supportsCapability client .autoRefresh
  | .error _ => false
  | .other => false

namespace Server

def start (limit : ℕ+) : Server :=
  ⟨.empty, fun _ => 0, .empty, .empty limit, fun _ => {}, []⟩

def setConnection (s : Server) (connection : ConnectionId) (state : Connection) : Server :=
  { s with connections := Function.update s.connections connection state }

/-! ## Peer state -/

def peerStateRecipients (s : Server) (sessionId : String) : List RegisteredClient :=
  s.registry.findBySessionAndRole sessionId .browser ++
    s.registry.findBySessionAndRole sessionId .simulator

def publishPeerState (s : Server) (sessionId : String) (transition : PeerStateSnapshot)
    (excludedClientId : Option String) : List Effect :=
  ((s.peerStateRecipients sessionId).filter fun client => some client.id ≠ excludedClientId).map
    fun client => .sent client.id (.peerState transition)

/-- The peer state brought up to date, and what is sent to the other clients. -/
def refreshPeerState (s : Server) (sessionId : String) (excludedClientId : Option String) :
    Server × List Effect :=
  let (transition, peerStates) :=
    s.peerStates.updateIdeCount sessionId (s.registry.countBySessionAndRole sessionId .ide)
  ({ s with peerStates }, match transition with
    | none => []
    | some transition => s.publishPeerState sessionId transition excludedClientId)

def updatePeerState (s : Server) (sessionId : String) : Server × List Effect :=
  s.refreshPeerState sessionId none

def sendCurrentPeerState (s : Server) (client : RegisteredClient) : Server × List Effect :=
  let (s, effects) := s.refreshPeerState client.sessionId (some client.id)
  (s, effects ++ [.sent client.id (.peerState (s.peerStates.get client.sessionId))])

def onClientRemoved (s : Server) (client : RegisteredClient) : Handling := do
  let replyRoutes ← s.replyRoutes.removeClient client.id
  let s := { s with replyRoutes }
  let (s, effects) := if isIde client then s.updatePeerState client.sessionId else (s, [])
  return (s, .clientRemoved client.id :: effects)

/-! ## One connection -/

def closeConnection (s : Server) (connection : ConnectionId) : Server :=
  s.setConnection connection { s.connections connection with closing := true }

/-- The client is told what is wrong, then the connection is closed. -/
def refuse (s : Server) (connection : ConnectionId) (code text : String) : Handling :=
  .ok (s.closeConnection connection, [.failed connection code text, .closed connection])

def refuseInvalid (s : Server) (connection : ConnectionId) (text : String) : Handling :=
  s.refuse connection "protocol.invalidMessage" text

/-- `registry.remove` and what depends on whether it deleted the client. -/
def removeClient (s : Server) (client : RegisteredClient) : Handling :=
  if (s.registry.get client.id).isSome then do
    let (s, effects) ← { s with registry := s.registry.remove client.id }.onClientRemoved client
    return (s, .removed client.id :: effects)
  else do
    let replyRoutes ← s.replyRoutes.removeClient client.id
    return ({ s with replyRoutes }, [])

/-- The connection is closing and has no client any more. -/
def release (s : Server) (connection : ConnectionId) : Server :=
  s.setConnection connection
    { s.connections connection with registered := none, closing := true }

def register (s : Server) (connection : ConnectionId) (client : RegisteredClient) :
    Server × List Effect :=
  let s := { s.setConnection connection
      { s.connections connection with registered := some client } with
    registry := s.registry.add client
    missedPongs := Function.update s.missedPongs client.id 0
    registrations := (connection, client) :: s.registrations }
  let (s, effects) :=
    if isInspector client then s.sendCurrentPeerState client else s.updatePeerState client.sessionId
  (s, .sent client.id .authenticated :: effects)

def markAlive (s : Server) (id : String) : Server :=
  if (s.registry.get id).isSome then
    { s with missedPongs := Function.update s.missedPongs id 0 } else s

def handleHello (s : Server) (connection : ConnectionId) (client : RegisteredClient)
    (sameInstance : Bool) (validation : TokenValidation) : Handling :=
  if !sameInstance then s.refuse connection "auth.instanceChanged" "Bridge instance changed"
  else
    match validation with
    | .instanceChanged => s.refuse connection "auth.instanceChanged" "Bridge instance changed"
    | .rejected => s.refuse connection "auth.tokenRejected" "Authentication token rejected"
    | .accepted => .ok (s.register connection client)

def handleLinkRequest (s : Server) (connection : ConnectionId) (refusal : Option (String × String)) :
    Handling :=
  if (s.connections connection).linkAttempted || (s.connections connection).registered.isSome then
    s.refuseInvalid connection "Only one link request is allowed per connection"
  else
    let s := s.setConnection connection { s.connections connection with linkAttempted := true }
    match refusal with
    | none => .ok (s, [.linkAccepted connection])
    | some (code, text) => s.refuse connection code text

/-- A message of a client that is registered. -/
def handleRegistered (s : Server) (connection : ConnectionId) (client : RegisteredClient) :
    Incoming → Handling
  | .unlink sessionId =>
    if sessionId ≠ client.sessionId then
      s.refuseInvalid connection "Message does not match protocol"
    else do
      let (s, effects) ← (s.release connection).removeClient client
      return (s, effects ++ [.closed connection])
  | .pong => .ok (s.markAlive client.id, [])
  | .message message outcome =>
    if !isAllowedInboundMessage client message then
      s.refuseInvalid connection "Message does not match protocol"
    else do
      let (replyRoutes, sends) ← routeMessage s.registry s.replyRoutes client outcome message
      return ({ s with replyRoutes }, sends.map fun send => .sent send.recipient (.routed send.message))
  | _ => s.refuseInvalid connection "Client is already authenticated"

def handleMessage (s : Server) (connection : ConnectionId) (data : Incoming) : Handling :=
  if (s.connections connection).closing then .ok (s, [])
  else
    match data with
    | .incompatible => .ok (s.closeConnection connection, [.closed connection])
    | .invalid => s.refuseInvalid connection "Message does not match protocol"
    | .linkRequest refusal => s.handleLinkRequest connection refusal
    | .hello client sameInstance validation =>
      if (s.connections connection).registered.isSome then
        s.refuseInvalid connection "Client is already authenticated"
      else s.handleHello connection client sameInstance validation
    | data =>
      match (s.connections connection).registered with
      | none => s.refuseInvalid connection "Client must authenticate with hello"
      | some client => s.handleRegistered connection client data

def handleClose (s : Server) (connection : ConnectionId) : Handling :=
  match (s.connections connection).registered with
  | none => .ok (s.release connection, [])
  | some client => (s.release connection).removeClient client

/-! ## The heartbeat -/

/-- One round of the loop over all clients. -/
def beat (s : Server) (client : RegisteredClient) : Handling :=
  if 2 ≤ s.missedPongs client.id then
    let removed := (s.registry.get client.id).isSome
    let s := { s with registry := s.registry.remove client.id }
    if removed then do
      let (s, effects) ← s.onClientRemoved client
      return (s, .removed client.id :: .terminated client.id :: effects)
    else .ok (s, [.terminated client.id])
  else
    .ok ({ s with missedPongs := Function.update s.missedPongs client.id (s.missedPongs client.id + 1) },
      [.sent client.id .ping])

end Server

/-! ## Steps -/

inductive ServerEvent where
  | message (connection : ConnectionId) (data : Incoming)
  | close (connection : ConnectionId)
  | beat (client : RegisteredClient)

/-- An event and all that was done about it. -/
structure ServerStep where
  event : ServerEvent
  effects : List Effect

namespace Server

def handle (s : Server) : ServerEvent → Handling
  | .message connection data => s.handleMessage connection data
  | .close connection => s.handleClose connection
  | .beat client => s.beat client

/-- `randomUUID` gives a new id, and the heartbeat looks at registered clients. -/
def Possible (s : Server) : ServerEvent → Prop
  | .message _ (.hello client _ _) => ∀ entry ∈ s.registrations, entry.2.id ≠ client.id
  | .beat client => s.registry.get client.id = some client
  | _ => True

def Step (s : Server) (e : ServerStep) (s' : Server) : Prop :=
  s.Possible e.event ∧ s.handle e.event = .ok (s', e.effects)

abbrev Trace := List (Transition Server ServerStep)

abbrev Reaches (limit : ℕ+) (h : Trace) (s : Server) : Prop := Run Step (start limit) h s

end Server

end PinOp.Bridge
