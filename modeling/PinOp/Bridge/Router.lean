import PinOp.Bridge.ClientRegistry
import PinOp.Bridge.ReplyRouteRegistry

/-!
# The router

`routeMessage` handles one message of a registered client. Whether a send succeeds is
not up to the bridge: `outcome n` is the result of the `n`-th send of the step, and the
log of the sends made so far tells which one is next. A step ends with the reply routes
it leaves and its log, or with the error the reply routes threw.
-/

namespace PinOp.Bridge

open PinOp.Lib PinOp.Protocol

structure Send where
  recipient : String
  message : PinOpMessage
  delivered : Bool
  deriving DecidableEq

/-- The result of each send of a step, by its place in the step. -/
abbrev Outcome := ℕ → Bool

abbrev Routed := Except String (ReplyRouteRegistry × List Send)

def sendMessage (outcome : Outcome) (log : List Send) (client : RegisteredClient)
    (message : PinOpMessage) : Bool × List Send :=
  let delivered := outcome log.length
  (delivered, log ++ [⟨client.id, message, delivered⟩])

/-- `randomUUID()` and the empty metadata of an error are not read by anyone. -/
def sendError (outcome : Outcome) (log : List Send) (client : RegisteredClient)
    (code : ProtocolErrorCode) (text : String) : List Send :=
  (sendMessage outcome log client (.error ⟨code.wire, text, false⟩)).2

def sendInvalid (outcome : Outcome) (log : List Send) (sender : RegisteredClient) : List Send :=
  sendError outcome log sender .invalidMessage "Message does not match protocol"

def sendNoBrowser (outcome : Outcome) (log : List Send) (sender : RegisteredClient) : List Send :=
  sendError outcome log sender .noBrowserClient "No browser client is connected to this session"

def sendNoIde (outcome : Outcome) (log : List Send) (sender : RegisteredClient) : List Send :=
  sendError outcome log sender .noIdeClient "No IDE client is connected to this session"

/-- How many of the clients got the message, and the log. -/
def sendToClients (outcome : Outcome) (message : PinOpMessage) :
    List Send → List RegisteredClient → ℕ × List Send
  | log, [] => (0, log)
  | log, client :: clients =>
    let (delivered, log) := sendMessage outcome log client message
    let (sent, log) := sendToClients outcome message log clients
    (if delivered then sent + 1 else sent, log)

/-- The roles that publish inspects. -/
def isInspector (client : RegisteredClient) : Bool :=
  client.source.role = .browser ∨ client.source.role = .simulator

def isIde (client : RegisteredClient) : Bool := client.source.role = .ide

def getOriginRecipient (registry : ClientRegistry) (route : ReplyRoute) :
    Option RegisteredClient :=
  (registry.get route.originConnectionId).filter fun recipient =>
    recipient.sessionId = route.sessionId ∧ isInspector recipient

def getIdeRecipient (registry : ClientRegistry) (route : ReplyRoute) : Option RegisteredClient :=
  match route.ideConnectionId with
  | none => none
  | some ideConnectionId =>
    (registry.get ideConnectionId).filter fun recipient =>
      recipient.sessionId = route.sessionId ∧ isIde recipient

section
variable (registry : ClientRegistry) (replyRoutes : ReplyRouteRegistry)
  (sender : RegisteredClient) (outcome : Outcome)

def routeInspect (message : InspectMessage) : Routed :=
  if ¬ isInspector sender ∨ message.sessionId ≠ sender.sessionId ∨
      message.source.role ≠ sender.source.role ∨ message.source.id ≠ sender.source.id ∨
      ¬ supportsCapability sender .inspect then
    .ok (replyRoutes, sendInvalid outcome [] sender)
  else
    let registration := replyRoutes.register ⟨message.sessionId, message.messageId⟩ sender.id
      (message.ruleEvidence.rules.map InspectRuleEvidence.ruleRef)
    if registration.status = .collision then
      .ok (replyRoutes, sendInvalid outcome [] sender)
    else
      let resolutionClients := (registry.findBySessionAndRole message.sessionId .ide).filter
        fun client => supportsCapability client .resolution
      let (sent, log) := sendToClients outcome (.inspect message) [] resolutionClients
      if sent = 0 then
        -- the registration is rolled back: nobody commits it any more
        .ok (replyRoutes, sendNoIde outcome log sender)
      else do
        let (committed, replyRoutes) ← replyRoutes.commitRegistration registration
        return (replyRoutes, if committed then log else sendInvalid outcome log sender)

/-- The message goes to the origin of the route, if it is still there and can be reached;
otherwise the route is removed and the sender is told. -/
def replyOrRemove (key : RouteKey) (recipient : Option RegisteredClient) (message : PinOpMessage) :
    Routed :=
  let (delivered, log) := match recipient with
    | none => (false, [])
    | some recipient => sendMessage outcome [] recipient message
  if delivered then
    .ok (replyRoutes, log)
  else do
    let (_, replyRoutes) ← replyRoutes.remove key
    return (replyRoutes, sendNoBrowser outcome log sender)

def routeResolution (message : ResolutionMessage) : Routed :=
  let key : RouteKey := ⟨message.sessionId, message.inspectMessageId⟩
  if ¬ isIde sender ∨ message.source.id ≠ sender.source.id ∨
      ¬ supportsCapability sender .resolution then
    .ok (replyRoutes, sendInvalid outcome [] sender)
  else if message.sessionId ≠ sender.sessionId then
    .ok (replyRoutes, sendNoBrowser outcome [] sender)
  else
    match replyRoutes.claimResolution key sender.id message.resolutionGeneration with
    | (none, replyRoutes) => .ok (replyRoutes, sendNoBrowser outcome [] sender)
    | (some claimedRoute, replyRoutes) =>
      replyOrRemove replyRoutes sender outcome key (getOriginRecipient registry claimedRoute)
        (.resolution message)

/-- The origin of a route, if it can take the replies of a capability. -/
def originSupporting (route : Option ReplyRoute) (capability : ProtocolCapability) :
    Option RegisteredClient :=
  (route.bind (getOriginRecipient registry)).filter fun recipient =>
    supportsCapability recipient capability

def routeRulesSources (message : RulesSourcesMessage) : Routed :=
  let key : RouteKey := ⟨message.sessionId, message.inspectMessageId⟩
  if ¬ isIde sender ∨ message.source.id ≠ sender.source.id ∨
      message.sessionId ≠ sender.sessionId ∨ ¬ supportsCapability sender .rulesSources then
    .ok (replyRoutes, sendInvalid outcome [] sender)
  else
    match originSupporting registry (replyRoutes.get key) .rulesSources with
    | none => .ok (replyRoutes, sendNoBrowser outcome [] sender)
    | some recipient =>
      match replyRoutes.prepareRulesSources key sender.id message.rulesGeneration message.sources
          message.unresolvedRuleCount with
      | none => .ok (replyRoutes, sendNoBrowser outcome [] sender)
      | some prepared =>
        let (delivered, log) := sendMessage outcome [] recipient (.rulesSources message)
        if ¬ delivered then
          -- the preparation is rolled back
          .ok (replyRoutes, sendNoBrowser outcome log sender)
        else
          let (committed, replyRoutes) := replyRoutes.commitRulesSources prepared
          .ok (replyRoutes, if committed then log else sendNoBrowser outcome log sender)

end

/-- No matches and none omitted: the message only takes back what was sent before. -/
def isEmptyInvalidation (message : SourceMatchesMessage) : Bool :=
  message.matches.length = 0 ∧ message.omittedMatchCount = 0

def matchIds (message : SourceMatchesMessage) : List String :=
  message.matches.map SourceExcerpt.matchId

section
variable (registry : ClientRegistry) (replyRoutes : ReplyRouteRegistry)
  (sender : RegisteredClient) (outcome : Outcome)

def routeSourceMatches (message : SourceMatchesMessage) : Routed :=
  let key : RouteKey := ⟨message.sessionId, message.inspectMessageId⟩
  if ¬ isIde sender ∨ message.source.id ≠ sender.source.id ∨
      message.sessionId ≠ sender.sessionId ∨ ¬ supportsCapability sender .sourcePresentation then
    .ok (replyRoutes, sendInvalid outcome [] sender)
  else if isEmptyInvalidation message ∧ ¬ supportsCapability sender .resolution then
    .ok (replyRoutes, sendInvalid outcome [] sender)
  else
    match originSupporting registry (replyRoutes.get key) .sourcePresentation with
    | none => .ok (replyRoutes, sendNoBrowser outcome [] sender)
    | some recipient =>
      match
        if isEmptyInvalidation message then
          replyRoutes.claimSourceInvalidation key sender.id message.resolutionGeneration
        else
          replyRoutes.replaceMatchIds key sender.id message.resolutionGeneration (matchIds message)
      with
      | (none, replyRoutes) => .ok (replyRoutes, sendNoBrowser outcome [] sender)
      | (some _, replyRoutes) =>
        replyOrRemove replyRoutes sender outcome key (some recipient) (.sourceMatches message)

/-- A request goes to the IDE that owns the route, if it can take it. -/
def forwardRequest (route : ReplyRoute) (capability : ProtocolCapability) (message : PinOpMessage)
    (touched : ReplyRouteRegistry) : Routed :=
  match (getIdeRecipient registry route).filter fun recipient =>
      supportsCapability recipient capability with
  | none => .ok (replyRoutes, sendNoIde outcome [] sender)
  | some recipient =>
    let (delivered, log) := sendMessage outcome [] recipient message
    .ok (touched, if delivered then log else sendNoIde outcome log sender)

def routeSourceOpen (message : SourceOpenMessage) : Routed :=
  let key : RouteKey := ⟨message.sessionId, message.inspectMessageId⟩
  if ¬ isInspector sender ∨ message.sessionId ≠ sender.sessionId ∨
      ¬ supportsCapability sender .sourcePresentation then
    .ok (replyRoutes, sendInvalid outcome [] sender)
  else
    match replyRoutes.get key with
    | none => .ok (replyRoutes, sendInvalid outcome [] sender)
    | some route =>
      if route.originConnectionId ≠ sender.id ∨
          route.resolutionGeneration ≠ some (message.resolutionGeneration : JsNumber) ∨
          message.matchId ∉ route.matchIds then
        .ok (replyRoutes, sendInvalid outcome [] sender)
      else
        forwardRequest registry replyRoutes sender outcome route .sourcePresentation
          (.sourceOpen message) (replyRoutes.resolve key).2

def routeRulesOpen (message : RulesOpenMessage) : Routed :=
  let key : RouteKey := ⟨message.sessionId, message.inspectMessageId⟩
  if ¬ isInspector sender ∨ message.sessionId ≠ sender.sessionId ∨
      ¬ supportsCapability sender .rulesSources then
    .ok (replyRoutes, sendInvalid outcome [] sender)
  else
    match replyRoutes.authorizeRulesOpen key sender.id message.rulesGeneration
        message.openAuthorityId with
    | (none, replyRoutes) => .ok (replyRoutes, sendInvalid outcome [] sender)
    | (some route, replyRoutes) =>
      forwardRequest registry replyRoutes sender outcome route .rulesSources
        (.rulesOpen message) replyRoutes

def routePresentationSettings (message : PresentationSettingsMessage) : Routed :=
  let key : RouteKey := ⟨message.sessionId, message.inspectMessageId⟩
  if ¬ isInspector sender ∨ message.sessionId ≠ sender.sessionId ∨
      ¬ supportsCapability sender .presentationSettings then
    .ok (replyRoutes, sendInvalid outcome [] sender)
  else
    match replyRoutes.get key with
    | none => .ok (replyRoutes, sendInvalid outcome [] sender)
    | some route =>
      if route.originConnectionId ≠ sender.id then
        .ok (replyRoutes, sendInvalid outcome [] sender)
      else
        forwardRequest registry replyRoutes sender outcome route .presentationSettings
          (.presentationSettings message) (replyRoutes.resolve key).2

def routeSourceNavigate (message : SourceNavigateMessage) : Routed :=
  let key : RouteKey := ⟨message.sessionId, message.inspectMessageId⟩
  if ¬ isInspector sender ∨ message.sessionId ≠ sender.sessionId ∨
      ¬ supportsCapability sender .sourceNavigation then
    .ok (replyRoutes, sendInvalid outcome [] sender)
  else
    match replyRoutes.get key with
    | none => .ok (replyRoutes, sendInvalid outcome [] sender)
    | some navigationRoute =>
      if navigationRoute.originConnectionId ≠ sender.id ∨
          navigationRoute.resolutionGeneration ≠
            some (message.resolutionGeneration : JsNumber) then
        .ok (replyRoutes, sendInvalid outcome [] sender)
      else
        forwardRequest registry replyRoutes sender outcome navigationRoute .sourceNavigation
          (.sourceNavigate message) (replyRoutes.resolve key).2

def isZeroState (message : SourceNavigationStateMessage) : Bool :=
  message.selectedMatchCount = 0 ∧ message.activeMatchIndex = none ∧ message.activeMatchId = none

def isOwnedGeneration (stateRoute : ReplyRoute) (message : SourceNavigationStateMessage) : Bool :=
  stateRoute.ideConnectionId = some sender.id ∧
    stateRoute.resolutionGeneration = some (message.resolutionGeneration : JsNumber)

def isClearingState (stateRoute : ReplyRoute) (message : SourceNavigationStateMessage) : Bool :=
  isZeroState message ∧
    ((stateRoute.ideConnectionId = none ∧ supportsCapability sender .resolution) ∨
      isOwnedGeneration sender stateRoute message)

def isAuthoritativeState (stateRoute : ReplyRoute) (message : SourceNavigationStateMessage) :
    Bool :=
  ¬ isZeroState message ∧ isOwnedGeneration sender stateRoute message ∧
    stateRoute.resolutionClaimed ∧
    (message.activeMatchId.all fun activeMatchId => activeMatchId ∈ stateRoute.matchIds)

def routeSourceNavigationState (message : SourceNavigationStateMessage) : Routed :=
  let key : RouteKey := ⟨message.sessionId, message.inspectMessageId⟩
  if ¬ isIde sender ∨ message.source.id ≠ sender.source.id ∨
      ¬ supportsCapability sender .sourceNavigation then
    .ok (replyRoutes, sendInvalid outcome [] sender)
  else if message.sessionId ≠ sender.sessionId then
    .ok (replyRoutes, sendNoBrowser outcome [] sender)
  else
    match replyRoutes.get key with
    | none => .ok (replyRoutes, sendNoBrowser outcome [] sender)
    | some stateRoute =>
      if ¬ isClearingState sender stateRoute message ∧
          ¬ isAuthoritativeState sender stateRoute message then
        .ok (replyRoutes, sendNoBrowser outcome [] sender)
      else
        match originSupporting registry (some stateRoute) .sourceNavigation with
        | none => .ok (replyRoutes, sendNoBrowser outcome [] sender)
        | some stateRecipient =>
          replyOrRemove (replyRoutes.resolve key).2 sender outcome key (some stateRecipient)
            (.sourceNavigationState message)

def routePageRefresh (message : PageRefreshMessage) : Routed :=
  if ¬ isIde sender ∨ message.source.id ≠ sender.source.id ∨
      message.sessionId ≠ sender.sessionId ∨ ¬ supportsCapability sender .autoRefresh then
    .ok (replyRoutes, sendInvalid outcome [] sender)
  else
    let clients := (registry.findBySessionAndRole message.sessionId .browser ++
      registry.findBySessionAndRole message.sessionId .simulator).filter
        fun client => supportsCapability client .autoRefresh
    .ok (replyRoutes, (sendToClients outcome (.pageRefresh message) [] clients).2)

def routeMessage : PinOpMessage → Routed
  | .inspect message => routeInspect registry replyRoutes sender outcome message
  | .resolution message => routeResolution registry replyRoutes sender outcome message
  | .rulesSources message => routeRulesSources registry replyRoutes sender outcome message
  | .sourceMatches message => routeSourceMatches registry replyRoutes sender outcome message
  | .sourceOpen message => routeSourceOpen registry replyRoutes sender outcome message
  | .rulesOpen message => routeRulesOpen registry replyRoutes sender outcome message
  | .presentationSettings message =>
    routePresentationSettings registry replyRoutes sender outcome message
  | .sourceNavigate message => routeSourceNavigate registry replyRoutes sender outcome message
  | .sourceNavigationState message =>
    routeSourceNavigationState registry replyRoutes sender outcome message
  | .pageRefresh message => routePageRefresh registry replyRoutes sender outcome message
  | .error message => .ok (replyRoutes, (sendMessage outcome [] sender (.error message)).2)
  | .other => .ok (replyRoutes, [])

end

end PinOp.Bridge
