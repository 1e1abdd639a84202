import PinOp.Bridge.RegistryRuns
import PinOp.Bridge.Router
import PinOp.Lib.Runs

/-!
# The bridge as a transition system

A client registers under an id nobody has, a client is removed together with its reply
routes, or the message of a registered client is routed, each send succeeding or failing
as it will.
-/

namespace PinOp.Bridge

open PinOp.Lib PinOp.Protocol

structure BridgeState where
  registry : ClientRegistry
  replyRoutes : ReplyRouteRegistry

inductive Event where
  | registered (client : RegisteredClient)
  | removed (id : String)
  | routed (sender : String) (message : PinOpMessage) (sends : List Send)
  deriving DecidableEq

def Event.sends : Event → List Send
  | .routed _ _ sends => sends
  | _ => []

namespace BridgeState

def initial (limit : ℕ+) : BridgeState := ⟨.empty, .empty limit⟩

/-- The stored route of an inspect. -/
def route (b : BridgeState) (key : RouteKey) : Option StoredReplyRoute := b.replyRoutes.stored key

inductive Step : BridgeState → Event → BridgeState → Prop where
  | register {b : BridgeState} {client : RegisteredClient} (h : b.registry.get client.id = none) :
      Step b (.registered client) { b with registry := b.registry.add client }
  | remove {b : BridgeState} {id : String} {replyRoutes : ReplyRouteRegistry}
      (h : b.replyRoutes.removeClient id = .ok replyRoutes) :
      Step b (.removed id) ⟨b.registry.remove id, replyRoutes⟩
  | message {b : BridgeState} {sender : RegisteredClient} {message : PinOpMessage}
      {replyRoutes : ReplyRouteRegistry} {sends : List Send} (outcome : Outcome)
      (hsender : b.registry.get sender.id = some sender)
      (h : routeMessage b.registry b.replyRoutes sender outcome message =
        .ok (replyRoutes, sends)) :
      Step b (.routed sender.id message sends) { b with replyRoutes }

abbrev Trace := List (Transition BridgeState Event)

abbrev Reaches (limit : ℕ+) (h : Trace) (b : BridgeState) : Prop := Run Step (initial limit) h b

end BridgeState

/-! ## Executing a step -/

/-- What the environment decides about a step. -/
inductive Label where
  | register (client : RegisteredClient)
  | remove (id : String)
  | message (sender : String) (message : PinOpMessage) (outcome : Outcome)

namespace BridgeState

/-- The step a label asks for, unless the client is not there, or is there already. -/
def next (b : BridgeState) : Label → Option (Event × BridgeState)
  | .register client =>
    if b.registry.get client.id = none then
      some (.registered client, { b with registry := b.registry.add client })
    else
      none
  | .remove id =>
    match b.replyRoutes.removeClient id with
    | .error _ => none
    | .ok replyRoutes => some (.removed id, ⟨b.registry.remove id, replyRoutes⟩)
  | .message sender message outcome =>
    match b.registry.get sender with
    | none => none
    | some client =>
      match routeMessage b.registry b.replyRoutes client outcome message with
      | .error _ => none
      | .ok (replyRoutes, sends) => some (.routed client.id message sends, { b with replyRoutes })

def play (b : BridgeState) : List Label → Option (Trace × BridgeState)
  | [] => some ([], b)
  | label :: labels => do
    let (e, b') ← b.next label
    let (h, b'') ← b'.play labels
    return (h ++ [⟨b, e, b'⟩], b'')

theorem next_step {b b' : BridgeState} {label : Label} {e : Event}
    (h : b.next label = some (e, b')) : Step b e b' := by
  cases label with
  | register client =>
    simp only [next] at h
    split at h
    · next hn => cases h; exact .register hn
    · cases h
  | remove id =>
    simp only [next] at h
    split at h
    · cases h
    · next hc => cases h; exact .remove hc
  | message sender message outcome =>
    simp only [next] at h
    split at h
    · cases h
    · next client hc =>
      have hid := ClientRegistry.id_of_get hc
      subst hid
      split at h
      · cases h
      · next hm => cases h; exact .message outcome hc hm

theorem play_run {b b' : BridgeState} {labels : List Label} {h : Trace}
    (hp : b.play labels = some (h, b')) : Run Step b h b' := by
  induction labels generalizing b h with
  | nil => cases hp; exact .start
  | cons label labels ih =>
    simp only [play] at hp
    obtain ⟨⟨e, b₁⟩, hn, hp⟩ := Option.bind_eq_some_iff.1 hp
    obtain ⟨⟨h₁, b₂⟩, hrest, hp⟩ := Option.bind_eq_some_iff.1 hp
    cases hp
    exact (Run.start.next (next_step hn)).trans (ih hrest)

end BridgeState

/-! ## Sends of interest -/

/-- The delivered replies to an inspect. -/
def deliveriesOf (key : RouteKey) (sends : List Send) : List Send :=
  sends.filter fun d => d.delivered ∧ d.message.repliesTo = some key

/-- The sends, delivered or not, of requests on an inspect. -/
def forwardsOf (key : RouteKey) (sends : List Send) : List Send :=
  sends.filter fun d => d.message.requestsOn = some key

def Event.deliveries (key : RouteKey) (e : Event) : List Send := deliveriesOf key e.sends

def Event.forwards (key : RouteKey) (e : Event) : List Send := forwardsOf key e.sends

/-! ## A sample run -/

namespace Sample

def browser : RegisteredClient :=
  ⟨"b", ⟨.browser, "page"⟩, "s", [.inspect, .sourcePresentation, .rulesSources]⟩

def ide : RegisteredClient :=
  ⟨"i", ⟨.ide, "editor"⟩, "s", [.resolution, .sourcePresentation, .rulesSources]⟩

def key : RouteKey := ⟨"s", "m"⟩

def inspect : InspectMessage := ⟨"m", "s", ⟨.browser, "page"⟩, ⟨[⟨"r1"⟩, ⟨"r2"⟩]⟩⟩

def resolution : ResolutionMessage := ⟨"s", ⟨"editor"⟩, "m", 3, none⟩

def sourceMatches : SourceMatchesMessage :=
  ⟨"s", ⟨"editor"⟩, "m", 3, ⟨"a.css", "css"⟩, [⟨"x"⟩], 0⟩

def rulesSources : RulesSourcesMessage := ⟨"s", ⟨"editor"⟩, "m", 1, [⟨"r1", "a1"⟩], 1⟩

/-- An inspect is answered, then both kinds of open are asked for; every send succeeds. -/
def labels : List Label :=
  [.register browser, .register ide,
    .message "b" (.inspect inspect) fun _ => true,
    .message "i" (.resolution resolution) fun _ => true,
    .message "i" (.sourceMatches sourceMatches) fun _ => true,
    .message "i" (.rulesSources rulesSources) fun _ => true,
    .message "b" (.sourceOpen ⟨"s", "m", 3, "x"⟩) fun _ => true,
    .message "b" (.rulesOpen ⟨"s", "m", 1, "a1"⟩) fun _ => true]

/-- The two ends of the sample run, computed. -/
def played : BridgeState.Trace × BridgeState :=
  ((BridgeState.initial 2).play labels).getD ([], .initial 2)

theorem run : BridgeState.Reaches 2 played.1 played.2 := by
  have h : (BridgeState.initial 2).play labels = some (played.1, played.2) := rfl
  exact BridgeState.play_run h

end Sample

end PinOp.Bridge
