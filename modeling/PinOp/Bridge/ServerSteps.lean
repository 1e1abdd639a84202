import PinOp.Bridge.Delivery
import PinOp.Bridge.Progress
import PinOp.Lib.Program
import PinOp.Bridge.Server

/-!
# What a step of the server can do

`Moved s e s'` lists everything: nothing about clients and peer states, a registration, or the
removal of a client, by its connection or by the heartbeat. Results about runs of the
server are inductions over it.
-/

namespace PinOp.Bridge

open PinOp.Lib PinOp.Protocol ReplyRouteRegistry

/-! ## Effects of interest -/

def Effect.peerStateFor (id : String) : Effect → Option PeerStateSnapshot
  | .sent recipient (.peerState snapshot) => if recipient = id then some snapshot else none
  | _ => none

/-- The peer states that are sent to a client, in order. -/
def peerStatesFor (id : String) (effects : List Effect) : List PeerStateSnapshot :=
  effects.filterMap (Effect.peerStateFor id)

def Effect.removes (id : String) : Effect → Bool
  | .removed client => client = id
  | _ => false

def Effect.runsRemoved (id : String) : Effect → Bool
  | .clientRemoved client => client = id
  | _ => false

/-- An effect that is no peer state and has nothing to do with a removal. -/
def Effect.silent : Effect → Bool
  | .sent _ (.peerState _) => false
  | .removed _ => false
  | .clientRemoved _ => false
  | _ => true

def Silent (effects : List Effect) : Prop := ∀ effect ∈ effects, effect.silent

section
variable {effects : List Effect} {id : String}

theorem Silent.peerStatesFor (h : Silent effects) (id : String) : peerStatesFor id effects = [] := by
  refine List.filterMap_eq_nil_iff.2 fun effect heffect => ?_
  have hsilent := h effect heffect
  unfold Effect.peerStateFor
  split
  · cases hsilent
  · rfl

theorem Silent.removes (h : Silent effects) (id : String) : effects.countP (Effect.removes id) = 0 := by
  refine List.countP_eq_zero.2 fun effect heffect => ?_
  have hsilent := h effect heffect
  unfold Effect.removes
  split
  · cases hsilent
  · simp

theorem Silent.runsRemoved (h : Silent effects) (id : String) :
    effects.countP (Effect.runsRemoved id) = 0 := by
  refine List.countP_eq_zero.2 fun effect heffect => ?_
  have hsilent := h effect heffect
  unfold Effect.runsRemoved
  split
  · cases hsilent
  · simp

end

namespace Server

variable {s s' : Server} {e : ServerStep} {c : ConnectionId} {client : RegisteredClient}
  {effects : List Effect}

/-- A reply route names the client as its origin or its IDE. -/
def Names (s : Server) (id : String) : Prop :=
  ∃ key route, s.replyRoutes.stored key = some route ∧
    (route.originConnectionId = id ∨ route.ideConnectionId = some id)

/-- The client of some connection has this id. -/
def Connected (s : Server) (id : String) : Prop :=
  ∃ c client, (s.connections c).registered = some client ∧ client.id = id

/-- Nothing happened to clients and peer states. -/
structure Quiet (s s' : Server) (effects : List Effect) : Prop where
  registry : s'.registry = s.registry
  peerStates : s'.peerStates = s.peerStates
  registrations : s'.registrations = s.registrations
  registered : ∀ c, (s'.connections c).registered = (s.connections c).registered
  closing : ∀ c, (s.connections c).closing → (s'.connections c).closing
  silent : Silent effects
  indexed : s.replyRoutes.Indexed → s'.replyRoutes.Indexed
  names : ∀ id, s'.Names id → s.Names id ∨ s.Connected id

inductive Moved (s : Server) (e : ServerStep) (s' : Server) : Prop where
  | quiet (h : Quiet s s' e.effects)
  | registered {c : ConnectionId} {client : RegisteredClient}
      (fresh : ∀ entry ∈ s.registrations, entry.2.id ≠ client.id)
      (hopen : (s.connections c).closing = false) (hnone : (s.connections c).registered = none)
      (hs : s.register c client = (s', e.effects))
  | left {c : ConnectionId} {client : RegisteredClient} {effects more : List Effect}
      (hclient : (s.connections c).registered = some client)
      (hs : (s.release c).removeClient client = .ok (s', effects))
      (he : e.effects = effects ++ more) (silent : Silent more)
  | evicted {client : RegisteredClient} {effects : List Effect}
      (hclient : s.registry.get client.id = some client)
      (hs : { s with registry := s.registry.remove client.id }.onClientRemoved client =
        .ok (s', effects))
      (he : e.effects = .removed client.id :: .terminated client.id :: effects)

/-! ## Quiet steps -/

theorem Quiet.refl (s : Server) : Quiet s s [] :=
  ⟨rfl, rfl, rfl, fun _ => rfl, fun _ h => h, fun _ h => (List.not_mem_nil h).elim, id,
    fun _ h => .inl h⟩

/-- Writing to the variables of a connection other than its client. -/
theorem quiet_setConnection {state : Connection}
    (hregistered : state.registered = (s.connections c).registered)
    (hclosing : (s.connections c).closing → state.closing) (silent : Silent effects) :
    Quiet s (s.setConnection c state) effects where
  registry := rfl
  peerStates := rfl
  registrations := rfl
  registered other := by
    unfold setConnection
    by_cases h : other = c
    · rw [h]
      simpa using hregistered
    · simp [h]
  closing other hother := by
    unfold setConnection
    by_cases h : other = c
    · rw [h] at hother ⊢
      simpa using hclosing hother
    · simpa [h] using hother
  silent := silent
  indexed := id
  names _ h := .inl h

theorem quiet_closeConnection (silent : Silent effects) : Quiet s (s.closeConnection c) effects :=
  quiet_setConnection rfl (fun _ => rfl) silent

theorem Quiet.then_close (h : Quiet s s' []) (silent : Silent effects) :
    Quiet s (s'.closeConnection c) effects := by
  have hclose : Quiet s' (s'.closeConnection c) effects := quiet_closeConnection silent
  exact ⟨hclose.registry.trans h.registry, hclose.peerStates.trans h.peerStates,
    hclose.registrations.trans h.registrations,
    fun c => (hclose.registered c).trans (h.registered c),
    fun c hc => hclose.closing c (h.closing c hc), silent, fun hi => hclose.indexed (h.indexed hi),
    h.names⟩

theorem quiet_refuse {code text : String} (h : s.refuse c code text = .ok (s', effects)) :
    Quiet s s' effects := by
  cases h
  exact quiet_closeConnection (by simp [Silent, Effect.silent])

/-- Routing a message changes no client; a route it names somebody new in is one of its sender. -/
theorem quiet_routed {replyRoutes : ReplyRouteRegistry} {sends : List Send} {message : PinOpMessage}
    {outcome : Outcome} (hclient : (s.connections c).registered = some client)
    (h : routeMessage s.registry s.replyRoutes client outcome message = .ok (replyRoutes, sends)) :
    Quiet s { s with replyRoutes }
      (sends.map fun send => .sent send.recipient (.routed send.message)) where
  registry := rfl
  peerStates := rfl
  registrations := rfl
  registered _ := rfl
  closing _ h := h
  silent := by
    intro effect heffect
    obtain ⟨send, -, rfl⟩ := List.mem_map.1 heffect
    rfl
  indexed hi := by
    obtain ⟨reg, sends', hok, hreg⟩ := routeMessage_handled hi message
    rw [h] at hok
    cases hok
    exact hreg
  names := by
    rintro id ⟨key, route, hroute, hnames⟩
    have hstep := routeMessage_route h key
    simp only at hroute
    rw [hroute] at hstep
    have hsender : ∀ i, i = client.id → s.Connected i := fun i hi => ⟨c, client, hclient, hi.symm⟩
    have hold : ∀ route, s.replyRoutes.stored key = some route →
        (route.originConnectionId = id ∨ route.ideConnectionId = some id) → s.Names id :=
      fun route hroute hnames => ⟨key, route, hroute, hnames⟩
    generalize ho : s.replyRoutes.stored key = o at hstep hold
    generalize he : Event.routed client.id message sends = e at hstep
    cases hstep with
    | untouched hd => exact .inl (hold _ rfl hnames)
    | created hkey hd =>
      cases he
      rcases hnames with hid | hid
      · exact .inr (hsender id hid.symm)
      · cases hid
    | resolved hown hgen hd =>
      cases he
      rcases hnames with hid | hid
      · exact .inl (hold _ rfl (.inl hid))
      · exact .inr (hsender id (Option.some.inj hid).symm)
    | invalidatedUnowned hnone hempty hd => exact .inl (hold _ rfl hnames)
    | invalidated hown hempty hgen hd =>
      cases he
      rcases hnames with hid | hid
      · exact .inl (hold _ rfl (.inl hid))
      · exact .inr (hsender id (Option.some.inj hid).symm)
    | matched hown hgen hd => exact .inl (hold _ rfl hnames)
    | published hown hgen hids hcount hd =>
      cases he
      rcases hnames with hid | hid
      · exact .inl (hold _ rfl (.inl hid))
      · exact .inr (hsender id (Option.some.inj hid).symm)
    | navigated hown hd => exact .inl (hold _ rfl hnames)

/-! ## Every step -/

theorem handleRegistered_moved {data : Incoming} (he : e.effects = effects)
    (hclient : (s.connections c).registered = some client)
    (h : s.handleRegistered c client data = .ok (s', effects)) : Moved s e s' := by
  unfold handleRegistered at h
  split at h
  · split at h
    · exact .quiet (he ▸ quiet_refuse h)
    · obtain ⟨⟨s₁, effects₁⟩, hremove, h⟩ := bind_eq_ok.1 h
      cases h
      exact .left hclient hremove he (by simp [Silent, Effect.silent])
  · cases h
    unfold markAlive
    refine .quiet ?_
    rw [he]
    split
    · exact ⟨rfl, rfl, rfl, fun _ => rfl, fun _ h => h, fun _ h => (List.not_mem_nil h).elim, id,
        fun _ h => .inl h⟩
    · exact .refl s
  · split at h
    · exact .quiet (he ▸ quiet_refuse h)
    · obtain ⟨⟨replyRoutes, sends⟩, hroute, h⟩ := bind_eq_ok.1 h
      cases h
      exact .quiet (he ▸ quiet_routed hclient hroute)
  · exact .quiet (he ▸ quiet_refuse h)

theorem handleMessage_moved {data : Incoming}
    (fresh : s.Possible (.message c data)) (he : e.effects = effects)
    (h : s.handleMessage c data = .ok (s', effects)) : Moved s e s' := by
  unfold handleMessage at h
  split at h
  · cases h
    exact .quiet (he ▸ .refl s)
  next hopen =>
  split at h
  · cases h
    exact .quiet (he ▸ quiet_closeConnection (by simp [Silent, Effect.silent]))
  · exact .quiet (he ▸ quiet_refuse h)
  next refusal =>
    unfold handleLinkRequest at h
    split at h
    · exact .quiet (he ▸ quiet_refuse h)
    · dsimp only at h
      have hset : ∀ effects, Silent effects → Quiet s (s.setConnection c
          { s.connections c with linkAttempted := true }) effects :=
        fun effects silent => quiet_setConnection rfl id silent
      split at h
      · cases h
        exact .quiet (he ▸ hset _ (by simp [Silent, Effect.silent]))
      · cases h
        exact .quiet (he ▸ (hset [] (fun _ h => (List.not_mem_nil h).elim)).then_close
          (by simp [Silent, Effect.silent]))
  next client sameInstance validation =>
    split at h
    · exact .quiet (he ▸ quiet_refuse h)
    next hnone =>
    unfold handleHello at h
    split at h
    · exact .quiet (he ▸ quiet_refuse h)
    split at h
    · exact .quiet (he ▸ quiet_refuse h)
    · exact .quiet (he ▸ quiet_refuse h)
    · refine .registered fresh (by simpa using hopen) (by simpa using hnone) ?_
      rw [he]
      exact Except.ok.inj h
  next data _ _ _ _ =>
    split at h
    · exact .quiet (he ▸ quiet_refuse h)
    next client hclient => exact handleRegistered_moved he hclient h

theorem handleClose_moved (he : e.effects = effects)
    (h : s.handleClose c = .ok (s', effects)) : Moved s e s' := by
  unfold handleClose at h
  split at h
  next hnone =>
    cases h
    exact .quiet (he ▸ quiet_setConnection hnone.symm (fun _ => rfl)
      (fun _ h => (List.not_mem_nil h).elim))
  next client hclient =>
    exact .left hclient h (by rw [he, List.append_nil]) (fun _ h => (List.not_mem_nil h).elim)

theorem beat_moved (hclient : s.registry.get client.id = some client) (he : e.effects = effects)
    (h : s.beat client = .ok (s', effects)) : Moved s e s' := by
  unfold beat at h
  split at h
  · dsimp only at h
    rw [hclient, Option.isSome_some, if_pos rfl] at h
    obtain ⟨⟨s₁, effects₁⟩, hremove, h⟩ := bind_eq_ok.1 h
    cases h
    exact .evicted hclient hremove he
  · cases h
    refine .quiet (he ▸ ⟨rfl, rfl, rfl, fun _ => rfl, fun _ h => h, ?_, id, fun _ h => .inl h⟩)
    simp [Silent, Effect.silent]

theorem step_moved (h : Step s e s') : Moved s e s' := by
  obtain ⟨hpossible, h⟩ := h
  cases hevent : e.event with
  | message c data =>
    rw [hevent] at hpossible h
    exact handleMessage_moved hpossible rfl h
  | close c =>
    rw [hevent] at h
    exact handleClose_moved rfl h
  | beat client =>
    rw [hevent] at hpossible h
    exact beat_moved hpossible rfl h

end Server

end PinOp.Bridge
