import Mathlib
import PinOp.Bridge.PeerStateHistory

/-!
# Peer state is announced exactly

In every run the peer state of a session is what its IDEs make of it, and browsers are told it
and its changes; a client is removed once, and a closed connection leaves no route behind.
-/

namespace PinOp.Bridge

open PinOp.Lib PinOp.Protocol

namespace Server

variable {s s' : Server} {e : ServerStep} {c : ConnectionId} {client : RegisteredClient}
  {limit : ℕ+} {h : Trace}

/-! ## Closed connections -/

theorem closed_stays (inv : Inv s) (hm : Moved s e s') (hclosing : (s.connections c).closing = true)
    (hnone : (s.connections c).registered = none) :
    (s'.connections c).closing = true ∧ (s'.connections c).registered = none := by
  cases hm with
  | quiet hq => exact ⟨hq.closing c hclosing, (hq.registered c).trans hnone⟩
  | @registered c' client fresh hopen hfree hs =>
    have hne : c ≠ c' := by
      rintro rfl
      rw [hopen] at hclosing
      cases hclosing
    obtain ⟨excluded, effects, own, hrefreshed, -, -⟩ := register_cases hs
    have hsame : s'.connections c = s.connections c := by
      rw [hrefreshed.rest]
      exact Function.update_of_ne hne _ _
    rw [hsame]
    exact ⟨hclosing, hnone⟩
  | left hclient hs he silent =>
    rw [(removeClient_gone inv hs).2, release_closing, release_registered, hclosing, hnone,
      Bool.or_true]
    exact ⟨rfl, ite_self _⟩
  | @evicted client effects hget hs he =>
    rw [(onClientRemoved_gone ({ s with registry := s.registry.remove client.id })
      inv.indexed rfl rfl rfl hs).2]
    exact ⟨hclosing, hnone⟩

theorem closed_after (inv : Inv s) (hs : Step s e s') (he : e.event = .close c) :
    (s'.connections c).closing = true ∧ (s'.connections c).registered = none := by
  have hhandle : s.handleClose c = .ok (s', e.effects) := by
    have hstep := hs.2
    rw [he] at hstep
    exact hstep
  have hrelease : (s.release c).connections c =
      { s.connections c with registered := none, closing := true } := Function.update_self _ _ _
  unfold handleClose at hhandle
  split at hhandle
  · rw [← (Prod.mk.inj (Except.ok.inj hhandle)).1, hrelease]
    exact ⟨rfl, rfl⟩
  · rw [(removeClient_gone inv hhandle).2, hrelease]
    exact ⟨rfl, rfl⟩

/-! ## Every run -/

/-- Every registration was made by a step of the run. -/
theorem registered_by (hr : Reaches limit h s) (hentry : (c, client) ∈ s.registrations) :
    ∃ h₂ t h₁, h = h₂ ++ t :: h₁ ∧ Registers t c client := by
  induction hr with
  | start => cases hentry
  | @next h s s' e hr hs ih =>
    have hbefore : (c, client) ∈ s.registrations →
        ∃ h₂ t h₁, (⟨s, e, s'⟩ : Transition Server ServerStep) :: h = h₂ ++ t :: h₁ ∧
          Registers t c client := by
      intro hmem
      obtain ⟨h₂, t, h₁, rfl, ht⟩ := ih hmem
      exact ⟨_ :: h₂, t, h₁, rfl, ht⟩
    rcases moved_registrations (inv_run hr) (step_moved hs) with hsame | ⟨c', client', hcons, -⟩
    · rw [hsame] at hentry
      exact hbefore hentry
    · rw [hcons] at hentry
      rcases List.mem_cons.1 hentry with heq | hmem
      · obtain ⟨rfl, rfl⟩ := Prod.mk.inj heq
        exact ⟨[], _, h, rfl, hcons⟩
      · exact hbefore hmem

/-- What has been announced and removed in a run, and what is left of it. -/
structure PeerStateAnnounced (h : Trace) (s : Server) : Prop where
  /-- A session is connected exactly while an IDE of it is registered. -/
  connected : ∀ sessionId, (s.peerStates.get sessionId).connected = true ↔
    ∃ client, s.registry.get client.id = some client ∧ client.sessionId = sessionId ∧
      client.source.role = .ide
  registered : ∀ c client, (c, client) ∈ s.registrations →
    ∃ h₂ t h₁, h = h₂ ++ t :: h₁ ∧ Registers t c client
  /-- A browser or simulator was told the state at its registration, then each change, in order. -/
  announced : ∀ h₂ t h₁ c client, h = h₂ ++ t :: h₁ → Registers t c client → isInspector client →
    s.registry.get client.id = some client →
      peerStatesFor client.id (effectsOf h) =
        t.post.peerStates.get client.sessionId :: changes client.sessionId h₂
  /-- Once it is registered no more it is told nothing. -/
  silent : ∀ h₂ t h₁ c client, h = h₂ ++ t :: h₁ → (c, client) ∈ t.post.registrations →
    t.post.registry.get client.id = none →
      peerStatesFor client.id (effectsOf h) = peerStatesFor client.id (effectsOf (t :: h₁))
  alternating : ∀ c client, (c, client) ∈ s.registrations → isInspector client →
    (peerStatesFor client.id (effectsOf h)).IsChain fun before after =>
      after.connected = !before.connected
  increasing : ∀ c client, (c, client) ∈ s.registrations → isInspector client →
    (peerStatesFor client.id (effectsOf h)).Pairwise fun before after =>
      before.peerGeneration < after.peerGeneration
  /-- The removal of a client is done once, when it is registered no more. -/
  removedOnce : ∀ c client, (c, client) ∈ s.registrations →
    (effectsOf h).countP (Effect.removes client.id) =
        (if s.registry.get client.id = none then 1 else 0) ∧
      (effectsOf h).countP (Effect.runsRemoved client.id) =
        (if s.registry.get client.id = none then 1 else 0)
  /-- No route names a client of a connection that has closed. -/
  routesGone : ∀ h₂ t h₁ c client, h = h₂ ++ t :: h₁ → t.event.event = .close c →
    (c, client) ∈ s.registrations → ∀ key route, s.replyRoutes.stored key = some route →
      route.originConnectionId ≠ client.id ∧ route.ideConnectionId ≠ some client.id

/-- After every event of every run the peer state has been announced exactly. -/
theorem peerStateAnnounced (hr : Reaches limit h s) : PeerStateAnnounced h s where
  connected sessionId := by
    rw [(inv_run hr).synced sessionId, decide_eq_true_eq, ClientRegistry.countBySessionAndRole_pos]
  registered c client hentry := registered_by hr hentry
  announced := by
    rintro h₂ t h₁ c client rfl ht hinspector hget
    exact told_since hr ht hinspector hget
  silent := by
    rintro h₂ t h₁ c client rfl hentry hgone
    exact (told_after hr hentry hgone).2.2
  alternating c client hentry hinspector := by
    obtain ⟨h₂, t, h₁, rfl, ht⟩ := registered_by hr hentry
    exact (told_chain hr ht hinspector).imp fun _ _ hadvance => hadvance.1
  increasing c client hentry hinspector := by
    obtain ⟨h₂, t, h₁, rfl, ht⟩ := registered_by hr hentry
    have hchain := (told_chain hr ht hinspector).imp fun _ _ hadvance => hadvance.generation_lt
    have htrans : Trans (fun a b : PeerStateSnapshot => a.peerGeneration < b.peerGeneration)
        (fun a b : PeerStateSnapshot => a.peerGeneration < b.peerGeneration)
        (fun a b : PeerStateSnapshot => a.peerGeneration < b.peerGeneration) :=
      ⟨fun hab hbc => lt_trans hab hbc⟩
    exact hchain.pairwise
  removedOnce c client hentry := by
    have hexists : ∃ entry ∈ s.registrations, entry.2.id = client.id := ⟨_, hentry, rfl⟩
    have hcount := removals hr client.id
    simp only [hexists, true_and] at hcount
    exact hcount
  routesGone := by
    rintro h₂ t h₁ c client rfl hclose hentry key route hroute
    obtain ⟨hr₁, hs, hr₂⟩ := hr.split
    have hclosed := closed_after (inv_run hr₁) hs hclose
    have hstays : ((s.connections c).closing = true ∧ (s.connections c).registered = none) ∧ Inv s :=
      hr₂.invariant (P := fun s => ((s.connections c).closing = true ∧
          (s.connections c).registered = none) ∧ Inv s)
        ⟨hclosed, inv_run (hr₁.next hs)⟩ fun s e s' hboth hs =>
          ⟨closed_stays hboth.2 (step_moved hs) hboth.1.1 hboth.1.2, moved_inv hboth.2 (step_moved hs)⟩
    have hunnamed : ¬s.Names client.id := by
      intro hnames
      obtain ⟨c', client', hclient', hid⟩ := hstays.2.names client.id hnames
      have hsame := hstays.2.entry_unique (hstays.2.owned c' client' hclient') hentry hid
      rw [(Prod.mk.inj hsame).1, hstays.1.2] at hclient'
      cases hclient'
    exact ⟨fun horigin => hunnamed ⟨key, route, hroute, .inl horigin⟩,
      fun hide => hunnamed ⟨key, route, hroute, .inr hide⟩⟩

/-! ## Progress -/

namespace Sample

/-- The state and the effects after an event. -/
def next (s : Server) (event : ServerEvent) : Server × List Effect :=
  match s.handle event with
  | .ok result => result
  | .error _ => (s, [])

def browserHello : ServerEvent := .message 0 (.hello ⟨"b", ⟨.browser, "page"⟩, "s", []⟩ true .accepted)

def ideHello : ServerEvent := .message 1 (.hello ⟨"i", ⟨.ide, "editor"⟩, "s", []⟩ true .accepted)

def first : Server := (next (start (Nat.succPNat 1)) browserHello).1

def second : Server := (next first ideHello).1

def third : Server := (next second (.close 1)).1

/-- A browser registers, then an IDE, whose connection closes. -/
def trace : Trace :=
  [⟨second, ⟨.close 1, (next second (.close 1)).2⟩, third⟩,
    ⟨first, ⟨ideHello, (next first ideHello).2⟩, second⟩,
    ⟨start (Nat.succPNat 1), ⟨browserHello, (next (start (Nat.succPNat 1)) browserHello).2⟩, first⟩]

theorem run : Reaches 2 trace third := by
  have hb : Step (start 2) ⟨browserHello, (next (start 2) browserHello).2⟩ first :=
    ⟨fun entry hentry => (List.not_mem_nil hentry).elim, rfl⟩
  have hi : Step first ⟨ideHello, (next first ideHello).2⟩ second := by
    refine ⟨fun entry hentry => ?_, rfl⟩
    rw [List.mem_singleton.1 (show entry ∈ [(0, (⟨"b", ⟨.browser, "page"⟩, "s", []⟩ :
      RegisteredClient))] from hentry)]
    decide
  have hc : Step second ⟨.close 1, (next second (.close 1)).2⟩ third := ⟨trivial, rfl⟩
  exact ((Run.start.next hb).next hi).next hc

end Sample

theorem peerStateAnnounced_sample :
    PeerStateAnnounced Sample.trace Sample.third ∧
      peerStatesFor "b" (effectsOf Sample.trace) = [⟨false, 0⟩, ⟨true, 1⟩, ⟨false, 2⟩] :=
  ⟨peerStateAnnounced Sample.run, rfl⟩

end Server

end PinOp.Bridge
