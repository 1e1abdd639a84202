import PinOp.Bridge.ServerSteps

/-!
# Peer state is announced as it changes

A session is connected exactly while an IDE of it is registered. A browser is told the state
that is current when it registers, and from then on each change, once.
-/

namespace PinOp.Bridge

open PinOp.Lib PinOp.Protocol

/-- The state turns over and its generation counts one on. -/
def Advance (before after : PeerStateSnapshot) : Prop :=
  after.connected = !before.connected ∧ after.peerGeneration = before.peerGeneration + 1

theorem Advance.ne {before after : PeerStateSnapshot} (h : Advance before after) : after ≠ before := by
  rintro rfl
  have hgen := h.2
  omega

theorem Advance.generation_lt {before after : PeerStateSnapshot} (h : Advance before after) :
    before.peerGeneration < after.peerGeneration := by
  have hgen := h.2
  omega

namespace Server

variable {s s' s₁ : Server} {e : ServerStep} {c : ConnectionId} {client : RegisteredClient}
  {effects : List Effect} {sessionId : String} {excluded : Option String}

/-! ## Sending a peer state -/

/-- Clients with different ids are each told once. -/
theorem peerStatesFor_told {clients : List RegisteredClient} (snapshot : PeerStateSnapshot)
    (hnodup : (clients.map RegisteredClient.id).Nodup) (id : String) :
    peerStatesFor id (clients.map fun client => .sent client.id (.peerState snapshot)) =
      if id ∈ clients.map RegisteredClient.id then [snapshot] else [] := by
  induction clients with
  | nil => rfl
  | cons client rest ih =>
    rw [List.map_cons, List.nodup_cons] at hnodup
    have hrest := ih hnodup.2
    unfold peerStatesFor at hrest ⊢
    rw [List.map_cons, List.map_cons, List.filterMap_cons, hrest, Effect.peerStateFor]
    by_cases h : client.id = id
    · have hnot : id ∉ rest.map RegisteredClient.id := h ▸ hnodup.1
      simp [h, hnot]
    · have hne : ¬id = client.id := Ne.symm h
      simp [h, hne]

theorem mem_peerStateRecipients : client ∈ s.peerStateRecipients sessionId ↔
    s.registry.get client.id = some client ∧ client.sessionId = sessionId ∧ isInspector client := by
  unfold peerStateRecipients
  rw [List.mem_append, ClientRegistry.mem_findBySessionAndRole,
    ClientRegistry.mem_findBySessionAndRole]
  simp only [isInspector, decide_eq_true_eq]
  tauto

theorem nodup_peerStateRecipients (s : Server) (sessionId : String) :
    ((s.peerStateRecipients sessionId).map RegisteredClient.id).Nodup := by
  have hfind : ∀ role, ((s.registry.findBySessionAndRole sessionId role).map
      RegisteredClient.id).Nodup :=
    fun role => (List.filter_sublist.map _).nodup s.registry.nodup_all
  unfold peerStateRecipients
  rw [List.map_append, List.nodup_append]
  refine ⟨hfind _, hfind _, ?_⟩
  rintro id hid _ hid' rfl
  obtain ⟨browser, hbrowser, rfl⟩ := List.mem_map.1 hid
  obtain ⟨simulator, hsimulator, heq⟩ := List.mem_map.1 hid'
  obtain ⟨hget, -, hrole⟩ := ClientRegistry.mem_findBySessionAndRole.1 hbrowser
  obtain ⟨hget', -, hrole'⟩ := ClientRegistry.mem_findBySessionAndRole.1 hsimulator
  rw [heq, hget] at hget'
  obtain rfl := Option.some.inj hget'
  rw [hrole] at hrole'
  cases hrole'

theorem peerStatesFor_publish (s : Server) (sessionId : String) (transition : PeerStateSnapshot)
    (excluded : Option String) (id : String) :
    peerStatesFor id (s.publishPeerState sessionId transition excluded) =
      if (∃ client ∈ s.peerStateRecipients sessionId, client.id = id) ∧ some id ≠ excluded then
        [transition] else [] := by
  unfold publishPeerState
  rw [peerStatesFor_told transition
    ((List.filter_sublist.map _).nodup (nodup_peerStateRecipients s sessionId)) id]
  refine if_congr ?_ rfl rfl
  simp only [List.mem_map, List.mem_filter, decide_eq_true_eq]
  constructor
  · rintro ⟨client, ⟨hmem, hne⟩, rfl⟩
    exact ⟨⟨client, hmem, rfl⟩, hne⟩
  · rintro ⟨⟨client, hmem, rfl⟩, hne⟩
    exact ⟨client, ⟨hmem, hne⟩, rfl⟩

/-- No effect has to do with a removal. -/
def NoRemoval (effects : List Effect) : Prop :=
  ∀ id, effects.countP (Effect.removes id) = 0 ∧ effects.countP (Effect.runsRemoved id) = 0

theorem noRemoval_sent {effects : List Effect} (h : ∀ effect ∈ effects, ∃ id message,
    effect = .sent id message) : NoRemoval effects := by
  refine fun id => ⟨List.countP_eq_zero.2 fun effect heffect => ?_,
    List.countP_eq_zero.2 fun effect heffect => ?_⟩
  · obtain ⟨_, _, rfl⟩ := h effect heffect
    simp [Effect.removes]
  · obtain ⟨_, _, rfl⟩ := h effect heffect
    simp [Effect.runsRemoved]

/-- The peer state of a session was brought up to date, and its changes were told. -/
structure Refreshed (s s' : Server) (sessionId : String) (excluded : Option String)
    (effects : List Effect) : Prop where
  rest : s' = { s with peerStates := s'.peerStates }
  others : ∀ other, other ≠ sessionId → s'.peerStates.get other = s.peerStates.get other
  current : (s'.peerStates.get sessionId).connected =
    decide (0 < s.registry.countBySessionAndRole sessionId .ide)
  advance : s'.peerStates.get sessionId = s.peerStates.get sessionId ∨
    Advance (s.peerStates.get sessionId) (s'.peerStates.get sessionId)
  told : ∀ id, peerStatesFor id effects =
    if s'.peerStates.get sessionId = s.peerStates.get sessionId then []
    else if (∃ client ∈ s.peerStateRecipients sessionId, client.id = id) ∧ some id ≠ excluded then
      [s'.peerStates.get sessionId] else []
  removals : NoRemoval effects

theorem refreshPeerState_refreshed (s : Server) (sessionId : String) (excluded : Option String) :
    Refreshed s (s.refreshPeerState sessionId excluded).1 sessionId excluded
      (s.refreshPeerState sessionId excluded).2 := by
  have hget := s.peerStates.updateIdeCount_get sessionId
    (s.registry.countBySessionAndRole sessionId .ide)
  unfold refreshPeerState
  cases htransition : (s.peerStates.updateIdeCount sessionId
      (s.registry.countBySessionAndRole sessionId .ide)).1 with
  | none =>
    simp only [htransition, Option.getD_none] at hget ⊢
    have hsame : (s.peerStates.updateIdeCount sessionId
        (s.registry.countBySessionAndRole sessionId .ide)).2.get sessionId =
          s.peerStates.get sessionId := by
      rw [hget, if_pos rfl]
    refine ⟨rfl, fun other hne => by rw [hget, if_neg hne], ?_, .inl hsame, fun id => ?_, ?_⟩
    · rw [hsame]
      exact PeerStateRegistry.updateIdeCount_none.1 htransition
    · rw [if_pos hsame]
      rfl
    · exact fun id => ⟨rfl, rfl⟩
  | some next =>
    obtain ⟨hconnected, hturned, hgeneration⟩ := PeerStateRegistry.updateIdeCount_some htransition
    simp only [htransition, Option.getD_some] at hget ⊢
    have hnext : (s.peerStates.updateIdeCount sessionId
        (s.registry.countBySessionAndRole sessionId .ide)).2.get sessionId = next := by
      rw [hget, if_pos rfl]
    have hadvance : Advance (s.peerStates.get sessionId) next := ⟨hturned, hgeneration⟩
    refine ⟨rfl, fun other hne => by rw [hget, if_neg hne], ?_, ?_, fun id => ?_, ?_⟩
    · rw [hnext]
      exact hconnected
    · rw [hnext]
      exact .inr hadvance
    · rw [hnext, if_neg hadvance.ne]
      exact peerStatesFor_publish s sessionId next excluded id
    · refine noRemoval_sent fun effect heffect => ?_
      obtain ⟨client, -, rfl⟩ := List.mem_map.1 heffect
      exact ⟨_, _, rfl⟩

theorem Refreshed.registry (h : Refreshed s s' sessionId excluded effects) :
    s'.registry = s.registry := by rw [h.rest]

theorem Refreshed.not_told {id : String} (h : Refreshed s s' sessionId excluded effects)
    (hnot : ¬((∃ client ∈ s.peerStateRecipients sessionId, client.id = id) ∧ some id ≠ excluded)) :
    peerStatesFor id effects = [] := by
  rw [h.told, if_neg hnot]
  split <;> rfl

/-- A client that is not left out is told when the state of its session changes. -/
theorem Refreshed.told_client (h : Refreshed s s' sessionId excluded effects)
    (hget : s.registry.get client.id = some client) (hinspector : isInspector client)
    (hne : some client.id ≠ excluded) :
    peerStatesFor client.id effects =
      if s'.peerStates.get client.sessionId = s.peerStates.get client.sessionId then []
      else [s'.peerStates.get client.sessionId] := by
  by_cases hsession : client.sessionId = sessionId
  · rw [h.told, hsession]
    refine if_congr Iff.rfl rfl (if_pos ⟨⟨client, ?_, rfl⟩, hne⟩)
    exact mem_peerStateRecipients.2 ⟨hget, hsession, hinspector⟩
  · have hnot : ¬∃ other ∈ s.peerStateRecipients sessionId, other.id = client.id := by
      rintro ⟨other, hother, hid⟩
      obtain ⟨hget', hsession', -⟩ := mem_peerStateRecipients.1 hother
      rw [hid, hget] at hget'
      exact hsession (Option.some.inj hget' ▸ hsession')
    rw [h.not_told fun hboth => hnot hboth.1, if_pos (h.others _ hsession)]

theorem Refreshed.untold {id : String} (h : Refreshed s s' sessionId excluded effects)
    (hget : s.registry.get id = none) : peerStatesFor id effects = [] := by
  refine h.not_told ?_
  rintro ⟨⟨other, hother, rfl⟩, -⟩
  cases (mem_peerStateRecipients.1 hother).1.symm.trans hget

/-! ## The state of a run -/

/-- A session is connected while an IDE of it is registered. -/
def Synced (s : Server) : Prop :=
  ∀ sessionId, (s.peerStates.get sessionId).connected =
    decide (0 < s.registry.countBySessionAndRole sessionId .ide)

structure Inv (s : Server) : Prop where
  ids : (s.registrations.map fun entry => entry.2.id).Nodup
  owned : ∀ c client, (s.connections c).registered = some client → (c, client) ∈ s.registrations
  held : ∀ client, s.registry.get client.id = some client →
    ∃ c, (s.connections c).registered = some client
  names : ∀ id, s.Names id → s.Connected id
  indexed : s.replyRoutes.Indexed
  synced : s.Synced

/-- Registrations with one id are one. -/
theorem Inv.entry_unique (inv : Inv s) {entry entry' : ConnectionId × RegisteredClient}
    (h : entry ∈ s.registrations) (h' : entry' ∈ s.registrations) (hid : entry.2.id = entry'.2.id) :
    entry = entry' :=
  List.inj_on_of_nodup_map inv.ids h h' hid

/-- The client that is registered under the id of a connection's client is this client. -/
theorem Inv.get_of_registered (inv : Inv s) (hclient : (s.connections c).registered = some client)
    (hget : (s.registry.get client.id).isSome) : s.registry.get client.id = some client := by
  obtain ⟨other, hother⟩ := Option.isSome_iff_exists.1 hget
  have hid : other.id = client.id := ClientRegistry.id_of_get hother
  obtain ⟨c', hc'⟩ := inv.held other (hid.symm ▸ hother)
  have hsame := inv.entry_unique (inv.owned c' other hc') (inv.owned c client hclient) hid
  rw [hother, (Prod.mk.inj hsame).2]

/-! ## What a step announces -/

/-- What is announced in a step, and what is removed. -/
structure Announced (s s' : Server) (effects : List Effect) : Prop where
  changed : ∀ sessionId, s'.peerStates.get sessionId = s.peerStates.get sessionId ∨
    Advance (s.peerStates.get sessionId) (s'.peerStates.get sessionId)
  told : ∀ client, s.registry.get client.id = some client → s'.registry.get client.id = some client →
    isInspector client → peerStatesFor client.id effects =
      if s'.peerStates.get client.sessionId = s.peerStates.get client.sessionId then []
      else [s'.peerStates.get client.sessionId]
  untold : ∀ id, s'.registry.get id = none → peerStatesFor id effects = []
  removed : ∀ id, effects.countP (Effect.removes id) =
    if (s.registry.get id).isSome ∧ s'.registry.get id = none then 1 else 0
  ran : ∀ id, effects.countP (Effect.runsRemoved id) =
    if (s.registry.get id).isSome ∧ s'.registry.get id = none then 1 else 0
  synced : s'.Synced

theorem Quiet.announced (h : Quiet s s' effects) (hsynced : s.Synced) : Announced s s' effects where
  changed sessionId := .inl (by rw [h.peerStates])
  told client _ _ _ := by rw [h.silent.peerStatesFor, h.peerStates, if_pos rfl]
  untold id _ := h.silent.peerStatesFor id
  removed id := by
    rw [h.silent.removes, h.registry]
    cases s.registry.get id <;> simp
  ran id := by
    rw [h.silent.runsRemoved, h.registry]
    cases s.registry.get id <;> simp
  synced := by
    unfold Synced
    rw [h.peerStates, h.registry]
    exact hsynced

/-- With the session brought up to date, all are. -/
theorem Refreshed.synced (h : Refreshed s s' sessionId excluded effects)
    (hothers : ∀ other, other ≠ sessionId → (s.peerStates.get other).connected =
      decide (0 < s.registry.countBySessionAndRole other .ide)) : s'.Synced := by
  intro other
  rw [h.registry]
  by_cases hne : other = sessionId
  · rw [hne]
    exact h.current
  · rw [h.others other hne]
    exact hothers other hne

/-- The change of the state of any session, seen from a state with the same peer states. -/
theorem Refreshed.changed (h : Refreshed s₁ s' sessionId excluded effects)
    (hpeers : s₁.peerStates = s.peerStates) (other : String) :
    s'.peerStates.get other = s.peerStates.get other ∨
      Advance (s.peerStates.get other) (s'.peerStates.get other) := by
  rw [← hpeers]
  by_cases hne : other = sessionId
  · rw [hne]
    exact h.advance
  · exact .inl (h.others other hne)

/-! ## A registration -/

theorem Inv.get_fresh (inv : Inv s) (fresh : ∀ entry ∈ s.registrations, entry.2.id ≠ client.id) :
    s.registry.get client.id = none := by
  by_contra hget
  obtain ⟨other, hother⟩ := Option.ne_none_iff_exists'.1 hget
  have hid : other.id = client.id := ClientRegistry.id_of_get hother
  obtain ⟨c, hc⟩ := inv.held other (hid.symm ▸ hother)
  exact fresh _ (inv.owned c other hc) hid

theorem count_add (hfresh : s.registry.get client.id = none) :
    0 < (s.registry.add client).countBySessionAndRole sessionId .ide ↔
      0 < s.registry.countBySessionAndRole sessionId .ide ∨
        (client.sessionId = sessionId ∧ client.source.role = .ide) := by
  simp only [ClientRegistry.countBySessionAndRole_pos, ClientRegistry.get_add]
  constructor
  · rintro ⟨other, hget, hsession, hrole⟩
    split at hget
    · obtain rfl := Option.some.inj hget
      exact .inr ⟨hsession, hrole⟩
    · exact .inl ⟨other, hget, hsession, hrole⟩
  · rintro (⟨other, hget, hsession, hrole⟩ | ⟨hsession, hrole⟩)
    · refine ⟨other, ?_, hsession, hrole⟩
      split
      next hid =>
        rw [hid, hfresh] at hget
        cases hget
      · exact hget
    · exact ⟨client, if_pos rfl, hsession, hrole⟩

theorem isIde_of_not_inspector (h : ¬isInspector client) : client.source.role = .ide := by
  unfold isInspector at h
  cases hrole : client.source.role <;> simp [hrole] at h ⊢

theorem not_ide_of_inspector (h : isInspector client) : client.source.role ≠ .ide := by
  intro hrole
  simp [isInspector, hrole] at h

/-- The state in which a client that registers is told about its session. -/
def registering (s : Server) (c : ConnectionId) (client : RegisteredClient) : Server :=
  { s.setConnection c { s.connections c with registered := some client } with
    registry := s.registry.add client
    missedPongs := Function.update s.missedPongs client.id 0
    registrations := (c, client) :: s.registrations }

/-- A registration brings the session up to date; what it then sends to the client itself is the state
of the session, if the client is no IDE. -/
theorem register_cases (hs : s.register c client = (s', effects)) :
    ∃ excluded effects₁ own, Refreshed (registering s c client) s' client.sessionId excluded effects₁ ∧
      effects = .sent client.id .authenticated :: (effects₁ ++ own) ∧
      ((isInspector client = true ∧ excluded = some client.id ∧
          own = [.sent client.id (.peerState (s'.peerStates.get client.sessionId))]) ∨
        (client.source.role = .ide ∧ excluded = none ∧ own = [])) := by
  unfold register at hs
  dsimp only at hs
  split at hs
  next hinspector =>
    obtain ⟨rfl, rfl⟩ := Prod.mk.inj hs
    exact ⟨_, _, _, refreshPeerState_refreshed (registering s c client) client.sessionId
      (some client.id), rfl, .inl ⟨hinspector, rfl, rfl⟩⟩
  next hide =>
    obtain ⟨rfl, rfl⟩ := Prod.mk.inj hs
    refine ⟨_, _, [], refreshPeerState_refreshed (registering s c client) client.sessionId none, ?_,
      .inr ⟨isIde_of_not_inspector hide, rfl, rfl⟩⟩
    rw [List.append_nil]
    rfl

theorem peerStatesFor_append (id : String) (effects more : List Effect) :
    peerStatesFor id (effects ++ more) = peerStatesFor id effects ++ peerStatesFor id more :=
  List.filterMap_append

theorem register_announced (inv : Inv s)
    (fresh : ∀ entry ∈ s.registrations, entry.2.id ≠ client.id)
    (hs : s.register c client = (s', effects)) :
    Announced s s' effects ∧
      (isInspector client →
        peerStatesFor client.id effects = [s'.peerStates.get client.sessionId]) := by
  have hnone := inv.get_fresh fresh
  obtain ⟨excluded, effects₁, own, hrefreshed, rfl, hown⟩ := register_cases hs
  have hregistry : s'.registry = s.registry.add client := hrefreshed.registry
  have hsynced : s'.Synced := by
    refine hrefreshed.synced fun other hne => ?_
    have hcount : 0 < (s.registry.add client).countBySessionAndRole other .ide ↔
        0 < s.registry.countBySessionAndRole other .ide := by
      rw [count_add hnone]
      exact or_iff_left fun h => hne h.1.symm
    show (s.peerStates.get other).connected = _
    rw [inv.synced other, decide_eq_decide]
    exact hcount.symm
  have hauthenticated : ∀ id, peerStatesFor id
      (.sent client.id .authenticated :: (effects₁ ++ own)) =
        peerStatesFor id effects₁ ++ peerStatesFor id own := by
    intro id
    rw [← peerStatesFor_append]
    rfl
  have hother : ∀ id, client.id ≠ id → peerStatesFor id own = [] := by
    intro id hne
    rcases hown with ⟨-, -, rfl⟩ | ⟨-, -, rfl⟩
    · simp [peerStatesFor, Effect.peerStateFor, hne]
    · rfl
  have hsent : NoRemoval (.sent client.id .authenticated :: (effects₁ ++ own)) := by
    intro id
    have hrest := hrefreshed.removals id
    rw [List.countP_cons, List.countP_cons, List.countP_append, List.countP_append, hrest.1, hrest.2]
    rcases hown with ⟨-, -, rfl⟩ | ⟨-, -, rfl⟩
    · simp [Effect.removes, Effect.runsRemoved]
    · simp [Effect.removes, Effect.runsRemoved]
  have hkept : ∀ id, ¬((s.registry.get id).isSome ∧ s'.registry.get id = none) := by
    rintro id ⟨hsome, hgone⟩
    rw [hregistry, ClientRegistry.get_add] at hgone
    split at hgone
    · cases hgone
    · rw [hgone] at hsome
      cases hsome
  refine ⟨⟨hrefreshed.changed rfl, ?_, ?_, ?_, ?_, hsynced⟩, ?_⟩
  · intro other hget hget' hinspector
    have hne : client.id ≠ other.id := by
      intro hid
      rw [← hid, hnone] at hget
      cases hget
    have hnot : some other.id ≠ excluded := by
      rcases hown with ⟨-, rfl, -⟩ | ⟨-, rfl, -⟩
      · exact fun h => hne (Option.some.inj h).symm
      · exact nofun
    rw [hauthenticated, hother _ hne, List.append_nil]
    rw [hrefreshed.registry] at hget'
    exact hrefreshed.told_client hget' hinspector hnot
  · intro id hgone
    have hne : client.id ≠ id := by
      rintro rfl
      rw [hregistry, ClientRegistry.get_add, if_pos rfl] at hgone
      cases hgone
    rw [hauthenticated, hother id hne, List.append_nil]
    rw [hrefreshed.registry] at hgone
    exact hrefreshed.untold hgone
  · intro id
    rw [(hsent id).1, if_neg (hkept id)]
  · intro id
    rw [(hsent id).2, if_neg (hkept id)]
  · intro hinspector
    rcases hown with ⟨-, rfl, rfl⟩ | ⟨hrole, -, -⟩
    · rw [hauthenticated, hrefreshed.not_told fun hboth => hboth.2 rfl]
      simp [peerStatesFor, Effect.peerStateFor]
    · exact absurd hrole (not_ide_of_inspector hinspector)

/-! ## A removal -/

theorem count_remove (hget : s.registry.get client.id = some client)
    (hother : client.sessionId ≠ sessionId ∨ client.source.role ≠ .ide) :
    0 < (s.registry.remove client.id).countBySessionAndRole sessionId .ide ↔
      0 < s.registry.countBySessionAndRole sessionId .ide := by
  simp only [ClientRegistry.countBySessionAndRole_pos, ClientRegistry.get_remove]
  constructor
  · rintro ⟨other, hget', hsession, hrole⟩
    split at hget'
    · cases hget'
    · exact ⟨other, hget', hsession, hrole⟩
  · rintro ⟨other, hget', hsession, hrole⟩
    refine ⟨other, ?_, hsession, hrole⟩
    split
    next hid =>
      rw [hid, hget] at hget'
      obtain rfl := Option.some.inj hget'
      rcases hother with hne | hne
      · exact absurd hsession hne
      · exact absurd hrole hne
    · exact hget'

theorem onClientRemoved_cases (h : s₁.onClientRemoved client = .ok (s', effects)) :
    ∃ replyRoutes effects₁, s₁.replyRoutes.removeClient client.id = .ok replyRoutes ∧
      effects = .clientRemoved client.id :: effects₁ ∧
      ((client.source.role = .ide ∧
          Refreshed { s₁ with replyRoutes } s' client.sessionId none effects₁) ∨
        (client.source.role ≠ .ide ∧ s' = { s₁ with replyRoutes } ∧ effects₁ = [])) := by
  unfold onClientRemoved at h
  obtain ⟨replyRoutes, hroutes, h⟩ := bind_eq_ok.1 h
  dsimp only at h
  split at h
  next hide =>
    cases h
    refine ⟨replyRoutes, _, hroutes, rfl, .inl ⟨of_decide_eq_true hide, ?_⟩⟩
    exact refreshPeerState_refreshed { s₁ with replyRoutes } client.sessionId none
  next hide =>
    cases h
    refine ⟨replyRoutes, _, hroutes, rfl, .inr ⟨?_, rfl, rfl⟩⟩
    exact fun hrole => hide (decide_eq_true hrole)

theorem onClientRemoved_registry (h : s₁.onClientRemoved client = .ok (s', effects)) :
    s'.registry = s₁.registry := by
  obtain ⟨replyRoutes, effects₁, -, -, ⟨-, hrefreshed⟩ | ⟨-, rfl, -⟩⟩ := onClientRemoved_cases h
  · exact hrefreshed.registry
  · rfl

theorem onClientRemoved_removes (h : s₁.onClientRemoved client = .ok (s', effects)) (id : String) :
    effects.countP (Effect.removes id) = 0 := by
  obtain ⟨replyRoutes, effects₁, -, rfl, ⟨-, hrefreshed⟩ | ⟨-, -, rfl⟩⟩ := onClientRemoved_cases h
  · rw [List.countP_cons, (hrefreshed.removals id).1]
    rfl
  · rfl

/-- What `onClientRemoved` announces when the client has just been taken out of the registry; `all` are
the effects of the whole step. -/
theorem removed_announced (s₁ : Server) {all : List Effect} (hsynced : s.Synced)
    (hget : s.registry.get client.id = some client)
    (hregistry : s₁.registry = s.registry.remove client.id) (hpeers : s₁.peerStates = s.peerStates)
    (h : s₁.onClientRemoved client = .ok (s', effects))
    (htold : ∀ id, peerStatesFor id all = peerStatesFor id effects)
    (hremoved : ∀ id, all.countP (Effect.removes id) = if id = client.id then 1 else 0)
    (hran : ∀ id, all.countP (Effect.runsRemoved id) = effects.countP (Effect.runsRemoved id)) :
    Announced s s' all := by
  have hregistry' : s'.registry = s.registry.remove client.id :=
    (onClientRemoved_registry h).trans hregistry
  have hgone : ∀ id, ((s.registry.get id).isSome ∧ s'.registry.get id = none) ↔ id = client.id := by
    intro id
    rw [hregistry', ClientRegistry.get_remove]
    constructor
    · rintro ⟨hsome, hnone⟩
      split at hnone
      next hid => exact hid
      · rw [hnone] at hsome
        cases hsome
    · rintro rfl
      rw [hget]
      exact ⟨rfl, if_pos rfl⟩
  obtain ⟨replyRoutes, effects₁, -, rfl, hcases⟩ := onClientRemoved_cases h
  have htold' : ∀ id, peerStatesFor id (.clientRemoved client.id :: effects₁) =
      peerStatesFor id effects₁ := fun id => rfl
  have hruns : ∀ id, effects₁.countP (Effect.runsRemoved id) = 0 := by
    intro id
    rcases hcases with ⟨-, hrefreshed⟩ | ⟨-, -, rfl⟩
    · exact (hrefreshed.removals id).2
    · rfl
  have hranEq : ∀ id, all.countP (Effect.runsRemoved id) = if id = client.id then 1 else 0 := by
    intro id
    rw [hran, List.countP_cons, hruns, Effect.runsRemoved]
    by_cases hid : id = client.id
    · simp [hid]
    · simp [hid, Ne.symm hid]
  have hcount : ∀ other, other ≠ client.sessionId ∨ client.source.role ≠ .ide →
      (s₁.peerStates.get other).connected =
        decide (0 < s₁.registry.countBySessionAndRole other .ide) := by
    intro other hne
    rw [hpeers, hregistry, hsynced other, decide_eq_decide]
    refine (count_remove hget ?_).symm
    rcases hne with hne | hne
    · exact .inl (Ne.symm hne)
    · exact .inr hne
  rcases hcases with ⟨-, hrefreshed⟩ | ⟨hrole, rfl, rfl⟩
  · refine ⟨hrefreshed.changed hpeers, ?_, ?_, ?_, ?_, ?_⟩
    · intro other _ hget' hinspector
      rw [htold, htold', ← hpeers]
      rw [hrefreshed.registry] at hget'
      exact hrefreshed.told_client hget' hinspector nofun
    · intro id hnone
      rw [htold, htold']
      rw [hrefreshed.registry] at hnone
      exact hrefreshed.untold hnone
    · exact fun id => (hremoved id).trans (if_congr (hgone id).symm rfl rfl)
    · exact fun id => (hranEq id).trans (if_congr (hgone id).symm rfl rfl)
    · exact hrefreshed.synced fun other hne => hcount other (.inl hne)
  · refine ⟨fun other => .inl (by rw [← hpeers]), ?_, ?_, ?_, ?_, ?_⟩
    · intro other _ _ _
      rw [htold, htold', ← hpeers, if_pos rfl]
      rfl
    · intro id _
      rw [htold, htold']
      rfl
    · exact fun id => (hremoved id).trans (if_congr (hgone id).symm rfl rfl)
    · exact fun id => (hranEq id).trans (if_congr (hgone id).symm rfl rfl)
    · exact fun other => hcount other (.inr hrole)

/-- What depends on whether `registry.remove` deletes the client. -/
theorem removeClient_cases (h : s₁.removeClient client = .ok (s', effects)) :
    ((s₁.registry.get client.id).isSome ∧ ∃ effects₁,
      { s₁ with registry := s₁.registry.remove client.id }.onClientRemoved client =
        .ok (s', effects₁) ∧ effects = .removed client.id :: effects₁) ∨
    (s₁.registry.get client.id = none ∧ effects = [] ∧ ∃ replyRoutes,
      s₁.replyRoutes.removeClient client.id = .ok replyRoutes ∧ s' = { s₁ with replyRoutes }) := by
  unfold removeClient at h
  split at h
  next hsome =>
    obtain ⟨⟨s₂, effects₂⟩, hremoved, h⟩ := bind_eq_ok.1 h
    cases h
    exact .inl ⟨hsome, effects₂, hremoved, rfl⟩
  next hnone =>
    obtain ⟨replyRoutes, hroutes, h⟩ := bind_eq_ok.1 h
    cases h
    exact .inr ⟨by simpa using hnone, rfl, replyRoutes, hroutes, rfl⟩

theorem moved_announced (inv : Inv s) (h : Moved s e s') : Announced s s' e.effects := by
  cases h with
  | quiet h => exact h.announced inv.synced
  | registered fresh hopen hnone hs => exact (register_announced inv fresh hs).1
  | @left c client effects more hclient hs he silent =>
    have htail : ∀ (effects : List Effect) (id : String),
        peerStatesFor id (effects ++ more) = peerStatesFor id effects ∧
        (effects ++ more).countP (Effect.removes id) = effects.countP (Effect.removes id) ∧
        (effects ++ more).countP (Effect.runsRemoved id) =
          effects.countP (Effect.runsRemoved id) := by
      intro effects id
      rw [peerStatesFor_append, silent.peerStatesFor, List.append_nil, List.countP_append,
        List.countP_append, silent.removes, silent.runsRemoved]
      exact ⟨rfl, rfl, rfl⟩
    rcases removeClient_cases hs with ⟨hsome, effects₁, hremoved, rfl⟩ | ⟨hgone, rfl, replyRoutes, -, rfl⟩
    · have hget := inv.get_of_registered hclient hsome
      refine removed_announced ({ s.release c with
        registry := (s.release c).registry.remove client.id }) inv.synced hget rfl rfl hremoved
        (fun id => ?_) (fun id => ?_) fun id => ?_
      · rw [he, (htail _ id).1]
        rfl
      · rw [he, (htail _ id).2.1, List.countP_cons, onClientRemoved_removes hremoved, Effect.removes]
        by_cases hid : id = client.id
        · simp [hid]
        · simp [hid, Ne.symm hid]
      · rw [he, (htail _ id).2.2]
        rfl
    · rw [List.nil_append] at he
      have hsame : ∀ id, ¬((s.registry.get id).isSome ∧ s.registry.get id = none) := by
        rintro id ⟨hsome, hnone⟩
        rw [hnone] at hsome
        cases hsome
      refine ⟨fun _ => .inl rfl, fun other _ _ _ => ?_, fun id _ => ?_, fun id => ?_, fun id => ?_,
        inv.synced⟩
      · rw [he, silent.peerStatesFor]
        exact (if_pos rfl).symm
      · rw [he, silent.peerStatesFor]
      · rw [he, silent.removes]
        exact (if_neg (hsame id)).symm
      · rw [he, silent.runsRemoved]
        exact (if_neg (hsame id)).symm
  | @evicted client effects hget hs he =>
    refine removed_announced ({ s with registry := s.registry.remove client.id }) inv.synced hget
      rfl rfl hs (fun id => ?_) (fun id => ?_) fun id => ?_
    · rw [he]
      rfl
    · rw [he, List.countP_cons, List.countP_cons, onClientRemoved_removes hs]
      by_cases hid : id = client.id
      · simp [Effect.removes, hid]
      · simp [Effect.removes, hid, Ne.symm hid]
    · rw [he]
      rfl

end Server

end PinOp.Bridge
