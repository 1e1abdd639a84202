import PinOp.Bridge.ClientRegistry

/-!
# The peer state of a session

Whether any IDE of a session is connected, with a generation that counts the changes.
-/

namespace PinOp.Bridge

open PinOp.Lib PinOp.Protocol

structure PeerStateSnapshot where
  connected : Bool
  peerGeneration : ℕ
  deriving DecidableEq

structure PeerStateRegistry where
  states : OrderedMap String PeerStateSnapshot

namespace PeerStateRegistry

def empty : PeerStateRegistry := ⟨∅⟩

def get (peers : PeerStateRegistry) (sessionId : String) : PeerStateSnapshot :=
  (peers.states.get? sessionId).getD ⟨false, 0⟩

/-- The transition, if there is one, and the registry it leaves. -/
def updateIdeCount (peers : PeerStateRegistry) (sessionId : String) (count : ℕ) :
    Option PeerStateSnapshot × PeerStateRegistry :=
  let previous := peers.get sessionId
  let connected : Bool := 0 < count
  if connected = previous.connected then (none, peers)
  else
    let next : PeerStateSnapshot := ⟨connected, previous.peerGeneration + 1⟩
    (some next, ⟨peers.states.set sessionId next⟩)

theorem get_set (peers : PeerStateRegistry) (sessionId other : String) (next : PeerStateSnapshot) :
    get ⟨peers.states.set sessionId next⟩ other =
      if other = sessionId then next else peers.get other := by
  unfold get
  rw [OrderedMap.get?_set]
  split <;> rfl

/-- Only the session that is updated changes, and it changes only with a transition. -/
theorem updateIdeCount_get (peers : PeerStateRegistry) (sessionId : String) (count : ℕ)
    (other : String) :
    (peers.updateIdeCount sessionId count).2.get other =
      if other = sessionId then ((peers.updateIdeCount sessionId count).1).getD (peers.get sessionId)
      else peers.get other := by
  dsimp only [updateIdeCount]
  by_cases h : decide (0 < count) = (peers.get sessionId).connected
  · rw [if_pos h]
    split
    next heq => rw [heq]; rfl
    · rfl
  · rw [if_neg h]
    exact get_set peers sessionId other _

theorem updateIdeCount_none {peers : PeerStateRegistry} {sessionId : String} {count : ℕ} :
    (peers.updateIdeCount sessionId count).1 = none ↔
      (peers.get sessionId).connected = decide (0 < count) := by
  unfold updateIdeCount
  simp only
  split
  next h => exact ⟨fun _ => h.symm, fun _ => rfl⟩
  next h => exact ⟨nofun, fun heq => absurd heq.symm h⟩

/-- A transition turns the state over and counts one generation on. -/
theorem updateIdeCount_some {peers : PeerStateRegistry} {sessionId : String} {count : ℕ}
    {next : PeerStateSnapshot} (h : (peers.updateIdeCount sessionId count).1 = some next) :
    next.connected = decide (0 < count) ∧ next.connected = !(peers.get sessionId).connected ∧
      next.peerGeneration = (peers.get sessionId).peerGeneration + 1 := by
  unfold updateIdeCount at h
  simp only at h
  split at h
  · cases h
  next hne =>
    obtain rfl := Option.some.inj h
    refine ⟨rfl, ?_, rfl⟩
    revert hne
    generalize decide (0 < count) = connected
    generalize (peers.get sessionId).connected = previous
    cases connected <;> cases previous <;> simp

end PeerStateRegistry

namespace ClientRegistry

variable {registry : ClientRegistry} {client other : RegisteredClient} {id sessionId : String}
  {role : ClientRole}

/-- How many clients of the session have the role. -/
def countBySessionAndRole (registry : ClientRegistry) (sessionId : String) (role : ClientRole) : ℕ :=
  registry.all.countP fun client => client.sessionId = sessionId ∧ client.source.role = role

theorem mem_all : client ∈ registry.all ↔ registry.get client.id = some client := by
  unfold all get
  rw [List.mem_map]
  constructor
  · rintro ⟨⟨id, _⟩, hmem, rfl⟩
    have hget := OrderedMap.get?_eq_some.2 hmem
    rw [registry.filed id _ hget]
    exact hget
  · exact fun h => ⟨(client.id, client), OrderedMap.get?_eq_some.1 h, rfl⟩

/-- The clients of a registry have different ids. -/
theorem nodup_all (registry : ClientRegistry) : (registry.all.map RegisteredClient.id).Nodup := by
  have hids : registry.all.map RegisteredClient.id = registry.clients.keys := by
    unfold all OrderedMap.keys
    rw [List.map_map]
    refine List.map_congr_left fun entry hentry => ?_
    exact registry.filed entry.1 entry.2 (OrderedMap.get?_eq_some.2 hentry)
  rw [hids]
  exact registry.clients.nodup_keys

theorem mem_findBySessionAndRole : client ∈ registry.findBySessionAndRole sessionId role ↔
    registry.get client.id = some client ∧ client.sessionId = sessionId ∧ client.source.role = role := by
  rw [findBySessionAndRole, List.mem_filter, mem_all, decide_eq_true_eq]

theorem countBySessionAndRole_pos : 0 < registry.countBySessionAndRole sessionId role ↔
    ∃ client, registry.get client.id = some client ∧ client.sessionId = sessionId ∧
      client.source.role = role := by
  rw [countBySessionAndRole, List.countP_pos_iff]
  simp only [mem_all, decide_eq_true_eq]

@[simp] theorem get_add (registry : ClientRegistry) (client : RegisteredClient) (id : String) :
    (registry.add client).get id = if id = client.id then some client else registry.get id :=
  OrderedMap.get?_set _ _ _ _

@[simp] theorem get_remove (registry : ClientRegistry) (id other : String) :
    (registry.remove id).get other = if other = id then none else registry.get other :=
  OrderedMap.get?_delete _ _ _

end ClientRegistry

end PinOp.Bridge
