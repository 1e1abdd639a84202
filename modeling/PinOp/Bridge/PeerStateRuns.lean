import PinOp.Bridge.PeerAnnouncements

/-!
# Runs of the server

What holds of the connections, clients and routes in every state that is reached, and what a
client was told by then.
-/

namespace PinOp.Bridge

open PinOp.Lib PinOp.Protocol ReplyRouteRegistry

namespace Server

variable {s s' s₁ : Server} {e : ServerStep} {c : ConnectionId} {client : RegisteredClient}
  {effects : List Effect} {sessionId : String} {limit : ℕ+} {h h₁ h₂ : Trace}
  {t : Transition Server ServerStep}

/-! ## One step -/

/-- The client is in the registry no more, and no route names it. -/
structure Gone (s s' : Server) (client : RegisteredClient) : Prop where
  registrations : s'.registrations = s.registrations
  registry : ∀ id, s'.registry.get id = if id = client.id then none else s.registry.get id
  indexed : s'.replyRoutes.Indexed
  names : ∀ id, s'.Names id → s.Names id ∧ id ≠ client.id

theorem gone_of_routes {replyRoutes : ReplyRouteRegistry} (hi : s.replyRoutes.Indexed)
    (hroutes : s.replyRoutes.removeClient client.id = .ok replyRoutes)
    (hs : s'.replyRoutes = replyRoutes) (hregistrations : s'.registrations = s.registrations)
    (hregistry : ∀ id, s'.registry.get id = if id = client.id then none else s.registry.get id) :
    Gone s s' client := by
  obtain ⟨reg, hok, hreg, hstored⟩ := hi.removeClient client.id
  rw [hroutes] at hok
  obtain rfl := Except.ok.inj hok
  refine ⟨hregistrations, hregistry, hs ▸ hreg, ?_⟩
  rintro id ⟨key, route, hroute, hnames⟩
  rw [hs] at hroute
  have hgone := hi.removeClient_gone hroutes hroute
  rw [hstored] at hroute
  split at hroute
  · cases hroute
  · refine ⟨⟨key, route, hroute, hnames⟩, ?_⟩
    rintro rfl
    rcases hnames with hnames | hnames
    · exact hgone.1 hnames
    · exact hgone.2 hnames

theorem onClientRemoved_gone (s₁ : Server) (hi : s.replyRoutes.Indexed)
    (hroutes : s₁.replyRoutes = s.replyRoutes)
    (hregistrations : s₁.registrations = s.registrations)
    (hregistry : s₁.registry = s.registry.remove client.id)
    (h : s₁.onClientRemoved client = .ok (s', effects)) :
    Gone s s' client ∧ s'.connections = s₁.connections := by
  have hget : ∀ id, (s.registry.remove client.id).get id =
      if id = client.id then none else s.registry.get id :=
    fun id => ClientRegistry.get_remove _ _ _
  obtain ⟨replyRoutes, effects₁, hremove, -, ⟨-, hrefreshed⟩ | ⟨-, rfl, -⟩⟩ := onClientRemoved_cases h
  · rw [hroutes] at hremove
    refine ⟨gone_of_routes hi hremove ?_ ?_ fun id => ?_, ?_⟩
    · rw [hrefreshed.rest]
    · rw [hrefreshed.rest, ← hregistrations]
    · rw [hrefreshed.registry, ← hget]
      show s₁.registry.get id = _
      rw [hregistry]
    · rw [hrefreshed.rest]
  · rw [hroutes] at hremove
    refine ⟨gone_of_routes hi hremove rfl hregistrations fun id => ?_, rfl⟩
    rw [← hget]
    show s₁.registry.get id = _
    rw [hregistry]

theorem removeClient_gone (inv : Inv s)
    (h : (s.release c).removeClient client = .ok (s', effects)) :
    Gone s s' client ∧ s'.connections = (s.release c).connections := by
  rcases removeClient_cases h with ⟨-, effects₁, hremoved, -⟩ | ⟨hnone, -, replyRoutes, hroutes, rfl⟩
  · exact onClientRemoved_gone ({ s.release c with
      registry := (s.release c).registry.remove client.id }) inv.indexed rfl rfl rfl hremoved
  · refine ⟨gone_of_routes inv.indexed hroutes rfl rfl fun id => ?_, rfl⟩
    by_cases hid : id = client.id
    · rw [if_pos hid, hid]
      exact hnone
    · rw [if_neg hid]
      rfl

theorem release_registered (s : Server) (c other : ConnectionId) :
    ((s.release c).connections other).registered =
      if other = c then none else (s.connections other).registered := by
  unfold release setConnection
  by_cases h : other = c
  · rw [h]
    simp
  · simp [h]

theorem release_closing (s : Server) (c other : ConnectionId) :
    ((s.release c).connections other).closing =
      (decide (other = c) || (s.connections other).closing) := by
  unfold release setConnection
  by_cases h : other = c
  · rw [h]
    simp
  · simp [h]

/-- The invariants that are about clients, where a client has gone from the registry. -/
theorem Gone.inv (gone : Gone s s' client) (inv : Inv s) (hsynced : s'.Synced)
    (howned : ∀ c other, (s'.connections c).registered = some other →
      (s.connections c).registered = some other)
    (hkept : ∀ c other, (s.connections c).registered = some other → other.id ≠ client.id →
      (s'.connections c).registered = some other) : Inv s' where
  ids := by
    rw [gone.registrations]
    exact inv.ids
  owned c other hother := by
    rw [gone.registrations]
    exact inv.owned c other (howned c other hother)
  held other hget := by
    rw [gone.registry] at hget
    split at hget
    · cases hget
    next hid =>
      obtain ⟨c, hc⟩ := inv.held other hget
      exact ⟨c, hkept c other hc hid⟩
  names id hnames := by
    obtain ⟨hbefore, hne⟩ := gone.names id hnames
    obtain ⟨c, other, hother, rfl⟩ := inv.names id hbefore
    exact ⟨c, other, hkept c other hother hne, rfl⟩
  indexed := gone.indexed
  synced := hsynced

theorem register_inv (inv : Inv s) (fresh : ∀ entry ∈ s.registrations, entry.2.id ≠ client.id)
    (hnone : (s.connections c).registered = none) (hs : s.register c client = (s', effects))
    (hsynced : s'.Synced) : Inv s' ∧ s'.registrations = (c, client) :: s.registrations := by
  obtain ⟨excluded, effects₁, own, hrefreshed, -, -⟩ := register_cases hs
  have hrest := hrefreshed.rest
  have hregistrations : s'.registrations = (c, client) :: s.registrations := by
    rw [hrest]
    rfl
  have hregistered : ∀ other, (s'.connections other).registered =
      if other = c then some client else (s.connections other).registered := by
    intro other
    rw [hrest]
    show ((s.setConnection c _).connections other).registered = _
    unfold setConnection
    by_cases h : other = c
    · rw [h]
      simp
    · simp [h]
  have hkept : ∀ other client', (s.connections other).registered = some client' →
      (s'.connections other).registered = some client' := by
    intro other client' hother
    rw [hregistered]
    split
    next heq =>
      rw [heq, hnone] at hother
      cases hother
    · exact hother
  refine ⟨⟨?_, ?_, ?_, ?_, ?_, hsynced⟩, hregistrations⟩
  · rw [hregistrations, List.map_cons, List.nodup_cons]
    refine ⟨fun hmem => ?_, inv.ids⟩
    obtain ⟨entry, hentry, hid⟩ := List.mem_map.1 hmem
    exact fresh entry hentry hid
  · intro other client' hother
    rw [hregistrations]
    rw [hregistered] at hother
    split at hother
    next heq =>
      obtain rfl := Option.some.inj hother
      rw [heq]
      exact List.mem_cons_self
    · exact List.mem_cons_of_mem _ (inv.owned other client' hother)
  · intro client' hget
    rw [hrefreshed.registry] at hget
    have hadd : (s.registry.add client).get client'.id = some client' := hget
    rw [ClientRegistry.get_add] at hadd
    split at hadd
    · obtain rfl := Option.some.inj hadd
      exact ⟨c, by rw [hregistered, if_pos rfl]⟩
    · obtain ⟨other, hother⟩ := inv.held client' hadd
      exact ⟨other, hkept other client' hother⟩
  · rintro id ⟨key, route, hroute, hnames⟩
    rw [hrest] at hroute
    obtain ⟨other, client', hother, hid⟩ := inv.names id ⟨key, route, hroute, hnames⟩
    exact ⟨other, client', hkept other client' hother, hid⟩
  · rw [hrest]
    exact inv.indexed

theorem moved_inv (inv : Inv s) (hm : Moved s e s') : Inv s' := by
  have hsynced := (moved_announced inv hm).synced
  cases hm with
  | quiet hq =>
    refine ⟨?_, ?_, ?_, ?_, hq.indexed inv.indexed, hsynced⟩
    · rw [hq.registrations]
      exact inv.ids
    · intro c client hclient
      rw [hq.registered] at hclient
      rw [hq.registrations]
      exact inv.owned c client hclient
    · intro client hget
      rw [hq.registry] at hget
      obtain ⟨c, hc⟩ := inv.held client hget
      exact ⟨c, (hq.registered c).trans hc⟩
    · intro id hnames
      have hconnected : s.Connected id := by
        rcases hq.names id hnames with hbefore | hsender
        · exact inv.names id hbefore
        · exact hsender
      obtain ⟨c, client, hclient, hid⟩ := hconnected
      exact ⟨c, client, (hq.registered c).trans hclient, hid⟩
  | registered fresh hopen hnone hs => exact (register_inv inv fresh hnone hs hsynced).1
  | @left c client effects more hclient hs he silent =>
    obtain ⟨gone, hconnections⟩ := removeClient_gone inv hs
    refine gone.inv inv hsynced (fun other client' hother => ?_) fun other client' hother hne => ?_
    · rw [hconnections, release_registered] at hother
      split at hother
      · cases hother
      · exact hother
    · rw [hconnections, release_registered]
      split
      next heq =>
        rw [heq, hclient] at hother
        exact absurd (congrArg RegisteredClient.id (Option.some.inj hother)).symm hne
      · exact hother
  | @evicted client effects hget hs he =>
    obtain ⟨gone, hconnections⟩ := onClientRemoved_gone
      { s with registry := s.registry.remove client.id } inv.indexed rfl rfl rfl hs
    refine gone.inv inv hsynced (fun other client' hother => ?_) fun other client' hother _ => ?_
    · rw [hconnections] at hother
      exact hother
    · rw [hconnections]
      exact hother

theorem inv_start (limit : ℕ+) : Inv (start limit) where
  ids := List.nodup_nil
  owned c client hclient := by cases hclient
  held client hget := by cases hget
  names := by
    rintro id ⟨key, route, hroute, -⟩
    cases hroute
  indexed := indexed_empty limit
  synced sessionId := by rfl

theorem inv_run (hr : Reaches limit h s) : Inv s :=
  hr.invariant (inv_start limit) fun _ _ _ inv hs => moved_inv inv (step_moved hs)

/-- A step makes no registration, or the one of a hello. -/
theorem moved_registrations (inv : Inv s) (hm : Moved s e s') :
    s'.registrations = s.registrations ∨ ∃ c client,
      s'.registrations = (c, client) :: s.registrations ∧
      (∀ entry ∈ s.registrations, entry.2.id ≠ client.id) ∧
      s'.registry.get client.id = some client ∧
      (isInspector client →
        peerStatesFor client.id e.effects = [s'.peerStates.get client.sessionId]) := by
  have hsynced := (moved_announced inv hm).synced
  cases hm with
  | quiet hq => exact .inl hq.registrations
  | registered fresh hopen hnone hs =>
    obtain ⟨excluded, effects, own, hrefreshed, -, -⟩ := register_cases hs
    refine .inr ⟨_, _, (register_inv inv fresh hnone hs hsynced).2, fresh, ?_,
      (register_announced inv fresh hs).2⟩
    rw [hrefreshed.registry]
    exact (ClientRegistry.get_add s.registry _ _).trans (if_pos rfl)
  | left hclient hs he silent => exact .inl (removeClient_gone inv hs).1.registrations
  | @evicted client effects hget hs he =>
    exact .inl (onClientRemoved_gone ({ s with registry := s.registry.remove client.id })
      inv.indexed rfl rfl rfl hs).1.registrations

end Server

end PinOp.Bridge
