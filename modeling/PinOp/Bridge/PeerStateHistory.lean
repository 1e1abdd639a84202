import Mathlib.Data.List.Chain
import PinOp.Bridge.PeerStateRuns

/-!
# What clients are told over a whole run

The peer states a client received, compared with the states its session went through, and the
removals of each client.
-/

namespace PinOp.Bridge

open PinOp.Lib PinOp.Protocol

namespace Server

/-- All effects of a run, in order. -/
def effectsOf (h : Trace) : List Effect := h.reverse.flatMap fun t => t.event.effects

/-- The states a session went through in a run, without the one it started in. -/
def changes (sessionId : String) (h : Trace) : List PeerStateSnapshot :=
  h.reverse.filterMap fun t =>
    if t.post.peerStates.get sessionId = t.pre.peerStates.get sessionId then none
    else some (t.post.peerStates.get sessionId)

/-- The step registers the client on the connection. -/
def Registers (t : Transition Server ServerStep) (c : ConnectionId) (client : RegisteredClient) :
    Prop :=
  t.post.registrations = (c, client) :: t.pre.registrations

variable {s s' : Server} {e : ServerStep} {c : ConnectionId} {client : RegisteredClient}
  {sessionId id : String} {limit : ℕ+} {h h₁ h₂ : Trace} {t : Transition Server ServerStep}

theorem effectsOf_cons (t : Transition Server ServerStep) (h : Trace) :
    effectsOf (t :: h) = effectsOf h ++ t.event.effects := by
  simp [effectsOf]

theorem peerStatesFor_cons (id : String) (t : Transition Server ServerStep) (h : Trace) :
    peerStatesFor id (effectsOf (t :: h)) =
      peerStatesFor id (effectsOf h) ++ peerStatesFor id t.event.effects := by
  rw [effectsOf_cons, peerStatesFor_append]

theorem changes_cons (sessionId : String) (t : Transition Server ServerStep) (h : Trace) :
    changes sessionId (t :: h) = changes sessionId h ++
      if t.post.peerStates.get sessionId = t.pre.peerStates.get sessionId then []
      else [t.post.peerStates.get sessionId] := by
  unfold changes
  rw [List.reverse_cons, List.filterMap_append, List.append_cancel_left_eq]
  by_cases hsame : t.post.peerStates.get sessionId = t.pre.peerStates.get sessionId
  · simp [hsame]
  · simp [hsame]

/-! ## Registrations -/

theorem Inv.registered_of_get (inv : Inv s) (hget : (s.registry.get id).isSome) :
    ∃ c client, (c, client) ∈ s.registrations ∧ client.id = id ∧
      s.registry.get id = some client := by
  obtain ⟨client, hclient⟩ := Option.isSome_iff_exists.1 hget
  obtain rfl : client.id = id := ClientRegistry.id_of_get hclient
  obtain ⟨c, hc⟩ := inv.held client hclient
  exact ⟨c, client, inv.owned c client hc, rfl, hclient⟩

/-- Registrations are not undone. -/
theorem registrations_mono (hr : Reaches limit h s) (hs : Step s e s')
    {entry : ConnectionId × RegisteredClient} (hentry : entry ∈ s.registrations) :
    entry ∈ s'.registrations := by
  rcases moved_registrations (inv_run hr) (step_moved hs) with hsame | ⟨c, client, hcons, -⟩
  · rw [hsame]
    exact hentry
  · rw [hcons]
    exact List.mem_cons_of_mem _ hentry

/-- A client that is in the registry and was registered before the step was in it before the step. -/
theorem get_before (hr : Reaches limit h s) (hs : Step s e s')
    (hentry : (c, client) ∈ s.registrations) (hget : s'.registry.get client.id = some client) :
    s.registry.get client.id = some client := by
  have inv := inv_run hr
  cases step_moved hs with
  | quiet hq => rwa [hq.registry] at hget
  | registered fresh hopen hnone hregister =>
    obtain ⟨excluded, effects, own, hrefreshed, -, -⟩ := register_cases hregister
    rw [hrefreshed.registry] at hget
    have hadd := (ClientRegistry.get_add s.registry _ _).symm.trans hget
    split at hadd
    next hid => exact absurd hid (fresh _ hentry)
    · exact hadd
  | left hclient hremove he silent =>
    rw [(removeClient_gone inv hremove).1.registry] at hget
    split at hget
    · cases hget
    · exact hget
  | @evicted other effects hother hremove he =>
    have gone := (onClientRemoved_gone ({ s with registry := s.registry.remove other.id })
      inv.indexed rfl rfl rfl hremove).1
    rw [gone.registry] at hget
    split at hget
    · cases hget
    · exact hget

/-- Nobody is told anything before a registration. -/
theorem untold_before (hr : Reaches limit h s) (hid : ∀ entry ∈ s.registrations, entry.2.id ≠ id) :
    peerStatesFor id (effectsOf h) = [] := by
  induction hr with
  | start => rfl
  | @next h s s' e hr hs ih =>
    have hmono : ∀ entry ∈ s.registrations, entry.2.id ≠ id :=
      fun entry hentry => hid entry (registrations_mono hr hs hentry)
    have inv' : Inv s' := inv_run (hr.next hs)
    have hnone : s'.registry.get id = none := by
      by_contra hget
      obtain ⟨c, client, hentry, hclient, -⟩ :=
        inv'.registered_of_get (Option.isSome_iff_ne_none.2 hget)
      exact hid _ hentry hclient
    rw [peerStatesFor_cons, ih hmono]
    exact (moved_announced (inv_run hr) (step_moved hs)).untold id hnone

/-- What the step that registers a client tells it. -/
theorem told_registering (hr : Reaches limit (t :: h₁) s) (ht : Registers t c client)
    (hinspector : isInspector client) :
    peerStatesFor client.id (effectsOf (t :: h₁)) = [t.post.peerStates.get client.sessionId] := by
  cases hr with
  | @next _ s₀ _ e hr hs =>
    rcases moved_registrations (inv_run hr) (step_moved hs) with hsame | ⟨c', client', hcons, fresh, -, htold⟩
    · have hlength := congrArg List.length (hsame.symm.trans ht)
      simp at hlength
    · obtain ⟨hentry, -⟩ := List.cons.inj (hcons.symm.trans ht)
      obtain ⟨rfl, rfl⟩ := Prod.mk.inj hentry
      rw [peerStatesFor_cons, untold_before hr fresh, List.nil_append]
      exact htold hinspector

/-! ## Announcements -/

theorem entry_of_registers (hr : Reaches limit (h₂ ++ t :: h₁) s) (ht : Registers t c client) :
    (c, client) ∈ s.registrations := by
  induction h₂ generalizing s with
  | nil =>
    cases hr
    rw [ht]
    exact List.mem_cons_self
  | cons t' h₂ ih =>
    cases hr with
    | next hr hs => exact registrations_mono hr hs (ih hr)

/-- While a browser is registered it has been told the state at its registration and each change since,
in order. -/
theorem told_since (hr : Reaches limit (h₂ ++ t :: h₁) s) (ht : Registers t c client)
    (hinspector : isInspector client) (hget : s.registry.get client.id = some client) :
    peerStatesFor client.id (effectsOf (h₂ ++ t :: h₁)) =
      t.post.peerStates.get client.sessionId :: changes client.sessionId h₂ := by
  induction h₂ generalizing s with
  | nil => exact told_registering hr ht hinspector
  | cons t' h₂ ih =>
    rw [List.cons_append] at hr ⊢
    cases hr with
    | @next _ s₀ _ e hr hs =>
      have hbefore := get_before hr hs (entry_of_registers hr ht) hget
      have htold := (moved_announced (inv_run hr) (step_moved hs)).told client hbefore hget hinspector
      rw [peerStatesFor_cons, ih hr hbefore, changes_cons, List.cons_append]
      simp only
      rw [htold]

/-- A client that left the registry is told nothing more. -/
theorem told_after (hr : Reaches limit (h₂ ++ t :: h₁) s) (hentry : (c, client) ∈ t.post.registrations)
    (hgone : t.post.registry.get client.id = none) :
    s.registry.get client.id = none ∧ (c, client) ∈ s.registrations ∧
      peerStatesFor client.id (effectsOf (h₂ ++ t :: h₁)) =
        peerStatesFor client.id (effectsOf (t :: h₁)) := by
  induction h₂ generalizing s with
  | nil =>
    cases hr
    exact ⟨hgone, hentry, rfl⟩
  | cons t' h₂ ih =>
    rw [List.cons_append] at hr ⊢
    cases hr with
    | @next _ s₀ s₁ e hr hs =>
      obtain ⟨hnone, hmem, hsame⟩ := ih hr
      have hnone' : s.registry.get client.id = none := by
        by_contra hget
        have inv' : Inv s := inv_run (hr.next hs)
        obtain ⟨c', client', hentry', hid, hget'⟩ :=
          inv'.registered_of_get (Option.isSome_iff_ne_none.2 hget)
        have hsameEntry := inv'.entry_unique hentry' (registrations_mono hr hs hmem) hid
        rw [(Prod.mk.inj hsameEntry).2] at hget'
        cases hnone.symm.trans (get_before hr hs hmem hget')
      refine ⟨hnone', registrations_mono hr hs hmem, ?_⟩
      rw [peerStatesFor_cons, hsame]
      simp only
      rw [(moved_announced (inv_run hr) (step_moved hs)).untold client.id hnone', List.append_nil]

/-- The states of a session advance, from the one at the start of a run to the one at its end. -/
theorem changes_chain (hr₁ : Reaches limit h₁ s) (hr₂ : Run Step s h₂ s') (sessionId : String) :
    (s.peerStates.get sessionId :: changes sessionId h₂).IsChain Advance ∧
      (s.peerStates.get sessionId :: changes sessionId h₂).getLast? =
        some (s'.peerStates.get sessionId) := by
  induction hr₂ with
  | start => exact ⟨.singleton _, rfl⟩
  | @next h₂ s₁ s' e hr₂ hs ih =>
    obtain ⟨hchain, hlast⟩ := ih
    have hreach : Reaches limit (h₂ ++ h₁) s₁ := hr₁.trans hr₂
    have hchanged := (moved_announced (inv_run hreach) (step_moved hs)).changed sessionId
    rw [changes_cons]
    simp only
    by_cases hsame : s'.peerStates.get sessionId = s₁.peerStates.get sessionId
    · rw [if_pos hsame, List.append_nil, hsame]
      exact ⟨hchain, hlast⟩
    · rw [if_neg hsame, ← List.cons_append]
      refine ⟨List.isChain_append.2 ⟨hchain, .singleton _, fun before hbefore after hafter => ?_⟩, ?_⟩
      · rw [hlast] at hbefore
        obtain rfl := Option.some.inj hbefore
        obtain rfl := Option.some.inj hafter
        exact hchanged.resolve_left hsame
      · rw [List.getLast?_append]
        rfl

/-- Whatever a browser was told so far, each state follows on the one before. -/
theorem told_chain (hr : Reaches limit (h₂ ++ t :: h₁) s) (ht : Registers t c client)
    (hinspector : isInspector client) :
    (peerStatesFor client.id (effectsOf (h₂ ++ t :: h₁))).IsChain Advance := by
  by_cases hget : s.registry.get client.id = some client
  · obtain ⟨hr₁, hs, hr₂⟩ := hr.split
    rw [told_since hr ht hinspector hget]
    exact (changes_chain (hr₁.next hs) hr₂ client.sessionId).1
  induction h₂ generalizing s with
  | nil =>
    rw [List.nil_append] at hr ⊢
    rw [told_registering hr ht hinspector]
    exact .singleton _
  | cons t' h₂ ih =>
    rw [List.cons_append] at hr ⊢
    cases hr with
    | @next _ s₀ _ e hr hs =>
      have hentry := registrations_mono hr hs (entry_of_registers hr ht)
      have inv' : Inv s := inv_run (hr.next hs)
      have hnone : s.registry.get client.id = none := by
        by_contra hsome
        obtain ⟨c', client', hentry', hid, hget'⟩ :=
          inv'.registered_of_get (Option.isSome_iff_ne_none.2 hsome)
        obtain ⟨-, rfl⟩ := Prod.mk.inj (inv'.entry_unique hentry' hentry hid)
        exact hget hget'
      rw [peerStatesFor_cons]
      simp only
      rw [(moved_announced (inv_run hr) (step_moved hs)).untold client.id hnone, List.append_nil]
      by_cases hbefore : s₀.registry.get client.id = some client
      · obtain ⟨hr₁, hs₁, hr₂⟩ := hr.split
        rw [told_since hr ht hinspector hbefore]
        exact (changes_chain (hr₁.next hs₁) hr₂ client.sessionId).1
      · exact ih hr hbefore

/-! ## Removals -/

/-- A client has been removed once, when it is registered no more, and never before. -/
theorem removals (hr : Reaches limit h s) (id : String) :
    ((effectsOf h).countP (Effect.removes id) =
      if (∃ entry ∈ s.registrations, entry.2.id = id) ∧ s.registry.get id = none then 1 else 0) ∧
    ((effectsOf h).countP (Effect.runsRemoved id) =
      if (∃ entry ∈ s.registrations, entry.2.id = id) ∧ s.registry.get id = none then 1 else 0) := by
  induction hr with
  | start => exact ⟨rfl, rfl⟩
  | @next h s s' e hr hs ih =>
    have inv := inv_run hr
    have announced := moved_announced inv (step_moved hs)
    have hsum : (if (∃ entry ∈ s.registrations, entry.2.id = id) ∧ s.registry.get id = none then 1
          else 0) + (if (s.registry.get id).isSome ∧ s'.registry.get id = none then 1 else 0) =
        if (∃ entry ∈ s'.registrations, entry.2.id = id) ∧ s'.registry.get id = none then 1 else 0 := by
      have hmono : (∃ entry ∈ s.registrations, entry.2.id = id) →
          ∃ entry ∈ s'.registrations, entry.2.id = id := by
        rintro ⟨entry, hentry, hid⟩
        exact ⟨entry, registrations_mono hr hs hentry, hid⟩
      cases hget : s.registry.get id with
      | some client =>
        obtain ⟨c, client', hentry, hid, -⟩ :=
          inv.registered_of_get (Option.isSome_iff_exists.2 ⟨client, hget⟩)
        have hafter := hmono ⟨_, hentry, hid⟩
        simp [hafter]
      | none =>
        by_cases hregistered : ∃ entry ∈ s.registrations, entry.2.id = id
        · have hnone : s'.registry.get id = none := by
            by_contra hsome
            obtain ⟨entry, hentry, rfl⟩ := hregistered
            obtain ⟨c', client', hentry', hid, hget'⟩ :=
              (inv_run (hr.next hs)).registered_of_get (Option.isSome_iff_ne_none.2 hsome)
            have hsameEntry := (inv_run (hr.next hs)).entry_unique hentry'
              (registrations_mono hr hs hentry) hid
            rw [← hid] at hget'
            have hold : (c', client') ∈ s.registrations := hsameEntry ▸ hentry
            rw [← hid] at hget
            cases hget.symm.trans (get_before hr hs hold hget')
          simp [hregistered, hmono hregistered, hnone]
        · have hafter : ¬((∃ entry ∈ s'.registrations, entry.2.id = id) ∧
              s'.registry.get id = none) := by
            rintro ⟨⟨entry, hentry, rfl⟩, hnone⟩
            rcases moved_registrations inv (step_moved hs) with hsame | ⟨c, client, hcons, -, hget', -⟩
            · rw [hsame] at hentry
              exact hregistered ⟨entry, hentry, rfl⟩
            · rw [hcons] at hentry
              rcases List.mem_cons.1 hentry with rfl | hentry
              · cases hnone.symm.trans hget'
              · exact hregistered ⟨entry, hentry, rfl⟩
          rw [if_neg hafter, if_neg fun hboth => hregistered hboth.1]
          simp
    rw [effectsOf_cons, List.countP_append, List.countP_append, ih.1, ih.2]
    simp only
    rw [announced.removed, announced.ran]
    exact ⟨hsum, hsum⟩

end Server

end PinOp.Bridge
