import PinOp.Bridge.RegistryIndex

/-!
# Runs of the reply route registry

A session is a registry with every handle it has given out. Its operations are those
of the class, in any order and with any arguments; a handle may be committed or rolled
back at any later time, more than once. What carries the index through a run is the
revision fence: as long as the revision has not moved, the registry is the one a
pending registration was made on.
-/

namespace PinOp.Bridge

open PinOp.Lib PinOp.Protocol

inductive Operation where
  | register (key : RouteKey) (connectionId : String) (expectedRuleRefs : List String)
  | commitRegistration (handle : ℕ)
  | rollbackRegistration (handle : ℕ)
  | resolve (key : RouteKey)
  | claimResolution (key : RouteKey) (ideConnectionId : String) (generation : JsNumber)
  | claimSourceInvalidation (key : RouteKey) (ideConnectionId : String) (generation : JsNumber)
  | replaceMatchIds (key : RouteKey) (ideConnectionId : String) (generation : JsNumber)
      (matchIds : List String)
  | prepareRulesSources (key : RouteKey) (ideConnectionId : String) (generation : JsNumber)
      (sources : List RulesSource) (unresolvedRuleCount : JsNumber)
  | commitRulesSources (handle : ℕ)
  | rollbackRulesSources (handle : ℕ)
  | authorizeRulesOpen (key : RouteKey) (originConnectionId : String) (generation : JsNumber)
      (openAuthorityId : String)
  | remove (key : RouteKey)
  | removeClient (connectionId : String)
  | clear
  deriving DecidableEq

structure Session where
  registry : ReplyRouteRegistry
  registrations : List ReplyRouteRegistration
  preparations : List RulesSourcesPreparation
  deriving DecidableEq

namespace Session

def start (limit : ℕ+) : Session := ⟨.empty limit, [], []⟩

/-- One call. A handle is named by its place among those given out; a number no handle
has names none. -/
def apply (s : Session) : Operation → Except String Session
  | .register key connectionId expectedRuleRefs =>
    let registration := s.registry.register key connectionId expectedRuleRefs
    .ok { s with registrations := s.registrations ++ [registration] }
  | .commitRegistration handle =>
    match s.registrations[handle]? with
    | none => .ok s
    | some registration => do
      let (_, registry) ← s.registry.commitRegistration registration
      return { s with
        registry, registrations := s.registrations.modify handle ReplyRouteRegistration.settle }
  | .rollbackRegistration handle =>
    .ok { s with registrations := s.registrations.modify handle ReplyRouteRegistration.settle }
  | .resolve key => .ok { s with registry := (s.registry.resolve key).2 }
  | .claimResolution key i g => .ok { s with registry := (s.registry.claimResolution key i g).2 }
  | .claimSourceInvalidation key i g =>
    .ok { s with registry := (s.registry.claimSourceInvalidation key i g).2 }
  | .replaceMatchIds key i g ids =>
    .ok { s with registry := (s.registry.replaceMatchIds key i g ids).2 }
  | .prepareRulesSources key i g sources unresolved =>
    match s.registry.prepareRulesSources key i g sources unresolved with
    | none => .ok s
    | some prepared => .ok { s with preparations := s.preparations ++ [prepared] }
  | .commitRulesSources handle =>
    match s.preparations[handle]? with
    | none => .ok s
    | some prepared =>
      .ok { s with
        registry := (s.registry.commitRulesSources prepared).2
        preparations := s.preparations.modify handle RulesSourcesPreparation.settle }
  | .rollbackRulesSources handle =>
    .ok { s with preparations := s.preparations.modify handle RulesSourcesPreparation.settle }
  | .authorizeRulesOpen key c g authorityId =>
    .ok { s with registry := (s.registry.authorizeRulesOpen key c g authorityId).2 }
  | .remove key => do
    let (_, registry) ← s.registry.remove key
    return { s with registry }
  | .removeClient connectionId => do
    let registry ← s.registry.removeClient connectionId
    return { s with registry }
  | .clear => .ok { s with registry := s.registry.clear }

def run (limit : ℕ+) (operations : List Operation) : Except String Session :=
  operations.foldlM apply (start limit)

end Session

/-! ## Every change moves the revision -/

namespace ReplyRouteRegistry

variable {reg reg' : ReplyRouteRegistry} {key : RouteKey} {r route : StoredReplyRoute}
  {i : String} {g : JsNumber}

/-- The registry is untouched, or its revision has moved. The limit never changes. -/
structure Advances (reg reg' : ReplyRouteRegistry) : Prop where
  limit : reg'.maxRoutesPerClient = reg.maxRoutesPerClient
  moved : reg' = reg ∨ reg.revision < reg'.revision

theorem Advances.refl (reg : ReplyRouteRegistry) : Advances reg reg := ⟨rfl, .inl rfl⟩

theorem advances_touchClientRoute (reg : ReplyRouteRegistry) (c : String) (key : RouteKey) :
    Advances reg (reg.touchClientRoute c key) := ⟨rfl, .inr (Nat.lt_succ_self _)⟩

theorem advances_storeAndTouch (reg : ReplyRouteRegistry) (key : RouteKey)
    (route : StoredReplyRoute) : Advances reg (reg.storeAndTouch key route) :=
  ⟨rfl, .inr (Nat.lt_succ_self _)⟩

theorem advances_claimIde (reg : ReplyRouteRegistry) (key : RouteKey)
    (r route : StoredReplyRoute) (i : String) :
    Advances reg ((reg.claimIde key r i).storeAndTouch key route) := by
  refine ⟨?_, .inr ?_⟩
  · unfold claimIde
    split <;> rfl
  · rw [revision_storeAndTouch, revision_claimIde]
    omega

theorem removeByKey_revision (h : reg.removeByKey key = .ok reg') :
    reg'.revision = reg.revision + 1 ∧ reg'.maxRoutesPerClient = reg.maxRoutesPerClient := by
  obtain ⟨r, -, rfl⟩ := removeByKey_eq_ok.1 h
  exact ⟨rfl, rfl⟩

theorem removeKeys_revision {keys : List RouteKey} (h : keys.foldlM removeByKey reg = .ok reg') :
    reg.revision ≤ reg'.revision ∧ reg'.maxRoutesPerClient = reg.maxRoutesPerClient := by
  induction keys generalizing reg with
  | nil => cases h; exact ⟨le_rfl, rfl⟩
  | cons key keys ih =>
    rw [List.foldlM_cons] at h
    cases h₁ : reg.removeByKey key with
    | error e => rw [h₁] at h; cases h
    | ok reg₁ =>
      rw [h₁] at h
      have hstep := removeByKey_revision h₁
      have hrest := ih h
      exact ⟨by omega, hrest.2.trans hstep.2⟩

theorem advances_removeClient {c : String} (h : reg.removeClient c = .ok reg') :
    Advances reg reg' := by
  obtain ⟨hrev, hlim⟩ := removeKeys_revision h
  exact ⟨hlim, .inr (Nat.lt_of_succ_le hrev)⟩

theorem advances_evict {evicted : Option RouteKey} (h : reg.evict evicted = .ok reg') :
    reg.revision ≤ reg'.revision ∧ reg'.maxRoutesPerClient = reg.maxRoutesPerClient := by
  cases evicted with
  | none => cases h; exact ⟨le_rfl, rfl⟩
  | some k =>
    have := removeByKey_revision h
    exact ⟨by omega, this.2⟩

theorem advances_applyRegistration {a : RegistrationApply} {b : Bool}
    (h : reg.applyRegistration a = .ok (b, reg')) : Advances reg reg' := by
  cases a with
  | settled => cases h; exact .refl reg
  | refresh c key currentRoute =>
    simp only [applyRegistration] at h
    split at h
    · cases h; exact .refl reg
    · cases h; exact advances_touchClientRoute reg c key
  | create c key refs evicted =>
    simp only [applyRegistration] at h
    split at h
    · cases h; exact .refl reg
    · cases he : reg.evict evicted with
      | error e => rw [he] at h; cases h
      | ok reg₁ =>
        rw [he] at h
        cases h
        obtain ⟨hrev, hlim⟩ := advances_evict he
        exact ⟨hlim, .inr (Nat.lt_succ_of_le hrev)⟩

theorem advances_commitRegistration {registration : ReplyRouteRegistration} {b : Bool}
    (h : reg.commitRegistration registration = .ok (b, reg')) : Advances reg reg' := by
  unfold commitRegistration at h
  split at h
  · cases h; exact .refl reg
  split at h
  · cases h; exact .refl reg
  · exact advances_applyRegistration h

/-! ## The operations that cannot fail -/

theorem resolve_keeps (h : reg.Indexed) (key : RouteKey) :
    (reg.resolve key).2.Indexed ∧ Advances reg (reg.resolve key).2 := by
  rcases reg.resolve_eq key with heq | ⟨r, hr, heq⟩
  · rw [heq]; exact ⟨h, .refl reg⟩
  · rw [heq]; exact ⟨h.touchClientRoute hr, advances_touchClientRoute reg _ key⟩

theorem claimAuthority_keeps (h : reg.Indexed) (key : RouteKey) (i : String) (g : JsNumber)
    (claimed : Bool) :
    (reg.claimAuthority key i g claimed).2.Indexed ∧
      Advances reg (reg.claimAuthority key i g claimed).2 := by
  rcases he : reg.claimAuthority key i g claimed with ⟨_ | route, reg'⟩
  · rw [claimAuthority_none he]; exact ⟨h, .refl reg⟩
  · obtain ⟨r, hr, hown, -, -, rfl⟩ := claimAuthority_some he
    exact ⟨h.claimIde hr hown rfl rfl, advances_claimIde reg key r _ i⟩

theorem claimSourceInvalidation_keeps (h : reg.Indexed) (key : RouteKey) (i : String)
    (g : JsNumber) :
    (reg.claimSourceInvalidation key i g).2.Indexed ∧
      Advances reg (reg.claimSourceInvalidation key i g).2 := by
  rcases he : reg.claimSourceInvalidation key i g with ⟨_ | route, reg'⟩
  · rw [claimSourceInvalidation_none he]; exact ⟨h, .refl reg⟩
  · rcases claimSourceInvalidation_some he with ⟨r, hr, -, -, rfl⟩ | ⟨r, hr, hi, -, -, rfl⟩
    · exact ⟨h.storeAndTouch hr rfl rfl, advances_storeAndTouch reg key _⟩
    · have hown : r.ownedByOther i = false := StoredReplyRoute.ownedByOther_eq_false.2 (.inr hi)
      exact ⟨h.claimIde hr hown rfl rfl, advances_claimIde reg key r _ i⟩

theorem replaceMatchIds_keeps (h : reg.Indexed) (key : RouteKey) (i : String) (g : JsNumber)
    (ids : List String) :
    (reg.replaceMatchIds key i g ids).2.Indexed ∧
      Advances reg (reg.replaceMatchIds key i g ids).2 := by
  rcases he : reg.replaceMatchIds key i g ids with ⟨_ | route, reg'⟩
  · rw [replaceMatchIds_none he]; exact ⟨h, .refl reg⟩
  · obtain ⟨r, hr, -, -, -, -, rfl⟩ := replaceMatchIds_some he
    exact ⟨h.storeAndTouch hr rfl rfl, advances_storeAndTouch reg key _⟩

theorem authorizeRulesOpen_keeps (h : reg.Indexed) (key : RouteKey) (c : String) (g : JsNumber)
    (authorityId : String) :
    (reg.authorizeRulesOpen key c g authorityId).2.Indexed ∧
      Advances reg (reg.authorizeRulesOpen key c g authorityId).2 := by
  rcases he : reg.authorizeRulesOpen key c g authorityId with ⟨_ | route, reg'⟩
  · rw [authorizeRulesOpen_none he]; exact ⟨h, .refl reg⟩
  · obtain ⟨r, hr, -, -, -, -, -, rfl⟩ := authorizeRulesOpen_some he
    exact ⟨h.touchClientRoute hr, advances_touchClientRoute reg _ key⟩

theorem commitRulesSources_keeps (h : reg.Indexed) (prepared : RulesSourcesPreparation) :
    (reg.commitRulesSources prepared).2.Indexed ∧
      Advances reg (reg.commitRulesSources prepared).2 := by
  rcases he : reg.commitRulesSources prepared with ⟨_ | _, reg'⟩
  · rw [commitRulesSources_false he]; exact ⟨h, .refl reg⟩
  · obtain ⟨-, -, r, hr, -, hown, rfl⟩ := commitRulesSources_true he
    exact ⟨h.claimIde hr hown rfl rfl, advances_claimIde reg prepared.key r _ _⟩

theorem clear_keeps (reg : ReplyRouteRegistry) : reg.clear.Indexed ∧ Advances reg reg.clear := by
  refine ⟨?_, rfl, .inr (Nat.lt_succ_self _)⟩
  have h := indexed_empty reg.maxRoutesPerClient
  exact ⟨h.byClient, h.byIde, h.routesNoEmpty, h.clientNoEmpty, h.ideNoEmpty, h.bounded⟩

end ReplyRouteRegistry

/-! ## Runs -/

namespace Session

open ReplyRouteRegistry

variable {s s' : Session} {limit : ℕ+}

/-- The registry is indexed, and a pending registration that may still be committed is one
that `register` would give now. -/
structure Inv (limit : ℕ+) (s : Session) : Prop where
  indexed : s.registry.Indexed
  limit_eq : s.registry.maxRoutesPerClient = limit
  past : ∀ h ∈ s.registrations, h.expectedRevision ≤ s.registry.revision
  current : ∀ h ∈ s.registrations, h.expectedRevision = s.registry.revision → h.settled = false →
    ∃ key c refs, h.apply = (s.registry.register key c refs).apply

theorem inv_start (limit : ℕ+) : (start limit).Inv limit where
  indexed := indexed_empty limit
  limit_eq := rfl
  past _ h := by cases h
  current _ h := by cases h

theorem Inv.advance (h : s.Inv limit) {reg : ReplyRouteRegistry} (hi : reg.Indexed)
    (ha : Advances s.registry reg) (preparations : List RulesSourcesPreparation) :
    Inv limit ⟨reg, s.registrations, preparations⟩ := by
  refine ⟨hi, ha.limit.trans h.limit_eq, ?_, ?_⟩
  · intro d hd
    have := h.past d hd
    rcases ha.moved with rfl | hlt
    · exact this
    · exact this.trans hlt.le
  · intro d hd hrev hs
    rcases ha.moved with rfl | hlt
    · exact h.current d hd hrev hs
    · have hpast := h.past d hd
      simp only at hrev
      omega

theorem mem_modify_settle {handles : List ReplyRouteRegistration} {n : ℕ}
    {d : ReplyRouteRegistration} (hd : d ∈ handles.modify n ReplyRouteRegistration.settle) :
    d ∈ handles ∨ (d.settled = true ∧ ∃ d' ∈ handles, d'.expectedRevision = d.expectedRevision) := by
  obtain ⟨m, hm⟩ := List.getElem?_of_mem hd
  rw [List.getElem?_modify] at hm
  obtain ⟨d', hd', rfl⟩ := Option.map_eq_some_iff.1 hm
  have hmem := List.mem_of_getElem? hd'
  split
  · exact .inr ⟨rfl, d', hmem, rfl⟩
  · exact .inl hmem

theorem Inv.settle (h : s.Inv limit) (n : ℕ) :
    Inv limit { s with registrations := s.registrations.modify n ReplyRouteRegistration.settle } := by
  refine ⟨h.indexed, h.limit_eq, ?_, ?_⟩
  · intro d hd
    rcases mem_modify_settle hd with hd | ⟨-, d', hd', he⟩
    · exact h.past d hd
    · rw [← he]; exact h.past d' hd'
  · intro d hd hrev hs
    rcases mem_modify_settle hd with hd | ⟨ht, -⟩
    · exact h.current d hd hrev hs
    · rw [hs] at ht; cases ht

theorem register_expectedRevision (reg : ReplyRouteRegistry) (key : RouteKey) (c : String)
    (refs : List String) : (reg.register key c refs).expectedRevision = reg.revision := by
  unfold ReplyRouteRegistry.register
  split
  · simp only
    split <;> rfl
  · rfl

/-- Every call succeeds and keeps the invariant. -/
theorem Inv.apply (h : s.Inv limit) (op : Operation) :
    ∃ s', s.apply op = .ok s' ∧ s'.Inv limit := by
  cases op with
  | register key c refs =>
    refine ⟨_, rfl, h.indexed, h.limit_eq, ?_, ?_⟩
    · intro d hd
      rcases List.mem_append.1 hd with hd | hd
      · exact h.past d hd
      · rw [List.mem_singleton.1 hd, register_expectedRevision]
    · intro d hd hrev hs
      rcases List.mem_append.1 hd with hd | hd
      · exact h.current d hd hrev hs
      · exact ⟨key, c, refs, by rw [List.mem_singleton.1 hd]⟩
  | commitRegistration n =>
    simp only [Session.apply]
    cases hd : s.registrations[n]? with
    | none => exact ⟨s, rfl, h⟩
    | some d =>
      obtain ⟨⟨b, reg⟩, hok, hi⟩ := h.indexed.commitRegistration
        (h.current d (List.mem_of_getElem? hd))
      refine ⟨⟨reg, s.registrations.modify n ReplyRouteRegistration.settle, s.preparations⟩, ?_, ?_⟩
      · simp only [hok]; rfl
      · exact (h.advance hi (advances_commitRegistration hok) s.preparations).settle n
  | rollbackRegistration n => exact ⟨_, rfl, h.settle n⟩
  | resolve key =>
    obtain ⟨hi, ha⟩ := resolve_keeps h.indexed key
    exact ⟨_, rfl, h.advance hi ha _⟩
  | claimResolution key i g =>
    obtain ⟨hi, ha⟩ := claimAuthority_keeps h.indexed key i g true
    exact ⟨_, rfl, h.advance hi ha _⟩
  | claimSourceInvalidation key i g =>
    obtain ⟨hi, ha⟩ := claimSourceInvalidation_keeps h.indexed key i g
    exact ⟨_, rfl, h.advance hi ha _⟩
  | replaceMatchIds key i g ids =>
    obtain ⟨hi, ha⟩ := replaceMatchIds_keeps h.indexed key i g ids
    exact ⟨_, rfl, h.advance hi ha _⟩
  | prepareRulesSources key i g sources unresolved =>
    simp only [Session.apply]
    cases s.registry.prepareRulesSources key i g sources unresolved with
    | none => exact ⟨s, rfl, h⟩
    | some prepared => exact ⟨_, rfl, h.advance h.indexed (.refl _) _⟩
  | commitRulesSources n =>
    simp only [Session.apply]
    cases s.preparations[n]? with
    | none => exact ⟨s, rfl, h⟩
    | some prepared =>
      obtain ⟨hi, ha⟩ := commitRulesSources_keeps h.indexed prepared
      exact ⟨_, rfl, h.advance hi ha _⟩
  | rollbackRulesSources n => exact ⟨_, rfl, h.advance h.indexed (.refl _) _⟩
  | authorizeRulesOpen key c g authorityId =>
    obtain ⟨hi, ha⟩ := authorizeRulesOpen_keeps h.indexed key c g authorityId
    exact ⟨_, rfl, h.advance hi ha _⟩
  | remove key =>
    simp only [Session.apply, ReplyRouteRegistry.remove]
    cases hr : s.registry.stored key with
    | none => exact ⟨s, rfl, h⟩
    | some r =>
      obtain ⟨reg, hok, hi, -⟩ := h.indexed.removeByKey hr
      refine ⟨⟨reg, s.registrations, s.preparations⟩, ?_, h.advance hi ?_ _⟩
      · simp only [hok]; rfl
      · have hrev := removeByKey_revision hok
        exact ⟨hrev.2, .inr (by omega)⟩
  | removeClient c =>
    simp only [Session.apply]
    obtain ⟨reg, hok, hi, -⟩ := h.indexed.removeClient c
    refine ⟨⟨reg, s.registrations, s.preparations⟩, ?_, h.advance hi (advances_removeClient hok) _⟩
    rw [hok]; rfl
  | clear =>
    obtain ⟨hi, ha⟩ := clear_keeps s.registry
    exact ⟨_, rfl, h.advance hi ha _⟩

theorem Inv.run (h : s.Inv limit) (ops : List Operation) :
    ∃ s', ops.foldlM Session.apply s = .ok s' ∧ s'.Inv limit := by
  induction ops generalizing s with
  | nil => exact ⟨s, rfl, h⟩
  | cons op ops ih =>
    obtain ⟨s₁, h₁, hi₁⟩ := h.apply op
    obtain ⟨s₂, h₂, hi₂⟩ := ih hi₁
    refine ⟨s₂, ?_, hi₂⟩
    rw [List.foldlM_cons, h₁]
    exact h₂

/-- **Index consistency.** No run of the registry fails. Where it ends the indexes are the
inverses of the stored routes, nothing is empty, every client is within the limit, and a
client that leaves takes all its routes along. -/
theorem index_consistent (limit : ℕ+) (ops : List Operation) :
    ∃ s, run limit ops = .ok s ∧
      (∀ c key, key ∈ (s.registry.routesByClient.inner c).keys ↔
        ∃ r, s.registry.stored key = some r ∧ r.originConnectionId = c) ∧
      (∀ i key, key ∈ (s.registry.routesByIde.inner i).keys ↔
        ∃ r, s.registry.stored key = some r ∧ r.ideConnectionId = some i) ∧
      (s.registry.routes.NoEmpty ∧ s.registry.routesByClient.NoEmpty ∧
        s.registry.routesByIde.NoEmpty) ∧
      (∀ c, (s.registry.routesByClient.inner c).size ≤ limit ∧
        ∀ keys : List RouteKey, keys.Nodup →
          (∀ k ∈ keys, ∃ r, s.registry.stored k = some r ∧ r.originConnectionId = c) →
          keys.length ≤ limit) ∧
      (∀ c, ∃ reg, s.registry.removeClient c = .ok reg ∧
        ∀ key r, reg.stored key = some r →
          r.originConnectionId ≠ c ∧ r.ideConnectionId ≠ some c) := by
  obtain ⟨s, hs, h⟩ := (inv_start limit).run ops
  have hi := h.indexed
  refine ⟨s, hs, hi.byClient, hi.byIde,
    ⟨hi.routesNoEmpty, hi.clientNoEmpty, hi.ideNoEmpty⟩, ?_, ?_⟩
  · intro c
    rw [← h.limit_eq]
    exact ⟨hi.bounded c, fun keys hn hk => hi.routes_le hn hk⟩
  · intro c
    obtain ⟨reg, hok, -, -⟩ := hi.removeClient c
    exact ⟨reg, hok, fun key r hr => hi.removeClient_gone hok hr⟩

end Session

end PinOp.Bridge
