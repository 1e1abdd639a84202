import PinOp.Bridge.RegistryWrites

/-!
# The index of the reply route registry

`Indexed` says that `routesByClient` and `routesByIde` are exactly the inverses of the
stored routes, that no inner map is empty and that no client exceeds the limit. Each
primitive write keeps it, hence every operation; a run over arbitrary operations never
meets the inconsistent-index error.
-/

namespace PinOp.Bridge

open PinOp.Lib PinOp.Protocol

namespace ReplyRouteRegistry

variable {reg reg' : ReplyRouteRegistry} {key k : RouteKey} {r route : StoredReplyRoute}
  {c i : String}

/-! ## The index -/

/-- The two indexes agree with the stored routes, nothing is empty, no client exceeds
the limit. -/
structure Indexed (reg : ReplyRouteRegistry) : Prop where
  byClient : ∀ c key, key ∈ (reg.routesByClient.inner c).keys ↔
    ∃ r, reg.stored key = some r ∧ r.originConnectionId = c
  byIde : ∀ i key, key ∈ (reg.routesByIde.inner i).keys ↔
    ∃ r, reg.stored key = some r ∧ r.ideConnectionId = some i
  routesNoEmpty : reg.routes.NoEmpty
  clientNoEmpty : reg.routesByClient.NoEmpty
  ideNoEmpty : reg.routesByIde.NoEmpty
  bounded : ∀ c, (reg.routesByClient.inner c).size ≤ reg.maxRoutesPerClient

theorem indexed_empty (limit : ℕ+) : (empty limit).Indexed where
  byClient c key := by simp [empty, stored]
  byIde i key := by simp [empty, stored]
  routesNoEmpty := NestedMap.noEmpty_empty
  clientNoEmpty := NestedMap.noEmpty_empty
  ideNoEmpty := NestedMap.noEmpty_empty
  bounded c := by simp [empty]

theorem Indexed.markMutated (h : reg.Indexed) : reg.markMutated.Indexed :=
  ⟨h.byClient, h.byIde, h.routesNoEmpty, h.clientNoEmpty, h.ideNoEmpty, h.bounded⟩

theorem Indexed.touchClientRoute (h : reg.Indexed) (hr : reg.stored key = some r) :
    (reg.touchClientRoute r.originConnectionId key).Indexed where
  byClient c k := by
    rw [stored_touchClientRoute, ← h.byClient]
    change k ∈ (NestedMap.inner (reg.routesByClient.touch2 _ _ _) c).keys ↔ _
    rw [NestedMap.mem_inner_touch2, or_iff_right_iff_imp]
    rintro ⟨rfl, rfl⟩
    exact (h.byClient _ _).2 ⟨r, hr, rfl⟩
  byIde := h.byIde
  routesNoEmpty := h.routesNoEmpty
  clientNoEmpty := NestedMap.noEmpty_touch2 h.clientNoEmpty _ _ _
  ideNoEmpty := h.ideNoEmpty
  bounded c := by
    have hmem := (h.byClient r.originConnectionId key).2 ⟨r, hr, rfl⟩
    change (NestedMap.inner (reg.routesByClient.touch2 _ _ _) c).size ≤ _
    rw [NestedMap.size_inner_touch2 _ hmem]
    exact h.bounded c

/-- Rewriting a stored route keeps the index when origin and IDE stay. -/
theorem Indexed.store (h : reg.Indexed) (hr : reg.stored key = some r)
    (ho : route.originConnectionId = r.originConnectionId)
    (hi : route.ideConnectionId = r.ideConnectionId) : (reg.store key route).Indexed where
  byClient c k := by
    refine (h.byClient c k).trans ?_
    rw [stored_store]
    split
    · next e => subst e; simp [hr, ho]
    · rfl
  byIde i k := by
    refine (h.byIde i k).trans ?_
    rw [stored_store]
    split
    · next e => subst e; simp [hr, hi]
    · rfl
  routesNoEmpty := NestedMap.noEmpty_set2 h.routesNoEmpty _ _ _
  clientNoEmpty := h.clientNoEmpty
  ideNoEmpty := h.ideNoEmpty
  bounded := h.bounded

/-- Taking ownership of an unowned route: its index entry comes with the new owner. -/
theorem Indexed.own (h : reg.Indexed) (hr : reg.stored key = some r)
    (hn : r.ideConnectionId = none) (ho : route.originConnectionId = r.originConnectionId)
    (hi : route.ideConnectionId = some i) : ((reg.addIdeRoute i key).store key route).Indexed where
  byClient c k := by
    refine (h.byClient c k).trans ?_
    rw [stored_store]
    split
    · next e => subst e; simp [hr, ho]
    · rfl
  byIde j k := by
    change k ∈ (NestedMap.inner (reg.routesByIde.set2 i key ()) j).keys ↔ _
    rw [NestedMap.mem_inner_set2, h.byIde, stored_store]
    split
    · next e => subst e; simp [hr, hn, hi, eq_comm]
    · next e => simp only [e, and_false, false_or]; rfl
  routesNoEmpty := NestedMap.noEmpty_set2 h.routesNoEmpty _ _ _
  clientNoEmpty := h.clientNoEmpty
  ideNoEmpty := NestedMap.noEmpty_set2 h.ideNoEmpty _ _ _
  bounded := h.bounded

theorem Indexed.storeAndTouch (h : reg.Indexed) (hr : reg.stored key = some r)
    (ho : route.originConnectionId = r.originConnectionId)
    (hi : route.ideConnectionId = r.ideConnectionId) : (reg.storeAndTouch key route).Indexed :=
  (h.store hr ho hi).touchClientRoute (by simp)

/-- A claim and a publication index the route under the IDE, if it had none. -/
theorem Indexed.claimIde (h : reg.Indexed) (hr : reg.stored key = some r)
    (hown : r.ownedByOther i = false)
    (ho : route.originConnectionId = r.originConnectionId)
    (hi : route.ideConnectionId = some i) :
    ((reg.claimIde key r i).storeAndTouch key route).Indexed := by
  unfold ReplyRouteRegistry.claimIde
  split
  · next hn => exact (h.own hr hn ho hi).touchClientRoute (by simp)
  · next hn =>
    have hri : r.ideConnectionId = some i :=
      (StoredReplyRoute.ownedByOther_eq_false.1 hown).resolve_left hn
    exact h.storeAndTouch hr ho (hi.trans hri.symm)

theorem Indexed.unlink (h : reg.Indexed) (hr : reg.stored key = some r) :
    (reg.unlink key r).Indexed where
  byClient c k := by
    change k ∈ (NestedMap.inner (reg.routesByClient.delete2 _ _) c).keys ↔ _
    rw [NestedMap.mem_inner_delete2, h.byClient, stored_unlink]
    split
    · next e => subst e; simp [hr, eq_comm]
    · next e => simp [e]
  byIde i k := by
    rw [stored_unlink]
    unfold ReplyRouteRegistry.unlink
    cases hi : r.ideConnectionId with
    | none =>
      simp only
      rw [h.byIde]
      split
      · next e => subst e; simp [hr, hi]
      · rfl
    | some j =>
      simp only
      rw [NestedMap.mem_inner_delete2, h.byIde]
      split
      · next e => subst e; simp [hr, hi, eq_comm]
      · next e => simp [e]
  routesNoEmpty := NestedMap.noEmpty_delete2 h.routesNoEmpty _ _
  clientNoEmpty := NestedMap.noEmpty_delete2 h.clientNoEmpty _ _
  ideNoEmpty := by
    unfold ReplyRouteRegistry.unlink
    cases r.ideConnectionId with
    | none => exact h.ideNoEmpty
    | some j => exact NestedMap.noEmpty_delete2 h.ideNoEmpty _ _
  bounded c := by
    change (NestedMap.inner (reg.routesByClient.delete2 _ _) c).size ≤ _
    rw [NestedMap.inner_delete2]
    split
    · next e => subst e; exact (OrderedMap.size_delete_le _ _).trans (h.bounded _)
    · exact h.bounded c

theorem Indexed.create (h : reg.Indexed) (hn : reg.stored key = none) (refs : Finset String)
    (hroom : (reg.routesByClient.inner c).size < reg.maxRoutesPerClient) :
    (reg.create c key refs).Indexed where
  byClient d k := by
    change k ∈ (NestedMap.inner (reg.routesByClient.set2 c key ()) d).keys ↔ _
    rw [NestedMap.mem_inner_set2, h.byClient, stored_create]
    split
    · next e => subst e; simp [hn, createdRoute, eq_comm]
    · next e => simp [e]
  byIde i k := by
    refine (h.byIde i k).trans ?_
    rw [stored_create]
    split
    · next e => subst e; simp [hn, createdRoute]
    · rfl
  routesNoEmpty := NestedMap.noEmpty_set2 h.routesNoEmpty _ _ _
  clientNoEmpty := NestedMap.noEmpty_set2 h.clientNoEmpty _ _ _
  ideNoEmpty := h.ideNoEmpty
  bounded d := by
    change (NestedMap.inner (reg.routesByClient.set2 c key ()) d).size ≤ (reg.maxRoutesPerClient : ℕ)
    rw [NestedMap.inner_set2]
    split
    · next e =>
      subst e
      have hnew : key ∉ (reg.routesByClient.inner d).keys := by
        rw [h.byClient]; simp [hn]
      rw [OrderedMap.size_set_of_not_mem _ hnew]
      omega
    · exact h.bounded d

/-! ## Removal -/

/-- In an indexed registry removing a stored key succeeds. -/
theorem Indexed.removeByKey (h : reg.Indexed) (hr : reg.stored key = some r) :
    ∃ reg', reg.removeByKey key = .ok reg' ∧ reg'.Indexed ∧
      ∀ k, reg'.stored k = if k = key then none else reg.stored k :=
  ⟨_, removeByKey_eq_ok.2 ⟨r, hr, rfl⟩, (h.unlink hr).markMutated, fun k => stored_unlink reg key k r⟩

theorem Indexed.removeKeys {keys : List RouteKey} (h : reg.Indexed) (hn : keys.Nodup)
    (hs : ∀ k ∈ keys, (reg.stored k).isSome) :
    ∃ reg', keys.foldlM ReplyRouteRegistry.removeByKey reg = .ok reg' ∧ reg'.Indexed ∧
      ∀ k, reg'.stored k = if k ∈ keys then none else reg.stored k := by
  induction keys generalizing reg with
  | nil => exact ⟨reg, rfl, h, fun k => by simp⟩
  | cons key keys ih =>
    rw [List.nodup_cons] at hn
    obtain ⟨r, hr⟩ := Option.isSome_iff_exists.1 (hs key List.mem_cons_self)
    obtain ⟨reg₁, h₁, hi₁, hs₁⟩ := h.removeByKey hr
    have hrest : ∀ k ∈ keys, (reg₁.stored k).isSome := by
      intro k hk
      have hne : k ≠ key := fun e => hn.1 (e ▸ hk)
      rw [hs₁, if_neg hne]
      exact hs k (List.mem_cons_of_mem _ hk)
    obtain ⟨reg₂, h₂, hi₂, hs₂⟩ := ih hi₁ hn.2 hrest
    refine ⟨reg₂, ?_, hi₂, ?_⟩
    · rw [List.foldlM_cons, h₁]; exact h₂
    · intro k
      rw [hs₂, hs₁]
      by_cases hk : k = key <;> by_cases hm : k ∈ keys <;> simp [hk, hm]

theorem Indexed.mem_keysOfClient (h : reg.Indexed) :
    key ∈ reg.keysOfClient c ↔ ∃ r, reg.stored key = some r ∧
      (r.originConnectionId = c ∨ r.ideConnectionId = some c) := by
  unfold keysOfClient
  simp only [List.mem_append, List.mem_filter, h.byClient, h.byIde, decide_eq_true_eq]
  constructor
  · rintro (⟨r, hr, ho⟩ | ⟨⟨r, hr, hi⟩, -⟩)
    · exact ⟨r, hr, .inl ho⟩
    · exact ⟨r, hr, .inr hi⟩
  · rintro ⟨r, hr, ho | hi⟩
    · exact .inl ⟨r, hr, ho⟩
    · by_cases ho : r.originConnectionId = c
      · exact .inl ⟨r, hr, ho⟩
      · refine .inr ⟨⟨r, hr, hi⟩, ?_⟩
        rintro ⟨r', hr', ho'⟩
        rw [hr] at hr'
        cases hr'
        exact ho ho'

theorem nodup_keysOfClient (reg : ReplyRouteRegistry) (c : String) :
    (reg.keysOfClient c).Nodup := by
  unfold keysOfClient
  rw [List.nodup_append]
  refine ⟨OrderedMap.nodup_keys _, (OrderedMap.nodup_keys _).filter _, ?_⟩
  intro a ha b hb e
  subst e
  simp only [List.mem_filter, decide_eq_true_eq] at hb
  exact hb.2 ha

theorem Indexed.removeClient (h : reg.Indexed) (c : String) :
    ∃ reg', reg.removeClient c = .ok reg' ∧ reg'.Indexed ∧
      ∀ k, reg'.stored k = if k ∈ reg.keysOfClient c then none else reg.stored k := by
  refine h.markMutated.removeKeys (nodup_keysOfClient reg c) ?_
  intro k hk
  obtain ⟨r, hr, -⟩ := h.mem_keysOfClient.1 hk
  simp [hr]

/-- After a client left no route has it as its origin or its IDE. -/
theorem Indexed.removeClient_gone (h : reg.Indexed) (hc : reg.removeClient c = .ok reg')
    (hr : reg'.stored key = some r) : r.originConnectionId ≠ c ∧ r.ideConnectionId ≠ some c := by
  obtain ⟨reg'', h', -, hs⟩ := h.removeClient c
  rw [hc] at h'
  cases h'
  rw [hs] at hr
  split at hr
  · cases hr
  · next hk =>
    rw [h.mem_keysOfClient] at hk
    exact ⟨fun e => hk ⟨r, hr, .inl e⟩, fun e => hk ⟨r, hr, .inr e⟩⟩

/-- The index bounds the stored routes of a client, counted in any way. -/
theorem Indexed.routes_le (h : reg.Indexed) {keys : List RouteKey} (hn : keys.Nodup)
    (hk : ∀ k ∈ keys, ∃ r, reg.stored k = some r ∧ r.originConnectionId = c) :
    keys.length ≤ reg.maxRoutesPerClient := by
  have hsub : keys ⊆ (reg.routesByClient.inner c).keys := fun k hm => (h.byClient c k).2 (hk k hm)
  calc keys.length ≤ (reg.routesByClient.inner c).keys.length := (hn.subperm hsub).length_le
    _ = (reg.routesByClient.inner c).size := OrderedMap.length_keys _
    _ ≤ reg.maxRoutesPerClient := h.bounded c

/-! ## Registration -/

theorem Indexed.evict (h : reg.Indexed) {evicted : Option RouteKey}
    (he : evicted = if reg.maxRoutesPerClient ≤ (reg.routesByClient.inner c).size then
      (reg.routesByClient.inner c).firstKey? else none) :
    ∃ reg', reg.evict evicted = .ok reg' ∧ reg'.Indexed ∧
      (reg'.routesByClient.inner c).size < reg'.maxRoutesPerClient ∧
      ∀ k, reg'.stored k = if evicted = some k then none else reg.stored k := by
  by_cases hfull : reg.maxRoutesPerClient ≤ (reg.routesByClient.inner c).size
  · rw [if_pos hfull] at he
    have hpos := reg.maxRoutesPerClient.pos
    obtain ⟨k, hk⟩ := Option.isSome_iff_exists.1 (OrderedMap.firstKey?_isSome (by omega :
      0 < (reg.routesByClient.inner c).size))
    rw [hk] at he
    subst he
    have hmem := OrderedMap.firstKey?_mem hk
    obtain ⟨r, hr, ho⟩ := (h.byClient c k).1 hmem
    refine ⟨(reg.unlink k r).markMutated, removeByKey_eq_ok.2 ⟨r, hr, rfl⟩,
      (h.unlink hr).markMutated, ?_, ?_⟩
    · change (NestedMap.inner (reg.routesByClient.delete2 _ _) c).size < (reg.maxRoutesPerClient : ℕ)
      rw [ho, NestedMap.inner_delete2, if_pos rfl]
      have := OrderedMap.size_delete_of_mem hmem
      have := h.bounded c
      omega
    · intro k'
      simp only [stored_markMutated, stored_unlink, Option.some.injEq, eq_comm]
  · rw [if_neg hfull] at he
    subst he
    exact ⟨reg, rfl, h, by omega, fun k => by simp⟩

/-- The closure of a registration, run on the registry the registration was made on. -/
theorem Indexed.applyRegistration (h : reg.Indexed) (key : RouteKey) (c : String)
    (refs : List String) :
    ∃ res, reg.applyRegistration (reg.register key c refs).apply = .ok res ∧ res.2.Indexed := by
  unfold register
  cases hr : reg.stored key with
  | some r =>
    simp only
    split
    · exact ⟨_, rfl, h⟩
    · next hg =>
      simp only [ne_eq, not_or, not_not] at hg
      refine ⟨(true, reg.touchClientRoute c key), ?_, hg.1 ▸ h.touchClientRoute hr⟩
      simp [createDeferredRegistration, ReplyRouteRegistry.applyRegistration, hr]
  | none =>
    obtain ⟨reg₁, h₁, hi₁, hroom, hs₁⟩ := h.evict (c := c) rfl
    have hn₁ : reg₁.stored key = none := by
      rw [hs₁, hr, ite_self]
    refine ⟨(true, reg₁.create c key refs.toFinset), ?_, hi₁.create hn₁ _ hroom⟩
    simp only [createDeferredRegistration, ReplyRouteRegistry.applyRegistration, hr, h₁]
    rfl

/-- The revision fence: a registration whose closure does run is one that `register` would
give now. -/
theorem Indexed.commitRegistration (h : reg.Indexed) {registration : ReplyRouteRegistration}
    (hcur : registration.expectedRevision = reg.revision → registration.settled = false →
      ∃ key c refs, registration.apply = (reg.register key c refs).apply) :
    ∃ res, reg.commitRegistration registration = .ok res ∧ res.2.Indexed := by
  unfold ReplyRouteRegistry.commitRegistration
  split
  · exact ⟨_, rfl, h⟩
  · next hs =>
    split
    · exact ⟨_, rfl, h⟩
    · next hrev =>
      obtain ⟨key, c, refs, ha⟩ := hcur (not_not.1 hrev).symm (by simpa using hs)
      rw [ha]
      exact h.applyRegistration key c refs

end ReplyRouteRegistry

end PinOp.Bridge
