import PinOp.Bridge.ReplyRouteRegistry

/-!
# What the registry's operations write

Equations for the primitive writes, and one inversion lemma for each operation: when
it refuses, the registry is as before; when it accepts, the guards it passed and the
write it made.
-/

namespace PinOp.Bridge

open PinOp.Lib PinOp.Protocol

namespace ReplyRouteRegistry

variable {reg reg' : ReplyRouteRegistry} {key : RouteKey} {i : String} {g : JsNumber}
  {route : ReplyRoute}

/-! ## What the primitive writes change -/

@[simp] theorem stored_store (reg : ReplyRouteRegistry) (key k : RouteKey)
    (route : StoredReplyRoute) :
    (reg.store key route).stored k = if k = key then some route else reg.stored k := by
  unfold stored store
  rw [NestedMap.get2?_set2]
  cases k; cases key; simp

@[simp] theorem stored_markMutated (reg : ReplyRouteRegistry) (k : RouteKey) :
    reg.markMutated.stored k = reg.stored k := rfl

@[simp] theorem stored_touchClientRoute (reg : ReplyRouteRegistry) (c : String)
    (key k : RouteKey) : (reg.touchClientRoute c key).stored k = reg.stored k := rfl

@[simp] theorem stored_claimIde (reg : ReplyRouteRegistry) (key k : RouteKey)
    (route : StoredReplyRoute) (i : String) :
    (reg.claimIde key route i).stored k = reg.stored k := by
  unfold claimIde
  split <;> rfl

@[simp] theorem stored_storeAndTouch (reg : ReplyRouteRegistry) (key k : RouteKey)
    (route : StoredReplyRoute) :
    (reg.storeAndTouch key route).stored k = if k = key then some route else reg.stored k :=
  stored_store reg key k route

@[simp] theorem stored_unlink (reg : ReplyRouteRegistry) (key k : RouteKey)
    (route : StoredReplyRoute) :
    (reg.unlink key route).stored k = if k = key then none else reg.stored k := by
  unfold stored unlink
  rw [NestedMap.get2?_delete2]
  cases k; cases key; simp

@[simp] theorem stored_create (reg : ReplyRouteRegistry) (c : String) (key k : RouteKey)
    (refs : Finset String) :
    (reg.create c key refs).stored k =
      if k = key then some (createdRoute reg.nextObjectId c refs) else reg.stored k :=
  stored_store reg key k _

@[simp] theorem revision_touchClientRoute (reg : ReplyRouteRegistry) (c : String)
    (key : RouteKey) : (reg.touchClientRoute c key).revision = reg.revision + 1 := rfl

@[simp] theorem revision_claimIde (reg : ReplyRouteRegistry) (key : RouteKey)
    (route : StoredReplyRoute) (i : String) :
    (reg.claimIde key route i).revision = reg.revision := by
  unfold claimIde
  split <;> rfl

@[simp] theorem revision_storeAndTouch (reg : ReplyRouteRegistry) (key : RouteKey)
    (route : StoredReplyRoute) : (reg.storeAndTouch key route).revision = reg.revision + 1 := rfl

theorem removeByKey_eq_ok :
    reg.removeByKey key = .ok reg' ↔
      ∃ r, reg.stored key = some r ∧ reg' = (reg.unlink key r).markMutated := by
  unfold removeByKey routeFromKey
  cases h : reg.stored key with
  | none => simp [bind, Except.bind]
  | some r => simp [bind, Except.bind, pure, Except.pure, eq_comm]

theorem removeByKey_stored (h : reg.removeByKey key = .ok reg') (k : RouteKey) :
    reg'.stored k = if k = key then none else reg.stored k := by
  obtain ⟨r, -, rfl⟩ := removeByKey_eq_ok.1 h
  exact stored_unlink reg key k r

theorem removeKeys_stored {keys : List RouteKey} (h : keys.foldlM removeByKey reg = .ok reg')
    (k : RouteKey) : reg'.stored k = reg.stored k ∨ reg'.stored k = none := by
  induction keys generalizing reg with
  | nil => cases h; exact .inl rfl
  | cons key keys ih =>
    rw [List.foldlM_cons] at h
    cases h₁ : reg.removeByKey key with
    | error e => rw [h₁] at h; cases h
    | ok reg₁ =>
      rw [h₁] at h
      have hs := removeByKey_stored h₁ k
      rcases ih h with he | he
      · rw [he, hs]
        split
        · exact .inr rfl
        · exact .inl rfl
      · exact .inr he

/-! ## What an operation did -/

theorem remove_stored {b : Bool} (h : reg.remove key = .ok (b, reg')) (k : RouteKey) :
    reg'.stored k = if k = key then none else reg.stored k := by
  unfold remove at h
  split at h
  · next hn =>
    cases h
    split
    · next e => subst e; exact Option.isNone_iff_eq_none.1 hn
    · rfl
  · cases h₁ : reg.removeByKey key with
    | error e => rw [h₁] at h; cases h
    | ok reg₁ =>
      rw [h₁] at h
      cases h
      exact removeByKey_stored h₁ k

/-- What committing a registration leaves under a key: what was there, nothing, or, under the
key of the registration itself, a fresh route where there was none. -/
theorem applyRegistration_stored {a : RegistrationApply} {b : Bool}
    (h : reg.applyRegistration a = .ok (b, reg')) (k : RouteKey) :
    reg'.stored k = reg.stored k ∨ reg'.stored k = none ∨
      ∃ c refs evicted, a = .create c k refs evicted ∧ reg.stored k = none ∧
        ∃ objectId, reg'.stored k = some (createdRoute objectId c refs) := by
  cases a with
  | settled => cases h; exact .inl rfl
  | refresh c key currentRoute =>
    simp only [applyRegistration] at h
    split at h
    · cases h; exact .inl rfl
    · cases h; exact .inl rfl
  | create c key refs evicted =>
    simp only [applyRegistration] at h
    split at h
    · cases h; exact .inl rfl
    · next hn =>
      cases he : reg.evict evicted with
      | error e => rw [he] at h; cases h
      | ok reg₁ =>
        rw [he] at h
        cases h
        by_cases hk : k = key
        · subst hk
          refine .inr (.inr ⟨c, refs, evicted, rfl, by simpa using hn, reg₁.nextObjectId, ?_⟩)
          simp
        · have hs₁ : reg₁.stored k = reg.stored k ∨ reg₁.stored k = none := by
            cases evicted with
            | none => cases he; exact .inl rfl
            | some k' =>
              rw [removeByKey_stored he k]
              split
              · exact .inr rfl
              · exact .inl rfl
          rw [stored_create, if_neg hk]
          rcases hs₁ with hs₁ | hs₁
          · exact .inl hs₁
          · exact .inr (.inl hs₁)

theorem commitRegistration_stored {registration : ReplyRouteRegistration} {b : Bool}
    (h : reg.commitRegistration registration = .ok (b, reg')) (k : RouteKey) :
    reg'.stored k = reg.stored k ∨ reg'.stored k = none ∨
      ∃ c refs evicted, registration.apply = .create c k refs evicted ∧ reg.stored k = none ∧
        ∃ objectId, reg'.stored k = some (createdRoute objectId c refs) := by
  unfold commitRegistration at h
  split at h
  · cases h; exact .inl rfl
  split at h
  · cases h; exact .inl rfl
  · exact applyRegistration_stored h k

/-- A registration that will create a route was made for its key, its client and its rules. -/
theorem register_create {refs : List String} {c c' : String} {k : RouteKey}
    {refs' : Finset String} {evicted : Option RouteKey}
    (h : (reg.register key c refs).apply = .create c' k refs' evicted) :
    k = key ∧ c' = c ∧ refs' = refs.toFinset := by
  unfold register at h
  split at h
  · simp only at h
    split at h <;> cases h
  · cases h
    exact ⟨rfl, rfl, rfl⟩


theorem claimAuthority_none {claimed : Bool}
    (h : reg.claimAuthority key i g claimed = (none, reg')) : reg' = reg := by
  unfold claimAuthority at h
  split at h
  · cases h; rfl
  · split at h
    · cases h; rfl
    · split at h
      · cases h; rfl
      · cases h

theorem claimAuthority_some {claimed : Bool}
    (h : reg.claimAuthority key i g claimed = (some route, reg')) :
    ∃ r, reg.stored key = some r ∧ r.ownedByOther i = false ∧
      (∀ g', r.resolutionGeneration = some g' → g.lt g' = false) ∧
      route = snapshot key (r.claim i g claimed) ∧
      reg' = (reg.claimIde key r i).storeAndTouch key (r.claim i g claimed) := by
  unfold claimAuthority at h
  split at h
  · cases h
  · next r hr =>
    split at h
    · cases h
    · next hown =>
      split at h
      · cases h
      · next hgen =>
        cases h
        refine ⟨r, hr, by simpa using hown, ?_, rfl, rfl⟩
        intro g' hg'
        simpa [hg'] using hgen

theorem claimSourceInvalidation_none
    (h : reg.claimSourceInvalidation key i g = (none, reg')) : reg' = reg := by
  unfold claimSourceInvalidation at h
  split at h
  · cases h; rfl
  · split at h
    · cases h
    · exact claimAuthority_none h

/-- An invalidation of an unowned route only clears its matches; of an owned one it is a
claim by the owner. -/
theorem claimSourceInvalidation_some
    (h : reg.claimSourceInvalidation key i g = (some route, reg')) :
    (∃ r, reg.stored key = some r ∧ r.ideConnectionId = none ∧
      route = snapshot key (r.withMatchIds ∅) ∧ reg' = reg.storeAndTouch key (r.withMatchIds ∅)) ∨
    (∃ r, reg.stored key = some r ∧ r.ideConnectionId = some i ∧
      (∀ g', r.resolutionGeneration = some g' → g.lt g' = false) ∧
      route = snapshot key (r.claim i g false) ∧
      reg' = (reg.claimIde key r i).storeAndTouch key (r.claim i g false)) := by
  unfold claimSourceInvalidation at h
  split at h
  · cases h
  · next r hr =>
    split at h
    · next hn => cases h; exact .inl ⟨r, hr, hn, rfl, rfl⟩
    · next hn =>
      obtain ⟨r', hr', hown, hgen, hroute, hreg⟩ := claimAuthority_some h
      rw [hr] at hr'
      cases hr'
      have hi : r.ideConnectionId = some i :=
        (StoredReplyRoute.ownedByOther_eq_false.1 hown).resolve_left hn
      exact .inr ⟨r, hr, hi, hgen, hroute, hreg⟩

theorem replaceMatchIds_none {ids : List String}
    (h : reg.replaceMatchIds key i g ids = (none, reg')) : reg' = reg := by
  unfold replaceMatchIds at h
  split at h
  · cases h; rfl
  · split at h
    · cases h; rfl
    · cases h

theorem replaceMatchIds_some {ids : List String}
    (h : reg.replaceMatchIds key i g ids = (some route, reg')) :
    ∃ r, reg.stored key = some r ∧ r.ideConnectionId = some i ∧
      r.resolutionGeneration = some g ∧ r.resolutionClaimed = true ∧
      route = snapshot key (r.withMatchIds ids.toFinset) ∧
      reg' = reg.storeAndTouch key (r.withMatchIds ids.toFinset) := by
  unfold replaceMatchIds at h
  split at h
  · cases h
  · next r hr =>
    split at h
    · cases h
    · next hg =>
      cases h
      simp only [ne_eq, not_or, not_not] at hg
      obtain ⟨hi, hgen, hclaimed⟩ := hg
      refine ⟨r, hr, hi, ?_, hclaimed, rfl, rfl⟩
      obtain ⟨g', hg', he⟩ := (Option.any_eq_true _ _).1 hgen
      rw [hg', JsNumber.eq_of_strictEq he]

theorem authorizeRulesOpen_none {c : String} {authorityId : String}
    (h : reg.authorizeRulesOpen key c g authorityId = (none, reg')) : reg' = reg := by
  unfold authorizeRulesOpen at h
  split at h
  · cases h; rfl
  · split at h
    · cases h; rfl
    · cases h

theorem authorizeRulesOpen_some {c : String} {authorityId : String}
    (h : reg.authorizeRulesOpen key c g authorityId = (some route, reg')) :
    ∃ r, reg.stored key = some r ∧ r.originConnectionId = c ∧ r.ideConnectionId.isSome ∧
      r.rulesGeneration = some g ∧ authorityId ∈ r.ruleOpenAuthorityIds ∧
      route = snapshot key r ∧ reg' = reg.touchClientRoute r.originConnectionId key := by
  unfold authorizeRulesOpen at h
  split at h
  · cases h
  · next r hr =>
    split at h
    · cases h
    · next hg =>
      cases h
      simp only [ne_eq, not_or, not_not] at hg
      obtain ⟨ho, hi, hgen, hid⟩ := hg
      refine ⟨r, hr, ho, Option.isSome_iff_ne_none.2 hi, ?_, hid, rfl, rfl⟩
      obtain ⟨g', hg', he⟩ := (Option.any_eq_true _ _).1 hgen
      rw [hg', JsNumber.eq_of_strictEq he]

theorem resolve_eq (reg : ReplyRouteRegistry) (key : RouteKey) :
    (reg.resolve key).2 = reg ∨ ∃ r, reg.stored key = some r ∧
      (reg.resolve key).2 = reg.touchClientRoute r.originConnectionId key := by
  unfold resolve peek
  cases h : reg.stored key with
  | none => exact .inl rfl
  | some r => exact .inr ⟨r, rfl, rfl⟩

theorem collectSources_some {refs published proposed ids : Finset String}
    {sources : List RulesSource} (h : collectSources refs published proposed sources = some ids) :
    (∀ s ∈ sources, s.ruleRef ∈ refs ∧ s.ruleRef ∉ published) ∧
      (sources.map RulesSource.ruleRef).Nodup ∧
      ids = proposed ∪ (sources.map RulesSource.openAuthorityId).toFinset := by
  induction sources generalizing published proposed with
  | nil => cases h; simp
  | cons s sources ih =>
    simp only [collectSources] at h
    split at h
    · cases h
    · next hg =>
      simp only [not_or, not_not] at hg
      obtain ⟨hs, hn, hids⟩ := ih h
      refine ⟨?_, ?_, ?_⟩
      · intro s' hs'
        rcases List.mem_cons.1 hs' with rfl | hs'
        · exact ⟨hg.1, hg.2.1⟩
        · exact ⟨(hs s' hs').1, fun hp => (hs s' hs').2 (Finset.mem_insert_of_mem hp)⟩
      · rw [List.map_cons, List.nodup_cons]
        refine ⟨fun hm => ?_, hn⟩
        obtain ⟨s', hs', he⟩ := List.mem_map.1 hm
        exact (hs s' hs').2 (he ▸ Finset.mem_insert_self _ _)
      · rw [hids, List.map_cons, List.toFinset_cons, Finset.insert_union, Finset.union_insert]

theorem prepareRulesSources_some {sources : List RulesSource} {unresolved : JsNumber}
    {prepared : RulesSourcesPreparation}
    (h : reg.prepareRulesSources key i g sources unresolved = some prepared) :
    ∃ r ids n, reg.stored key = some r ∧ r.ownedByOther i = false ∧
      rulesGenerationStale r.rulesGeneration g = false ∧
      collectSources r.expectedRuleRefs ∅ ∅ sources = some ids ∧
      unresolved.integer? = some n ∧ sources.length + n = r.expectedRuleRefs.card ∧
      prepared =
        { key := key, ideConnectionId := i, rulesGeneration := g, proposedAuthorityIds := ids
          expectedRevision := reg.revision, route := r.objectId
          expectedRulesGeneration := r.rulesGeneration, settled := false } := by
  unfold prepareRulesSources at h
  split at h
  · cases h
  next r hr =>
  split at h
  · next n _ hn =>
    split at h
    · cases h
    next hg =>
    simp only [not_or, Bool.not_eq_true] at hg
    split at h
    · cases h
    next ids hids =>
    split at h
    · cases h
    next hcount =>
    cases h
    exact ⟨r, ids, n, hr, hg.1, hg.2.2, hids, hn, not_not.1 hcount, rfl⟩
  · cases h

/-- Nothing happened between the preparation and its commit: it succeeds. -/
theorem commitRulesSources_prepared {sources : List RulesSource} {unresolved : JsNumber}
    {prepared : RulesSourcesPreparation}
    (h : reg.prepareRulesSources key i g sources unresolved = some prepared) :
    (reg.commitRulesSources prepared).1 = true := by
  obtain ⟨r, ids, n, hr, hown, -, -, -, -, rfl⟩ := prepareRulesSources_some h
  simp [commitRulesSources, hr, hown]

/-- A commit that returns true. -/
theorem commitRulesSources_true {prepared : RulesSourcesPreparation}
    (h : reg.commitRulesSources prepared = (true, reg')) :
    prepared.settled = false ∧ reg.revision = prepared.expectedRevision ∧
    ∃ r, reg.stored prepared.key = some r ∧ r.objectId = prepared.route ∧
      r.ownedByOther prepared.ideConnectionId = false ∧
      reg' = (reg.claimIde prepared.key r prepared.ideConnectionId).storeAndTouch prepared.key
        (r.publish prepared.ideConnectionId prepared.rulesGeneration
          prepared.proposedAuthorityIds) := by
  unfold commitRulesSources at h
  split at h
  · cases h
  · next hs =>
    split at h
    · cases h
    · next r hr =>
      split at h
      · cases h
      · next hg =>
        cases h
        simp only [ne_eq, not_or, not_not] at hg
        obtain ⟨hrev, hobj, -, hown⟩ := hg
        exact ⟨by simpa using hs, hrev, r, hr, hobj, by simpa using hown, rfl⟩

theorem commitRulesSources_false {prepared : RulesSourcesPreparation}
    (h : reg.commitRulesSources prepared = (false, reg')) : reg' = reg := by
  unfold commitRulesSources at h
  split at h
  · cases h; rfl
  · split at h
    · cases h; rfl
    · split at h
      · cases h; rfl
      · cases h

end ReplyRouteRegistry

end PinOp.Bridge
