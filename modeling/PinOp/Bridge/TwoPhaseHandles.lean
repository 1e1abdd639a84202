import PinOp.Lib.Program
import PinOp.Bridge.RegistryRuns

/-!
# Two-phase handles are atomic

A registration or a rules publication is prepared first and takes effect when its handle is
committed. An operation acts if it finds or changes a route: it returns one, returns true, or is
`removeClient` or `clear`. Where no operation acts, the registry stays the one the handle was made
on; where one acts, the revision moves and the handle is refused.
-/

namespace PinOp.Bridge

open PinOp.Lib PinOp.Protocol ReplyRouteRegistry

/-- The operation returns a route or a client or true, or always moves the revision. -/
def Operation.acts (s : Session) : Operation → Bool
  | .register .. | .rollbackRegistration _ | .prepareRulesSources .. | .rollbackRulesSources _ => false
  | .commitRegistration handle =>
    match s.registrations[handle]?.map s.registry.commitRegistration with
    | some (.ok (committed, _)) => committed
    | _ => false
  | .resolve key => (s.registry.resolve key).1.isSome
  | .claimResolution key i g => (s.registry.claimResolution key i g).1.isSome
  | .claimSourceInvalidation key i g => (s.registry.claimSourceInvalidation key i g).1.isSome
  | .replaceMatchIds key i g ids => (s.registry.replaceMatchIds key i g ids).1.isSome
  | .commitRulesSources handle =>
    (s.preparations[handle]?.map fun prepared => (s.registry.commitRulesSources prepared).1).getD false
  | .authorizeRulesOpen key c g id => (s.registry.authorizeRulesOpen key c g id).1.isSome
  | .remove key =>
    match s.registry.remove key with
    | .ok (removed, _) => removed
    | .error _ => false
  | .removeClient _ | .clear => true

namespace Session

variable {s s' s₁ s₂ : Session} {limit : ℕ+} {n : ℕ}

/-- Some operation of a list acts, each at the state it meets. -/
def actsIn : Session → List Operation → Bool
  | _, [] => false
  | s, op :: ops => op.acts s || (match s.apply op with
    | .ok s' => actsIn s' ops
    | .error _ => false)

/-! ## What an operation that acts does -/

theorem commitRegistration_false {reg reg' : ReplyRouteRegistry} {d : ReplyRouteRegistration}
    (h : reg.commitRegistration d = .ok (false, reg')) : reg' = reg := by
  unfold commitRegistration at h
  split at h
  · cases h; rfl
  split at h
  · cases h; rfl
  · cases ha : d.apply with
    | settled =>
      rw [ha] at h
      cases h; rfl
    | refresh c key currentRoute =>
      rw [ha] at h
      simp only [applyRegistration] at h
      split at h
      · cases h; rfl
      · cases h
    | create c key refs evicted =>
      rw [ha] at h
      simp only [applyRegistration] at h
      split at h
      · cases h; rfl
      · obtain ⟨reg₁, -, h⟩ := bind_eq_ok.1 h
        cases h

theorem commitRegistration_true {reg reg' : ReplyRouteRegistry} {d : ReplyRouteRegistration}
    (h : reg.commitRegistration d = .ok (true, reg')) : reg.revision < reg'.revision := by
  unfold commitRegistration at h
  split at h
  · cases h
  split at h
  · cases h
  · cases ha : d.apply with
    | settled =>
      rw [ha] at h
      cases h
    | refresh c key currentRoute =>
      rw [ha] at h
      simp only [applyRegistration] at h
      split at h
      · cases h
      · cases h
        exact Nat.lt_succ_self _
    | create c key refs evicted =>
      rw [ha] at h
      simp only [applyRegistration] at h
      split at h
      · cases h
      · obtain ⟨reg₁, he, h⟩ := bind_eq_ok.1 h
        cases h
        have hle := (advances_evict he).1
        exact Nat.lt_succ_of_le hle

theorem remove_acts {reg reg' : ReplyRouteRegistry} {key : RouteKey} {removed : Bool}
    (h : reg.remove key = .ok (removed, reg')) :
    (removed = false → reg' = reg) ∧ (removed = true → reg.revision < reg'.revision) := by
  unfold ReplyRouteRegistry.remove at h
  split at h
  · cases h
    exact ⟨fun _ => rfl, nofun⟩
  · obtain ⟨reg₁, hremove, h⟩ := bind_eq_ok.1 h
    cases h
    have hrev := (removeByKey_revision hremove).1
    exact ⟨nofun, fun _ => by omega⟩

/-- An operation that acts moves the revision; any other leaves the registry as it is. -/
theorem acts_spec (op : Operation) (h : s.apply op = .ok s') :
    (op.acts s = false → s'.registry = s.registry) ∧
      (op.acts s = true → s.registry.revision < s'.registry.revision) := by
  cases op with
  | register key c refs =>
    cases h
    exact ⟨fun _ => rfl, (fun h => by cases h)⟩
  | rollbackRegistration n =>
    cases h
    exact ⟨fun _ => rfl, (fun h => by cases h)⟩
  | rollbackRulesSources n =>
    cases h
    exact ⟨fun _ => rfl, (fun h => by cases h)⟩
  | prepareRulesSources key i g sources unresolved =>
    simp only [apply] at h
    split at h <;> cases h <;> exact ⟨fun _ => rfl, (fun h => by cases h)⟩
  | commitRegistration n =>
    simp only [apply] at h
    simp only [Operation.acts]
    split at h
    · rename_i hnone
      cases h
      rw [hnone]
      exact ⟨fun _ => rfl, (fun h => by cases h)⟩
    · rename_i d hd
      obtain ⟨⟨committed, registry⟩, hcommit, h⟩ := bind_eq_ok.1 h
      cases h
      rw [hd, Option.map_some, hcommit]
      constructor
      · rintro rfl
        exact commitRegistration_false hcommit
      · rintro rfl
        exact commitRegistration_true hcommit
  | resolve key =>
    cases h
    simp only [Operation.acts, ReplyRouteRegistry.resolve]
    cases s.registry.peek key with
    | none => exact ⟨fun _ => rfl, (fun h => by cases h)⟩
    | some c => exact ⟨(fun h => by cases h), fun _ => Nat.lt_succ_self _⟩
  | claimResolution key i g =>
    cases h
    simp only [Operation.acts, ReplyRouteRegistry.claimResolution]
    rcases he : s.registry.claimAuthority key i g true with ⟨_ | route, reg⟩
    · exact ⟨fun _ => claimAuthority_none he, (fun h => by cases h)⟩
    · obtain ⟨r, -, -, -, -, rfl⟩ := claimAuthority_some he
      exact ⟨(fun h => by cases h), fun _ => by simp⟩
  | claimSourceInvalidation key i g =>
    cases h
    simp only [Operation.acts]
    rcases he : s.registry.claimSourceInvalidation key i g with ⟨_ | route, reg⟩
    · exact ⟨fun _ => claimSourceInvalidation_none he, (fun h => by cases h)⟩
    · refine ⟨(fun h => by cases h), fun _ => ?_⟩
      rcases claimSourceInvalidation_some he with ⟨r, -, -, -, rfl⟩ | ⟨r, -, -, -, -, rfl⟩
      · simp
      · simp
  | replaceMatchIds key i g ids =>
    cases h
    simp only [Operation.acts]
    rcases he : s.registry.replaceMatchIds key i g ids with ⟨_ | route, reg⟩
    · exact ⟨fun _ => replaceMatchIds_none he, (fun h => by cases h)⟩
    · obtain ⟨r, -, -, -, -, -, rfl⟩ := replaceMatchIds_some he
      exact ⟨(fun h => by cases h), fun _ => by simp⟩
  | commitRulesSources n =>
    simp only [apply] at h
    simp only [Operation.acts]
    split at h
    · rename_i hnone
      cases h
      rw [hnone]
      exact ⟨fun _ => rfl, (fun h => by cases h)⟩
    · rename_i prepared hprepared
      cases h
      rw [hprepared, Option.map_some, Option.getD_some]
      rcases he : s.registry.commitRulesSources prepared with ⟨_ | _, reg⟩
      · exact ⟨fun _ => commitRulesSources_false he, (fun h => by cases h)⟩
      · obtain ⟨-, -, r, -, -, -, rfl⟩ := commitRulesSources_true he
        exact ⟨(fun h => by cases h), fun _ => by simp⟩
  | authorizeRulesOpen key c g id =>
    cases h
    simp only [Operation.acts]
    rcases he : s.registry.authorizeRulesOpen key c g id with ⟨_ | route, reg⟩
    · exact ⟨fun _ => authorizeRulesOpen_none he, (fun h => by cases h)⟩
    · obtain ⟨r, -, -, -, -, -, -, rfl⟩ := authorizeRulesOpen_some he
      exact ⟨(fun h => by cases h), fun _ => by simp⟩
  | remove key =>
    simp only [apply] at h
    simp only [Operation.acts]
    obtain ⟨⟨removed, registry⟩, hremove, h⟩ := bind_eq_ok.1 h
    cases h
    rw [hremove]
    exact remove_acts hremove
  | removeClient c =>
    simp only [apply] at h
    obtain ⟨registry, hremove, h⟩ := bind_eq_ok.1 h
    cases h
    have hrev := (removeKeys_revision hremove).1
    exact ⟨(fun h => by cases h), fun _ => Nat.lt_of_succ_le hrev⟩
  | clear =>
    cases h
    exact ⟨(fun h => by cases h), fun _ => Nat.lt_succ_self _⟩

/-- The revision tells whether an operation of a run acted; if none did, nothing has changed. -/
theorem actsIn_spec (ops : List Operation) :
    ∀ {s s'}, ops.foldlM apply s = .ok s' →
      (s.actsIn ops = false → s'.registry = s.registry) ∧
        (s.actsIn ops = true → s.registry.revision < s'.registry.revision) ∧
        s.registry.revision ≤ s'.registry.revision := by
  induction ops with
  | nil =>
    intro s s' h
    cases h
    exact ⟨fun _ => rfl, nofun, le_rfl⟩
  | cons op ops ih =>
    intro s s' h
    rw [List.foldlM_cons] at h
    obtain ⟨s₁, hop, h⟩ := bind_eq_ok.1 h
    obtain ⟨hsame, hmoved⟩ := acts_spec op hop
    obtain ⟨hrest, hlater, hle⟩ := ih h
    unfold actsIn
    rw [hop]
    dsimp only
    cases ha : op.acts s with
    | true =>
      have := hmoved ha
      exact ⟨nofun, fun _ => by omega, by omega⟩
    | false =>
      have heq := hsame ha
      rw [Bool.false_or]
      refine ⟨fun hno => (hrest hno).trans heq, fun hyes => ?_, ?_⟩
      · rw [← heq]
        exact hlater hyes
      · rw [← heq]
        exact hle

/-! ## Where a handle is -/

def settlesRegistration (n : ℕ) (op : Operation) : Bool :=
  op = .commitRegistration n || op = .rollbackRegistration n

def settlesPreparation (n : ℕ) (op : Operation) : Bool :=
  op = .commitRulesSources n || op = .rollbackRulesSources n

theorem getElem?_modify_of_some {α : Type} {handles : List α} {d : α} (hd : handles[n]? = some d)
    (settle : α → α) (m : ℕ) :
    (handles.modify m settle)[n]? = some (if m = n then settle d else d) := by
  rw [List.getElem?_modify, hd]
  split
  · rfl
  · rfl

theorem getElem?_append_of_some {α : Type} {handles : List α} {d : α} (hd : handles[n]? = some d)
    (d' : α) : (handles ++ [d'])[n]? = some d := by
  rw [List.getElem?_append_left (List.getElem?_eq_some_iff.1 hd).1, hd]

/-- A handle keeps its place; its own `commit` or `rollback` settles it. -/
theorem registration_step {op : Operation} {d : ReplyRouteRegistration}
    (hd : s.registrations[n]? = some d) (h : s.apply op = .ok s') :
    s'.registrations[n]? = some (if settlesRegistration n op then d.settle else d) := by
  cases op with
  | register key c refs =>
    cases h
    exact getElem?_append_of_some hd _
  | rollbackRegistration m =>
    cases h
    simpa [settlesRegistration] using getElem?_modify_of_some hd ReplyRouteRegistration.settle m
  | commitRegistration m =>
    simp only [apply] at h
    split at h
    · rename_i hnone
      cases h
      have hne : m ≠ n := by
        rintro rfl
        rw [hd] at hnone
        cases hnone
      simpa [settlesRegistration, hne] using hd
    · obtain ⟨⟨committed, registry⟩, -, h⟩ := bind_eq_ok.1 h
      cases h
      simpa [settlesRegistration] using getElem?_modify_of_some hd ReplyRouteRegistration.settle m
  | prepareRulesSources key i g sources unresolved =>
    simp only [apply] at h
    split at h <;> cases h <;> exact hd
  | commitRulesSources m =>
    simp only [apply] at h
    split at h <;> cases h <;> exact hd
  | remove key =>
    obtain ⟨⟨removed, registry⟩, -, h⟩ := bind_eq_ok.1 h
    cases h
    exact hd
  | removeClient c =>
    obtain ⟨registry, -, h⟩ := bind_eq_ok.1 h
    cases h
    exact hd
  | resolve key => cases h; exact hd
  | claimResolution key i g => cases h; exact hd
  | claimSourceInvalidation key i g => cases h; exact hd
  | replaceMatchIds key i g ids => cases h; exact hd
  | rollbackRulesSources m => cases h; exact hd
  | authorizeRulesOpen key c g id => cases h; exact hd
  | clear => cases h; exact hd

theorem preparation_step {op : Operation} {d : RulesSourcesPreparation}
    (hd : s.preparations[n]? = some d) (h : s.apply op = .ok s') :
    s'.preparations[n]? = some (if settlesPreparation n op then d.settle else d) := by
  cases op with
  | rollbackRulesSources m =>
    cases h
    simpa [settlesPreparation] using getElem?_modify_of_some hd RulesSourcesPreparation.settle m
  | commitRegistration m =>
    simp only [apply] at h
    split at h
    · cases h
      exact hd
    · obtain ⟨⟨committed, registry⟩, -, h⟩ := bind_eq_ok.1 h
      cases h
      exact hd
  | prepareRulesSources key i g sources unresolved =>
    simp only [apply] at h
    split at h
    · cases h
      exact hd
    · cases h
      exact getElem?_append_of_some hd _
  | commitRulesSources m =>
    simp only [apply] at h
    split at h
    · rename_i hnone
      cases h
      have hne : m ≠ n := by
        rintro rfl
        rw [hd] at hnone
        cases hnone
      simpa [settlesPreparation, hne] using hd
    · cases h
      simpa [settlesPreparation] using getElem?_modify_of_some hd RulesSourcesPreparation.settle m
  | remove key =>
    obtain ⟨⟨removed, registry⟩, -, h⟩ := bind_eq_ok.1 h
    cases h
    exact hd
  | removeClient c =>
    obtain ⟨registry, -, h⟩ := bind_eq_ok.1 h
    cases h
    exact hd
  | register key c refs => cases h; exact hd
  | rollbackRegistration m => cases h; exact hd
  | resolve key => cases h; exact hd
  | claimResolution key i g => cases h; exact hd
  | claimSourceInvalidation key i g => cases h; exact hd
  | replaceMatchIds key i g ids => cases h; exact hd
  | authorizeRulesOpen key c g id => cases h; exact hd
  | clear => cases h; exact hd

theorem registration_run {ops : List Operation} :
    ∀ {s d}, s.registrations[n]? = some d → ops.foldlM apply s = .ok s' →
      s'.registrations[n]? = some (if ops.any (settlesRegistration n) then d.settle else d) := by
  induction ops with
  | nil =>
    intro s d hd h
    cases h
    exact hd
  | cons op ops ih =>
    intro s d hd h
    rw [List.foldlM_cons] at h
    obtain ⟨s₁, hop, h⟩ := bind_eq_ok.1 h
    have hrest := ih (registration_step hd hop) h
    rw [hrest, List.any_cons]
    cases settlesRegistration n op with
    | false => rw [Bool.false_or]; rfl
    | true =>
      rw [Bool.true_or]
      split <;> rfl

theorem preparation_run {ops : List Operation} :
    ∀ {s d}, s.preparations[n]? = some d → ops.foldlM apply s = .ok s' →
      s'.preparations[n]? = some (if ops.any (settlesPreparation n) then d.settle else d) := by
  induction ops with
  | nil =>
    intro s d hd h
    cases h
    exact hd
  | cons op ops ih =>
    intro s d hd h
    rw [List.foldlM_cons] at h
    obtain ⟨s₁, hop, h⟩ := bind_eq_ok.1 h
    have hrest := ih (preparation_step hd hop) h
    rw [hrest, List.any_cons]
    cases settlesPreparation n op with
    | false => rw [Bool.false_or]; rfl
    | true =>
      rw [Bool.true_or]
      split <;> rfl

/-! ## Committing -/

/-- On the registry it was made on, a registration takes effect unless it is a collision. -/
theorem commitRegistration_registered {reg : ReplyRouteRegistry} (h : reg.Indexed) (key : RouteKey)
    (c : String) (refs : List String) :
    ∃ reg', reg.commitRegistration (reg.register key c refs) =
      .ok (decide ((reg.register key c refs).status ≠ .collision), reg') := by
  unfold register
  cases hr : reg.stored key with
  | some r =>
    dsimp only
    split
    · exact ⟨reg, rfl⟩
    · refine ⟨reg.touchClientRoute c key, ?_⟩
      simp [createDeferredRegistration, commitRegistration, applyRegistration, hr]
  | none =>
    obtain ⟨reg₁, h₁, -, -, -⟩ := h.evict (c := c) rfl
    refine ⟨reg₁.create c key refs.toFinset, ?_⟩
    simp [createDeferredRegistration, commitRegistration, applyRegistration, hr, h₁, bind,
      Except.bind, pure, Except.pure]

/-- What is claimed of a registration: it is committed at `s₂`, after the operations `ops`. -/
structure RegistrationAtomic (s₁ : Session) (n : ℕ) (handle : ReplyRouteRegistration)
    (ops : List Operation) (s₂ : Session) (committed : Bool) (s₃ : Session) : Prop where
  commits : committed = true ↔ handle.status ≠ .collision ∧
    (∀ op ∈ ops, op ≠ .commitRegistration n ∧ op ≠ .rollbackRegistration n) ∧ s₁.actsIn ops = false
  refused : committed = false → s₃.registry = s₂.registry
  immediate : committed = true →
    s₁.registry.commitRegistration handle = .ok (true, s₃.registry)
  rollback : ∀ s, s₂.apply (.rollbackRegistration n) = .ok s → s.registry = s₂.registry
  once : ∀ (later : List Operation) s₄ s₅, later.foldlM apply s₃ = .ok s₄ →
    s₄.apply (.commitRegistration n) = .ok s₅ → s₅.registry = s₄.registry

/-- The same of a rules publication. -/
structure PublicationAtomic (s₁ : Session) (n : ℕ) (handle : RulesSourcesPreparation)
    (ops : List Operation) (s₂ : Session) (committed : Bool) (s₃ : Session) : Prop where
  commits : committed = true ↔
    (∀ op ∈ ops, op ≠ .commitRulesSources n ∧ op ≠ .rollbackRulesSources n) ∧ s₁.actsIn ops = false
  refused : committed = false → s₃.registry = s₂.registry
  immediate : committed = true → s₁.registry.commitRulesSources handle = (true, s₃.registry)
  rollback : ∀ s, s₂.apply (.rollbackRulesSources n) = .ok s → s.registry = s₂.registry
  once : ∀ (later : List Operation) s₄ s₅, later.foldlM apply s₃ = .ok s₄ →
    s₄.apply (.commitRulesSources n) = .ok s₅ → s₅.registry = s₄.registry

theorem not_any_settlesRegistration {ops : List Operation} :
    ops.any (settlesRegistration n) = false ↔
      ∀ op ∈ ops, op ≠ .commitRegistration n ∧ op ≠ .rollbackRegistration n := by
  simp [List.any_eq_false, settlesRegistration, not_or]

theorem not_any_settlesPreparation {ops : List Operation} :
    ops.any (settlesPreparation n) = false ↔
      ∀ op ∈ ops, op ≠ .commitRulesSources n ∧ op ≠ .rollbackRulesSources n := by
  simp [List.any_eq_false, settlesPreparation, not_or]

/-- A handle that is settled has no effect. -/
theorem commitRegistration_settled {d : ReplyRouteRegistration} (hd : s.registrations[n]? = some d)
    (hsettled : d.settled = true) (h : s.apply (.commitRegistration n) = .ok s') :
    s'.registry = s.registry := by
  simp only [apply, hd, commitRegistration, hsettled, if_true] at h
  cases h
  rfl

theorem commitRulesSources_settled {d : RulesSourcesPreparation} (hd : s.preparations[n]? = some d)
    (hsettled : d.settled = true) (h : s.apply (.commitRulesSources n) = .ok s') :
    s'.registry = s.registry := by
  simp only [apply, hd, commitRulesSources, hsettled, if_true] at h
  cases h
  rfl

theorem register_collision (reg : ReplyRouteRegistry) (key : RouteKey) (c : String)
    (refs : List String) : (reg.register key c refs).settled =
      decide ((reg.register key c refs).status = .collision) := by
  unfold register
  split
  · dsimp only
    split <;> rfl
  · rfl

/-- A registration is committed by the operation that names it. -/
theorem commitRegistration_apply {d : ReplyRouteRegistration} (hd : s.registrations[n]? = some d)
    (h : s.apply (.commitRegistration n) = .ok s') :
    ∃ committed, s.registry.commitRegistration d = .ok (committed, s'.registry) := by
  simp only [apply, hd] at h
  obtain ⟨⟨committed, registry⟩, hcommit, h⟩ := bind_eq_ok.1 h
  cases h
  exact ⟨committed, hcommit⟩

theorem registration_atomic (hinv : s.Inv limit) (key : RouteKey) (c : String) (refs : List String)
    {ops : List Operation} (hs₁ : s.apply (.register key c refs) = .ok s₁)
    (hops : ops.foldlM apply s₁ = .ok s₂)
    (hs₃ : s₂.apply (.commitRegistration s.registrations.length) = .ok s') :
    ∃ d committed, s₂.registrations[s.registrations.length]? = some d ∧
      s₂.registry.commitRegistration d = .ok (committed, s'.registry) ∧
      RegistrationAtomic s₁ s.registrations.length (s.registry.register key c refs) ops s₂ committed
        s' := by
  cases hs₁
  have hindexed := hinv.indexed
  generalize hn : s.registrations.length = n at *
  generalize hhandle : s.registry.register key c refs = handle at *
  have hplace : (s.registrations ++ [handle])[n]? = some handle := by
    rw [← hn, List.getElem?_concat_length]
  have hd := registration_run (s := { s with registrations := s.registrations ++ [handle] }) hplace hops
  obtain ⟨committed, hcommit⟩ := commitRegistration_apply hd hs₃
  obtain ⟨hsame, hmoved, -⟩ := actsIn_spec ops hops
  have hsettled : handle.settled = decide (handle.status = .collision) := by
    rw [← hhandle]
    exact register_collision _ _ _ _
  have hrevision : handle.expectedRevision = s.registry.revision := by
    rw [← hhandle]
    exact register_expectedRevision _ _ _ _
  -- A commit that has an effect finds the handle and the registry as they were.
  have htaken : committed = true → handle.status ≠ .collision ∧
      ops.any (settlesRegistration n) = false ∧
      actsIn { s with registrations := s.registrations ++ [handle] } ops = false := by
    rintro rfl
    cases hany : ops.any (settlesRegistration n) with
    | true =>
      rw [hany, if_pos rfl] at hcommit
      simp [commitRegistration, ReplyRouteRegistration.settle] at hcommit
    | false =>
      rw [hany, if_neg (by simp)] at hcommit
      refine ⟨fun hcollision => ?_, rfl, ?_⟩
      · simp [commitRegistration, hsettled, hcollision] at hcommit
      · by_contra hacts
        have hlt := hmoved (by simpa using hacts)
        have hne : s₂.registry.revision ≠ handle.expectedRevision := by
          rw [hrevision]
          exact Nat.ne_of_gt hlt
        simp [commitRegistration, hne] at hcommit
  refine ⟨_, committed, hd, hcommit, ⟨fun hc => ?_, ?_⟩, ?_, fun hc => ?_, ?_, ?_⟩
  · obtain ⟨hstatus, hany, hacts⟩ := htaken hc
    exact ⟨hstatus, not_any_settlesRegistration.1 hany, hacts⟩
  · rintro ⟨hstatus, hnone, hacts⟩
    rw [not_any_settlesRegistration.2 hnone, if_neg (by simp), hsame hacts] at hcommit
    obtain ⟨reg', hreg'⟩ := commitRegistration_registered hindexed key c refs
    rw [hhandle, hcommit] at hreg'
    rw [(Prod.mk.inj (Except.ok.inj hreg')).1]
    exact decide_eq_true hstatus
  · rintro rfl
    exact commitRegistration_false hcommit
  · obtain ⟨-, hany, hacts⟩ := htaken hc
    rw [hany, if_neg (by simp), hsame hacts, hc] at hcommit
    exact hcommit
  · intro s₄ h
    cases h
    rfl
  · intro later s₄ s₅ hlater hagain
    have hsettled := registration_step hd hs₃
    have hkept := registration_run hsettled hlater
    refine commitRegistration_settled hkept ?_ hagain
    simp only [settlesRegistration, decide_true, Bool.true_or, if_true]
    split <;> rfl

theorem commitRulesSources_apply {d : RulesSourcesPreparation} (hd : s.preparations[n]? = some d)
    (h : s.apply (.commitRulesSources n) = .ok s') :
    s'.registry = (s.registry.commitRulesSources d).2 := by
  simp only [apply, hd] at h
  cases h
  rfl

theorem publication_atomic {key : RouteKey} {i : String} {g unresolved : JsNumber}
    {sources : List RulesSource} {handle : RulesSourcesPreparation}
    (hprepare : s.registry.prepareRulesSources key i g sources unresolved = some handle)
    {ops : List Operation} (hs₁ : s.apply (.prepareRulesSources key i g sources unresolved) = .ok s₁)
    (hops : ops.foldlM apply s₁ = .ok s₂)
    (hs₃ : s₂.apply (.commitRulesSources s.preparations.length) = .ok s') :
    ∃ d committed, s₂.preparations[s.preparations.length]? = some d ∧
      s₂.registry.commitRulesSources d = (committed, s'.registry) ∧
      PublicationAtomic s₁ s.preparations.length handle ops s₂ committed s' := by
  simp only [apply, hprepare] at hs₁
  cases hs₁
  generalize hn : s.preparations.length = n at *
  have hplace : (s.preparations ++ [handle])[n]? = some handle := by
    rw [← hn, List.getElem?_concat_length]
  have hd := preparation_run (s := { s with preparations := s.preparations ++ [handle] }) hplace hops
  have hregistry := commitRulesSources_apply hd hs₃
  obtain ⟨hsame, hmoved, -⟩ := actsIn_spec ops hops
  have hcommit : s₂.registry.commitRulesSources
      (if ops.any (settlesPreparation n) then handle.settle else handle) =
        ((s₂.registry.commitRulesSources
          (if ops.any (settlesPreparation n) then handle.settle else handle)).1, s'.registry) := by
    rw [hregistry]
  generalize hc : (s₂.registry.commitRulesSources
    (if ops.any (settlesPreparation n) then handle.settle else handle)).1 = committed at hcommit
  have htaken : committed = true → ops.any (settlesPreparation n) = false ∧
      actsIn { s with preparations := s.preparations ++ [handle] } ops = false := by
    rintro rfl
    obtain ⟨hopen, hrevision, -⟩ := commitRulesSources_true hcommit
    cases hany : ops.any (settlesPreparation n) with
    | true =>
      rw [hany, if_pos rfl] at hopen
      cases hopen
    | false =>
      refine ⟨rfl, ?_⟩
      by_contra hacts
      have hlt := hmoved (by simpa using hacts)
      rw [hany, if_neg (by simp)] at hrevision
      obtain ⟨r, ids, m, -, -, -, -, -, -, rfl⟩ := prepareRulesSources_some hprepare
      exact absurd hrevision (Nat.ne_of_gt hlt)
  refine ⟨_, committed, hd, hcommit, ⟨fun hc => ?_, ?_⟩, ?_, fun hc => ?_, ?_, ?_⟩
  · obtain ⟨hany, hacts⟩ := htaken hc
    exact ⟨not_any_settlesPreparation.1 hany, hacts⟩
  · rintro ⟨hnone, hacts⟩
    rw [not_any_settlesPreparation.2 hnone, if_neg (by simp), hsame hacts] at hc
    rw [← hc]
    exact commitRulesSources_prepared hprepare
  · rintro rfl
    exact commitRulesSources_false hcommit
  · obtain ⟨hany, hacts⟩ := htaken hc
    rw [hany, if_neg (by simp), hsame hacts, hc] at hcommit
    exact hcommit
  · intro s₄ h
    cases h
    rfl
  · intro later s₄ s₅ hlater hagain
    have hsettled := preparation_step hd hs₃
    have hkept := preparation_run hsettled hlater
    refine commitRulesSources_settled hkept ?_ hagain
    simp only [settlesPreparation, decide_true, Bool.true_or, if_true]
    split <;> rfl

/-- Every handle of every run is atomic: committing it takes effect, as it would have done at once,
exactly where no operation acted in between, and at most once. -/
theorem twoPhaseHandlesAtomic (limit : ℕ+) (before : List Operation) :
    ∃ s, run limit before = .ok s ∧
      (∀ key c refs ops, ∃ s₁ s₂ s₃ d committed,
        s.apply (.register key c refs) = .ok s₁ ∧ ops.foldlM apply s₁ = .ok s₂ ∧
        s₂.apply (.commitRegistration s.registrations.length) = .ok s₃ ∧
        s₂.registrations[s.registrations.length]? = some d ∧
        s₂.registry.commitRegistration d = .ok (committed, s₃.registry) ∧
        RegistrationAtomic s₁ s.registrations.length (s.registry.register key c refs) ops s₂ committed
          s₃) ∧
      ∀ key i g sources unresolved handle ops,
        s.registry.prepareRulesSources key i g sources unresolved = some handle →
        ∃ s₁ s₂ s₃ d committed,
          s.apply (.prepareRulesSources key i g sources unresolved) = .ok s₁ ∧
          ops.foldlM apply s₁ = .ok s₂ ∧
          s₂.apply (.commitRulesSources s.preparations.length) = .ok s₃ ∧
          s₂.preparations[s.preparations.length]? = some d ∧
          s₂.registry.commitRulesSources d = (committed, s₃.registry) ∧
          PublicationAtomic s₁ s.preparations.length handle ops s₂ committed s₃ := by
  obtain ⟨s, hs, hinv⟩ := (inv_start limit).run before
  refine ⟨s, hs, ?_, ?_⟩
  · intro key c refs ops
    obtain ⟨s₁, hs₁, hinv₁⟩ := hinv.apply (.register key c refs)
    obtain ⟨s₂, hs₂, hinv₂⟩ := hinv₁.run ops
    obtain ⟨s₃, hs₃, -⟩ := hinv₂.apply (.commitRegistration s.registrations.length)
    obtain ⟨d, committed, hd, hcommit, hatomic⟩ := registration_atomic hinv key c refs hs₁ hs₂ hs₃
    exact ⟨s₁, s₂, s₃, d, committed, hs₁, hs₂, hs₃, hd, hcommit, hatomic⟩
  · intro key i g sources unresolved handle ops hprepare
    obtain ⟨s₁, hs₁, hinv₁⟩ := hinv.apply (.prepareRulesSources key i g sources unresolved)
    obtain ⟨s₂, hs₂, hinv₂⟩ := hinv₁.run ops
    obtain ⟨s₃, hs₃, -⟩ := hinv₂.apply (.commitRulesSources s.preparations.length)
    obtain ⟨d, committed, hd, hcommit, hatomic⟩ := publication_atomic hprepare hs₁ hs₂ hs₃
    exact ⟨s₁, s₂, s₃, d, committed, hs₁, hs₂, hs₃, hd, hcommit, hatomic⟩

/-- A lookup of the only route of a client changes no route and no order, and yet a registration
that was pending is refused after it. -/
theorem refused_though_unchanged :
    let first : List Operation := [.register ⟨"s", "m"⟩ "c" [], .commitRegistration 0,
      .register ⟨"s", "n"⟩ "c" []]
    ∃ s₁ s₂, run 2 first = .ok s₁ ∧ s₁.apply (.resolve ⟨"s", "m"⟩) = .ok s₂ ∧
      s₂.registry.routes = s₁.registry.routes ∧
      s₂.registry.routesByClient = s₁.registry.routesByClient ∧
      s₂.registry.routesByIde = s₁.registry.routesByIde ∧
      (s₁.registrations[1]?.map fun d => (d.settled, (s₁.registry.commitRegistration d).toOption.map
        Prod.fst)) = some (false, some true) ∧
      (s₂.registrations[1]?.map fun d => (d.settled, (s₂.registry.commitRegistration d).toOption.map
        Prod.fst)) = some (false, some false) := by
  refine ⟨_, _, rfl, rfl, ?_, ?_, ?_, ?_, ?_⟩
  · decide +kernel
  · decide +kernel
  · decide +kernel
  · decide +kernel
  · decide +kernel

end Session

end PinOp.Bridge
