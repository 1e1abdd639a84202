import Mathlib.Data.List.Nodup
import PinOp.Lib.FirstByKey
import PinOp.Lib.Runs
import PinOp.Rules.RulesOpenAuthorityRegistry

/-!
# Runs of the registry of rules authorities

Whatever the order in which prepared generations are activated, committed and rolled back, what is
active was prepared, and a generation of an inspect is newer than those before it for as long as
the history of routes remembers the inspect. The history makes room for the active inspect, which
may have been prepared before all that it holds.
-/

namespace PinOp.Rules

open PinOp.Lib PinOp.Protocol

namespace RulesOpenAuthorityRegistry

/-- A call that may change the registry; a handle is its place among the preparations. -/
inductive Operation where
  | prepare (input : RuleOpenAuthorityGenerationInput)
  | activate (prepared : ℕ)
  | commit (prepared : ℕ)
  | rollback (prepared : ℕ)
  | clear
  deriving DecidableEq

section

variable (validUri : String → Bool)

def perform (r : RulesOpenAuthorityRegistry) :
    Operation → Except String Unit × RulesOpenAuthorityRegistry
  | .prepare input =>
    match r.prepare validUri input with
    | .ok (_, r') => (.ok (), r')
    | .error error => (.error error, r)
  | .activate prepared => r.activate prepared
  | .commit prepared => r.commit prepared
  | .rollback prepared => r.rollback prepared
  | .clear => (.ok (), r.clear)

def Step (r : RulesOpenAuthorityRegistry) (o : Operation) (r' : RulesOpenAuthorityRegistry) :
    Prop := r' = (r.perform validUri o).2

end

variable {validUri : String → Bool} {r r' : RulesOpenAuthorityRegistry}
  {h h₁ h₂ h₃ : List (Transition RulesOpenAuthorityRegistry Operation)}
  {input : RuleOpenAuthorityGenerationInput} {n : ℕ}

/-- The call returns, and does not throw. -/
def Succeeds (validUri : String → Bool) (t : Transition RulesOpenAuthorityRegistry Operation) :
    Prop := (t.pre.perform validUri t.event).1 = .ok ()

/-- The input was prepared under the handle. -/
def PreparedIn (validUri : String → Bool)
    (h : List (Transition RulesOpenAuthorityRegistry Operation)) (n : ℕ) (input : RuleOpenAuthorityGenerationInput) : Prop :=
  ∃ t ∈ h, t.event = .prepare input ∧ Succeeds validUri t ∧ t.pre.preparations.length = n

/-- The call moves the registry on: it prepares, activates, clears, or rolls back what is active. -/
def Moves (validUri : String → Bool) (t : Transition RulesOpenAuthorityRegistry Operation) : Prop :=
  Succeeds validUri t ∧
    match t.event with
    | .prepare _ | .activate _ | .clear => True
    | .commit _ => False
    | .rollback prepared =>
      (t.pre.preparations[prepared]?).map PreparationState.status = some .active

/-! ## One call -/

theorem prepare_eq {input : RuleOpenAuthorityGenerationInput} {k : ℕ}
    (h : r.prepare validUri input = .ok (k, r')) :
    validateGenerationInput validUri input ((r.highWatermarks.get? input.inspectMessageId).getD 0) =
        .ok () ∧
      k = r.preparations.length ∧
      r' = { r with
        highWatermarks := r.rememberHighWatermark input.inspectMessageId input.rulesGeneration
        mutation := r.mutation + 1
        preparations := r.preparations ++ [⟨freezeGeneration r.preparations.length input,
          r.active.filter fun active => active.inspectMessageId = input.inspectMessageId,
          r.mutation + 1, .prepared⟩] } := by
  unfold prepare at h
  dsimp only at h
  cases hv : validateGenerationInput validUri input
      ((r.highWatermarks.get? input.inspectMessageId).getD 0) with
  | error error =>
    rw [hv] at h
    cases h
  | ok _ =>
    rw [hv] at h
    obtain ⟨rfl, rfl⟩ := Prod.mk.inj (Except.ok.inj h)
    exact ⟨rfl, rfl, rfl⟩

/-- A call of `prepare` that throws leaves the registry as it is. -/
theorem perform_prepare_error {error : String}
    (h : (r.perform validUri (.prepare input)).1 = .error error) :
    (r.perform validUri (.prepare input)).2 = r := by
  unfold perform at h ⊢
  dsimp only at h ⊢
  split at h
  · cases h
  · rfl

theorem perform_prepare_ok (h : (r.perform validUri (.prepare input)).1 = .ok ()) :
    r.prepare validUri input =
      .ok (r.preparations.length, (r.perform validUri (.prepare input)).2) := by
  unfold perform at h ⊢
  dsimp only at h ⊢
  split at h
  · rename_i k r' hp
    rw [hp, (prepare_eq hp).2.1]
  · cases h

/-- The status of a preparation is all that changes of it. -/
structure SamePreparations (r r' : RulesOpenAuthorityRegistry) : Prop where
  length : r'.preparations.length = r.preparations.length
  candidates : ∀ (k : ℕ) (state : PreparationState), r'.preparations[k]? = some state →
    ∃ old, r.preparations[k]? = some old ∧ state.candidate = old.candidate ∧
      state.previous = old.previous ∧ state.preparedAtMutation = old.preparedAtMutation

theorem samePreparations_of_eq (h : r'.preparations = r.preparations) : SamePreparations r r' :=
  ⟨by rw [h], fun _ state hs => ⟨state, h ▸ hs, rfl, rfl, rfl⟩⟩

theorem samePreparations_of_modify {status : PreparationStatus}
    (h : r'.preparations = r.preparations.modify n fun state => { state with status := status }) :
    SamePreparations r r' := by
  refine ⟨by rw [h, List.length_modify], fun k state hs => ?_⟩
  rw [h, List.getElem?_modify] at hs
  cases hold : r.preparations[k]? with
  | none =>
    rw [hold] at hs
    cases hs
  | some old =>
    rw [hold] at hs
    refine ⟨old, rfl, ?_⟩
    by_cases hn : n = k
    · simp only [hn, if_true, Option.map_eq_map, Option.map_some, Option.some.injEq] at hs
      rw [← hs]
      exact ⟨rfl, rfl, rfl⟩
    · simp only [hn, if_false, Option.map_eq_map, Option.map_some, Option.some.injEq] at hs
      rw [← hs]
      exact ⟨rfl, rfl, rfl⟩

/-- What a call other than a preparation does. -/
structure Settled (r r' : RulesOpenAuthorityRegistry) : Prop where
  preparations : SamePreparations r r'
  watermarks : r'.highWatermarks = r.highWatermarks
  mutation : r.mutation ≤ r'.mutation
  active : r'.active = r.active ∨ r'.active = none ∨
    ∃ (k : ℕ) (state : PreparationState), r.preparations[k]? = some state ∧
      (r'.active = some state.candidate ∨ r'.active = state.previous)

theorem activate_settled (r : RulesOpenAuthorityRegistry) (n : ℕ) :
    Settled r (r.activate n).2 := by
  unfold activate preparation
  cases hn : r.preparations[n]? with
  | none => exact ⟨samePreparations_of_eq rfl, rfl, le_rfl, .inl rfl⟩
  | some state =>
    dsimp only
    by_cases hs : state.status = .prepared
    · simp only [hs, if_true]
      split
      · exact ⟨samePreparations_of_modify rfl, rfl, le_rfl, .inl rfl⟩
      · exact ⟨samePreparations_of_modify rfl, rfl, Nat.le_succ _,
          .inr (.inr ⟨n, state, hn, .inl rfl⟩)⟩
    · simp only [hs, if_false]
      exact ⟨samePreparations_of_eq rfl, rfl, le_rfl, .inl rfl⟩

theorem commit_settled (r : RulesOpenAuthorityRegistry) (n : ℕ) : Settled r (r.commit n).2 := by
  unfold commit preparation
  cases hn : r.preparations[n]? with
  | none => exact ⟨samePreparations_of_eq rfl, rfl, le_rfl, .inl rfl⟩
  | some state =>
    dsimp only
    by_cases hs : state.status = .active
    · simp only [hs, if_true]
      split
      · exact ⟨samePreparations_of_modify rfl, rfl, le_rfl, .inl rfl⟩
      · exact ⟨samePreparations_of_modify rfl, rfl, le_rfl, .inl rfl⟩
    · simp only [hs, if_false]
      exact ⟨samePreparations_of_eq rfl, rfl, le_rfl, .inl rfl⟩

theorem rollback_settled (r : RulesOpenAuthorityRegistry) (n : ℕ) :
    Settled r (r.rollback n).2 := by
  unfold rollback
  cases hn : r.preparations[n]? with
  | none => exact ⟨samePreparations_of_eq rfl, rfl, le_rfl, .inl rfl⟩
  | some state =>
    dsimp only
    cases hs : state.status with
    | prepared => exact ⟨samePreparations_of_modify rfl, rfl, le_rfl, .inl rfl⟩
    | active =>
      dsimp only
      split
      · exact ⟨samePreparations_of_modify rfl, rfl, Nat.le_succ _,
          .inr (.inr ⟨n, state, hn, .inr rfl⟩)⟩
      · exact ⟨samePreparations_of_modify rfl, rfl, le_rfl, .inl rfl⟩
    | committed => exact ⟨samePreparations_of_eq rfl, rfl, le_rfl, .inl rfl⟩
    | rolledBack => exact ⟨samePreparations_of_eq rfl, rfl, le_rfl, .inl rfl⟩

theorem clear_settled (r : RulesOpenAuthorityRegistry) : Settled r r.clear :=
  ⟨samePreparations_of_eq rfl, rfl, Nat.le_succ _, .inr (.inl rfl)⟩

/-- A call prepares, or settles what is prepared. -/
theorem step_cases {o : Operation} (h : Step validUri r o r') :
    (∃ input, o = .prepare input ∧ r.prepare validUri input = .ok (r.preparations.length, r')) ∨
      Settled r r' := by
  rw [h]
  cases o with
  | prepare input =>
    cases hp : (r.perform validUri (.prepare input)).1 with
    | ok u => exact .inl ⟨input, rfl, perform_prepare_ok hp⟩
    | error error =>
      rw [perform_prepare_error hp]
      exact .inr ⟨samePreparations_of_eq rfl, rfl, le_rfl, .inl rfl⟩
  | activate n => exact .inr (activate_settled r n)
  | commit n => exact .inr (commit_settled r n)
  | rollback n => exact .inr (rollback_settled r n)
  | clear => exact .inr (clear_settled r)

/-! ## What is active was prepared -/

theorem getElem?_concat_eq_some {α : Type} {xs : List α} {x y : α} {k : ℕ}
    (h : (xs ++ [x])[k]? = some y) : xs[k]? = some y ∨ k = xs.length ∧ y = x := by
  rcases Nat.lt_or_ge k xs.length with hk | hk
  · exact .inl (by rwa [List.getElem?_append_left hk] at h)
  · rw [List.getElem?_append_right hk, List.getElem?_singleton] at h
    split at h
    · exact .inr ⟨by omega, (Option.some.inj h).symm⟩
    · cases h

theorem PreparedIn.cons {t : Transition RulesOpenAuthorityRegistry Operation}
    (hp : PreparedIn validUri h n input) : PreparedIn validUri (t :: h) n input := by
  obtain ⟨t', hm, ht⟩ := hp
  exact ⟨t', List.mem_cons_of_mem _ hm, ht⟩

/-- Where the generations of the registry come from. -/
structure Provenance (validUri : String → Bool)
    (h : List (Transition RulesOpenAuthorityRegistry Operation)) (r : RulesOpenAuthorityRegistry) :
    Prop where
  candidate : ∀ (k : ℕ) (state : PreparationState), r.preparations[k]? = some state →
    ∃ input, PreparedIn validUri h k input ∧ state.candidate = freezeGeneration k input
  previous : ∀ (k : ℕ) (state : PreparationState) (generation : AuthorityGeneration),
    r.preparations[k]? = some state → state.previous = some generation →
      ∃ k' input, PreparedIn validUri h k' input ∧ generation = freezeGeneration k' input
  active : ∀ generation, r.active = some generation →
    ∃ k input, PreparedIn validUri h k input ∧ generation = freezeGeneration k input

theorem provenance (hr : Run (Step validUri) .empty h r) : Provenance validUri h r := by
  induction hr with
  | start =>
    exact ⟨fun _ _ hs => absurd hs (by simp [empty]), fun _ _ _ hs => absurd hs (by simp [empty]),
      fun _ hs => absurd hs (by simp [empty])⟩
  | @next h r r' o hr hs ih =>
    rcases step_cases hs with ⟨input, rfl, hp⟩ | hsettled
    · have hnew :
          PreparedIn validUri (⟨r, .prepare input, r'⟩ :: h) r.preparations.length input := by
        refine ⟨_, List.mem_cons_self, rfl, ?_, rfl⟩
        simp only [Succeeds, perform, hp]
      obtain ⟨-, -, hr'⟩ := prepare_eq hp
      have hactive : ∀ generation, r.active = some generation → ∃ k input',
          PreparedIn validUri (⟨r, .prepare input, r'⟩ :: h) k input' ∧
            generation = freezeGeneration k input' := by
        intro generation hg
        obtain ⟨k, input', hk, he⟩ := ih.active generation hg
        exact ⟨k, input', hk.cons, he⟩
      refine ⟨fun k state hk => ?_, fun k state generation hk hg => ?_, ?_⟩
      · rw [hr'] at hk
        rcases getElem?_concat_eq_some hk with hold | ⟨rfl, rfl⟩
        · obtain ⟨input', hi, he⟩ := ih.candidate k state hold
          exact ⟨input', hi.cons, he⟩
        · exact ⟨input, hnew, rfl⟩
      · rw [hr'] at hk
        rcases getElem?_concat_eq_some hk with hold | ⟨rfl, rfl⟩
        · obtain ⟨k', input', hi, he⟩ := ih.previous k state generation hold hg
          exact ⟨k', input', hi.cons, he⟩
        · exact hactive generation (Option.filter_eq_some_iff.mp hg).1
      · have hsame : r'.active = r.active := by rw [hr']
        rw [hsame]
        exact hactive
    · refine ⟨fun k state hk => ?_, fun k state generation hk hg => ?_, fun generation hg => ?_⟩
      · obtain ⟨old, hold, hc, -, -⟩ := hsettled.preparations.candidates k state hk
        obtain ⟨input, hi, he⟩ := ih.candidate k old hold
        exact ⟨input, hi.cons, hc.trans he⟩
      · obtain ⟨old, hold, -, hprevious, -⟩ := hsettled.preparations.candidates k state hk
        obtain ⟨k', input, hi, he⟩ := ih.previous k old generation hold (hprevious ▸ hg)
        exact ⟨k', input, hi.cons, he⟩
      · rcases hsettled.active with ha | ha | ⟨k, state, hk, ha | ha⟩
        · obtain ⟨k, input, hi, he⟩ := ih.active generation (ha ▸ hg)
          exact ⟨k, input, hi.cons, he⟩
        · rw [ha] at hg
          cases hg
        · obtain ⟨input, hi, he⟩ := ih.candidate k state hk
          rw [ha] at hg
          exact ⟨k, input, hi.cons, (Option.some.inj hg) ▸ he⟩
        · obtain ⟨k', input, hi, he⟩ := ih.previous k state generation hk (ha ▸ hg)
          exact ⟨k', input, hi.cons, he⟩

/-- The authority under an id is the one that was prepared under it. -/
theorem get?_freezeGeneration {a : String} {authority : StoredRuleOpenAuthority}
    (h : (input.authorities.map StoredRuleOpenAuthority.openAuthorityId).Nodup) :
    (freezeGeneration n input).authorities.get? a = some authority ↔
      authority ∈ input.authorities ∧ authority.openAuthorityId = a := by
  have hget : (freezeGeneration n input).authorities.get? a = some authority ↔
      (∅ : OrderedMap String StoredRuleOpenAuthority).get? a = some authority ∨
        ∃ x ∈ input.authorities, x.openAuthorityId = a ∧ id x = authority :=
    OrderedMap.get?_foldl_set (by simpa using h)
  rw [OrderedMap.get?_empty] at hget
  rw [hget]
  simp [and_comm]

theorem PreparedIn.nodup (hp : PreparedIn validUri h n input) :
    (input.authorities.map StoredRuleOpenAuthority.openAuthorityId).Nodup := by
  obtain ⟨t, -, hevent, hok, -⟩ := hp
  rw [Succeeds, hevent] at hok
  exact (validateGenerationInput_spec (prepare_eq (perform_prepare_ok hok)).1).2

theorem authorize_eq_some (tuple : RuleOpenAuthorityTuple) (authority : StoredRuleOpenAuthority) :
    r.authorize tuple = some authority ↔ ∃ generation, r.active = some generation ∧
      generation.inspectMessageId = tuple.inspectMessageId ∧
        generation.rulesGeneration = tuple.rulesGeneration ∧
          generation.authorities.get? tuple.openAuthorityId = some authority := by
  unfold authorize
  cases hactive : r.active with
  | none => simp
  | some generation =>
    dsimp only
    by_cases hid : generation.inspectMessageId = tuple.inspectMessageId
    · by_cases hg : generation.rulesGeneration = tuple.rulesGeneration
      · simp [hid, hg]
      · simp [hid, hg]
    · simp [hid]

/-- What is authorised is what was prepared as the generation that is active. -/
theorem authorize_prepared (hr : Run (Step validUri) .empty h r) (tuple : RuleOpenAuthorityTuple)
    (authority : StoredRuleOpenAuthority) :
    r.authorize tuple = some authority ↔ ∃ k input, PreparedIn validUri h k input ∧
      r.active = some (freezeGeneration k input) ∧
        input.inspectMessageId = tuple.inspectMessageId ∧
          input.rulesGeneration = tuple.rulesGeneration ∧
            authority ∈ input.authorities ∧ authority.openAuthorityId = tuple.openAuthorityId := by
  rw [authorize_eq_some]
  constructor
  · rintro ⟨generation, hactive, hid, hg, hget⟩
    obtain ⟨k, input, hp, rfl⟩ := (provenance hr).active generation hactive
    exact ⟨k, input, hp, hactive, hid, hg, (get?_freezeGeneration hp.nodup).mp hget⟩
  · rintro ⟨k, input, hp, hactive, hid, hg, hmem⟩
    exact ⟨_, hactive, hid, hg, (get?_freezeGeneration hp.nodup).mpr hmem⟩

/-! ## Preparing, activating and rolling back -/

theorem perform_activate_ok (h : (r.perform validUri (.activate n)).1 = .ok ()) :
    ∃ state, r.preparations[n]? = some state ∧ state.status = .prepared ∧
      state.preparedAtMutation = r.mutation ∧
        (r.perform validUri (.activate n)).2 = { r.setStatus n .active with
          active := some state.candidate
          mutation := r.mutation + 1 } := by
  change (r.activate n).1 = .ok () at h
  change ∃ state, _ ∧ _ ∧ _ ∧ (r.activate n).2 = _
  unfold activate preparation at h ⊢
  cases hn : r.preparations[n]? with
  | none =>
    rw [hn] at h
    cases h
  | some state =>
    rw [hn] at h
    dsimp only at h ⊢
    by_cases hs : state.status = .prepared
    · simp only [hs, if_true] at h ⊢
      by_cases hm : state.preparedAtMutation = r.mutation
      · simp only [hm, ne_eq, not_true_eq_false, if_false]
        exact ⟨state, rfl, hs, hm, rfl⟩
      · simp only [ne_eq, hm, not_false_eq_true, if_true] at h
        cases h
    · simp only [hs, if_false] at h
      cases h

/-- A preparation that is activated and rolled back at once leaves the generation of the inspect
that was active before. -/
theorem prepare_activate_rollback {r₁ : RulesOpenAuthorityRegistry}
    (hp : r.prepare validUri input = .ok (n, r₁)) :
    ∃ r₂ r₃, r₁.activate n = (.ok (), r₂) ∧ r₂.rollback n = (.ok (), r₃) ∧
      r₃.active =
        r.active.filter fun active => active.inspectMessageId = input.inspectMessageId := by
  obtain ⟨-, rfl, hr₁⟩ := prepare_eq hp
  have hstored : r₁.preparations[r.preparations.length]? = some
      ⟨freezeGeneration r.preparations.length input,
        r.active.filter fun active => active.inspectMessageId = input.inspectMessageId,
        r.mutation + 1, .prepared⟩ := by
    rw [hr₁, List.getElem?_concat_length]
  have hmutation : r₁.mutation = r.mutation + 1 := by rw [hr₁]
  let r₂ : RulesOpenAuthorityRegistry := { r₁.setStatus r.preparations.length .active with
    active := some (freezeGeneration r.preparations.length input)
    mutation := r₁.mutation + 1 }
  have hactivate : r₁.activate r.preparations.length = (.ok (), r₂) := by
    simp [activate, preparation, hstored, hmutation, r₂]
  have hstored₂ : r₂.preparations[r.preparations.length]? = some
      ⟨freezeGeneration r.preparations.length input,
        r.active.filter fun active => active.inspectMessageId = input.inspectMessageId,
        r.mutation + 1, .active⟩ := by
    simp [r₂, setStatus, hstored]
  refine ⟨r₂, { r₂.setStatus r.preparations.length .rolledBack with
    active := r.active.filter fun active => active.inspectMessageId = input.inspectMessageId
    mutation := r₂.mutation + 1 }, hactivate, ?_, rfl⟩
  simp [rollback, hstored₂, isActive, r₂]

/-! ## An activation finds nothing moved -/

theorem mutation_le {o : Operation} (h : Step validUri r o r') : r.mutation ≤ r'.mutation := by
  rcases step_cases h with ⟨input, -, hp⟩ | hsettled
  · rw [(prepare_eq hp).2.2]
    exact Nat.le_succ _
  · exact hsettled.mutation

theorem rollback_active (hstatus : (r.preparations[n]?).map PreparationState.status = some .active)
    (hok : (r.rollback n).1 = .ok ()) : (r.rollback n).2.mutation = r.mutation + 1 := by
  unfold rollback at hok ⊢
  cases hn : r.preparations[n]? with
  | none =>
    rw [hn] at hstatus
    cases hstatus
  | some state =>
    rw [hn] at hstatus hok
    have hs : state.status = .active := Option.some.inj hstatus
    simp only [hs] at hok ⊢
    split at hok
    · rename_i hactive
      simp only [hactive, if_true]
    · cases hok

theorem mutation_lt {t : Transition RulesOpenAuthorityRegistry Operation}
    (h : Step validUri t.pre t.event t.post) (hm : Moves validUri t) :
    t.pre.mutation < t.post.mutation := by
  obtain ⟨hok, hevent⟩ := hm
  rw [Succeeds] at hok
  rw [Step] at h
  rw [h]
  cases ho : t.event with
  | prepare input =>
    rw [ho] at hok
    rw [(prepare_eq (perform_prepare_ok hok)).2.2]
    exact Nat.lt_succ_self _
  | activate n =>
    rw [ho] at hok
    obtain ⟨state, -, -, -, he⟩ := perform_activate_ok hok
    rw [he]
    exact Nat.lt_succ_self _
  | commit n =>
    rw [ho] at hevent
    exact hevent.elim
  | rollback n =>
    rw [ho] at hok hevent
    change t.pre.mutation < (t.pre.rollback n).2.mutation
    rw [rollback_active hevent hok]
    exact Nat.lt_succ_self _
  | clear => exact Nat.lt_succ_self _

theorem mutation_of_run (hr : Run (Step validUri) r h r') :
    r.mutation ≤ r'.mutation ∧ ((∃ t ∈ h, Moves validUri t) → r.mutation < r'.mutation) := by
  induction hr with
  | start => exact ⟨le_rfl, fun ⟨_, ht, _⟩ => absurd ht List.not_mem_nil⟩
  | @next h s s' o hr hs ih =>
    have hle := mutation_le hs
    refine ⟨ih.1.trans hle, fun ⟨t, ht, hm⟩ => ?_⟩
    rcases List.mem_cons.mp ht with rfl | ht
    · exact lt_of_le_of_lt ih.1 (@mutation_lt _ ⟨s, o, s'⟩ hs hm)
    · exact lt_of_lt_of_le (ih.2 ⟨t, ht, hm⟩) hle

/-- When a generation was prepared stays as it is. -/
theorem preparedAt_of_run {m : ℕ} (hr : Run (Step validUri) r h r')
    (hn : ∃ state, r.preparations[n]? = some state ∧ state.preparedAtMutation = m) :
    ∃ state, r'.preparations[n]? = some state ∧ state.preparedAtMutation = m := by
  refine Run.invariant (P := fun r => ∃ state, r.preparations[n]? = some state ∧
    state.preparedAtMutation = m) hn ?_ hr
  rintro s o s' ⟨state, hstate, hm⟩ hs
  rcases step_cases hs with ⟨input, -, hp⟩ | hsettled
  · rw [(prepare_eq hp).2.2]
    refine ⟨state, ?_, hm⟩
    rw [List.getElem?_append_left (List.getElem?_eq_some_iff.mp hstate).1]
    exact hstate
  · have hlt := (List.getElem?_eq_some_iff.mp hstate).1
    rw [← hsettled.preparations.length] at hlt
    obtain ⟨old, hold, -, -, hat⟩ := hsettled.preparations.candidates n _
      (List.getElem?_eq_getElem hlt)
    rw [hstate] at hold
    exact ⟨_, List.getElem?_eq_getElem hlt, by rw [hat, ← Option.some.inj hold, hm]⟩

/-- A generation is made active only where nothing moved the registry on since it was prepared. -/
theorem activate_unmoved {t : Transition RulesOpenAuthorityRegistry Operation}
    (hr : Run (Step validUri) .empty (h₂ ++ t :: h₁) r) (he : t.event = .prepare input)
    (hok : Succeeds validUri t)
    (ha : (r.perform validUri (.activate t.pre.preparations.length)).1 = .ok ()) :
    ∀ t' ∈ h₂, ¬ Moves validUri t' := by
  obtain ⟨-, hstep, hrun⟩ := hr.split
  rw [Succeeds, he] at hok
  rw [he, Step] at hstep
  have hpost := (prepare_eq (perform_prepare_ok hok)).2.2
  rw [← hstep] at hpost
  obtain ⟨state, hstate, hm⟩ := @preparedAt_of_run _ _ _ _ t.pre.preparations.length
    t.post.mutation hrun ⟨_, by rw [hpost, List.getElem?_concat_length], by rw [hpost]⟩
  obtain ⟨state', hstate', -, hm', -⟩ := perform_activate_ok ha
  rw [hstate] at hstate'
  rw [← Option.some.inj hstate', hm] at hm'
  intro t' ht' hmoves
  have hlt := (mutation_of_run hrun).2 ⟨t', ht', hmoves⟩
  omega

/-! ## What the history of routes remembers -/

/-- The inspect is remembered with a generation that is not older, and what was written after it is
among `ids`. -/
def Remembers (i : String) (g : ℕ) (ids : Finset String) (m : OrderedMap String ℕ) : Prop :=
  (∃ w, m.get? i = some w ∧ g ≤ w) ∧
    ∃ before rest, m.keys = before ++ i :: rest ∧ ∀ k ∈ rest, k ∈ ids

variable {i : String} {g : ℕ} {ids : Finset String} {m : OrderedMap String ℕ}

theorem Remembers.delete (hm : Remembers i g ids m) {k : String} (hk : k ≠ i) :
    Remembers i g ids (m.delete k) := by
  obtain ⟨⟨w, hw, hg⟩, before, rest, hkeys, hrest⟩ := hm
  refine ⟨⟨w, by rwa [OrderedMap.get?_delete, if_neg hk.symm], hg⟩, ?_⟩
  rw [OrderedMap.keys_delete, hkeys]
  by_cases hb : k ∈ before
  · exact ⟨before.erase k, rest, List.erase_append_left _ hb, hrest⟩
  · refine ⟨before, rest.erase k, ?_, fun x hx => hrest x (List.mem_of_mem_erase hx)⟩
    rw [List.erase_append_right _ hb, List.erase_cons_tail (by simpa using hk.symm)]

theorem Remembers.write (hm : Remembers i g ids m) {j : String} (hj : j ≠ i) (hid : j ∈ ids)
    (w : ℕ) : Remembers i g ids ((m.delete j).set j w) := by
  obtain ⟨⟨v, hv, hg⟩, before, rest, hkeys, hrest⟩ := hm.delete hj
  have hnew : j ∉ (m.delete j).keys := by simp [OrderedMap.mem_keys_delete]
  refine ⟨⟨v, by rwa [OrderedMap.get?_set, if_neg hj.symm], hg⟩, before, rest ++ [j], ?_, ?_⟩
  · rw [OrderedMap.keys_set_of_not_mem _ hnew, hkeys, List.append_assoc, List.cons_append]
  · intro k hk
    rcases List.mem_append.mp hk with hk | hk
    · exact hrest k hk
    · exact List.mem_singleton.mp hk ▸ hid

theorem remembers_write (m : OrderedMap String ℕ) (i : String) {w : ℕ} (hg : g ≤ w)
    (ids : Finset String) : Remembers i g ids ((m.delete i).set i w) := by
  have hnew : i ∉ (m.delete i).keys := by simp [OrderedMap.mem_keys_delete]
  exact ⟨⟨w, by simp, hg⟩, (m.delete i).keys, [], OrderedMap.keys_set_of_not_mem _ hnew,
    fun _ hk => absurd hk List.not_mem_nil⟩

/-- A history that has to give something up gives up another inspect: what stands before this one
is active, and with what stands after it there is not too much. -/
theorem Remembers.not_retained (hm : Remembers i g ids m) {active : Option String} {j k : String}
    (hfull : routeHistoryLimit < m.size) (hids : ids.card < routeHistoryLimit)
    (hactive : ∀ a, active = some a → a ≠ i → a ∈ ids) (hlast : m.keys.getLast? = some j)
    (hfind : m.keys.find? (fun retained => active ≠ some retained ∧ retained ≠ j) = some k) :
    k ≠ i := by
  rintro rfl
  obtain ⟨-, before, rest, hkeys, hrest⟩ := hm
  have hnodup := m.nodup_keys
  rw [hkeys] at hnodup hfind hlast
  have hk : k ∉ before := fun hb => List.disjoint_of_nodup_append hnodup hb List.mem_cons_self
  have hjb : j ∉ before := by
    intro hb
    rw [List.getLast?_append_cons] at hlast
    exact List.disjoint_of_nodup_append hnodup hb (List.mem_of_getLast? hlast)
  have hbefore : ∀ x ∈ before, x ∈ ids := by
    intro x hx
    have hnone : before.find? (fun retained => active ≠ some retained ∧ retained ≠ j) = none := by
      cases hb : before.find? fun retained => active ≠ some retained ∧ retained ≠ j with
      | none => rfl
      | some y =>
        rw [List.find?_append, hb] at hfind
        exact absurd ((Option.some.inj hfind) ▸ List.mem_of_find?_eq_some hb) hk
    have hpx := List.find?_eq_none.mp hnone x hx
    have hxj : x ≠ j := fun he => hjb (he ▸ hx)
    have hxa : active = some x := by simpa [hxj] using hpx
    exact hactive x hxa fun he => hk (he ▸ hx)
  have hlist : (before ++ rest).Nodup :=
    hnodup.sublist ((List.sublist_cons_self k rest).append_left before)
  have hcard : (before ++ rest).length ≤ ids.card := by
    rw [← List.toFinset_card_of_nodup hlist]
    refine Finset.card_le_card fun x hx => ?_
    rcases List.mem_append.mp (List.mem_toFinset.mp hx) with hx | hx
    · exact hbefore x hx
    · exact hrest x hx
  rw [← OrderedMap.length_keys, hkeys, List.length_append, List.length_cons] at hfull
  rw [List.length_append] at hcard
  omega

theorem Remembers.retain (hm : Remembers i g ids m) (active : Option AuthorityGeneration)
    {j : String} (hids : ids.card < routeHistoryLimit)
    (hactive : ∀ a, active = some a → a.inspectMessageId ≠ i → a.inspectMessageId ∈ ids)
    (hlast : m.keys.getLast? = some j) :
    Remembers i g ids (if m.size ≤ routeHistoryLimit then m
      else
        match m.keys.find? fun retained =>
            active.map AuthorityGeneration.inspectMessageId ≠ some retained ∧ retained ≠ j with
        | some retained => m.delete retained
        | none => m) := by
  split
  · exact hm
  · rename_i hfull
    split
    · rename_i retained hfind
      refine hm.delete (hm.not_retained (by omega) hids ?_ hlast hfind)
      intro a ha hne
      obtain ⟨generation, hg, rfl⟩ := Option.map_eq_some_iff.mp ha
      exact hactive generation hg hne
    · exact hm

theorem getLast?_write (m : OrderedMap String ℕ) (j : String) (w : ℕ) :
    ((m.delete j).set j w).keys.getLast? = some j := by
  have hnew : j ∉ (m.delete j).keys := by simp [OrderedMap.mem_keys_delete]
  rw [OrderedMap.keys_set_of_not_mem _ hnew, List.getLast?_concat]

/-- What a stretch of a run prepares, other than the inspect, and what is active in it. -/
structure Among (validUri : String → Bool) (i : String) (ids : Finset String)
    (t : Transition RulesOpenAuthorityRegistry Operation) : Prop where
  prepared : ∀ input, t.event = .prepare input → Succeeds validUri t →
    input.inspectMessageId ≠ i → input.inspectMessageId ∈ ids
  active : ∀ generation, t.pre.active = some generation →
    generation.inspectMessageId ≠ i → generation.inspectMessageId ∈ ids

theorem Remembers.step {o : Operation} (hids : ids.card < routeHistoryLimit)
    (hm : Remembers i g ids r.highWatermarks) (hs : Step validUri r o r')
    (ho : Among validUri i ids ⟨r, o, r'⟩) : Remembers i g ids r'.highWatermarks := by
  rcases step_cases hs with ⟨input, rfl, hp⟩ | hsettled
  · obtain ⟨hvalid, -, hr'⟩ := prepare_eq hp
    rw [hr']
    have hok : Succeeds validUri ⟨r, .prepare input, r'⟩ := by simp only [Succeeds, perform, hp]
    refine Remembers.retain ?_ r.active hids ho.active (getLast?_write _ _ _)
    by_cases hj : input.inspectMessageId = i
    · obtain ⟨⟨w, hw, hg⟩, -⟩ := hm
      have hnewer := (validateGenerationInput_spec hvalid).1
      rw [hj, hw, Option.getD_some] at hnewer
      rw [hj]
      exact remembers_write _ _ (hg.trans hnewer.le) _
    · exact hm.write hj (ho.prepared input rfl hok hj) _
  · rw [hsettled.watermarks]
    exact hm

/-- Of one inspect later generations are newer, as long as there are not too many others that are
prepared, or active, in between. -/
theorem prepared_newer {t : Transition RulesOpenAuthorityRegistry Operation}
    {input₁ input₂ : RuleOpenAuthorityGenerationInput}
    (hr : Run (Step validUri) .empty (h₂ ++ t :: h₁) r) (he : t.event = .prepare input₁)
    (hok : Succeeds validUri t) (hids : ids.card < routeHistoryLimit)
    (hamong : ∀ t' ∈ h₂, Among validUri input₁.inspectMessageId ids t')
    (hpre : ∀ generation, t.pre.active = some generation →
      generation.inspectMessageId ≠ input₁.inspectMessageId → generation.inspectMessageId ∈ ids)
    (hsame : input₂.inspectMessageId = input₁.inspectMessageId)
    (hok₂ : (r.perform validUri (.prepare input₂)).1 = .ok ()) :
    input₁.rulesGeneration < input₂.rulesGeneration := by
  obtain ⟨-, hstep, hrun⟩ := hr.split
  rw [Succeeds, he] at hok
  rw [he, Step] at hstep
  have hpost := (prepare_eq (perform_prepare_ok hok)).2.2
  rw [← hstep] at hpost
  have hstart : Remembers input₁.inspectMessageId input₁.rulesGeneration ids
      t.post.highWatermarks := by
    rw [hpost]
    exact Remembers.retain (remembers_write _ _ le_rfl _) t.pre.active hids hpre
      (getLast?_write _ _ _)
  have hend : Remembers input₁.inspectMessageId input₁.rulesGeneration ids r.highWatermarks := by
    clear hok₂ hr hpost
    induction hrun with
    | start => exact hstart
    | @next h s s' o hrun hs ih =>
      exact (ih fun t' ht' => hamong t' (List.mem_cons_of_mem _ ht')).step hids hs
        (hamong _ List.mem_cons_self)
  obtain ⟨⟨w, hw, hg⟩, -⟩ := hend
  have hnewer := (validateGenerationInput_spec (prepare_eq (perform_prepare_ok hok₂)).1).1
  rw [hsame, hw, Option.getD_some] at hnewer
  omega

/-! ## The registry over a whole run -/

/-- Authorisation reads the active generation, which was prepared; a preparation that throws and one
that is rolled back at once leave it; an activation follows its preparation; generations of an
inspect grow while the history remembers it. -/
theorem registry_transactional (hr : Run (Step validUri) .empty h r) :
    (∀ tuple authority, r.authorize tuple = some authority ↔
      ∃ k input, PreparedIn validUri h k input ∧ r.active = some (freezeGeneration k input) ∧
        input.inspectMessageId = tuple.inspectMessageId ∧
          input.rulesGeneration = tuple.rulesGeneration ∧
            authority ∈ input.authorities ∧ authority.openAuthorityId = tuple.openAuthorityId) ∧
    (∀ input error, (r.perform validUri (.prepare input)).1 = .error error →
      (r.perform validUri (.prepare input)).2 = r) ∧
    (∀ input n r₁, r.prepare validUri input = .ok (n, r₁) →
      ∃ r₂ r₃, r₁.activate n = (.ok (), r₂) ∧ r₂.rollback n = (.ok (), r₃) ∧
        r₃.active =
          r.active.filter fun active => active.inspectMessageId = input.inspectMessageId) ∧
    (∀ h₂ t h₁ input, h = h₂ ++ t :: h₁ → t.event = .prepare input → Succeeds validUri t →
      (r.perform validUri (.activate t.pre.preparations.length)).1 = .ok () →
        ∀ t' ∈ h₂, ¬ Moves validUri t') ∧
    (∀ h₂ t h₁ input input₂ ids, h = h₂ ++ t :: h₁ → t.event = .prepare input →
      Succeeds validUri t → ids.card < routeHistoryLimit →
      (∀ t' ∈ h₂, Among validUri input.inspectMessageId ids t') →
      (∀ generation, t.pre.active = some generation →
        generation.inspectMessageId ≠ input.inspectMessageId →
          generation.inspectMessageId ∈ ids) →
      input₂.inspectMessageId = input.inspectMessageId →
      (r.perform validUri (.prepare input₂)).1 = .ok () →
        input.rulesGeneration < input₂.rulesGeneration) := by
  refine ⟨authorize_prepared hr, fun input error => perform_prepare_error,
    fun input n r₁ => prepare_activate_rollback, ?_, ?_⟩
  · rintro h₂ t h₁ input rfl he hok ha
    exact activate_unmoved hr he hok ha
  · rintro h₂ t h₁ input input₂ ids rfl he hok hids hamong hpre hsame hok₂
    exact prepared_newer hr he hok hids hamong hpre hsame hok₂

section Examples

def sampleAuthority : StoredRuleOpenAuthority where
  openAuthorityId := "open"
  inspectMessageId := "inspect"
  rulesGeneration := 1
  ruleRef := "rule"
  documentUri := "a.css"
  documentVersion := 1
  range := ⟨⟨0, 0⟩, ⟨1, 0⟩⟩
  workspaceGeneration := 0
  dependencies := [⟨.generatedCss, "a.css", some 1, String.ofList (List.replicate 64 '0')⟩]

def sampleInput : RuleOpenAuthorityGenerationInput := ⟨"inspect", 1, [sampleAuthority]⟩

def samplePrepared : RulesOpenAuthorityRegistry :=
  (empty.perform (fun _ => true) (.prepare sampleInput)).2

def sampleActive : RulesOpenAuthorityRegistry :=
  (samplePrepared.perform (fun _ => true) (.activate 0)).2

theorem registry_transactional_sample :
    sampleActive.authorize ⟨"inspect", 1, "open"⟩ = some sampleAuthority := by
  have hr : Run (Step fun _ => true) .empty
      [⟨samplePrepared, .activate 0, sampleActive⟩, ⟨empty, .prepare sampleInput, samplePrepared⟩]
      sampleActive := .next (.next .start rfl) rfl
  refine ((registry_transactional hr).1 _ _).mpr ⟨0, sampleInput, ?_, ?_, rfl, rfl, ?_, rfl⟩
  · have hok : (empty.perform (fun _ => true) (.prepare sampleInput)).1 = .ok () := by
      decide +kernel
    exact ⟨⟨empty, .prepare sampleInput, samplePrepared⟩, by simp, rfl, hok, rfl⟩
  · decide +kernel
  · simp [sampleInput]

end Examples

/-! ## The active inspect takes a place in the history -/

/-- A generation without authorities. -/
def emptyInput (id : String) : RuleOpenAuthorityGenerationInput := ⟨id, 1, []⟩

theorem prepare_emptyInput {id : String} (hid : isOpaqueId id = true)
    (hnew : id ∉ r.highWatermarks.keys) :
    (r.perform validUri (.prepare (emptyInput id))).1 = .ok () ∧
      (r.perform validUri (.prepare (emptyInput id))).2.active = r.active ∧
      (r.perform validUri (.prepare (emptyInput id))).2.highWatermarks =
        r.rememberHighWatermark id 1 := by
  have hnone := OrderedMap.get?_eq_none.mpr hnew
  have hvalid : validateGenerationInput validUri (emptyInput id)
      ((r.highWatermarks.get? id).getD 0) = .ok () := by
    rw [hnone]
    simp [validateGenerationInput, emptyInput, hid, Limits.generation, validateAuthorities]
  have hp : r.prepare validUri (emptyInput id) = .ok (r.preparations.length, { r with
      highWatermarks := r.rememberHighWatermark id 1
      mutation := r.mutation + 1
      preparations := r.preparations ++ [⟨freezeGeneration r.preparations.length (emptyInput id),
        r.active.filter fun active => active.inspectMessageId = id,
        r.mutation + 1, .prepared⟩] }) := by
    unfold prepare
    dsimp only
    change (validateGenerationInput validUri (emptyInput id)
      ((r.highWatermarks.get? id).getD 0) >>= _) = _
    rw [hvalid]
    rfl
  simp only [perform, hp, and_self]

theorem delete_of_not_mem {m : OrderedMap String ℕ} {id : String} (hnew : id ∉ m.keys) :
    (m.delete id).keys = m.keys := by
  rw [OrderedMap.keys_delete, List.erase_of_not_mem hnew]

/-- A history with room for the inspect takes it at its end. -/
theorem keys_rememberHighWatermark {id : String} (hnew : id ∉ r.highWatermarks.keys)
    (hroom : r.highWatermarks.keys.length < routeHistoryLimit) :
    (r.rememberHighWatermark id 1).keys = r.highWatermarks.keys ++ [id] := by
  have hdelete := delete_of_not_mem hnew
  have hkeys := OrderedMap.keys_set_of_not_mem (m := r.highWatermarks.delete id) 1
    (by rwa [hdelete])
  rw [hdelete] at hkeys
  unfold rememberHighWatermark
  dsimp only
  rw [if_pos]
  · exact hkeys
  · rw [← OrderedMap.length_keys, hkeys, List.length_append, List.length_singleton]
    omega

/-- Preparations of other inspects, up to the limit of the history, add theirs to it. -/
theorem fill_history {ids : List String} : ∀ {r : RulesOpenAuthorityRegistry},
    (r.highWatermarks.keys ++ ids).Nodup → (∀ id ∈ ids, isOpaqueId id = true) →
    r.highWatermarks.keys.length + ids.length ≤ routeHistoryLimit →
    ∃ h r', Run (Step validUri) r h r' ∧
      h.reverse.map Transition.event = ids.map (fun id => .prepare (emptyInput id)) ∧
      r'.active = r.active ∧ r'.highWatermarks.keys = r.highWatermarks.keys ++ ids := by
  induction ids with
  | nil => exact fun _ _ _ => ⟨[], _, .start, rfl, rfl, by simp⟩
  | cons id ids ih =>
    intro r hnodup hids hroom
    have hnew : id ∉ r.highWatermarks.keys := by
      intro hin
      exact List.disjoint_of_nodup_append hnodup hin List.mem_cons_self
    have hlt : r.highWatermarks.keys.length < routeHistoryLimit := by
      rw [List.length_cons] at hroom
      omega
    obtain ⟨-, hactive, hmarks⟩ :=
      @prepare_emptyInput validUri r id (hids id List.mem_cons_self) hnew
    have hkeys := keys_rememberHighWatermark hnew hlt
    rw [← hmarks] at hkeys
    obtain ⟨h, r', hrun, hevents, hactive', hkeys'⟩ := @ih
      (r.perform validUri (.prepare (emptyInput id))).2
      (by rw [hkeys, List.append_assoc]; exact hnodup)
      (fun x hx => hids x (List.mem_cons_of_mem _ hx))
      (by
        rw [List.length_cons] at hroom
        rw [hkeys, List.length_append, List.length_singleton]
        omega)
    refine ⟨h ++ [⟨r, .prepare (emptyInput id), _⟩], r', Run.trans (.next .start rfl) hrun, ?_,
      hactive'.trans hactive, ?_⟩
    · rw [List.reverse_append, List.map_append, hevents]
      rfl
    · rw [hkeys', hkeys, List.append_assoc, List.singleton_append]

/-- A full history without the inspect gives up the inspect after the active one. -/
theorem keys_rememberHighWatermark_full {id active second : String} {rest : List String}
    (hkeys : r.highWatermarks.keys = active :: second :: rest)
    (hactive : r.active.map AuthorityGeneration.inspectMessageId = some active)
    (hnew : id ∉ r.highWatermarks.keys) (hfull : routeHistoryLimit ≤ r.highWatermarks.keys.length) :
    (r.rememberHighWatermark id 1).keys = active :: rest ++ [id] := by
  have hnodup := r.highWatermarks.nodup_keys
  have hdelete := delete_of_not_mem hnew
  have hwritten := OrderedMap.keys_set_of_not_mem (m := r.highWatermarks.delete id) 1
    (by rwa [hdelete])
  rw [hdelete] at hwritten
  rw [hkeys] at hnodup hnew
  have hne : second ≠ active := by
    rintro rfl
    exact (List.nodup_cons.mp hnodup).1 List.mem_cons_self
  have hid : second ≠ id := by
    rintro rfl
    exact hnew (by simp)
  have hfind : (((r.highWatermarks.delete id).set id 1).keys.find? fun retained =>
      r.active.map AuthorityGeneration.inspectMessageId ≠ some retained ∧ retained ≠ id) =
        some second := by
    rw [hwritten, hkeys, hactive]
    simp [hne.symm, hid]
  unfold rememberHighWatermark
  dsimp only
  rw [if_neg, hfind]
  · dsimp only
    rw [OrderedMap.keys_delete, hwritten, hkeys, List.cons_append,
      List.erase_cons_tail (by simpa using hne.symm), List.cons_append, List.erase_cons_head,
      List.cons_append]
  · rw [← OrderedMap.length_keys, hwritten, List.length_append, List.length_singleton]
    omega

section Examples

/-- Inspects with ids of one character. -/
def otherIds : List String :=
  (List.range 254).map fun n => String.singleton (Char.ofNat (256 + n))

theorem length_otherIds : ∀ id ∈ otherIds, id.length = 1 := by
  intro id hid
  obtain ⟨n, -, rfl⟩ := List.mem_map.mp hid
  exact String.length_singleton

theorem nodup_otherIds : (["active", "inspect"] ++ otherIds ++ ["last"]).Nodup := by
  have hlong : ∀ id : String, id.length ≠ 1 → id ∉ otherIds := fun id hlength hid =>
    hlength (length_otherIds id hid)
  have hinj : otherIds.Nodup := by
    refine List.Nodup.map_on (fun n hn m hm he => ?_) List.nodup_range
    have hchar : Char.ofNat (256 + n) = Char.ofNat (256 + m) := by
      simpa using he
    have hn' := List.mem_range.mp hn
    have hm' := List.mem_range.mp hm
    have hvalid : ∀ k < 254, (Char.ofNat (256 + k)).toNat = 256 + k := by decide +kernel
    have htoNat := congrArg Char.toNat hchar
    rw [hvalid n hn', hvalid m hm'] at htoNat
    omega
  have hactive := hlong "active" (by decide)
  have hinspect := hlong "inspect" (by decide)
  have hlast := hlong "last" (by decide)
  show ("active" :: "inspect" :: (otherIds ++ ["last"])).Nodup
  refine List.nodup_cons.mpr ⟨by simp [hactive], List.nodup_cons.mpr ⟨by simp [hinspect], ?_⟩⟩
  exact List.nodup_append.mpr ⟨hinj, List.nodup_singleton _, by
    rintro id hid _ hl rfl
    exact hlast (List.mem_singleton.mp hl ▸ hid)⟩

theorem isOpaqueId_otherIds : ∀ id ∈ otherIds, isOpaqueId id = true := by
  decide +kernel

/-- The active inspect takes a place of the history without leaving it. -/
theorem generation_prepared_twice : ∃ h₂ t h₁ r,
    Run (Step fun _ => true) .empty (h₂ ++ t :: h₁) r ∧
      (h₂ ++ t :: h₁).reverse.map Transition.event =
        [.prepare (emptyInput "active"), .activate 0, .prepare (emptyInput "inspect")] ++
          (otherIds ++ ["last"]).map (fun id => .prepare (emptyInput id)) ∧
      t.event = .prepare (emptyInput "inspect") ∧ Succeeds (fun _ => true) t ∧
      h₂.length = routeHistoryLimit - 1 ∧
      (r.perform (fun _ => true) (.prepare (emptyInput "inspect"))).1 = .ok () := by
  let r₁ := (empty.perform (fun _ => true) (.prepare (emptyInput "active"))).2
  let r₂ := (r₁.perform (fun _ => true) (.activate 0)).2
  let r₃ := (r₂.perform (fun _ => true) (.prepare (emptyInput "inspect"))).2
  have hkeys₃ : r₃.highWatermarks.keys = ["active", "inspect"] := by decide +kernel
  have hactive₃ : r₃.active.map AuthorityGeneration.inspectMessageId = some "active" := by
    decide +kernel
  have hok₃ : (r₂.perform (fun _ => true) (.prepare (emptyInput "inspect"))).1 = .ok () := by
    decide +kernel
  have hrun₃ : Run (Step fun _ => true) .empty [⟨r₂, .prepare (emptyInput "inspect"), r₃⟩,
      ⟨r₁, .activate 0, r₂⟩, ⟨empty, .prepare (emptyInput "active"), r₁⟩] r₃ :=
    .next (.next (.next .start rfl) rfl) rfl
  have hnodup := nodup_otherIds
  have hlength : otherIds.length = 254 := by simp [otherIds]
  obtain ⟨h, r₄, hrun₄, hevents, hactive₄, hkeys₄⟩ := @fill_history (fun _ => true) otherIds r₃
    (by rw [hkeys₃]; exact (List.nodup_append.mp hnodup).1) isOpaqueId_otherIds
    (by rw [hkeys₃, hlength]; exact le_rfl)
  rw [hkeys₃] at hkeys₄
  have hlast : "last" ∉ r₄.highWatermarks.keys := by
    rw [hkeys₄]
    intro hin
    exact List.disjoint_of_nodup_append hnodup hin List.mem_cons_self
  obtain ⟨-, -, hmarks₅⟩ :=
    @prepare_emptyInput (fun _ => true) r₄ "last" (by decide +kernel) hlast
  have hkeys₅ := keys_rememberHighWatermark_full (r := r₄) hkeys₄ (hactive₄ ▸ hactive₃) hlast
    (by rw [hkeys₄]; simp [hlength, routeHistoryLimit, Limits.rulesSources])
  rw [← hmarks₅] at hkeys₅
  have hgone : "inspect" ∉ ((r₄.perform (fun _ => true)
      (.prepare (emptyInput "last"))).2).highWatermarks.keys := by
    rw [hkeys₅]
    have hrest := (List.nodup_cons.mp hnodup).2
    intro hin
    rcases List.mem_cons.mp hin with he | hin
    · exact absurd he (by decide)
    · exact (List.nodup_cons.mp hrest).1 hin
  refine ⟨⟨r₄, .prepare (emptyInput "last"), _⟩ :: h, _, _, _,
    Run.next (Run.trans hrun₃ hrun₄) rfl, ?_, rfl, hok₃, ?_,
    (prepare_emptyInput (by decide +kernel) hgone).1⟩
  · simp [List.reverse_append, hevents]
  · have hlen := congrArg List.length hevents
    simp only [List.length_map, List.length_reverse, hlength] at hlen
    rw [List.length_cons, hlen]
    rfl

end Examples

end RulesOpenAuthorityRegistry

end PinOp.Rules
