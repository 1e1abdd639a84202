import Mathlib.Data.List.ReduceOption
import PinOp.Inspect.InspectPayload

/-!
# The units of the rows

`rowUnits` lists for each row the unit that a projection accepts for it. Every accepted unit
describes its row, all of them fit into the budget, and the rows without one are those omitted.
-/

namespace PinOp.Inspect

open PinOp.Lib

variable {host : UrlHost} {matchedStyles : MatchedStyles} {options : MatchedStylesProjectionOptions}
  {rows : List MatchedRule} {s : ProjectionState} {row : MatchedRule} {unit : CorrelatedRuleUnit}

/-! ## What was accepted -/

def CorrelatedRuleUnit.bytes (unit : CorrelatedRuleUnit) : ℕ := unit.toJson.bytes

/-- For each row the unit accepted, if any. -/
def rowUnits (host : UrlHost) (matchedStyles : MatchedStyles)
    (options : MatchedStylesProjectionOptions) :
    List MatchedRule → ProjectionState → List (Option CorrelatedRuleUnit)
  | [], _ => []
  | row :: rest, s =>
    if s.full options.evidenceOnly then (row :: rest).map fun _ => none
    else
      match nextUnit host matchedStyles options s row with
      | none =>
        none :: rowUnits host matchedStyles options rest
          { s with omittedRuleCount := s.omittedRuleCount + 1 }
      | some unit =>
        match consumeJsonBudget s.remainingBytes unit.toJson with
        | (false, _) => (row :: rest).map fun _ => none
        | (true, remainingBytes) =>
          some unit :: rowUnits host matchedStyles options rest
            ⟨s.facts ++ unit.facts, s.evidenceRules ++ [unit.evidence], s.omittedRuleCount,
              remainingBytes⟩

/-- The unit is one of this rule: it has its reference, and without a mark of truncation all its
declarations in their order. -/
structure Describes (row : MatchedRule) (unit : CorrelatedRuleUnit) : Prop where
  ruleRef : unit.evidence.ruleRef = row.ruleRef
  complete : unit.evidence.declarationsTruncated = false →
    unit.evidence.declarations = row.declarations.map MatchedDeclaration.sent
  facts : ∀ fact ∈ unit.facts,
    fact.ruleRef = unit.evidence.ruleRef ∧ fact.declaration ∈ unit.evidence.declarations

theorem createCorrelatedRuleUnit_describes {declarationLimit : ℕ} {pageUrl : List ℕ}
    {inline includeFacts : Bool}
    (h : createCorrelatedRuleUnit host row declarationLimit pageUrl inline includeFacts =
      some unit) : Describes row unit := by
  simp only [createCorrelatedRuleUnit, Option.ite_none_right_eq_some, Option.some.injEq] at h
  obtain ⟨-, rfl⟩ := h
  refine ⟨rfl, fun hcut => ?_, fun fact hfact => ?_⟩
  · simp only [Bool.or_eq_false_iff, decide_eq_false_iff_not, List.length_map, List.length_take,
      not_lt] at hcut
    show (row.declarations.take declarationLimit).map _ = _
    rw [List.take_of_length_le (by omega)]
  · cases includeFacts with
    | false => cases hfact
    | true =>
      obtain ⟨declaration, hmem, rfl⟩ := List.mem_map.1 hfact
      exact ⟨rfl, hmem⟩

theorem nextUnit_describes (h : nextUnit host matchedStyles options s row = some unit) :
    Describes row unit :=
  createCorrelatedRuleUnit_describes h

/-! ## One projection -/

/-- How many rows have no unit. -/
def missing (units : List (Option CorrelatedRuleUnit)) : ℕ := units.countP Option.isNone

def bytesOf (units : List (Option CorrelatedRuleUnit)) : ℕ :=
  (units.reduceOption.map CorrelatedRuleUnit.bytes).sum

def evidenceOf (units : List (Option CorrelatedRuleUnit)) : List InspectRuleEvidence :=
  units.reduceOption.map CorrelatedRuleUnit.evidence

/-- What `units` say about going over `rows` from `s` to `t`. -/
structure Projects (rows : List MatchedRule) (units : List (Option CorrelatedRuleUnit))
    (s t : ProjectionState) : Prop where
  facts : t.facts = s.facts ++ units.reduceOption.flatMap CorrelatedRuleUnit.facts
  evidence : t.evidenceRules = s.evidenceRules ++ evidenceOf units
  omitted : t.omittedRuleCount = s.omittedRuleCount + missing units
  fits : bytesOf units + t.remainingBytes ≤ s.remainingBytes
  describes : List.Forall₂ (fun row unit => ∀ u ∈ unit, Describes row u) rows units

/-- When the rest of the rows is cut off. -/
theorem projects_rest (rows : List MatchedRule) (s : ProjectionState) (remainingBytes : ℕ)
    (hle : remainingBytes ≤ s.remainingBytes) :
    Projects rows (rows.map fun _ => none) s
      { s with omittedRuleCount := s.omittedRuleCount + rows.length, remainingBytes } := by
  have hnone : (rows.map fun _ => (none : Option CorrelatedRuleUnit)).reduceOption = [] := by
    induction rows with
    | nil => rfl
    | cons row rest ih => exact ih
  refine ⟨by rw [hnone]; simp, by rw [evidenceOf, hnone]; simp, ?_, ?_, ?_⟩
  · have hcount : missing (rows.map fun _ => none) = rows.length := by
      rw [missing, List.countP_map]
      simp
    rw [hcount]
  · rw [bytesOf, hnone]
    simpa
  · rw [List.forall₂_map_right_iff, List.forall₂_same]
    exact fun _ _ _ h => by cases h

theorem consumeJsonBudget_true {budget remaining : ℕ} {value : Json}
    (h : consumeJsonBudget budget value = (true, remaining)) :
    value.bytes + remaining = budget := by
  unfold consumeJsonBudget at h
  split at h
  · cases h
  · cases h
    omega

theorem consumeJsonBudget_false {budget remaining : ℕ} {value : Json}
    (h : consumeJsonBudget budget value = (false, remaining)) : remaining = 0 := by
  unfold consumeJsonBudget at h
  split at h
  · cases h
    rfl
  · cases h

theorem projectRows_projects (rows : List MatchedRule) (s : ProjectionState) :
    Projects rows (rowUnits host matchedStyles options rows s) s
      (projectRows host matchedStyles options rows s) := by
  induction rows generalizing s with
  | nil => exact ⟨by simp [rowUnits, projectRows], by simp [rowUnits, projectRows, evidenceOf],
      rfl, by simp [rowUnits, projectRows, bytesOf], .nil⟩
  | cons row rest ih =>
    rw [rowUnits, projectRows]
    split
    · exact projects_rest (row :: rest) s s.remainingBytes (Nat.le_refl _)
    · cases hunit : nextUnit host matchedStyles options s row with
      | none =>
        obtain ⟨hfacts, hevidence, homitted, hfits, hdescribes⟩ :=
          ih { s with omittedRuleCount := s.omittedRuleCount + 1 }
        refine ⟨hfacts, hevidence, ?_, hfits, .cons (fun _ h => by cases h) hdescribes⟩
        rw [homitted, missing, missing, List.countP_cons_of_pos rfl, Nat.add_assoc,
          Nat.add_comm 1]
      | some unit =>
        simp only
        cases hconsume : consumeJsonBudget s.remainingBytes unit.toJson with
        | mk accepted remaining =>
          cases accepted with
          | false =>
            have hzero := consumeJsonBudget_false hconsume
            exact projects_rest (row :: rest) s remaining (by omega)
          | true =>
            have hpaid := consumeJsonBudget_true hconsume
            obtain ⟨hfacts, hevidence, homitted, hfits, hdescribes⟩ :=
              ih ⟨s.facts ++ unit.facts, s.evidenceRules ++ [unit.evidence], s.omittedRuleCount,
                remaining⟩
            refine ⟨?_, ?_, ?_, ?_, .cons (fun u h => ?_) hdescribes⟩
            · rw [hfacts, List.reduceOption_cons_of_some, List.flatMap_cons, List.append_assoc]
            · rw [hevidence, evidenceOf, evidenceOf, List.reduceOption_cons_of_some, List.map_cons,
                List.append_assoc, List.singleton_append]
            · rw [homitted, missing, missing, List.countP_cons_of_neg (by simp)]
            · simp only [bytesOf, List.reduceOption_cons_of_some, List.map_cons, List.sum_cons,
                CorrelatedRuleUnit.bytes] at hfits ⊢
              omega
            · cases h
              exact nextUnit_describes hunit

/-- The units of a whole projection. -/
def projectionUnits (host : UrlHost) (matchedStyles : MatchedStyles) (budget : ℕ)
    (options : MatchedStylesProjectionOptions) : List (Option CorrelatedRuleUnit) :=
  rowUnits host matchedStyles options (selectedRules matchedStyles options) ⟨[], [], 0, budget⟩

/-! ## A pass -/

/-- A pass over rows yields batches of evidence, and draws with `other` bytes on a budget. -/
structure Pass (rows : List MatchedRule) (units : List (Option CorrelatedRuleUnit))
    (batches : List InspectRuleEvidenceBatch) (other budget remaining : ℕ) : Prop where
  evidence : batches.flatMap InspectRuleEvidenceBatch.rules = evidenceOf units
  omitted : (batches.map InspectRuleEvidenceBatch.omittedRuleCount).sum = missing units
  fits : other + bytesOf units + remaining ≤ budget
  describes : List.Forall₂ (fun row unit => ∀ u ∈ unit, Describes row u) rows units

theorem Pass.append {rows₁ rows₂ : List MatchedRule}
    {units₁ units₂ : List (Option CorrelatedRuleUnit)}
    {batches₁ batches₂ : List InspectRuleEvidenceBatch} {other₁ other₂ a b c : ℕ}
    (h₁ : Pass rows₁ units₁ batches₁ other₁ a b) (h₂ : Pass rows₂ units₂ batches₂ other₂ b c) :
    Pass (rows₁ ++ rows₂) (units₁ ++ units₂) (batches₁ ++ batches₂) (other₁ + other₂) a c := by
  have hfits₁ := h₁.fits
  have hfits₂ := h₂.fits
  refine ⟨?_, ?_, ?_, List.rel_append h₁.describes h₂.describes⟩
  · rw [List.flatMap_append, h₁.evidence, h₂.evidence, evidenceOf, evidenceOf, evidenceOf,
      List.reduceOption_append, List.map_append]
  · rw [List.map_append, List.sum_append, h₁.omitted, h₂.omitted, missing, missing, missing,
      List.countP_append]
  · have hsum : bytesOf (units₁ ++ units₂) = bytesOf units₁ + bytesOf units₂ := by
      rw [bytesOf, bytesOf, bytesOf, List.reduceOption_append, List.map_append, List.sum_append]
    omega

/-- A projection when `other` bytes were spent before it. -/
theorem projection_pass (host : UrlHost) (matchedStyles : MatchedStyles) {other budget before : ℕ}
    (hspent : other + budget ≤ before) (options : MatchedStylesProjectionOptions) :
    Pass (selectedRules matchedStyles options) (projectionUnits host matchedStyles budget options)
      [(projectMatchedStylesToCssFacts host matchedStyles budget options).batch] other before
      (projectMatchedStylesToCssFacts host matchedStyles budget options).remainingBytes := by
  obtain ⟨-, hevidence, homitted, hfits, hdescribes⟩ :=
    @projectRows_projects host matchedStyles options (selectedRules matchedStyles options)
      ⟨[], [], 0, budget⟩
  refine ⟨?_, ?_, ?_, hdescribes⟩
  · rw [List.flatMap_singleton]
    exact hevidence
  · rw [List.map_singleton, List.sum_singleton]
    exact homitted.trans (Nat.zero_add _)
  · have hfits : bytesOf (projectionUnits host matchedStyles budget options) +
        (projectMatchedStylesToCssFacts host matchedStyles budget options).remainingBytes ≤
        budget := hfits
    omega

end PinOp.Inspect
