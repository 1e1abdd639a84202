import Mathlib.Data.Finset.Card
import PinOp.Lib.OrderedMap

/-!
# Bounded buckets

Values filed under keys, a bounded number to a key. A bucket that would outgrow its bound is
given up for good, and whatever is filed under its key from then on is dropped: a bucket is
all that was filed under its key, or it is refused.
-/

namespace PinOp.Lib

variable {κ ν : Type*}

/-- The values of each key, oldest first; `none` is a bucket that was given up. -/
abbrev Buckets (κ ν : Type*) := OrderedMap κ (Option (List ν))

namespace Buckets

variable [DecidableEq κ] [DecidableEq ν]

/-- Filing the value would change nothing. -/
def settled (index : Buckets κ ν) (key : κ) (value : ν) : Bool :=
  match index.get? key with
  | none => false
  | some none => true
  | some (some bucket) => bucket.contains value

/-- File a value that is not settled. -/
def file (limit : ℕ) (index : Buckets κ ν) (key : κ) (value : ν) : Buckets κ ν :=
  match (index.get? key).join with
  | none => index.set key (some [value])
  | some bucket =>
    if limit ≤ bucket.length then index.set key none
    else index.set key (some (bucket ++ [value]))

/-- What an index holds of what was filed. -/
structure Holds (limit : ℕ) (index : Buckets κ ν) (filed : List (κ × ν)) : Prop where
  absent : ∀ key, index.get? key = none → ∀ value, (key, value) ∉ filed
  kept : ∀ key bucket, index.get? key = some (some bucket) →
    bucket.Nodup ∧ ∀ value, value ∈ bucket ↔ (key, value) ∈ filed
  givenUp : ∀ key, index.get? key = some none →
    ∃ values : List ν, values.Nodup ∧ limit < values.length ∧ ∀ v ∈ values, (key, v) ∈ filed

variable {limit : ℕ} {index : Buckets κ ν} {filed : List (κ × ν)} {key : κ} {value : ν}

namespace Holds

/-- A value that is not settled was not filed. -/
theorem not_mem (h : Holds limit index filed) (hnew : index.settled key value = false) :
    (key, value) ∉ filed := by
  unfold settled at hnew
  split at hnew
  · next hget => exact h.absent key hget value
  · cases hnew
  · next bucket hget =>
    rw [List.contains_eq_mem, decide_eq_false_iff_not] at hnew
    exact fun hmem => hnew (((h.kept key bucket hget).2 value).2 hmem)

theorem settled (h : Holds limit index filed) (hsettled : index.settled key value = true) :
    Holds limit index (filed ++ [(key, value)]) := by
  have hget : index.get? key = some none ∨
      ∃ bucket, index.get? key = some (some bucket) ∧ value ∈ bucket := by
    unfold Buckets.settled at hsettled
    split at hsettled
    · cases hsettled
    · next hget => exact .inl hget
    · next bucket hget =>
      rw [List.contains_eq_mem, decide_eq_true_eq] at hsettled
      exact .inr ⟨bucket, hget, hsettled⟩
  refine ⟨fun other hother v hmem => ?_, fun other bucket hother => ?_, fun other hother => ?_⟩
  · rcases List.mem_append.1 hmem with hmem | hmem
    · exact h.absent other hother v hmem
    · obtain ⟨rfl, -⟩ := Prod.mk.inj (List.mem_singleton.1 hmem)
      rcases hget with hget | ⟨bucket, hget, -⟩
      · rw [hother] at hget
        cases hget
      · rw [hother] at hget
        cases hget
  · obtain ⟨hnodup, hall⟩ := h.kept other bucket hother
    refine ⟨hnodup, fun v => ?_⟩
    rw [hall, List.mem_append, List.mem_singleton]
    refine ⟨.inl, fun hv => ?_⟩
    rcases hv with hv | hv
    · exact hv
    · obtain ⟨rfl, rfl⟩ := Prod.mk.inj hv
      rcases hget with hget | ⟨found, hget, hmem⟩
      · rw [hother] at hget
        cases hget
      · obtain rfl : bucket = found := by
          rw [hother] at hget
          exact Option.some.inj (Option.some.inj hget)
        exact (hall _).1 hmem
  · obtain ⟨values, hnodup, hlong, hvalues⟩ := h.givenUp other hother
    exact ⟨values, hnodup, hlong, fun v hv => List.mem_append_left _ (hvalues v hv)⟩

omit [DecidableEq ν] in
/-- A bucket that is right for its key is put in its place. -/
theorem set {bucket : Option (List ν)} (h : Holds limit index filed)
    (habsent : bucket = none → ∃ values : List ν, values.Nodup ∧ limit < values.length ∧
      ∀ v ∈ values, (key, v) ∈ filed ++ [(key, value)])
    (hkept : ∀ values, bucket = some values →
      values.Nodup ∧ ∀ v, v ∈ values ↔ (key, v) ∈ filed ++ [(key, value)]) :
    Holds limit (index.set key bucket) (filed ++ [(key, value)]) := by
  have hother : ∀ {other : κ}, other ≠ key → ∀ v,
      (other, v) ∈ filed ++ [(key, value)] ↔ (other, v) ∈ filed := by
    intro other hne v
    rw [List.mem_append, List.mem_singleton, Prod.mk.injEq]
    tauto
  refine ⟨fun other hget => ?_, fun other values hget => ?_, fun other hget => ?_⟩
  · by_cases hne : other = key
    · subst hne
      rw [OrderedMap.get?_set, if_pos rfl] at hget
      cases hget
    · rw [OrderedMap.get?_set, if_neg hne] at hget
      exact fun v => (hother hne v).not.2 (h.absent other hget v)
  · by_cases hne : other = key
    · subst hne
      rw [OrderedMap.get?_set, if_pos rfl] at hget
      exact hkept values (Option.some.inj hget)
    · rw [OrderedMap.get?_set, if_neg hne] at hget
      simp only [hother hne]
      exact h.kept other values hget
  · by_cases hne : other = key
    · subst hne
      rw [OrderedMap.get?_set, if_pos rfl] at hget
      exact habsent (Option.some.inj hget)
    · rw [OrderedMap.get?_set, if_neg hne] at hget
      simp only [hother hne]
      exact h.givenUp other hget

theorem file (h : Holds limit index filed) (hnew : index.settled key value = false) :
    Holds limit (index.file limit key value) (filed ++ [(key, value)]) := by
  have hmem := h.not_mem hnew
  cases hget : index.get? key with
  | none =>
    have habsent := h.absent key hget
    rw [Buckets.file, hget]
    refine h.set (fun hnone => by cases hnone) fun values hvalues => ?_
    obtain rfl := Option.some.inj hvalues
    refine ⟨List.nodup_singleton _, fun v => ?_⟩
    simp [habsent v]
  | some found =>
    cases found with
    | none =>
      rw [Buckets.settled, hget] at hnew
      cases hnew
    | some bucket =>
      obtain ⟨hnodup, hall⟩ := h.kept key bucket hget
      have hfresh : value ∉ bucket := fun hin => hmem ((hall value).1 hin)
      have hlonger : (bucket ++ [value]).Nodup := by
        rw [List.nodup_append]
        refine ⟨hnodup, List.nodup_singleton _, fun v hv w hw hvw => hfresh ?_⟩
        rw [← List.mem_singleton.1 hw, ← hvw]
        exact hv
      have hvalues : ∀ v, v ∈ bucket ++ [value] ↔ (key, v) ∈ filed ++ [(key, value)] := by
        intro v
        rw [List.mem_append, List.mem_append, hall v, List.mem_singleton, List.mem_singleton,
          Prod.mk.injEq]
        tauto
      rw [Buckets.file, hget, Option.join_some]
      simp only
      split
      · next hlimit =>
        refine h.set (fun _ => ⟨_, hlonger, ?_, fun v hv => (hvalues v).1 hv⟩)
          fun values hvalues => by cases hvalues
        rw [List.length_append, List.length_singleton]
        omega
      · refine h.set (fun hnone => by cases hnone) fun values heq => ?_
        obtain rfl := Option.some.inj heq
        exact ⟨hlonger, hvalues⟩

end Holds

/-- What was filed for the first time is one more. -/
theorem card_filed {pair : κ × ν} (hnew : pair ∉ filed) :
    (filed ++ [pair]).toFinset.card = filed.toFinset.card + 1 := by
  rw [List.toFinset_append, Finset.union_comm, List.toFinset_cons, List.toFinset_nil,
    Finset.insert_union, Finset.empty_union, Finset.card_insert_of_notMem]
  rwa [List.mem_toFinset]

theorem card_filed_le (pair : κ × ν) :
    filed.toFinset.card ≤ (filed ++ [pair]).toFinset.card := by
  rw [List.toFinset_append]
  exact Finset.card_le_card Finset.subset_union_left

end Buckets

end PinOp.Lib
