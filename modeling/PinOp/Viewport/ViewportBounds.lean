import Mathlib.Data.Int.LeastGreatest
import Mathlib.Order.Bounds.Basic
import PinOp.Viewport.MediaFeature

/-!
# The end of an interval

Tightening by constraints one after the other leaves the greatest of the lower ends and the least of
the upper ones. For constraints that an integer in range meets, what is picked is the best one.
-/

namespace PinOp.Viewport

/-! ## Ends -/

/-- The lower end a constraint sets. -/
def lowerEnd (k : Constraint) : Option ℚ :=
  match k.comparison with
  | .gt => some (⌊k.value⌋ + 1)
  | .ge => some ⌈k.value⌉
  | .eq => some k.value
  | .lt | .le => none

/-- The upper end a constraint sets. -/
def upperEnd (k : Constraint) : Option ℚ :=
  match k.comparison with
  | .lt => some (⌈k.value⌉ - 1)
  | .le => some ⌊k.value⌋
  | .eq => some k.value
  | .gt | .ge => none

def lowerEnds (ks : List Constraint) : Set ℚ := { e | ∃ k ∈ ks, lowerEnd k = some e }

def upperEnds (ks : List Constraint) : Set ℚ := { e | ∃ k ∈ ks, upperEnd k = some e }

variable {ks done : List Constraint} {b : Bounds} {k : Constraint} {n : ℤ} {x : ℚ}

/-- Brought into the range of a viewport. -/
def clamp (n : ℤ) : ℤ := min viewportDimensionMax (max viewportDimensionMin n)

/-- The integer is the end of the interval of the constraints: the least of the upper ends, or the
greatest of the lower ends where there are no others. -/
def Lands (ks : List Constraint) (n : ℤ) : Prop :=
  (∃ m, IsLeast (upperEnds ks) m ∧ (∀ l ∈ lowerEnds ks, l ≤ m) ∧ n = clamp (round m)) ∨
  (upperEnds ks = ∅ ∧ ∃ m, IsGreatest (lowerEnds ks) m ∧ n = clamp (round m))

theorem Lands.unique {m : ℤ} (hn : Lands ks n) (hm : Lands ks m) : n = m := by
  rcases hn with ⟨u, hu, -, rfl⟩ | ⟨hupper, l, hl, rfl⟩ <;>
    rcases hm with ⟨u', hu', -, rfl⟩ | ⟨hupper', l', hl', rfl⟩
  · rw [hu.unique hu']
  · rw [hupper'] at hu
    exact absurd hu.1 (Set.notMem_empty u)
  · rw [hupper] at hu'
    exact absurd hu'.1 (Set.notMem_empty u')
  · rw [hl.unique hl']

/-- All constraints hold. -/
def Meets (ks : List Constraint) (x : ℚ) : Prop := ∀ k ∈ ks, k.Holds x

def InRange (n : ℤ) : Prop := viewportDimensionMin ≤ n ∧ n ≤ viewportDimensionMax

instance (n : ℤ) : Decidable (InRange n) := inferInstanceAs (Decidable (_ ∧ _))

def HasUpper (ks : List Constraint) : Prop :=
  ∃ k ∈ ks, k.comparison = .lt ∨ k.comparison = .le ∨ k.comparison = .eq

/-- The largest integer in range that meets the constraints, or the smallest where none is an upper
bound. -/
structure Best (ks : List Constraint) (n : ℤ) : Prop where
  inRange : InRange n
  meets : Meets ks n
  largest : HasUpper ks → ∀ m, InRange m → Meets ks m → m ≤ n
  smallest : ¬HasUpper ks → ∀ m, InRange m → Meets ks m → n ≤ m

theorem Best.unique {m : ℤ} (hn : Best ks n) (hm : Best ks m) : n = m := by
  by_cases h : HasUpper ks
  · exact le_antisymm (hm.largest h n hn.inRange hn.meets) (hn.largest h m hm.inRange hm.meets)
  · exact le_antisymm (hn.smallest h m hm.inRange hm.meets) (hm.smallest h n hn.inRange hn.meets)

/-- Between the ends every constraint holds. -/
theorem holds_of_ends (hlower : ∀ e, lowerEnd k = some e → e ≤ x)
    (hupper : ∀ e, upperEnd k = some e → x ≤ e) : k.Holds x := by
  obtain ⟨comparison, value⟩ := k
  cases comparison with
  | gt => exact lt_of_lt_of_le (Int.lt_floor_add_one value) (hlower _ rfl)
  | ge => exact le_trans (Int.le_ceil value) (hlower _ rfl)
  | lt =>
    have hx : x ≤ ⌈value⌉ - 1 := hupper _ rfl
    have hceil : (⌈value⌉ : ℚ) < value + 1 := Int.ceil_lt_add_one value
    show x < value
    linarith
  | le => exact le_trans (hupper _ rfl) (Int.floor_le value)
  | eq => exact le_antisymm (hupper _ rfl) (hlower _ rfl)

/-- An integer that meets the constraint is between its ends. -/
theorem ends_of_holds (h : k.Holds (n : ℚ)) :
    (∀ e, lowerEnd k = some e → e ≤ n) ∧ (∀ e, upperEnd k = some e → (n : ℚ) ≤ e) := by
  obtain ⟨comparison, value⟩ := k
  cases comparison with
  | gt =>
    have hn : ⌊value⌋ + 1 ≤ n := Int.floor_lt.2 h
    refine ⟨fun e he => ?_, fun e he => by cases he⟩
    rw [← Option.some.inj he]
    exact_mod_cast hn
  | ge =>
    have hn : ⌈value⌉ ≤ n := Int.ceil_le.2 h
    refine ⟨fun e he => ?_, fun e he => by cases he⟩
    rw [← Option.some.inj he]
    exact_mod_cast hn
  | lt =>
    have hn : n ≤ ⌈value⌉ - 1 := Int.le_sub_one_of_lt (Int.lt_ceil.2 h)
    refine ⟨fun e he => (by cases he), fun e he => ?_⟩
    rw [← Option.some.inj he]
    exact_mod_cast hn
  | le =>
    have hn : n ≤ ⌊value⌋ := Int.le_floor.2 h
    refine ⟨fun e he => (by cases he), fun e he => ?_⟩
    rw [← Option.some.inj he]
    exact_mod_cast hn
  | eq =>
    have hn : (n : ℚ) = value := h
    refine ⟨fun e he => ?_, fun e he => ?_⟩ <;> rw [← Option.some.inj he, hn]

/-- The ends of a constraint that an integer meets are integers. -/
theorem ends_integral (h : k.Holds (n : ℚ)) :
    (∀ e, lowerEnd k = some e → ∃ z : ℤ, e = z) ∧ (∀ e, upperEnd k = some e → ∃ z : ℤ, e = z) := by
  obtain ⟨comparison, value⟩ := k
  cases comparison with
  | gt =>
    refine ⟨fun e he => ⟨⌊value⌋ + 1, ?_⟩, fun e he => (by cases he)⟩
    rw [← Option.some.inj he]
    push_cast
    rfl
  | ge => exact ⟨fun e he => ⟨⌈value⌉, (Option.some.inj he).symm⟩, fun e he => (by cases he)⟩
  | lt =>
    refine ⟨fun e he => (by cases he), fun e he => ⟨⌈value⌉ - 1, ?_⟩⟩
    rw [← Option.some.inj he]
    push_cast
    rfl
  | le => exact ⟨fun e he => (by cases he), fun e he => ⟨⌊value⌋, (Option.some.inj he).symm⟩⟩
  | eq =>
    have hn : (n : ℚ) = value := h
    exact ⟨fun e he => ⟨n, by rw [← Option.some.inj he, hn]⟩,
      fun e he => ⟨n, by rw [← Option.some.inj he, hn]⟩⟩

theorem meets_iff_ends : Meets ks (n : ℚ) ↔
    (∀ l ∈ lowerEnds ks, l ≤ n) ∧ (∀ u ∈ upperEnds ks, (n : ℚ) ≤ u) := by
  constructor
  · intro h
    constructor
    · rintro l ⟨k, hk, hl⟩
      exact (ends_of_holds (h k hk)).1 l hl
    · rintro u ⟨k, hk, hu⟩
      exact (ends_of_holds (h k hk)).2 u hu
  · rintro ⟨hlower, hupper⟩ k hk
    exact holds_of_ends (fun e he => hlower e ⟨k, hk, he⟩) fun e he => hupper e ⟨k, hk, he⟩

theorem hasUpper_iff : HasUpper ks ↔ (upperEnds ks).Nonempty := by
  constructor
  · rintro ⟨⟨comparison, value⟩, hk, h⟩
    rcases h with h | h | h
    all_goals
      have h : comparison = _ := h
      subst h
      exact ⟨_, _, hk, rfl⟩
  · rintro ⟨e, ⟨comparison, value⟩, hk, he⟩
    cases comparison with
    | lt => exact ⟨_, hk, .inl rfl⟩
    | le => exact ⟨_, hk, .inr (.inl rfl)⟩
    | eq => exact ⟨_, hk, .inr (.inr rfl)⟩
    | gt => cases he
    | ge => cases he

theorem round_intCast (z : ℤ) : round (z : ℚ) = z := by
  rw [round, Int.floor_intCast_add]
  have : ⌊(1 / 2 : ℚ)⌋ = 0 := by norm_num
  omega

theorem clamp_inRange (z : ℤ) : InRange (clamp z) := by
  simp only [InRange, clamp, viewportDimensionMin, viewportDimensionMax]
  omega

/-- The end of the interval is the best viewport. -/
theorem Lands.best (hlands : Lands ks n) {m : ℤ} (hm : InRange m) (hmeets : Meets ks (m : ℚ)) :
    Best ks n := by
  have hends := meets_iff_ends.1 hmeets
  simp only [InRange, viewportDimensionMin, viewportDimensionMax] at hm
  rcases hlands with ⟨u, hu, hlower, rfl⟩ | ⟨hupper, l, hl, rfl⟩
  · obtain ⟨k, hk, he⟩ := hu.1
    obtain ⟨z, rfl⟩ := (ends_integral (hmeets k hk)).2 u he
    have hmz : m ≤ z := by exact_mod_cast hends.2 _ hu.1
    rw [round_intCast]
    have hle : clamp z ≤ z ∧ m ≤ clamp z := by
      simp only [clamp, viewportDimensionMin, viewportDimensionMax]
      omega
    refine ⟨clamp_inRange z, meets_iff_ends.2 ⟨fun l hl => ?_, fun u' hu' => ?_⟩, fun _ m' hm'
      hmeets' => ?_,
      fun hnot => absurd (hasUpper_iff.2 ⟨_, hu.1⟩) hnot⟩
    · have : (m : ℚ) ≤ clamp z := by exact_mod_cast hle.2
      exact le_trans (hends.1 l hl) this
    · have : ((clamp z : ℤ) : ℚ) ≤ z := by exact_mod_cast hle.1
      exact le_trans this (hu.2 hu')
    · have hz : m' ≤ z := by exact_mod_cast (meets_iff_ends.1 hmeets').2 _ hu.1
      simp only [InRange, viewportDimensionMin, viewportDimensionMax] at hm'
      simp only [clamp, viewportDimensionMin, viewportDimensionMax]
      omega
  · obtain ⟨k, hk, he⟩ := hl.1
    obtain ⟨z, rfl⟩ := (ends_integral (hmeets k hk)).1 l he
    have hzm : z ≤ m := by exact_mod_cast hends.1 _ hl.1
    rw [round_intCast]
    have hle : z ≤ clamp z ∧ clamp z ≤ m := by
      simp only [clamp, viewportDimensionMin, viewportDimensionMax]
      omega
    refine ⟨clamp_inRange z, meets_iff_ends.2 ⟨fun l' hl' => ?_, fun u hu => ?_⟩, fun hhas => ?_,
      fun _ m' hm' hmeets' => ?_⟩
    · have : (z : ℚ) ≤ clamp z := by exact_mod_cast hle.1
      exact le_trans (hl.2 hl') this
    · rw [hupper] at hu
      exact absurd hu (Set.notMem_empty u)
    · rw [hasUpper_iff, hupper] at hhas
      exact absurd hhas Set.not_nonempty_empty
    · have hz : z ≤ m' := by exact_mod_cast (meets_iff_ends.1 hmeets').1 _ hl.1
      simp only [InRange, viewportDimensionMin, viewportDimensionMax] at hm'
      simp only [clamp, viewportDimensionMin, viewportDimensionMax]
      omega

end PinOp.Viewport
