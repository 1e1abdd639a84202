import Mathlib.Data.List.Sort
import Mathlib.Data.List.Lex

/-!
# ECMAScript comparison functions

A comparison function returns a number whose sign orders its arguments; comparisons are
chained with `||`, which goes on to the next one when the first is zero. `IsComparator` is
what a stable sort needs of such a function, and it is kept by chaining.
-/

namespace PinOp.Lib

variable {α : Type*}

/-- `left || right` on numbers. -/
def orNext (left right : ℤ) : ℤ := if left ≠ 0 then left else right

/-- The code units two ECMAScript strings are compared by. -/
def codeUnits (s : String) : List ℕ :=
  s.toList.flatMap fun c =>
    if c.toNat < 0x10000 then [c.toNat]
    else [0xD800 + (c.toNat - 0x10000) / 0x400, 0xDC00 + (c.toNat - 0x10000) % 0x400]

/-- `left < right ? -1 : left > right ? 1 : 0` -/
def compareText (left right : String) : ℤ :=
  if codeUnits left < codeUnits right then -1
  else if codeUnits right < codeUnits left then 1
  else 0

structure IsComparator (c : α → α → ℤ) : Prop where
  swap : ∀ a b, c a b < 0 ↔ 0 < c b a
  trans : ∀ a b d, c a b ≤ 0 → c b d ≤ 0 → c a d ≤ 0

namespace IsComparator

variable {c c₁ c₂ : α → α → ℤ}

theorem total (h : IsComparator c) (a b : α) : c a b ≤ 0 ∨ c b a ≤ 0 := by
  have hswap := h.swap b a
  omega

theorem not_lt_iff (h : IsComparator c) {a b : α} : ¬ c b a < 0 ↔ c a b ≤ 0 := by
  have hswap := h.swap b a
  omega

/-- The larger number goes first. -/
theorem descending (f : α → ℕ) : IsComparator fun a b => (f b : ℤ) - f a where
  swap a b := by omega
  trans a b d := by omega

/-- The smaller number goes first. -/
theorem ascending (f : α → ℤ) : IsComparator fun a b => f a - f b where
  swap a b := by omega
  trans a b d := by omega

/-- Things are compared by what `f` says of them. -/
theorem comap {β : Type*} (h : IsComparator c) (f : β → α) :
    IsComparator fun a b => c (f a) (f b) where
  swap a b := h.swap (f a) (f b)
  trans a b d := h.trans (f a) (f b) (f d)

theorem text (f : α → String) : IsComparator fun a b => compareText (f a) (f b) where
  swap a b := by
    unfold compareText
    rcases lt_trichotomy (codeUnits (f a)) (codeUnits (f b)) with h | h | h
    · simp [h, h.not_gt]
    · simp [h]
    · simp [h, h.not_gt]
  trans a b d := by
    have hle : ∀ x y : String, compareText x y ≤ 0 ↔ codeUnits x ≤ codeUnits y := by
      intro x y
      unfold compareText
      rcases lt_trichotomy (codeUnits x) (codeUnits y) with h | h | h
      · simp [h, h.le]
      · simp [h]
      · simp [h, h.not_gt]
    rw [hle, hle, hle]
    exact le_trans

/-- Chained comparisons. -/
theorem orNext (h₁ : IsComparator c₁) (h₂ : IsComparator c₂) :
    IsComparator fun a b => PinOp.Lib.orNext (c₁ a b) (c₂ a b) where
  swap a b := by
    have h := h₁.swap a b
    have h' := h₁.swap b a
    have h'' := h₂.swap a b
    unfold PinOp.Lib.orNext
    split <;> split <;> omega
  trans a b d hab hbd := by
    have hswap := h₁.swap
    have hab₁ : c₁ a b ≤ 0 := by unfold PinOp.Lib.orNext at hab; split at hab <;> omega
    have hbd₁ : c₁ b d ≤ 0 := by unfold PinOp.Lib.orNext at hbd; split at hbd <;> omega
    have had₁ := h₁.trans a b d hab₁ hbd₁
    have hda := hswap a d
    have hda' := hswap d a
    unfold PinOp.Lib.orNext
    split
    · exact had₁
    -- `a` and `d` are equal for the first comparison, so `b` is equal to both
    · have hba₁ := h₁.trans b d a hbd₁ (by omega)
      have hdb₁ := h₁.trans d a b (by omega) hab₁
      have hab' := hswap a b
      have hbd' := hswap b d
      have heq₁ : c₁ a b = 0 := by omega
      have heq₂ : c₁ b d = 0 := by omega
      simp only [PinOp.Lib.orNext, heq₁, heq₂, ne_eq, not_true_eq_false, if_false] at hab hbd
      exact h₂.trans a b d hab hbd

theorem isTrans (h : IsComparator c) : IsTrans α fun a b => c a b ≤ 0 := ⟨h.trans⟩

theorem isTotal (h : IsComparator c) : Std.Total fun a b => c a b ≤ 0 := ⟨h.total⟩

end IsComparator

end PinOp.Lib
