import Mathlib.Data.Nat.Digits.Defs

/-!
# Numbers as text

The text of a number has only digits, and tells the number.
-/

namespace PinOp.Lib

theorem repr_injective : Function.Injective Nat.repr := by
  intro m n h
  rw [← Nat.ofDigitChars_ten_toDigits (n := m), ← Nat.ofDigitChars_ten_toDigits (n := n),
    ← Nat.toList_repr, ← Nat.toList_repr, h]

/-- No separator stands in a number. -/
theorem notMem_repr {c : Char} (hc : c.isDigit = false) (n : ℕ) : c ∉ n.repr.toList := by
  rw [Nat.toList_repr]
  intro h
  have hdigit := Nat.isDigit_of_mem_toDigits (by decide) (by decide) h
  rw [hc] at hdigit
  cases hdigit

end PinOp.Lib
