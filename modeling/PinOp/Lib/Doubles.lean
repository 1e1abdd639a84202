import Mathlib

/-!
# Natural numbers as doubles

A natural number is kept exactly below `2 ^ 53`; from there on it is rounded to 53 significant
bits, a tie to the even one.
-/

namespace PinOp.Lib

def toDouble (n : ℕ) : ℕ :=
  if n < 2 ^ 53 then n
  else
    let unit := 2 ^ (n.log2 - 52)
    let quotient := n / unit
    let remainder := n % unit
    let rounded :=
      if unit < 2 * remainder ∨ 2 * remainder = unit ∧ quotient % 2 = 1 then quotient + 1
      else quotient
    rounded * unit

end PinOp.Lib
