import Mathlib.Algebra.Order.Field.Rat
import Mathlib.Data.Nat.Cast.Order.Ring
import Mathlib.Data.PNat.Basic

/-!
# Numbers of the source language

An ECMAScript `number`, with the values the modelled code can tell apart: a finite
number, an infinity, or `NaN`. Finite numbers are exact here; the code under
verification only compares them and tests them for being integers.
-/

namespace PinOp.Lib

inductive JsNumber where
  | nan
  | negInfinity
  | finite (q : ℚ)
  | infinity
  deriving DecidableEq, Repr

namespace JsNumber

instance : NatCast JsNumber := ⟨fun n => .finite n⟩

/-- `Number.isInteger`, with the integer. -/
def integer? : JsNumber → Option ℤ
  | .finite q => if q.den = 1 then some q.num else none
  | _ => none

/-- `===`: `NaN` is not equal to itself. -/
def strictEq : JsNumber → JsNumber → Bool
  | .nan, _ => false
  | a, b => decide (a = b)

/-- `<`: every comparison with `NaN` is false. -/
def lt : JsNumber → JsNumber → Bool
  | .nan, _ | _, .nan => false
  | .finite a, .finite b => decide (a < b)
  | .negInfinity, b => decide (b ≠ .negInfinity)
  | .finite _, .infinity => true
  | _, _ => false

/-- `<=`. -/
def le (a b : JsNumber) : Bool := a.lt b || a.strictEq b

/-- The value as a positive integer, when it is one. -/
def positiveInteger? (a : JsNumber) : Option ℕ+ :=
  a.integer?.bind fun n => if h : 0 < n then some ⟨n.toNat, by omega⟩ else none

@[simp] theorem natCast_inj {a b : ℕ} : (a : JsNumber) = b ↔ a = b := by
  change JsNumber.finite a = .finite b ↔ a = b
  simp

@[simp] theorem integer?_natCast (n : ℕ) : integer? n = some (n : ℤ) := by
  change (if (n : ℚ).den = 1 then some (n : ℚ).num else none) = some (n : ℤ)
  simp

@[simp] theorem strictEq_natCast (a b : ℕ) : strictEq a b = decide (a = b) := by
  change decide ((a : JsNumber) = b) = decide (a = b)
  simp

@[simp] theorem lt_natCast (a b : ℕ) : lt a b = decide (a < b) := by
  change decide ((a : ℚ) < b) = decide (a < b)
  simp

@[simp] theorem le_natCast (a b : ℕ) : le a b = decide (a ≤ b) := by
  rw [le, lt_natCast, strictEq_natCast, ← Bool.decide_or, decide_eq_decide]
  exact Nat.le_iff_lt_or_eq.symm

theorem eq_of_strictEq {a b : JsNumber} (h : a.strictEq b = true) : a = b := by
  cases a <;> simp_all [strictEq]

end JsNumber

end PinOp.Lib
