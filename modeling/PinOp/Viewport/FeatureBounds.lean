import Mathlib.Data.List.TakeWhile
import PinOp.Viewport.MediaMatches
import PinOp.Viewport.ViewportBounds

/-!
# What the features leave of the bounds

The three loops tighten the bounds of each axis by what is read of its features, whatever the order.
-/

namespace PinOp.Viewport

open PinOp.Lib PinOp.Lib.Regex

/-! ## Numbers -/

def Feature.axisConstraints (f : Feature) : List (Axis × Constraint) :=
  f.constraintsRead.map fun k => (f.axis, k)

/-- Features, each behind some other text, and text behind them. -/
def branchText (parts : List (List Char × Feature)) (trail : List Char) : List Char :=
  (parts.flatMap fun p => p.1 ++ p.2.text) ++ trail

/-- No parenthesis is opened between the features. -/
def Plain (parts : List (List Char × Feature)) (trail : List Char) : Prop :=
  (∀ p ∈ parts, ∀ x ∈ p.1, x ≠ '(') ∧ ∀ x ∈ trail, x ≠ '('

variable {parts : List (List Char × Feature)} {trail : List Char}

/-- What one of the loops adds. -/
def added (groups : Feature → Option Captures) (parts : List (List Char × Feature)) :
    List (Axis × Constraint) :=
  parts.flatMap fun p => if (groups p.2).isSome then p.2.axisConstraints else []

/-- What the features ask of the axis. -/
def constraintsOn (axis : Axis) (features : List Feature) : List Constraint :=
  features.flatMap fun f => if f.axis = axis then f.constraints else []

/-- What is read of the features for the axis. -/
def readOn (axis : Axis) (features : List Feature) : List Constraint :=
  features.flatMap fun f => if f.axis = axis then f.constraintsRead else []

end PinOp.Viewport
