import PinOp.Lib.RegexRuns
import PinOp.Viewport.MediaQueryViewport

/-!
# Width and height features

The features of a media condition as they are written, what each asks of its axis, and what the
three patterns find of it.
-/

namespace PinOp.Viewport

open PinOp.Lib PinOp.Lib.Regex

/-! ## Written features -/

/-- The word in any letter case. -/
structure Spelled (word : String) where
  text : List Char
  folds : text.map Char.toLower = word.toList
  deriving DecidableEq

/-- White space, or none. -/
def Spacing := { text : List Char // ∀ c ∈ text, isJsSpace c = true }

/-- A decimal without sign or exponent; `none` is without a point. -/
structure Decimal where
  whole : List Char
  fraction : Option (List Char)
  whole_digits : ∀ c ∈ whole, c.isDigit = true
  fraction_digits : ∀ ds ∈ fraction, ds ≠ [] ∧ ∀ c ∈ ds, c.isDigit = true
  some_digits : whole ≠ [] ∨ fraction ≠ none

namespace Decimal

def text (d : Decimal) : List Char := d.whole ++ d.fraction.elim [] fun ds => '.' :: ds

def value (d : Decimal) : ℚ :=
  digitsValue d.whole + d.fraction.elim 0 fun ds => (digitsValue ds : ℚ) / 10 ^ ds.length

end Decimal

inductive LengthUnit where
  | px
  | em
  | rem

def LengthUnit.name : LengthUnit → String
  | px => "px"
  | em => "em"
  | rem => "rem"

def LengthUnit.size : LengthUnit → ℚ
  | px => 1
  | em | rem => 16

structure Length where
  number : Decimal
  unit : LengthUnit
  unitText : Spelled unit.name

namespace Length

def text (l : Length) : List Char := l.number.text ++ l.unitText.text

def value (l : Length) : ℚ := l.number.value * l.unit.size

end Length

def Axis.name : Axis → String
  | width => "width"
  | height => "height"

inductive Extremum where
  | min
  | max

def Extremum.name : Extremum → String
  | min => "min"
  | max => "max"

inductive Comparison where
  | lt
  | le
  | gt
  | ge
  | eq
  deriving DecidableEq

namespace Comparison

def text : Comparison → String
  | lt => "<"
  | le => "<="
  | gt => ">"
  | ge => ">="
  | eq => "="

/-- Read from the other side. -/
def swap : Comparison → Comparison
  | lt => gt
  | le => ge
  | gt => lt
  | ge => le
  | eq => eq

end Comparison

/-- `length comparison` on the left of the name -/
structure LeftBound where
  length : Length
  before : Spacing
  comparison : Comparison
  after : Spacing

/-- `comparison length` on the right of the name -/
structure RightBound where
  before : Spacing
  comparison : Comparison
  after : Spacing
  length : Length

def LeftBound.text (l : LeftBound) : List Char :=
  l.length.text ++ (l.before.1 ++ (l.comparison.text.toList ++ l.after.1))

def RightBound.text (r : RightBound) : List Char :=
  r.before.1 ++ (r.comparison.text.toList ++ (r.after.1 ++ r.length.text))

inductive Feature where
  | prefixed (lead : Spacing) (extremum : Extremum) (extremumText : Spelled extremum.name)
      (axis : Axis) (axisText : Spelled axis.name) (before after : Spacing) (length : Length)
      (trail : Spacing)
  | exact (lead : Spacing) (axis : Axis) (axisText : Spelled axis.name) (before after : Spacing)
      (length : Length) (trail : Spacing)
  | range (lead : Spacing) (left : Option LeftBound) (axis : Axis) (axisText : Spelled axis.name)
      (right : Option RightBound) (trail : Spacing) (bounded : left ≠ none ∨ right ≠ none)

namespace Feature

/-- What stands behind the opening parenthesis. -/
def body : Feature → List Char
  | prefixed lead _ extremumText _ axisText before after length trail =>
    lead.1 ++ (extremumText.text ++ ('-' :: (axisText.text ++ (before.1 ++ (':' :: (after.1 ++
      (length.text ++ (trail.1 ++ [')']))))))))
  | exact lead _ axisText before after length trail =>
    lead.1 ++ (axisText.text ++ (before.1 ++ (':' :: (after.1 ++ (length.text ++
      (trail.1 ++ [')']))))))
  | range lead left _ axisText right trail _ =>
    lead.1 ++ (left.elim [] LeftBound.text ++ (axisText.text ++ (right.elim [] RightBound.text ++
      (trail.1 ++ [')']))))

def text (f : Feature) : List Char := '(' :: f.body

def axis : Feature → Axis
  | prefixed _ _ _ axis _ _ _ _ _ | exact _ axis _ _ _ _ _ | range _ _ axis _ _ _ _ => axis

end Feature

/-! ## What a feature asks -/

/-- The axis compares so with the value. -/
structure Constraint where
  comparison : Comparison
  value : ℚ
  deriving DecidableEq

def Constraint.Holds (k : Constraint) (x : ℚ) : Prop :=
  match k.comparison with
  | .lt => x < k.value
  | .le => x ≤ k.value
  | .gt => k.value < x
  | .ge => k.value ≤ x
  | .eq => x = k.value

namespace Feature

def leftConstraint (l : LeftBound) : Constraint := ⟨l.comparison.swap, l.length.value⟩

def rightConstraint (r : RightBound) : Constraint := ⟨r.comparison, r.length.value⟩

def constraints : Feature → List Constraint
  | prefixed _ .min _ _ _ _ _ length _ => [⟨.ge, length.value⟩]
  | prefixed _ .max _ _ _ _ _ length _ => [⟨.le, length.value⟩]
  | exact _ _ _ _ _ length _ => [⟨.eq, length.value⟩]
  | range _ left _ _ right _ _ =>
    (left.map leftConstraint).toList ++ (right.map rightConstraint).toList

/-- What is read of them: a minimum with a capital is taken for a maximum, and an equation with the
length on the left is not read at all. -/
def constraintsRead : Feature → List Constraint
  | prefixed _ _ extremumText _ _ _ _ length _ =>
    [⟨if extremumText.text = "min".toList then .ge else .le, length.value⟩]
  | exact _ _ _ _ _ length _ => [⟨.eq, length.value⟩]
  | range _ left _ _ right _ _ =>
    if left.any fun l => l.comparison = .eq then []
    else (left.map leftConstraint).toList ++ (right.map rightConstraint).toList

end Feature

/-! ## The groups of a match -/

namespace Feature

end Feature

end PinOp.Viewport
