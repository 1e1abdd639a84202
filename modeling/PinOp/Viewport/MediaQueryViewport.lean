import Mathlib.Data.Rat.Floor
import PinOp.Lib.Regex
import PinOp.Protocol.Schema

/-!
# The viewport of a media condition

What `viewportForMediaCondition` shows a condition at. Numbers are exact, so every number of the
pattern is finite.
-/

namespace PinOp.Viewport

open PinOp.Lib PinOp.Lib.Regex PinOp.Protocol

inductive Axis where
  | width
  | height
  deriving DecidableEq

structure ViewportSize where
  width : Option ℤ
  height : Option ℤ
  deriving DecidableEq

structure Bounds where
  min : Option ℚ
  max : Option ℚ
  deriving DecidableEq

/-- `Record<Axis, Bounds>` -/
structure AxisBounds where
  width : Bounds
  height : Bounds
  deriving DecidableEq

def AxisBounds.get (bounds : AxisBounds) : Axis → Bounds
  | .width => bounds.width
  | .height => bounds.height

def AxisBounds.update (bounds : AxisBounds) (axis : Axis) (f : Bounds → Bounds) : AxisBounds :=
  match axis with
  | .width => { bounds with width := f bounds.width }
  | .height => { bounds with height := f bounds.height }

def viewportDimensionMin : ℤ := 100

def viewportDimensionMax : ℤ := 16384

def digit : Regex := chars Char.isDigit

/-- `-?\d*\.?\d+` -/
def numberPattern : Regex := cat [opt (oneOf "-"), star digit, opt (oneOf "."), plus digit]

/-- `\w` under the flags `i` and `u`, where the long s and the Kelvin sign fold to letters. -/
def isWordChar (c : Char) : Bool := c.isAlphanum || c = '_' || c.toNat = 0x17F || c.toNat = 0x212A

/-- `\bword\b` matches here, behind the character `before`. -/
def wordAt (word : List Char) (before : Option Char) (text : List Char) : Bool :=
  !before.any isWordChar && (text.take word.length).map Char.toLower = word &&
    !(text.drop word.length).head?.any isWordChar

/-- `/\bword\b/iu` matches somewhere. -/
def hasWord (word : List Char) (before : Option Char) : List Char → Bool
  | [] => false
  | c :: rest => wordAt word before (c :: rest) || hasWord word (some c) rest

/-! ## Numbers -/

def digitsValue (digits : List Char) : ℕ :=
  digits.foldl (fun n c => 10 * n + (c.toNat - '0'.toNat)) 0

/-- `value.replace(from, to)` for one character. -/
def replaceFirst (old new : Char) : List Char → List Char
  | [] => []
  | c :: rest => if c = old then new :: rest else c :: replaceFirst old new rest

def flip (operator : String) : String :=
  String.ofList (replaceFirst '#' '>' (replaceFirst '>' '<' (replaceFirst '<' '#' operator.toList)))

/-! ## Bounds -/

/-- `Math.round(value)` -/
def round (value : ℚ) : ℤ := ⌊value + 1 / 2⌋

def pick (bounds : Bounds) : Option ℤ :=
  let crossed := match bounds.min, bounds.max with
    | some least, some most => decide (most < least)
    | _, _ => false
  if crossed then none
  else (bounds.max.or bounds.min).map fun value =>
    min viewportDimensionMax (max viewportDimensionMin (round value))

/-! ## The viewport -/

end PinOp.Viewport
