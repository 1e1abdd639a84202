import PinOp.Viewport.FeatureBounds

/-!
# The viewport of a written condition

Features joined by `and`, behind a media type or not. The viewport shown is the best one for what is
read of the features; it is the best one for the condition where that has the same end.
-/

namespace PinOp.Viewport

open PinOp.Lib PinOp.Lib.Regex PinOp.Protocol

/-! ## Written conditions -/

def isIdentChar (c : Char) : Bool := c.isAlphanum || c = '-' || c = '_' || 0x80 ≤ c.toNat

/-- An identifier, with `only` in front or without it. -/
structure MediaType where
  only : Option (Spelled "only" × { text : Spacing // text.1 ≠ [] })
  name : List Char
  name_chars : name ≠ [] ∧ ∀ c ∈ name, isIdentChar c = true
  not_reserved : name.map Char.toLower ∉
    ["only".toList, "not".toList, "and".toList, "or".toList, "layer".toList]

def MediaType.text (m : MediaType) : List Char :=
  m.only.elim [] (fun o => o.1.text ++ o.2.1.1) ++ m.name

/-- What joins a feature to what stands before it. -/
structure Joint where
  before : Spacing
  word : Spelled "and"
  after : Spacing

def Joint.text (j : Joint) : List Char := j.before.1 ++ (j.word.text ++ j.after.1)

/-- The joint of the first feature is printed behind a media type only. -/
structure MediaCondition where
  lead : Spacing
  mediaType : Option MediaType
  features : List (Joint × Feature)
  trail : Spacing
  /-- The name of the media type ends before the word. -/
  apart : mediaType ≠ none → ∀ j ∈ features.head?, j.1.before.1 ≠ []

namespace MediaCondition

/-- What stands in front of the features. -/
def front (c : MediaCondition) : List Char := c.lead.1 ++ c.mediaType.elim [] MediaType.text

/-- The features, each behind its joint. -/
def parts (c : MediaCondition) : List (List Char × Feature) :=
  match c.mediaType, c.features with
  | none, (_, f) :: rest => ([], f) :: rest.map fun p => (p.1.text, p.2)
  | _, features => features.map fun p => (p.1.text, p.2)

def text (c : MediaCondition) : List Char := c.front ++ branchText c.parts c.trail.1

def constraints (c : MediaCondition) (axis : Axis) : List Constraint :=
  constraintsOn axis (c.features.map Prod.snd)

/-- Nothing is read where the media type has one of the words. -/
def constraintsRead (c : MediaCondition) (axis : Axis) : List Constraint :=
  if hasWord "or".toList none c.front || hasWord "not".toList none c.front then []
  else readOn axis (c.features.map Prod.snd)

end MediaCondition

/-! ## Words -/

variable {u v s : List Char} {word : List Char}

/-- Neither a comma nor the letter that both words have. -/
def Quiet (s : List Char) : Prop := ∀ x ∈ s, x.toLower ≠ 'o' ∧ x ≠ ','

namespace MediaCondition

variable {c : MediaCondition}

end MediaCondition

def ViewportSize.get (v : ViewportSize) : Axis → Option ℤ
  | .width => v.width
  | .height => v.height

namespace MediaCondition

end MediaCondition

namespace MediaCondition

def noSpace : Spacing := ⟨[], List.all_eq_true.1 (by decide)⟩

def oneSpace : Spacing := ⟨[' '], List.all_eq_true.1 (by decide)⟩

def hundreds (n : Char) (h : n.isDigit = true) : Length where
  number := ⟨[n, '0', '0'], none, by simp [h], by simp, by simp⟩
  unit := .px
  unitText := ⟨"px".toList, by decide⟩

def andJoint : Joint := ⟨oneSpace, ⟨"and".toList, by decide⟩, oneSpace⟩

/-- `(min-width: 600px) and (max-width: 900px)`, with the first word as it is given. -/
def between (minimum : Spelled "min") : MediaCondition where
  lead := noSpace
  mediaType := none
  features :=
    [(andJoint, .prefixed noSpace .min minimum .width ⟨"width".toList, by decide⟩ noSpace oneSpace
        (hundreds '6' (by decide)) noSpace),
      (andJoint, .prefixed noSpace .max ⟨"max".toList, by decide⟩ .width
        ⟨"width".toList, by decide⟩ noSpace oneSpace (hundreds '9' (by decide)) noSpace)]
  trail := noSpace
  apart h := absurd rfl h

end MediaCondition

end PinOp.Viewport
