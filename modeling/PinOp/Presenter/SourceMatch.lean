import PinOp.Css.TextDocument

/-!
# Source matches

What a source plugin reports of an inspect: a range of a document, for which of the elements it
stands, and how sure the plugin is. Ranges are compared by their start, then by their end.
-/

namespace PinOp.Presenter

open PinOp.Lib
open PinOp.Css (SourcePosition SourceRange)

inductive SourceTargetRole where
  | selected
  | parent
  deriving DecidableEq, Repr

inductive SourceConfidence where
  | exact
  | sourcemap
  | instrumented
  | heuristic
  | unknown
  deriving DecidableEq, Repr

inductive SourceLabelProvenance where
  | builtinStyleSelector
  | plugin
  deriving DecidableEq, Repr

structure ResolvedSourceMatch where
  targetRole : SourceTargetRole
  range : SourceRange
  label : String
  kind : String
  relation : String
  confidence : SourceConfidence
  pluginId : String
  labelProvenance : Option SourceLabelProvenance
  deriving DecidableEq

def comparePositions (left right : SourcePosition) : ℤ :=
  orNext (left.line - right.line) (left.character - right.character)

def compareRanges (left right : SourceRange) : ℤ :=
  orNext (comparePositions left.start right.start) (comparePositions left.stop right.stop)

def samePosition (left right : SourcePosition) : Bool :=
  left.line = right.line ∧ left.character = right.character

def sameRange (left right : SourceRange) : Bool :=
  samePosition left.start right.start && samePosition left.stop right.stop

@[simp] theorem samePosition_iff {left right : SourcePosition} :
    samePosition left right = true ↔ left = right := by
  cases left
  cases right
  simp [samePosition]

@[simp] theorem sameRange_iff {left right : SourceRange} :
    sameRange left right = true ↔ left = right := by
  cases left
  cases right
  simp [sameRange]

theorem comparePositions_isComparator : IsComparator comparePositions :=
  (IsComparator.ascending SourcePosition.line).orNext (.ascending SourcePosition.character)

theorem compareRanges_isComparator : IsComparator compareRanges :=
  (comparePositions_isComparator.comap SourceRange.start).orNext
    (comparePositions_isComparator.comap SourceRange.stop)

theorem comparePositions_eq_zero {left right : SourcePosition} :
    comparePositions left right = 0 ↔ left = right := by
  cases left
  cases right
  simp only [comparePositions, orNext, SourcePosition.mk.injEq]
  split <;> omega

theorem compareRanges_eq_zero {left right : SourceRange} :
    compareRanges left right = 0 ↔ left = right := by
  have hstart := @comparePositions_eq_zero left.start right.start
  have hstop := @comparePositions_eq_zero left.stop right.stop
  cases left
  cases right
  simp only [compareRanges, orNext, SourceRange.mk.injEq] at *
  rw [← hstart, ← hstop]
  split <;> omega

end PinOp.Presenter
