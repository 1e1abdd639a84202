import PinOp.Lib.Comparator

/-!
# Places in a text

A text as the parser of stylesheets sees it: an offset counts code units, a position is a
line and a character of it, both from zero. Positions may lie outside of the text; what is
asked about them is answered for the nearest place.
-/

namespace PinOp.Css

open PinOp.Lib

structure SourcePosition where
  line : ℤ
  character : ℤ
  deriving DecidableEq

structure SourceRange where
  start : SourcePosition
  stop : SourcePosition
  deriving DecidableEq

/-- The offsets behind the line feeds from `index` on. -/
def lineOffsetsFrom : ℕ → List ℕ → List ℕ
  | _, [] => []
  | index, unit :: rest =>
    if unit = '\n'.toNat then (index + 1) :: lineOffsetsFrom (index + 1) rest
    else lineOffsetsFrom (index + 1) rest

def lineOffsets (text : List ℕ) : List ℕ := 0 :: lineOffsetsFrom 0 text

/-- The loop of `positionAt`; `count` is how often it may still go round. -/
def searchLine (lineOffsets : List ℕ) (clamped : ℤ) : ℕ → ℕ → ℕ → ℕ
  | 0, low, _ => low
  | count + 1, low, high =>
    if low < high then
      let middle := (low + high) / 2
      if clamped < lineOffsets.getD middle 0 then searchLine lineOffsets clamped count low middle
      else searchLine lineOffsets clamped count (middle + 1) high
    else low

def positionAt (text : List ℕ) (offset : ℤ) : SourcePosition :=
  let lineOffsets := lineOffsets text
  let clamped := max 0 (min offset text.length)
  let low := searchLine lineOffsets clamped lineOffsets.length 0 lineOffsets.length
  let line := low - 1
  ⟨line, clamped - lineOffsets.getD line 0⟩

def offsetAt (text : List ℕ) (position : SourcePosition) : ℤ :=
  let lineOffsets := lineOffsets text
  let line := (max 0 (min position.line (lineOffsets.length - 1))).toNat
  let start : ℤ := lineOffsets.getD line 0
  let next : ℤ := lineOffsets.getD (line + 1) text.length
  let lineEnd := if line + 1 < lineOffsets.length then max start (next - 1) else next
  start + max 0 (min position.character (lineEnd - start))

end PinOp.Css
