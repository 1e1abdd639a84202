import PinOp.Browser.RulesSourcesController
import PinOp.Css.TextDocument
import PinOp.Lib.Regex

/-!
# Where a rule writes the value of a declaration

`declarationValuePosition` reads the block of one rule in the text of a document, and answers where
the value of a declaration begins that the block writes itself. Texts are code units. `rounds` is
how often a loop may still go round; the units up to `stop` are enough, since every round goes on
by at least one of them.
-/

namespace PinOp.Rules

open PinOp.Lib PinOp.Css
open PinOp.Browser (RulesOpenDeclaration)

/-- A document as it is at one moment; `none` is an exception. -/
structure DocumentView where
  uri : String
  version : ℤ
  text : Option (List ℕ)
  offsetAt : SourcePosition → Option ℤ
  positionAt : ℤ → Option SourcePosition

namespace DeclarationValuePosition

variable (text : List ℕ)

def isAt (index : ℕ) (unit : Char) : Bool := text[index]? = some unit.toNat

/-- `/\s/u` -/
def isSpace (unit : ℕ) : Bool := isJsSpace (Char.ofNat unit)

/-- `text.indexOf(needle, start)` -/
def indexOf (needle : List ℕ) (start : ℕ) : Option ℕ :=
  ((text.drop start).tails.findIdx? fun rest => needle.isPrefixOf rest).map (start + ·)

/-- `//` opens a comment only where a statement could start. -/
def isLineCommentStart : ℕ → Bool
  | 0 => true
  | previous + 1 => text[previous]?.all fun unit => isSpace unit || [59, 123, 125].contains unit

/-- The loop over a quoted text. -/
def skipQuoted (quote stop : ℕ) : ℕ → ℕ → ℕ
  | 0, _ => stop
  | rounds + 1, cursor =>
    if cursor < stop then
      if isAt text cursor '\\' then skipQuoted quote stop rounds (cursor + 2)
      else if text[cursor]? = some quote ∨ isAt text cursor '\n' then cursor + 1
      else skipQuoted quote stop rounds (cursor + 1)
    else stop

/-- The offset behind a string or a comment that starts at `index`, else `index`. -/
def skipQuotedOrComment (index stop : ℕ) : ℕ :=
  if isAt text index '/' && isAt text (index + 1) '*' then
    match indexOf text [42, 47] (index + 2) with
    | none => stop
    | some close => if stop < close + 2 then stop else close + 2
  else if isAt text index '/' && isAt text (index + 1) '/' && isLineCommentStart text index then
    match indexOf text [10] (index + 2) with
    | none => stop
    | some close => if stop < close then stop else close
  else if isAt text index '"' || isAt text index '\'' then
    skipQuoted text (text.getD index 0) stop (stop - index) (index + 1)
  else index

def skipBlockFrom (stop : ℕ) : ℕ → ℕ → ℤ → ℕ
  | 0, _, _ => stop
  | rounds + 1, index, depth =>
    if index < stop then
      let skipped := skipQuotedOrComment text index stop
      if skipped ≠ index then skipBlockFrom stop rounds skipped depth
      else if isAt text index '{' then skipBlockFrom stop rounds (index + 1) (depth + 1)
      else if isAt text index '}' then
        if depth - 1 = 0 then index + 1 else skipBlockFrom stop rounds (index + 1) (depth - 1)
      else skipBlockFrom stop rounds (index + 1) depth
    else stop

def skipBlock (opening stop : ℕ) : ℕ := skipBlockFrom text stop (stop - opening) opening 0

def skipInterpolation (hash stop : ℕ) : ℕ := skipBlock text (hash + 1) stop

def blockBodyStartFrom (stop : ℕ) : ℕ → ℕ → ℕ → Option ℕ
  | 0, _, _ => none
  | rounds + 1, index, parens =>
    if index < stop then
      let skipped := skipQuotedOrComment text index stop
      if skipped ≠ index then blockBodyStartFrom stop rounds skipped parens
      else if isAt text index '(' then blockBodyStartFrom stop rounds (index + 1) (parens + 1)
      else if isAt text index ')' then blockBodyStartFrom stop rounds (index + 1) (parens - 1)
      else if isAt text index '#' && isAt text (index + 1) '{' then
        blockBodyStartFrom stop rounds (skipInterpolation text index stop) parens
      else if isAt text index '{' && parens = 0 then some (index + 1)
      else blockBodyStartFrom stop rounds (index + 1) parens
    else none

/-- The offset just behind the opening brace of the rule. -/
def blockBodyStart (start stop : ℕ) : Option ℕ :=
  blockBodyStartFrom text stop (stop - start) start 0

structure DirectDeclaration where
  property : List ℕ
  valueOffset : ℕ

/-- The first offset from `index` on, up to `stop`, whose unit is not one of `blank`. -/
def skipWhile (blank : ℕ → Bool) (stop : ℕ) : ℕ → ℕ → ℕ
  | 0, index => index
  | rounds + 1, index =>
    if index < stop ∧ text[index]?.any blank = true then skipWhile blank stop rounds (index + 1)
    else index

/-- The loop over what stands before the name. -/
def nameStartFrom (colon : ℕ) : ℕ → ℕ → ℕ
  | 0, nameStart => nameStart
  | rounds + 1, nameStart =>
    let nameStart := skipWhile text isSpace colon (colon - nameStart) nameStart
    let afterComment := skipQuotedOrComment text nameStart colon
    if afterComment = nameStart then nameStart else nameStartFrom colon rounds afterComment

def isNameStart (unit : ℕ) : Bool :=
  (65 ≤ unit && unit ≤ 90) || (97 ≤ unit && unit ≤ 122) || unit = 95

def isNamePart (unit : ℕ) : Bool := isNameStart unit || (48 ≤ unit && unit ≤ 57) || unit = 45

/-- `/^-{0,2}[A-Za-z_][A-Za-z0-9_-]*$/u` -/
def isPropertyName (name : List ℕ) : Bool :=
  match name with
  | 45 :: 45 :: unit :: rest => isNameStart unit && rest.all isNamePart
  | 45 :: unit :: rest => isNameStart unit && rest.all isNamePart
  | unit :: rest => isNameStart unit && rest.all isNamePart
  | [] => false

/-- `toLowerCase` of a name. -/
def lowerName (name : List ℕ) : List ℕ :=
  name.map fun unit => if 65 ≤ unit ∧ unit ≤ 90 then unit + 32 else unit

def readDeclaration (statementStart colon : ℕ) : Option DirectDeclaration :=
  let nameStart := nameStartFrom text colon (colon + 1 - statementStart) statementStart
  let name := (((text.take colon).drop nameStart).reverse.dropWhile isSpace).reverse
  if isPropertyName name then
    some ⟨lowerName name, skipWhile text (fun unit => unit = 32 ∨ unit = 9) text.length
      (text.length - colon) (colon + 1)⟩
  else none

def directDeclarationsFrom (stop : ℕ) :
    ℕ → ℕ → ℕ → Option ℕ → ℕ → List DirectDeclaration → List DirectDeclaration
  | 0, _, _, _, _, declarations => declarations
  | rounds + 1, index, statementStart, colon, parens, declarations =>
    if index < stop then
      let skipped := skipQuotedOrComment text index stop
      if skipped ≠ index then
        directDeclarationsFrom stop rounds skipped statementStart colon parens declarations
      else if isAt text index '#' && isAt text (index + 1) '{' then
        directDeclarationsFrom stop rounds (skipInterpolation text index stop) statementStart colon
          parens declarations
      else if isAt text index '(' then
        directDeclarationsFrom stop rounds (index + 1) statementStart colon (parens + 1) declarations
      else if isAt text index ')' then
        directDeclarationsFrom stop rounds (index + 1) statementStart colon (parens - 1) declarations
      else if 0 < parens then
        directDeclarationsFrom stop rounds (index + 1) statementStart colon parens declarations
      else if isAt text index ':' && colon.isNone then
        directDeclarationsFrom stop rounds (index + 1) statementStart (some index) parens declarations
      else if isAt text index ';' || isAt text index '}' then
        let declarations :=
          declarations ++ (colon.bind (readDeclaration text statementStart)).toList
        if isAt text index '}' then declarations
        else directDeclarationsFrom stop rounds (index + 1) (index + 1) none parens declarations
      else if isAt text index '{' then
        let after := skipBlock text index stop
        directDeclarationsFrom stop rounds after after none parens declarations
      else directDeclarationsFrom stop rounds (index + 1) statementStart colon parens declarations
    else declarations

/-- The declarations that the block writes itself, in order. -/
def directDeclarationValueOffsets (bodyStart stop : ℕ) : List DirectDeclaration :=
  directDeclarationsFrom text stop (stop - bodyStart) bodyStart bodyStart none 0 []

/-- Counted from the end: occurrence 0 is the last one that the rule writes. -/
def valueOffset (start stop : ℕ) (declaration : RulesOpenDeclaration) : Option ℕ :=
  (blockBodyStart text start stop).bind fun bodyStart =>
    let wanted := (jsToLowerCase declaration.property).toList.map Char.toNat
    let offsets := ((directDeclarationValueOffsets text bodyStart stop).filter fun entry =>
      entry.property = wanted).map DirectDeclaration.valueOffset
    if declaration.occurrence < offsets.length then
      offsets[offsets.length - 1 - declaration.occurrence]?
    else offsets.head?

end DeclarationValuePosition

namespace DocumentView

open DeclarationValuePosition

/-- `none` is the exception of `positionAt`. -/
def declarationValuePosition (document : DocumentView) (range : SourceRange)
    (declaration : RulesOpenDeclaration) : Option (Option SourcePosition) :=
  match document.text, document.offsetAt range.start, document.offsetAt range.stop with
  | some text, some start, some stop =>
    let stop := min (text.length : ℤ) stop
    if 0 ≤ start ∧ start < stop then
      match valueOffset text start.toNat stop.toNat declaration with
      | none => some none
      | some offset => (document.positionAt offset).map some
    else some none
  | _, _, _ => some none

end DocumentView

end PinOp.Rules
