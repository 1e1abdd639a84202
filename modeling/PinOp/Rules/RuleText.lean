import PinOp.Rules.DeclarationValuePosition

/-!
# Rules as they are written

The text of a rule as its author sees it: what stands before the brace, and in the braces
declarations, statements, blocks and comments. `Written` says that the units of a rule read so and
not in another way; `written` is the list of the declarations of its own block, each with the place
where its value starts.
-/

namespace PinOp.Rules

open PinOp.Lib
open PinOp.Browser (RulesOpenDeclaration)

namespace DeclarationValuePosition

/-! ## The syntax -/

inductive Chunk where
  | string (quote : ℕ) (content : List ℕ)
  /-- from `/*` to `*/` -/
  | comment (content : List ℕ)
  /-- from `//` to before the line feed -/
  | lineComment (content : List ℕ)
  deriving DecidableEq

/-- What a value, a statement or the text before a brace is made of. -/
inductive Pieces where
  | nil
  | unit (unit : ℕ) (rest : Pieces)
  | chunk (chunk : Chunk) (rest : Pieces)
  /-- `raw` are the parens of an unquoted `url`. -/
  | parens (raw : Bool) (inner rest : Pieces)
  /-- `#{` to `}` -/
  | interpolation (inner rest : Pieces)
  deriving DecidableEq

inductive Statement where
  /-- The name, the white space up to the colon, the white space behind it, and the value. -/
  | declaration (name space gap : List ℕ) (value : Pieces)
  /-- `@include x(y)`, `$gap: 4px` -/
  | other (pieces : Pieces)
  deriving DecidableEq

inductive Items where
  | nil
  | blank (unit : ℕ) (rest : Items)
  | chunk (chunk : Chunk) (rest : Items)
  | statement (statement : Statement) (rest : Items)
  /-- a statement at the end of a block that has no semicolon -/
  | last (statement : Statement)
  | block (prelude : Pieces) (body rest : Items)
  deriving DecidableEq

structure Rule where
  prelude : Pieces
  items : Items
  deriving DecidableEq

/-! ## The text of it -/

def Chunk.units : Chunk → List ℕ
  | string quote content => quote :: content ++ [quote]
  | comment content => 47 :: 42 :: content ++ [42, 47]
  | lineComment content => 47 :: 47 :: content

def Pieces.units : Pieces → List ℕ
  | nil => []
  | unit u rest => u :: rest.units
  | chunk c rest => c.units ++ rest.units
  | parens _ inner rest => 40 :: inner.units ++ 41 :: rest.units
  | interpolation inner rest => 35 :: 123 :: inner.units ++ 125 :: rest.units

def Statement.units : Statement → List ℕ
  | declaration name space gap value => name ++ space ++ 58 :: gap ++ value.units
  | other pieces => pieces.units

def Items.units : Items → List ℕ
  | nil => []
  | blank u rest => u :: rest.units
  | chunk c rest => c.units ++ rest.units
  | statement s rest => s.units ++ 59 :: rest.units
  | last s => s.units
  | block prelude body rest => prelude.units ++ 123 :: body.units ++ 125 :: rest.units

def Rule.units (rule : Rule) : List ℕ := rule.prelude.units ++ 123 :: rule.items.units ++ [125]

/-! ## Texts that read so -/

def isQuote (u : ℕ) : Bool := u = 34 || u = 39

/-- A unit that a reader takes as it is; in raw parens there are more of them. -/
def isPlain (raw : Bool) (u : ℕ) : Bool :=
  !isQuote u && u ≠ 40 && u ≠ 41 && (raw || (u ≠ 59 && u ≠ 123 && u ≠ 125))

/-- No quote and no line feed but behind a backslash. -/
def isStringContent (quote : ℕ) : List ℕ → Bool
  | [] => true
  | [u] => u ≠ 92 && u ≠ quote && u ≠ 10
  | u :: v :: rest =>
    if u = 92 then isStringContent quote rest
    else u ≠ quote && u ≠ 10 && isStringContent quote (v :: rest)

def Chunk.Written : Chunk → Prop
  | string quote content => isQuote quote = true ∧ isStringContent quote content = true
  | comment content => ¬[42, 47] <:+: content
  | lineComment content => 10 ∉ content

instance : (c : Chunk) → Decidable c.Written
  | .string _ _ => inferInstanceAs (Decidable (_ ∧ _))
  | .comment _ => inferInstanceAs (Decidable (¬_))
  | .lineComment _ => inferInstanceAs (Decidable (¬_))

/-- A line comment goes on to a line feed. -/
def Chunk.Ends : Chunk → Option ℕ → Prop
  | lineComment _, next => next = some 10
  | _, _ => True

instance (next : Option ℕ) : (c : Chunk) → Decidable (c.Ends next)
  | .string _ _ => .isTrue trivial
  | .comment _ => .isTrue trivial
  | .lineComment _ => inferInstanceAs (Decidable (_ = _))

def Pieces.isUnit : Pieces → Bool
  | unit _ _ => true
  | _ => false

/-- `closing` is the unit behind the pieces. -/
def Pieces.Written (raw : Bool) (closing : ℕ) : Pieces → Prop
  | nil => True
  | unit u rest =>
    isPlain raw u = true ∧ (u = 35 → (rest.units ++ [closing]).head? ≠ some 123) ∧
    (raw = false → u = 47 → rest.units.head? ≠ some 47 ∧ rest.units.head? ≠ some 42) ∧
    (u = 92 → rest.isUnit = true) ∧ rest.Written raw closing
  | chunk c rest =>
    raw = false ∧ c.Written ∧ c.Ends rest.units.head? ∧ rest.Written raw closing
  | parens inside inner rest =>
    raw = false ∧ inner.Written inside 41 ∧ rest.Written raw closing
  | interpolation inner rest => inner.Written false 125 ∧ rest.Written raw closing

/-- A unit of a name: a letter, a digit, a hyphen, an underscore, or none of ASCII. -/
def isNameUnit (u : ℕ) : Bool := isNamePart u || (128 ≤ u && !isSpace u)

instance Pieces.decidableWritten (raw : Bool) (closing : ℕ) :
    (pieces : Pieces) → Decidable (pieces.Written raw closing)
  | nil => .isTrue trivial
  | unit _ rest =>
    have := decidableWritten raw closing rest
    inferInstanceAs (Decidable (_ ∧ _ ∧ _ ∧ _ ∧ _))
  | chunk _ rest =>
    have := decidableWritten raw closing rest
    inferInstanceAs (Decidable (_ ∧ _ ∧ _ ∧ _))
  | parens inside inner rest =>
    have := decidableWritten inside 41 inner
    have := decidableWritten raw closing rest
    inferInstanceAs (Decidable (_ ∧ _ ∧ _))
  | interpolation inner rest =>
    have := decidableWritten false 125 inner
    have := decidableWritten raw closing rest
    inferInstanceAs (Decidable (_ ∧ _))

def Statement.Written (closing : ℕ) : Statement → Prop
  | declaration name space gap value =>
    name ≠ [] ∧ name.all isNameUnit = true ∧ space.all isSpace = true ∧ gap.all isSpace = true ∧
    value.units.head?.all (fun u => !isSpace u) = true ∧ value.Written false closing
  | other pieces =>
    (pieces.units.head? = some 64 ∨ pieces.units.head? = some 36) ∧ pieces.Written false closing

instance (closing : ℕ) : (s : Statement) → Decidable (s.Written closing)
  | .declaration _ _ _ _ => inferInstanceAs (Decidable (_ ∧ _ ∧ _ ∧ _ ∧ _ ∧ _))
  | .other _ => inferInstanceAs (Decidable (_ ∧ _))

def Items.Written : Items → Prop
  | nil => True
  | blank u rest => isSpace u = true ∧ rest.Written
  | chunk c rest => c.Written ∧ c.Ends rest.units.head? ∧ rest.Written
  | statement s rest => s.Written 59 ∧ rest.Written
  | last s => s.Written 125
  | block prelude body rest => prelude.Written false 123 ∧ body.Written ∧ rest.Written

instance Items.decidableWritten : (items : Items) → Decidable items.Written
  | nil => .isTrue trivial
  | blank _ rest =>
    have := decidableWritten rest
    inferInstanceAs (Decidable (_ ∧ _))
  | chunk _ rest =>
    have := decidableWritten rest
    inferInstanceAs (Decidable (_ ∧ _ ∧ _))
  | statement _ rest =>
    have := decidableWritten rest
    inferInstanceAs (Decidable (_ ∧ _))
  | last s => inferInstanceAs (Decidable (s.Written 125))
  | block _ body rest =>
    have := decidableWritten body
    have := decidableWritten rest
    inferInstanceAs (Decidable (_ ∧ _ ∧ _))

def Rule.Written (rule : Rule) : Prop := rule.prelude.Written false 123 ∧ rule.items.Written

instance (rule : Rule) : Decidable rule.Written := inferInstanceAs (Decidable (_ ∧ _))

/-! ## The declarations of a rule -/

structure WrittenDeclaration where
  name : List ℕ
  gap : List ℕ
  /-- where the value starts -/
  valueStart : ℕ
  deriving DecidableEq

def Statement.written (i : ℕ) : Statement → List WrittenDeclaration
  | declaration name space gap _ =>
    [⟨name, gap, i + name.length + space.length + 1 + gap.length⟩]
  | other _ => []

/-- The declarations among items that stand at `i`, without those of the blocks in them. -/
def Items.written (i : ℕ) : Items → List WrittenDeclaration
  | nil => []
  | blank _ rest => rest.written (i + 1)
  | chunk c rest => rest.written (i + c.units.length)
  | statement s rest => s.written i ++ rest.written (i + s.units.length + 1)
  | last s => s.written i
  | block prelude body rest =>
    rest.written (i + (prelude.units ++ 123 :: body.units ++ [125]).length)

def Rule.written (rule : Rule) (i : ℕ) : List WrittenDeclaration :=
  rule.items.written (i + rule.prelude.units.length + 1)

/-- The units of a name that a request carries. -/
def nameUnits (name : String) : List ℕ := name.toList.map Char.toNat

/-- Custom names are compared exactly, other names without case. -/
def isDeclaredAs (property : String) (written : List ℕ) : Bool :=
  if [45, 45].isPrefixOf written then nameUnits property = written
  else nameUnits (jsToLowerCase property) = lowerName written

/-- The one that is the `k`th from the last; the first when there are no more than `k`. -/
def fromLast {α : Type} (k : ℕ) (found : List α) : Option α :=
  if k < found.length then found[found.length - 1 - k]? else found.head?

/-- The declaration that a request names. -/
def Rule.declared (rule : Rule) (i : ℕ) (request : RulesOpenDeclaration) :
    Option WrittenDeclaration :=
  fromLast request.occurrence
    ((rule.written i).filter fun declaration => isDeclaredAs request.property declaration.name)

/-! ## Texts that the scanners read so -/

/-- Whether the code takes `//` behind this unit for a comment. -/
def lineMayStart : Option ℕ → Bool
  | none => true
  | some u => isSpace u || [59, 123, 125].contains u

def Chunk.isLine : Chunk → Bool
  | lineComment _ => true
  | _ => false

/-- No unit reads as the start of a comment, every line comment as one, and in what `skipBlock`
reads no unit is a brace. `before` is the unit in front. -/
def Pieces.Clear (nested : Bool) (before : Option ℕ) : Pieces → Prop
  | nil => True
  | unit u rest =>
    (u = 47 → rest.units.head? ≠ some 42 ∧
      (rest.units.head? = some 47 → lineMayStart before = false)) ∧
    (nested = true → u ≠ 123 ∧ u ≠ 125) ∧ rest.Clear nested (some u)
  | chunk c rest =>
    (c.isLine = true → lineMayStart before = true) ∧ rest.Clear nested c.units.getLast?
  | parens _ inner rest => inner.Clear nested (some 40) ∧ rest.Clear nested (some 41)
  | interpolation inner rest => inner.Clear true (some 123) ∧ rest.Clear nested (some 125)

instance Pieces.decidableClear (nested : Bool) (before : Option ℕ) :
    (pieces : Pieces) → Decidable (pieces.Clear nested before)
  | nil => .isTrue trivial
  | unit u rest =>
    have := decidableClear nested (some u) rest
    inferInstanceAs (Decidable (_ ∧ _ ∧ _))
  | chunk c rest =>
    have := decidableClear nested c.units.getLast? rest
    inferInstanceAs (Decidable (_ ∧ _))
  | parens _ inner rest =>
    have := decidableClear nested (some 40) inner
    have := decidableClear nested (some 41) rest
    inferInstanceAs (Decidable (_ ∧ _))
  | interpolation inner rest =>
    have := decidableClear true (some 123) inner
    have := decidableClear nested (some 125) rest
    inferInstanceAs (Decidable (_ ∧ _))

def Statement.Clear (nested : Bool) (before : Option ℕ) : Statement → Prop
  | declaration name space gap value =>
    value.Clear nested (name ++ space ++ 58 :: gap).getLast?
  | other pieces => pieces.Clear nested before

instance (nested : Bool) (before : Option ℕ) : (s : Statement) → Decidable (s.Clear nested before)
  | .declaration _ _ _ _ => inferInstanceAs (Decidable (Pieces.Clear _ _ _))
  | .other _ => inferInstanceAs (Decidable (Pieces.Clear _ _ _))

def Items.Clear (nested : Bool) (before : Option ℕ) : Items → Prop
  | nil => True
  | blank u rest => rest.Clear nested (some u)
  | chunk c rest =>
    (c.isLine = true → lineMayStart before = true) ∧ rest.Clear nested c.units.getLast?
  | statement s rest => s.Clear nested before ∧ rest.Clear nested (some 59)
  | last s => s.Clear nested before
  | block prelude body rest =>
    prelude.Clear nested before ∧ body.Clear true (some 123) ∧ rest.Clear nested (some 125)

instance Items.decidableClear (nested : Bool) (before : Option ℕ) :
    (items : Items) → Decidable (items.Clear nested before)
  | nil => .isTrue trivial
  | blank u rest => decidableClear nested (some u) rest
  | chunk c rest =>
    have := decidableClear nested c.units.getLast? rest
    inferInstanceAs (Decidable (_ ∧ _))
  | statement _ rest =>
    have := decidableClear nested (some 59) rest
    inferInstanceAs (Decidable (_ ∧ _))
  | last s => inferInstanceAs (Decidable (s.Clear nested before))
  | block _ body rest =>
    have := decidableClear true (some 123) body
    have := decidableClear nested (some 125) rest
    inferInstanceAs (Decidable (_ ∧ _ ∧ _))

/-- Every statement has its semicolon, and no item opens a block. -/
def Items.opensNone : Items → Bool
  | nil => true
  | blank _ rest | chunk _ rest | statement _ rest => rest.opensNone
  | last _ | block _ _ _ => false

/-! ## What no answer may be inside -/

/-- The strings, comments and interpolations of pieces that stand at `i`, from where to where. -/
def Pieces.hidden (i : ℕ) : Pieces → List (ℕ × ℕ)
  | nil => []
  | unit _ rest => rest.hidden (i + 1)
  | chunk c rest => (i, i + c.units.length) :: rest.hidden (i + c.units.length)
  | parens _ inner rest => inner.hidden (i + 1) ++ rest.hidden (i + inner.units.length + 2)
  | interpolation inner rest =>
    (i, i + inner.units.length + 3) :: rest.hidden (i + inner.units.length + 3)

def Statement.hidden (i : ℕ) : Statement → List (ℕ × ℕ)
  | declaration name space gap value =>
    value.hidden (i + name.length + space.length + 1 + gap.length)
  | other pieces => pieces.hidden i

/-- And the blocks. -/
def Items.hidden (i : ℕ) : Items → List (ℕ × ℕ)
  | nil => []
  | blank _ rest => rest.hidden (i + 1)
  | chunk c rest => (i, i + c.units.length) :: rest.hidden (i + c.units.length)
  | statement s rest => s.hidden i ++ rest.hidden (i + s.units.length + 1)
  | last s => s.hidden i
  | block prelude body rest =>
    prelude.hidden i ++
    (i + prelude.units.length, i + prelude.units.length + body.units.length + 2) ::
      rest.hidden (i + prelude.units.length + body.units.length + 2)

def Rule.hidden (rule : Rule) (i : ℕ) : List (ℕ × ℕ) :=
  rule.prelude.hidden i ++ rule.items.hidden (i + rule.prelude.units.length + 1)

end DeclarationValuePosition

end PinOp.Rules
