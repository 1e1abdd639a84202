import PinOp.Php.OpaqueMarkup

/-!
# Written markup

Forests of elements with the text that they are written as, and what is to be read of them.
-/

namespace PinOp.Php

/-! ## Text with blocks in it -/

/-- Text with PHP blocks, each given by its content and the text behind it. -/
structure Mixed where
  first : List ℕ
  rest : List (List ℕ × List ℕ)
  deriving DecidableEq

def block (content : List ℕ) : List ℕ := ascii "<?" ++ content ++ ascii "?>"

def Mixed.units (m : Mixed) : List ℕ := m.first ++ m.rest.flatMap fun p => block p.1 ++ p.2

/-- The text without its blocks. -/
def Mixed.literal (m : Mixed) : List ℕ := m.first ++ m.rest.flatMap fun p => p.2

def Mixed.dynamic (m : Mixed) : Bool := !m.rest.isEmpty

/-- No block is opened in the text. -/
def Clear (text : List ℕ) : Prop := ¬ascii "<?" <:+: text

instance (text : List ℕ) : Decidable (Clear text) := inferInstanceAs (Decidable (¬_))

/-- The text has units of the kind only and no block but its own. -/
def Mixed.Fits (p : ℕ → Bool) (m : Mixed) : Prop :=
  (Clear m.first ∧ ∀ u ∈ m.first, p u = true) ∧
    ∀ q ∈ m.rest, NoClose q.1 ∧ Clear q.2 ∧ ∀ u ∈ q.2, p u = true

instance (p : ℕ → Bool) (m : Mixed) : Decidable (m.Fits p) := inferInstanceAs (Decidable (_ ∧ _))

/-! ## Attributes -/

def isBlank (text : List ℕ) : Bool := text.all isWhitespace

inductive Value where
  | unquoted (value : Mixed)
  | quoted (quote : ℕ) (value : Mixed)
  deriving DecidableEq

namespace Value

def units : Value → List ℕ
  | unquoted value => value.units
  | quoted quote value => quote :: (value.units ++ [quote])

def mixed : Value → Mixed
  | unquoted value => value
  | quoted _ value => value

def isUnquotedUnit (u : ℕ) : Bool := !isWhitespace u && u ≠ 0x3e && u ≠ 0x3c

/-- An unquoted value has no white space and does not begin with a quote, a quoted one has no quote
of its own. -/
def Fits : Value → Prop
  | unquoted value => value.Fits isUnquotedUnit ∧ value.units ≠ [] ∧
      ∀ u ∈ value.units.head?, u ≠ 0x22 ∧ u ≠ 0x27
  | quoted quote value => (quote = 0x22 ∨ quote = 0x27) ∧ value.Fits fun u => u ≠ quote

instance : (value : Value) → Decidable value.Fits
  | unquoted _ => inferInstanceAs (Decidable (_ ∧ _))
  | quoted _ _ => inferInstanceAs (Decidable (_ ∧ _))

/-- The value ends before the units: an unquoted one at white space, `/>` or `>`, and a slash before
`>` would not be its own. -/
def endsBefore (behind : List ℕ) : Value → Bool
  | quoted _ _ => true
  | unquoted value =>
    match behind with
    | [] => false
    | u :: more => isWhitespace u || (u = 0x3e && value.units.getLast? ≠ some 0x2f) ||
        (u = 0x2f && more.head? = some 0x3e)

end Value

/-- The value of an attribute with the white space around the equals sign. -/
structure Assigned where
  before : List ℕ
  after : List ℕ
  value : Value
  deriving DecidableEq

inductive Item where
  | php (content : List ℕ)
  | named (name : List ℕ) (assigned : Option Assigned)
  deriving DecidableEq

namespace Item

def units : Item → List ℕ
  | php content => block content
  | named name assigned =>
    name ++ assigned.elim [] fun a => a.before ++ 0x3d :: (a.after ++ a.value.units)

def Fits : Item → Prop
  | php content => NoClose content
  | named name assigned => (name ≠ [] ∧ ∀ u ∈ name, isAttributeNameUnit u = true) ∧
      ∀ a ∈ assigned, isBlank a.before = true ∧ isBlank a.after = true ∧ a.value.Fits

instance : (item : Item) → Decidable item.Fits
  | php _ => inferInstanceAs (Decidable (NoClose _))
  | named _ _ => inferInstanceAs (Decidable (_ ∧ _))

/-- The item ends before the units. -/
def endsBefore (behind : List ℕ) : Item → Bool
  | php _ => true
  | named _ none => !behind.head?.any isAttributeNameUnit &&
      (behind.dropWhile isWhitespace).head? ≠ some 0x3d
  | named _ (some a) => a.value.endsBefore behind

/-- What is read of the item. -/
def attributes (toLowerCase : List ℕ → List ℕ) : Item → List PhpMarkupAttribute
  | php _ => []
  | named name none => [⟨toLowerCase name, [], false⟩]
  | named name (some a) =>
    [⟨toLowerCase name, trim a.value.mixed.literal, a.value.mixed.dynamic⟩]

end Item

/-! ## Tags -/

/-- An open tag: its name, the items with the white space before each, and its end. -/
structure WrittenTag where
  name : List ℕ
  items : List (List ℕ × Item)
  blank : List ℕ
  selfClosing : Bool
  deriving DecidableEq

namespace WrittenTag

def itemUnits (items : List (List ℕ × Item)) : List ℕ := items.flatMap fun p => p.1 ++ p.2.units

/-- What stands behind the items. -/
def ending (t : WrittenTag) : List ℕ :=
  t.blank ++ ((if t.selfClosing then [0x2f] else []) ++ [0x3e])

def units (t : WrittenTag) : List ℕ := 0x3c :: (t.name ++ (itemUnits t.items ++ t.ending))

def attributes (toLowerCase : List ℕ → List ℕ) (t : WrittenTag) : List PhpMarkupAttribute :=
  t.items.flatMap fun p => p.2.attributes toLowerCase

/-- A name of a tag. -/
def IsName (name : List ℕ) : Prop :=
  (∀ u ∈ name, isTagNameCharacter u = true) ∧ name.head?.any isTagNameStart = true

instance (name : List ℕ) : Decidable (IsName name) := inferInstanceAs (Decidable (_ ∧ _))

/-- Each item ends before what stands behind it. -/
def ItemsFit (ending : List ℕ) : List (List ℕ × Item) → Prop
  | [] => True
  | p :: rest =>
    (isBlank p.1 = true ∧ p.2.Fits ∧ p.2.endsBefore (itemUnits rest ++ ending) = true) ∧
      ItemsFit ending rest

instance instDecidableItemsFit (ending : List ℕ) :
    (items : List (List ℕ × Item)) → Decidable (ItemsFit ending items)
  | [] => isTrue trivial
  | _ :: rest =>
    have := instDecidableItemsFit ending rest
    inferInstanceAs (Decidable (_ ∧ _))

def Fits (toLowerCase : List ℕ → List ℕ) (t : WrittenTag) : Prop :=
  IsName t.name ∧ (itemUnits t.items ++ t.ending).head?.any isTagNameCharacter = false ∧
    ItemsFit t.ending t.items ∧ isBlank t.blank = true ∧
    (t.attributes toLowerCase).length ≤ maxAttributesPerElement

instance (toLowerCase : List ℕ → List ℕ) (t : WrittenTag) : Decidable (t.Fits toLowerCase) :=
  inferInstanceAs (Decidable (_ ∧ _))

end WrittenTag

/-- A close tag: its name and what stands behind it. -/
structure CloseTag where
  name : List ℕ
  tail : Mixed
  deriving DecidableEq

namespace CloseTag

def units (c : CloseTag) : List ℕ := ascii "</" ++ (c.name ++ (c.tail.units ++ [0x3e]))

/-- It closes elements of the tag. -/
def Closes (c : CloseTag) (name : List ℕ) : Prop :=
  WrittenTag.IsName c.name ∧ c.name.map asciiLower = name.map asciiLower ∧
    c.tail.Fits (fun u => u ≠ 0x3e) ∧ c.tail.units.head?.any isTagNameCharacter = false

instance (c : CloseTag) (name : List ℕ) : Decidable (c.Closes name) :=
  inferInstanceAs (Decidable (_ ∧ _))

end CloseTag

/-! ## Forests -/

/-- What has no children. -/
inductive Leaf where
  | text (units : List ℕ)
  | comment (body : List ℕ)
  | doctype (body : Mixed)
  | php (content : List ℕ)
  | single (tag : WrittenTag)
  | raw (tag : WrittenTag) (body : List ℕ) (closing : CloseTag)
  deriving DecidableEq

inductive Forest where
  | nil
  | leaf (leaf : Leaf) (rest : Forest)
  | element (tag : WrittenTag) (children : Forest) (closing : CloseTag) (rest : Forest)
  deriving DecidableEq

def isVoid (name : List ℕ) : Bool := voidElements.contains (name.map asciiLower)

def isRaw (name : List ℕ) : Bool := rawTextElements.contains (name.map asciiLower)

/-- A close tag of the name stands at the beginning. -/
def closesHere (name text : List ℕ) : Bool :=
  (ascii "</" ++ name.map asciiLower).isPrefixOf (text.map asciiLower) &&
    (text.drop (name.length + 2)).head?.any fun u => isWhitespace u || u = 0x2f || u = 0x3e

/-- A close tag of the name stands somewhere in the text. -/
def closesWithin (name : List ℕ) : List ℕ → Bool
  | [] => false
  | u :: rest => closesHere name (u :: rest) || closesWithin name rest

namespace Leaf

def units : Leaf → List ℕ
  | text units => units
  | comment body => ascii "<!--" ++ (body ++ ascii "-->")
  | doctype body => ascii "<!" ++ (body.units ++ [0x3e])
  | php content => block content
  | single tag => tag.units
  | raw tag body closing => tag.units ++ (body ++ closing.units)

def Fits (toLowerCase : List ℕ → List ℕ) : Leaf → Prop
  | text units => ∀ u ∈ units, u ≠ 0x3c
  | comment body => ¬ascii "-->" <:+: body
  | doctype body => body.Fits (fun u => u ≠ 0x3e) ∧ ¬ascii "--" <+: body.units
  | php content => NoClose content
  | single tag => tag.Fits toLowerCase ∧ isRaw tag.name = false ∧
      (tag.selfClosing = true ∨ isVoid tag.name = true)
  | raw tag body closing => tag.Fits toLowerCase ∧ isRaw tag.name = true ∧
      closing.Closes tag.name ∧ closesWithin tag.name body = false

instance (toLowerCase : List ℕ → List ℕ) : (leaf : Leaf) → Decidable (leaf.Fits toLowerCase)
  | text _ => inferInstanceAs (Decidable (∀ _ ∈ _, _))
  | comment _ => inferInstanceAs (Decidable (¬_))
  | doctype _ => inferInstanceAs (Decidable (_ ∧ _))
  | php _ => inferInstanceAs (Decidable (NoClose _))
  | single _ => inferInstanceAs (Decidable (_ ∧ _))
  | raw _ _ _ => inferInstanceAs (Decidable (_ ∧ _))

/-- The elements of the leaf, which stands at the offset. -/
def elements (toLowerCase : List ℕ → List ℕ) (i : ℕ) : Leaf → List PhpMarkupElement
  | single tag =>
    [⟨toLowerCase tag.name, tag.attributes toLowerCase, i, i + tag.units.length,
      i + tag.units.length⟩]
  | raw tag body closing =>
    [⟨toLowerCase tag.name, tag.attributes toLowerCase, i, i + tag.units.length,
      i + (raw tag body closing).units.length⟩]
  | _ => []

end Leaf

namespace Forest

def units : Forest → List ℕ
  | nil => []
  | leaf l rest => l.units ++ rest.units
  | element tag children closing rest =>
    tag.units ++ (children.units ++ (closing.units ++ rest.units))

/-- How deep ordinary elements stand in each other. -/
def depth : Forest → ℕ
  | nil => 0
  | leaf _ rest => rest.depth
  | element _ children _ rest => max (children.depth + 1) rest.depth

def Fits (toLowerCase : List ℕ → List ℕ) : Forest → Prop
  | nil => True
  | leaf l rest => l.Fits toLowerCase ∧ rest.Fits toLowerCase
  | element tag children closing rest =>
    (tag.Fits toLowerCase ∧ isRaw tag.name = false ∧ isVoid tag.name = false ∧
      tag.selfClosing = false ∧ closing.Closes tag.name) ∧
    children.Fits toLowerCase ∧ rest.Fits toLowerCase

instance instDecidableFits (toLowerCase : List ℕ → List ℕ) :
    (forest : Forest) → Decidable (forest.Fits toLowerCase)
  | nil => isTrue trivial
  | leaf _ rest =>
    have := instDecidableFits toLowerCase rest
    inferInstanceAs (Decidable (_ ∧ _))
  | element _ children _ rest =>
    have := instDecidableFits toLowerCase children
    have := instDecidableFits toLowerCase rest
    inferInstanceAs (Decidable (_ ∧ _ ∧ _))

/-- The elements of the forest, which stands at the offset, in document order. -/
def elements (toLowerCase : List ℕ → List ℕ) (i : ℕ) : Forest → List PhpMarkupElement
  | nil => []
  | leaf l rest => l.elements toLowerCase i ++ rest.elements toLowerCase (i + l.units.length)
  | element tag children closing rest =>
    let openEnd := i + tag.units.length
    let closed := openEnd + children.units.length + closing.units.length
    ⟨toLowerCase tag.name, tag.attributes toLowerCase, i, openEnd, closed⟩ ::
      (children.elements toLowerCase openEnd ++ rest.elements toLowerCase closed)

end Forest

end PinOp.Php
