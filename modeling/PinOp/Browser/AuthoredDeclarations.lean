import PinOp.Css.Grammar
import PinOp.Lib.OrderedMap
import PinOp.Protocol.Schema

/-!
# The declarations of a rule as it spells them

`readAuthoredDeclarations` reads the declarations of a rule back from its text and gives each the
longhands it sets. What a shorthand expands to is asked of the browser; where text and longhands
cannot be reconciled exactly there is no answer.
-/

namespace PinOp.Browser

open PinOp.Lib PinOp.Lib.Regex
open PinOp.Css (doubleQuote singleQuote)
open PinOp.Protocol (jsLength)

/-- A longhand of a rule as the CSSOM holds it. -/
structure LonghandDeclaration where
  property : String
  value : String
  important : Bool
  deriving DecidableEq, Repr

structure AuthoredLonghand where
  property : String
  value : String
  deriving DecidableEq, Repr

structure AuthoredDeclaration where
  property : String
  value : String
  important : Bool
  longhands : List AuthoredLonghand
  deriving DecidableEq, Repr

/-- The longhands a shorthand covers; an expander that throws has no answer. -/
abbrev ShorthandExpander := String → String → Option (List String)

structure ParsedDeclaration where
  property : String
  value : String
  important : Bool
  deriving DecidableEq, Repr

/-- `/\s*!\s*important\s*$/i` -/
def importantSuffix : Regex :=
  cat [star space, lit "!", star space, litFold "important", star space, eos]

def maxRuleTextLength : ℕ :=
  PinOp.Css.InspectLimits.declarationsPerRule *
    (PinOp.Css.InspectLimits.propertyNameLength + PinOp.Css.InspectLimits.valueLength)

/-! ## The text of a declaration -/

def isQuote (c : Char) : Bool := doubleQuote.toList.contains c || singleQuote.toList.contains c

/-- The loop of `topLevelColon`; `index` is where it stands. -/
def topLevelColonFrom (quote : Option Char) (escaped : Bool) (depth : ℤ) (index : ℕ) :
    List Char → Option ℕ
  | [] => none
  | c :: rest =>
    if escaped then topLevelColonFrom quote false depth (index + 1) rest
    else if c = '\\' then topLevelColonFrom quote true depth (index + 1) rest
    else
      match quote with
      | some q =>
        topLevelColonFrom (if c = q then none else some q) false depth (index + 1) rest
      | none =>
        if isQuote c then topLevelColonFrom (some c) false depth (index + 1) rest
        else if c = '(' then topLevelColonFrom none false (depth + 1) (index + 1) rest
        else if c = ')' then topLevelColonFrom none false (depth - 1) (index + 1) rest
        else if c = ':' ∧ depth = 0 then some index
        else topLevelColonFrom none false depth (index + 1) rest

def topLevelColon (chunk : List Char) : Option ℕ := topLevelColonFrom none false 0 0 chunk

def parseDeclaration (chunk : List Char) : Option ParsedDeclaration :=
  match topLevelColon chunk with
  | none => none
  | some separator =>
    let property := jsTrim (String.ofList (chunk.take separator))
    if property = "" || PinOp.Css.InspectLimits.propertyNameLength < jsLength property then none
    else
      let remainder := jsTrim (String.ofList (chunk.drop (separator + 1)))
      let before := beforeMatch importantSuffix remainder.toList
      let value :=
        match before with
        | some before => jsTrim (String.ofList before)
        | none => remainder
      if value = "" then none else some ⟨property, value, before.isSome⟩

/-! ## The text of a rule -/

/-- Where the loop of `parseDeclarationList` stands, with the text since the last declaration. -/
structure ListReading where
  declarations : List ParsedDeclaration
  chunk : List Char
  quote : Option Char
  escaped : Bool
  depth : ℕ
  deriving DecidableEq, Repr

def ListReading.append (reading : ListReading) (c : Char) : ListReading :=
  { reading with chunk := reading.chunk ++ [c] }

/-- The end of a declaration. -/
def ListReading.finish (reading : ListReading) : Option ListReading :=
  if jsTrim (String.ofList reading.chunk) = "" then some { reading with chunk := [] }
  else
    match parseDeclaration reading.chunk with
    | none => none
    | some declaration =>
      if PinOp.Css.InspectLimits.declarationsPerRule ≤ reading.declarations.length then none
      else some { reading with
        declarations := reading.declarations ++ [declaration]
        chunk := [] }

def ListReading.next (reading : ListReading) (c : Char) : Option ListReading :=
  if reading.escaped then some ({ reading with escaped := false }.append c)
  else if c = '\\' then some ({ reading with escaped := true }.append c)
  else
    match reading.quote with
    | some quote =>
      some ({ reading with quote := if c = quote then none else some quote }.append c)
    | none =>
      if isQuote c then some ({ reading with quote := some c }.append c)
      else if c = '(' then some ({ reading with depth := reading.depth + 1 }.append c)
      else if c = ')' then
        if reading.depth = 0 then none
        else some ({ reading with depth := reading.depth - 1 }.append c)
      else if c ≠ ';' || 0 < reading.depth then some (reading.append c)
      else reading.finish

/-- The end of the text is read as one more `;`. -/
def parseDeclarationList (cssText : String) : Option (List ParsedDeclaration) :=
  match (cssText.toList ++ [';']).foldlM ListReading.next ⟨[], [], none, false, 0⟩ with
  | none => none
  | some reading =>
    if reading.quote.isSome || 0 < reading.depth then none else some reading.declarations

/-! ## Longhands -/

/-- The longhands by their names, unless two of them share one. -/
def longhandsByProperty : OrderedMap String LonghandDeclaration → List LonghandDeclaration →
    Option (OrderedMap String LonghandDeclaration)
  | byProperty, [] => some byProperty
  | byProperty, longhand :: rest =>
    if byProperty.has longhand.property then none
    else longhandsByProperty (byProperty.set longhand.property longhand) rest

def coveredLonghands (entry : ParsedDeclaration)
    (byProperty : OrderedMap String LonghandDeclaration) (expand : Option ShorthandExpander) :
    Option (List String) :=
  if byProperty.has entry.property then some [entry.property]
  else
    match expand with
    | none => none
    | some expand =>
      match expand entry.property entry.value with
      | some (first :: rest) => some (first :: rest)
      | _ => none

/-- The members of one entry: those claimed so far with them, and what they cover. -/
def claimMembers (byProperty : OrderedMap String LonghandDeclaration) (important : Bool) :
    List String → List AuthoredLonghand → List String →
      Option (List String × List AuthoredLonghand)
  | claimed, covered, [] => some (claimed, covered)
  | claimed, covered, property :: rest =>
    match byProperty.get? property with
    | none => none
    | some longhand =>
      if claimed.contains property || longhand.important != important then none
      else claimMembers byProperty important (claimed ++ [property])
        (covered ++ [⟨property, longhand.value⟩]) rest

/-- The loop over the entries. -/
def claimEntries (byProperty : OrderedMap String LonghandDeclaration)
    (expand : Option ShorthandExpander) :
    List String → List AuthoredDeclaration → List ParsedDeclaration →
      Option (List String × List AuthoredDeclaration)
  | claimed, declarations, [] => some (claimed, declarations)
  | claimed, declarations, entry :: rest =>
    match coveredLonghands entry byProperty expand with
    | none => none
    | some members =>
      match claimMembers byProperty entry.important claimed [] members with
      | none => none
      | some (claimed, covered) =>
        claimEntries byProperty expand claimed
          (declarations ++ [⟨entry.property, entry.value, entry.important, covered⟩]) rest

def readAuthoredDeclarations (cssText : String) (longhands : List LonghandDeclaration)
    (expand : Option ShorthandExpander) : Option (List AuthoredDeclaration) :=
  if maxRuleTextLength < jsLength cssText then none
  else
    match parseDeclarationList cssText with
    | none => none
    | some parsed =>
      if parsed.isEmpty then none
      else
        match longhandsByProperty .empty longhands with
        | none => none
        | some byProperty =>
          if byProperty.size = 0 then none
          else
            match claimEntries byProperty expand [] [] parsed with
            | none => none
            | some (claimed, declarations) =>
              if claimed.length = byProperty.size then some declarations else none

end PinOp.Browser
