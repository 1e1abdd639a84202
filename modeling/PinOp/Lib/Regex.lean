import Mathlib.Data.List.Defs

/-!
# Regular expressions of the source language

The part of ECMAScript's regular expressions the modelled code uses, with the backtracking
order of the language: alternatives from left to right, repetition as long as possible
first. Matching works on characters; none of the patterns can tell a surrogate pair from
one character.
-/

namespace PinOp.Lib

/-- The characters `\s` matches, which are also the ones `trim` removes. -/
def isJsSpace (c : Char) : Bool :=
  (9 ≤ c.toNat && c.toNat ≤ 13) || (0x2000 ≤ c.toNat && c.toNat ≤ 0x200A) ||
    [0x20, 0xA0, 0x1680, 0x2028, 0x2029, 0x202F, 0x205F, 0x3000, 0xFEFF].contains c.toNat

/-- `value.trim()` -/
def jsTrim (value : String) : String :=
  String.ofList (((value.toList.dropWhile isJsSpace).reverse.dropWhile isJsSpace).reverse)

/-- `value.split(separator)` for a separator of one character. -/
def jsSplit (value : String) (separator : Char) : List String :=
  (value.toList.splitOn separator).map String.ofList

/-- `value.toLowerCase()`, as far as a comparison with ASCII text can tell: beside the ASCII
capitals only the Kelvin sign has an ASCII lower case. -/
def jsToLowerCase (value : String) : String :=
  value.map fun c => if c.toNat = 0x212A then (Char.ofNat 0x6B) else c.toLower

inductive Regex where
  | chars (p : Char → Bool)
  | empty
  | seq (a b : Regex)
  | alt (a b : Regex)
  /-- `a*` -/
  | star (a : Regex)
  /-- `(a)`, the group number `n` -/
  | group (n : ℕ) (a : Regex)
  /-- `$` -/
  | eos

namespace Regex

/-- What each group has matched so far, latest first. -/
abbrev Captures := List (ℕ × String)

/-- Repeat `body` while it consumes something, then go on with `next`. -/
def repeatBody {α : Type}
    (body : Captures → List Char → (Captures → List Char → Option α) → Option α)
    (next : Captures → List Char → Option α) : ℕ → Captures → List Char → Option α
  | 0, c, s => next c s
  | fuel + 1, c, s =>
    (body c s fun c' s' =>
      if s'.length < s.length then repeatBody body next fuel c' s' else none) <|> next c s

/-- Match a prefix of the text, then go on with `next`; the first way that succeeds counts. -/
def run {α : Type} : Regex → Captures → List Char → (Captures → List Char → Option α) → Option α
  | chars p, c, s, next =>
    match s with
    | [] => none
    | x :: xs => if p x then next c xs else none
  | empty, c, s, next => next c s
  | seq a b, c, s, next => a.run c s fun c' s' => b.run c' s' next
  | alt a b, c, s, next => a.run c s next <|> b.run c s next
  | star a, c, s, next => repeatBody a.run next s.length c s
  | group n a, c, s, next =>
    a.run c s fun c' s' => next ((n, String.ofList (s.take (s.length - s'.length))) :: c') s'
  | eos, c, s, next => if s.isEmpty then next c s else none

def opt (a : Regex) : Regex := alt a empty

def plus (a : Regex) : Regex := seq a (star a)

/-- One after the other. -/
def cat (parts : List Regex) : Regex := parts.foldr seq empty

/-- One of these characters. -/
def oneOf (cs : String) : Regex := chars fun c => cs.toList.contains c

/-- `[^cs]` -/
def noneOf (cs : String) : Regex := chars fun c => !cs.toList.contains c

/-- `[^cs\s]` -/
def noneOfNorSpace (cs : String) : Regex := chars fun c => !cs.toList.contains c && !isJsSpace c

def space : Regex := chars isJsSpace

/-- `.` -/
def any : Regex := chars fun c => !([0x0A, 0x0D, 0x2028, 0x2029].contains c.toNat)

/-- The text itself. -/
def lit (text : String) : Regex := cat (text.toList.map fun c => chars fun x => x = c)

/-- The text itself, under the flag `i`. -/
def litFold (text : String) : Regex :=
  cat (text.toList.map fun c => chars fun x => x.toLower = c.toLower)

/-- `^pattern`: what the groups matched, and the rest of the text. -/
def execPrefix (r : Regex) (value : String) : Option (Captures × String) :=
  r.run [] value.toList fun c s => some (c, String.ofList s)

/-- `^pattern$` -/
def exec (r : Regex) (value : String) : Option Captures :=
  r.run [] value.toList fun c s => if s.isEmpty then some c else none

def test (r : Regex) (value : String) : Bool := (r.exec value).isSome

/-- What stands before the first match of the pattern, if there is one. -/
def beforeMatch (r : Regex) : List Char → Option (List Char)
  | [] => (r.run [] [] fun _ _ => some ()).map fun _ => []
  | x :: xs =>
    match r.run [] (x :: xs) fun _ _ => some () with
    | some _ => some []
    | none => (beforeMatch r xs).map (x :: ·)

/-- `match[n]` -/
def captured (c : Captures) (n : ℕ) : Option String := c.lookup n

/-- What the groups match in each match of the pattern, from left to right and apart from each
other. -/
def matchAll (r : Regex) : ℕ → List Char → List Captures
  | 0, _ => []
  | fuel + 1, s =>
    match r.run [] s fun c rest => some (c, rest) with
    | some (c, rest) => c :: matchAll r fuel (if rest.length < s.length then rest else s.drop 1)
    | none => if s.isEmpty then [] else matchAll r fuel (s.drop 1)

/-- `value.split(pattern)` for a pattern that matches no empty text; `part` is read so far,
last character first. -/
def splitFrom (r : Regex) : ℕ → List Char → List Char → List String
  | 0, part, _ => [String.ofList part.reverse]
  | fuel + 1, part, s =>
    match s with
    | [] => [String.ofList part.reverse]
    | x :: xs =>
      match r.run [] s fun _ rest => some rest with
      | some rest => String.ofList part.reverse :: splitFrom r fuel [] rest
      | none => splitFrom r fuel (x :: part) xs

def split (r : Regex) (value : String) : List String :=
  splitFrom r (value.toList.length + 1) [] value.toList

end Regex

end PinOp.Lib
