import Mathlib.Data.List.Basic

/-!
# Selectors of nested SCSS rules

`expandScssSelector` puts the branches of a rule under the branches of the rules around it, one rule
after another. A branch is what the selector parser makes of it, part by part, with the white space
that stands before each part; printing it and parsing it again gives it back.
-/

namespace PinOp.Css

/-- A part of a branch. What stands in a function comes after its `opening`. -/
inductive SelectorPart where
  | nesting
  | word (text : String)
  | combinator (text : String)
  | opening (text : String)
  | closing
  | comma
  deriving DecidableEq, Repr

namespace SelectorPart

def text : SelectorPart → String
  | nesting => "&"
  | word text => text
  | combinator text => text
  | opening text => text
  | closing => ")"
  | comma => ","

/-- White space before the part says nothing. -/
def tightBefore : SelectorPart → Bool
  | combinator _ | closing | comma => true
  | _ => false

/-- White space after the part says nothing. -/
def tightAfter : SelectorPart → Bool
  | combinator _ | opening _ | comma => true
  | _ => false

end SelectorPart

structure SelectorToken where
  part : SelectorPart
  /-- White space stands before it: between compounds this is the descendant combinator. -/
  spaced : Bool
  deriving DecidableEq, Repr

/-- White space at the end of a branch stands before the comma. -/
structure SelectorBranch where
  tokens : List SelectorToken
  trailing : Bool
  deriving DecidableEq, Repr

/-- Only the white space that says something, after a part. -/
def settle : Option SelectorPart → List SelectorToken → List SelectorToken
  | _, [] => []
  | before, token :: tokens =>
    ⟨token.part, token.spaced && !token.part.tightBefore && before.any fun part => !part.tightAfter⟩ ::
      settle (some token.part) tokens

/-- A branch as it is printed with `lossless: false`, and trimmed. -/
def SelectorBranch.normalizeSelector (branch : SelectorBranch) : SelectorBranch :=
  ⟨settle none branch.tokens, false⟩

def tokenText (token : SelectorToken) : String :=
  (if token.spaced then " " else "") ++ token.part.text

def SelectorBranch.text (branch : SelectorBranch) : String :=
  String.join (branch.tokens.map tokenText)

def isNesting (token : SelectorToken) : Bool := token.part = .nesting

/-- How many `&` the branch has, also in functions. -/
def SelectorBranch.nestings (branch : SelectorBranch) : ℕ := branch.tokens.countP isNesting

/-! ## The expansion -/

/-- White space before the first token. -/
def lead (spaced : Bool) : List SelectorToken → List SelectorToken
  | [] => []
  | token :: tokens => ⟨token.part, token.spaced || spaced⟩ :: tokens

/-- `nesting.replaceWith` at every `&`. `carried` is white space at the end of what was put there. -/
def replaceNesting (parent : SelectorBranch) : Bool → List SelectorToken → List SelectorToken
  | _, [] => []
  | carried, token :: tokens =>
    if isNesting token then
      lead (token.spaced || carried) parent.tokens ++ replaceNesting parent parent.trailing tokens
    else ⟨token.part, token.spaced || carried⟩ :: replaceNesting parent false tokens

def expandNestedSelector (parent child : SelectorBranch) : Option SelectorBranch :=
  let combined : List SelectorToken :=
    if child.tokens.any isNesting then replaceNesting parent false child.tokens
    else parent.tokens ++ lead true child.tokens
  if combined = [] then none else some (SelectorBranch.normalizeSelector ⟨combined, false⟩)

def selectorEntries (branches : List SelectorBranch) : Option (List SelectorBranch) :=
  if branches = [] then none else some branches

/-- A round of the loop over the chain. -/
def expandUnder (selectors child : List SelectorBranch) : Option (List SelectorBranch) := do
  let children ← selectorEntries child
  (selectors.flatMap fun parent => children.map fun childSelector => (parent, childSelector)).mapM
    fun pair => expandNestedSelector pair.1 pair.2

/-- The chain is that of the rules from the outermost one on; the branches of the result are those
between the commas of the normalized selector. -/
def expandScssSelector : List (List SelectorBranch) → Option (List SelectorBranch)
  | [] => none
  | outermost :: chain => do
    let selectors ← selectorEntries outermost
    let expanded ← chain.foldlM expandUnder selectors
    some (expanded.map SelectorBranch.normalizeSelector)

/-! ## What Sass writes -/

namespace Sass

/-- The `&` of a branch are replaced by parents, one each. -/
def fill : List SelectorBranch → List SelectorToken → List SelectorToken
  | _, [] => []
  | parents, token :: tokens =>
    if isNesting token then
      match parents with
      | [] => token :: fill [] tokens
      | parent :: parents => lead token.spaced parent.tokens ++ fill parents tokens
    else token :: fill parents tokens

/-- Every way to choose that many of the parents, the first choice changing last. -/
def choices (parents : List SelectorBranch) : ℕ → List (List SelectorBranch)
  | 0 => [[]]
  | n + 1 => parents.flatMap fun parent => (choices parents n).map fun chosen => parent :: chosen

/-- A branch under the parents: as a descendant, or with every way to replace each `&`. -/
def nestWithin (parents : List SelectorBranch) (child : SelectorBranch) : List SelectorBranch :=
  if child.nestings = 0 then
    parents.map fun parent =>
      SelectorBranch.normalizeSelector ⟨parent.tokens ++ lead true child.tokens, false⟩
  else
    (choices parents child.nestings).map fun chosen =>
      SelectorBranch.normalizeSelector ⟨fill chosen child.tokens, false⟩

/-- The first of every list, then the second of every list, and so on. -/
def flattenVertically {α : Type} (lists : List (List α)) : List α :=
  (List.range ((lists.map List.length).foldr max 0)).flatMap fun i =>
    lists.filterMap fun list => list[i]?

def selectors : List (List SelectorBranch) → List SelectorBranch
  | [] => []
  | outermost :: chain =>
    chain.foldl (fun parents children => flattenVertically (children.map (nestWithin parents)))
      (outermost.map SelectorBranch.normalizeSelector)

end Sass

end PinOp.Css
