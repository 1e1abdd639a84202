import PinOp.Lib.Regex

/-!
# The PHP-aware markup scanner

`parsePhpMarkup` over UTF-16 units. A loop of the source has a bound on its rounds, as many as there
are units left; `none` of `charCodeAt` is `NaN`. An element on the stack of open ones is named by
its place among all elements. The tables of lower case belong to the host.
-/

namespace PinOp.Php

open PinOp.Lib

/-- The units of a text of ASCII. -/
def ascii (text : String) : List ℕ := text.toList.map Char.toNat

def maxBytes : ℕ := 2 * 1024 * 1024

def maxElements : ℕ := 20000

def maxAttributesPerElement : ℕ := 64

def maxOpenDepth : ℕ := 256

def voidElements : List (List ℕ) :=
  ["area", "base", "br", "col", "embed", "hr", "img", "input", "link", "meta", "param", "source",
    "track", "wbr"].map ascii

def rawTextElements : List (List ℕ) := ["script", "style", "textarea", "title"].map ascii

structure PhpMarkupAttribute where
  name : List ℕ
  literalValue : List ℕ
  dynamic : Bool
  deriving DecidableEq

structure PhpMarkupElement where
  tag : List ℕ
  attributes : List PhpMarkupAttribute
  startOffset : ℕ
  openEndOffset : ℕ
  endOffset : ℕ
  deriving DecidableEq

structure ParsedPhpMarkup where
  elements : List PhpMarkupElement
  truncated : Bool
  deriving DecidableEq

/-! ## Units -/

def isWhitespace (code : ℕ) : Bool :=
  code = 0x20 || code = 0x09 || code = 0x0a || code = 0x0c || code = 0x0d

def isTagNameStart (code : ℕ) : Bool :=
  (0x41 ≤ code && code ≤ 0x5a) || (0x61 ≤ code && code ≤ 0x7a)

def isTagNameCharacter (code : ℕ) : Bool :=
  isTagNameStart code || (0x30 ≤ code && code ≤ 0x39) || code = 0x2d || code = 0x5f || code = 0x3a

/-- Goes on with the name of an attribute. -/
def isAttributeNameUnit (code : ℕ) : Bool :=
  !(isWhitespace code || code = 0x3d || code = 0x3e || code = 0x2f || code = 0x3c)

/-- `value.trim()` -/
def trim (value : List ℕ) : List ℕ :=
  let isSpace := fun code => isJsSpace (Char.ofNat code)
  ((value.dropWhile isSpace).reverse.dropWhile isSpace).reverse

/-! ## Searches -/

section

variable (text : List ℕ)

/-- `text.startsWith(value, index)` -/
def startsWith (index : ℕ) (value : List ℕ) : Bool := value.isPrefixOf (text.drop index)

/-- `units.indexOf(needle)` -/
def findIn (needle : List ℕ) : List ℕ → Option ℕ
  | [] => if needle = [] then some 0 else none
  | u :: rest =>
    if needle.isPrefixOf (u :: rest) then some 0 else (findIn needle rest).map (· + 1)

/-- `text.indexOf(needle, start)` -/
def indexOf (needle : List ℕ) (start : ℕ) : Option ℕ :=
  (findIn needle (text.drop start)).map (start + ·)

def skipPhpBlock (startOffset : ℕ) : ℕ :=
  match indexOf text (ascii "?>") (startOffset + 2) with
  | none => text.length
  | some offset => offset + 2

def skipToTagEndFrom : ℕ → ℕ → ℕ
  | 0, _ => text.length
  | rounds + 1, index =>
    if text.length ≤ index then text.length
    else if startsWith text index (ascii "<?") then
      skipToTagEndFrom rounds (skipPhpBlock text index)
    else if text[index]? = some 0x3e then index + 1
    else skipToTagEndFrom rounds (index + 1)

def skipToTagEnd (startOffset : ℕ) : ℕ :=
  skipToTagEndFrom text (text.length - startOffset) startOffset

def readTagName (startOffset : ℕ) : List ℕ :=
  (text.drop startOffset).takeWhile isTagNameCharacter

def readAttributeName (startOffset : ℕ) : List ℕ :=
  (text.drop startOffset).takeWhile isAttributeNameUnit

def skipWhitespace (startOffset : ℕ) : ℕ :=
  startOffset + ((text.drop startOffset).takeWhile isWhitespace).length

/-- The end of a comment at the index. -/
def skipComment (index : ℕ) : ℕ :=
  match indexOf text (ascii "-->") (index + 4) with
  | none => text.length
  | some offset => offset + 3

/-! ## Attributes -/

structure AttributeValue where
  literalValue : List ℕ
  dynamic : Bool
  endOffset : ℕ
  deriving DecidableEq

/-- The loop of `readAttributeValue`; the quote is `none` without one. -/
def readValueFrom (quote : Option ℕ) : ℕ → ℕ → List ℕ → Bool → AttributeValue
  | 0, index, literalValue, dynamic => ⟨literalValue, dynamic, index⟩
  | rounds + 1, index, literalValue, dynamic =>
    if startsWith text index (ascii "<?") then
      readValueFrom quote rounds (skipPhpBlock text index) literalValue true
    else
      match text[index]? with
      | none => ⟨literalValue, dynamic, index⟩
      | some code =>
        let ends := match quote with
          | some quote => decide (code = quote)
          | none => isWhitespace code || code = 0x3e ||
              (code = 0x2f && text[index + 1]? = some 0x3e)
        if ends then ⟨literalValue, dynamic, index⟩
        else readValueFrom quote rounds (index + 1) (literalValue ++ [code]) dynamic

def readAttributeValue (startOffset : ℕ) : AttributeValue :=
  let quote := text[startOffset]?.filter fun code => code = 0x22 || code = 0x27
  let index := if quote.isSome then startOffset + 1 else startOffset
  let value := readValueFrom text quote (text.length - index) index [] false
  { literalValue := trim value.literalValue
    dynamic := value.dynamic
    endOffset :=
      if quote.isSome && decide (value.endOffset < text.length) then value.endOffset + 1
      else value.endOffset }

structure OpenTag where
  attributes : List PhpMarkupAttribute
  endOffset : ℕ
  selfClosing : Bool
  deriving DecidableEq

def pushAttribute (attributes : List PhpMarkupAttribute) (pushed : PhpMarkupAttribute) :
    List PhpMarkupAttribute :=
  if attributes.length < maxAttributesPerElement then attributes ++ [pushed] else attributes

variable (toLowerCase : List ℕ → List ℕ)

/-- The loop of `readOpenTag`. -/
def readOpenTagFrom : ℕ → ℕ → List PhpMarkupAttribute → OpenTag
  | 0, index, attributes => ⟨attributes, index, false⟩
  | rounds + 1, index, attributes =>
    match text[index]? with
    | none => ⟨attributes, index, false⟩
    | some code =>
      if isWhitespace code then readOpenTagFrom rounds (index + 1) attributes
      else if startsWith text index (ascii "<?") then
        readOpenTagFrom rounds (skipPhpBlock text index) attributes
      else if startsWith text index (ascii "/>") then ⟨attributes, index + 2, true⟩
      else if code = 0x3e then ⟨attributes, index + 1, false⟩
      else if code = 0x2f then readOpenTagFrom rounds (index + 1) attributes
      else
        let name := readAttributeName text index
        if name.length = 0 then readOpenTagFrom rounds (index + 1) attributes
        else
          let afterName := skipWhitespace text (index + name.length)
          if text[afterName]? ≠ some 0x3d then
            readOpenTagFrom rounds afterName (pushAttribute attributes
            ⟨toLowerCase name, [], false⟩)
          else
            let value := readAttributeValue text (skipWhitespace text (afterName + 1))
            readOpenTagFrom rounds value.endOffset
              (pushAttribute attributes ⟨toLowerCase name, value.literalValue, value.dynamic⟩)

def readOpenTag (attributesOffset : ℕ) : OpenTag :=
  readOpenTagFrom text toLowerCase (text.length - attributesOffset) attributesOffset []

def skipRawText (startOffset : ℕ) (tag : List ℕ) : ℕ :=
  let needle := ascii "</" ++ tag
  match indexOf (toLowerCase text) needle startOffset with
  | none => text.length
  | some found => skipToTagEnd text (found + needle.length)

/-! ## The scan -/

/-- All elements and, innermost first, the places of the open ones. -/
structure ScanState where
  elements : List PhpMarkupElement
  opened : List ℕ
  deriving DecidableEq

def closeElement (state : ScanState) (tag : List ℕ) (endOffset : ℕ) : ScanState :=
  match state.opened.dropWhile fun k => state.elements[k]?.map (·.tag) ≠ some tag with
  | [] => state
  | k :: outer =>
    { elements := state.elements.modify k fun element => { element with endOffset := endOffset }
      opened := outer }

/-- What a round of the loop does. -/
inductive Outcome where
  | goes (index : ℕ) (state : ScanState)
  | ends (truncated : Bool)
  deriving DecidableEq

/-- An element that is read at the index. -/
def readElement (index : ℕ) (state : ScanState) : Outcome :=
  let tagName := toLowerCase (readTagName text (index + 1))
  let openTag := readOpenTag text toLowerCase (index + 1 + tagName.length)
  let element : PhpMarkupElement :=
    ⟨tagName, openTag.attributes, index, openTag.endOffset, openTag.endOffset⟩
  if rawTextElements.contains tagName then
    let closed := skipRawText text toLowerCase openTag.endOffset tagName
    .goes closed { state with elements := state.elements ++ [{ element with endOffset := closed }] }
  else
    let elements := state.elements ++ [element]
    if openTag.selfClosing || voidElements.contains tagName then
      .goes openTag.endOffset { state with elements := elements }
    else if state.opened.length < maxOpenDepth then
      .goes openTag.endOffset ⟨elements, state.elements.length :: state.opened⟩
    else .goes openTag.endOffset { state with elements := elements }

/-- What is done at the next `<`. -/
def readMarkup (index : ℕ) (state : ScanState) : Outcome :=
  if startsWith text index (ascii "<?") then .goes (skipPhpBlock text index) state
  else if startsWith text index (ascii "<!--") then .goes (skipComment text index) state
  else if startsWith text index (ascii "<!") then .goes (skipToTagEnd text (index + 2)) state
  else if startsWith text index (ascii "</") then
    let name := readTagName text (index + 2)
    let closed := skipToTagEnd text (index + 2 + name.length)
    .goes closed (closeElement state (toLowerCase name) closed)
  else if !text[index + 1]?.any isTagNameStart then .goes (index + 1) state
  else if maxElements ≤ state.elements.length then .ends true
  else readElement text toLowerCase index state

def step (index : ℕ) (state : ScanState) : Outcome :=
  match indexOf text (ascii "<") index with
  | none => .ends false
  | some next => readMarkup text toLowerCase next state

def scan : ℕ → ℕ → ScanState → ParsedPhpMarkup
  | 0, _, state => ⟨state.elements, false⟩
  | rounds + 1, index, state =>
    match step text toLowerCase index state with
    | .ends truncated => ⟨state.elements, truncated⟩
    | .goes next state => scan rounds next state

/-- `none` is `PhpMarkupLimitError`. -/
def parsePhpMarkup : Option ParsedPhpMarkup :=
  if maxBytes < text.length then none
  else some (scan text toLowerCase text.length 0 ⟨[], []⟩)

end

end PinOp.Php
