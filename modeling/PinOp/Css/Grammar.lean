import PinOp.Lib.Regex
import PinOp.Protocol.Schema

/-!
# What the index takes to be valid CSS

The checks by which the index of a parsed stylesheet decides whether a browser keeps a
selector or an at-rule. Selectors are read by `postcss-selector-parser`, which is a
parameter here; everything else is matched by regular expressions.
-/

namespace PinOp.Css

open PinOp.Lib PinOp.Protocol PinOp.Lib.Regex

namespace InspectLimits

def factsPerTarget : ℕ := 256
def selectorLength : ℕ := 2048
def propertyNameLength : ℕ := 256
def valueLength : ℕ := 16384
def stylesheets : ℕ := 256
def cssRules : ℕ := 4096
def cssRuleDepth : ℕ := 32
def declarationsPerRule : ℕ := 128
def mediaConditions : ℕ := 16
def inaccessibleStylesheets : ℕ := 64

end InspectLimits

/-! ## Selectors -/

inductive SelectorNodeType where
  | attribute
  | className
  | combinator
  | comment
  | id
  | nesting
  | pseudo
  | root
  | selector
  | string
  | tag
  | universal
  deriving DecidableEq

/-- A node of the selector parser; `ns` is its namespace, when it is a node that has one. -/
inductive SelectorNode where
  | mk (type : SelectorNodeType) (value : Option String) (ns : Option String)
    (nodes : List SelectorNode)

namespace SelectorNode

def type : SelectorNode → SelectorNodeType
  | mk type _ _ _ => type

def value : SelectorNode → Option String
  | mk _ value _ _ => value

def ns : SelectorNode → Option String
  | mk _ _ ns _ => ns

def nodes : SelectorNode → List SelectorNode
  | mk _ _ _ nodes => nodes

end SelectorNode

/-- `selectorParser().astSync`: the selectors of the list, or a failure. -/
abbrev SelectorParser := String → Option (List SelectorNode)

def isPseudoElement (value : String) : Bool :=
  value.startsWith "::" ||
    [":after", ":before", ":first-letter", ":first-line"].contains (jsToLowerCase value)

/-- The nodes from `first` on; `first` tells whether the next one is the first of its list. -/
def validSelectorSequenceFrom (relativeAllowed : Bool) : Bool → List SelectorNode → Bool
  | _, [] => true
  | first, node :: rest =>
    (if node.type = .combinator then
      (match rest with
        | [] => false
        | next :: _ => next.type ≠ .combinator) && (relativeAllowed || !first)
    else !isPseudoElement (node.value.getD "") || rest.isEmpty) &&
      validSelectorSequenceFrom relativeAllowed false rest

def validSelectorSequence (nodes : List SelectorNode) (relativeAllowed : Bool) : Bool :=
  let significant := nodes.filter fun node => node.type ≠ .comment
  !significant.isEmpty && validSelectorSequenceFrom relativeAllowed true significant

/-- What the walk asks of one node, `next` being the node after it. -/
def validSelectorNode (relativeAllowed : Bool) (namespaces : List String) (node : SelectorNode)
    (next : Option SelectorNode) : Bool :=
  match node.type with
  | .selector => validSelectorSequence node.nodes true
  | .nesting =>
    relativeAllowed && next.all fun n => n.type ≠ .tag && n.type ≠ .universal
  | _ => node.ns.all fun ns => ns = "*" || namespaces.contains ns

mutual

/-- `selector.walk`: every node below, parents first. -/
def walkSelectorNodes (relativeAllowed : Bool) (namespaces : List String) :
    List SelectorNode → Bool
  | [] => true
  | node :: rest =>
    validSelectorNode relativeAllowed namespaces node rest.head? &&
      walkSelectorNode relativeAllowed namespaces node &&
      walkSelectorNodes relativeAllowed namespaces rest

def walkSelectorNode (relativeAllowed : Bool) (namespaces : List String) : SelectorNode → Bool
  | .mk _ _ _ nodes => walkSelectorNodes relativeAllowed namespaces nodes

end

def validSelectorAst (parser : SelectorParser) (value : String) (relativeAllowed : Bool)
    (namespaces : List String) : Bool :=
  match parser value with
  | none => false
  | some selectors =>
    !selectors.isEmpty && selectors.all fun selector =>
      validSelectorSequence selector.nodes relativeAllowed &&
        walkSelectorNodes relativeAllowed namespaces selector.nodes

/-! ## Names and conditions -/

/-- `[_A-Za-z]`, and with `more` also the other characters of a class. -/
def nameChar (more : String) (digits : Bool) : Regex :=
  chars fun c => c = '_' || c.isAlpha || (digits && c.isDigit) || more.toList.contains c

/-- `-?[_A-Za-z][_A-Za-z0-9-]*` -/
def identifier : Regex := cat [opt (lit "-"), nameChar "" false, star (nameChar "-" true)]

def simpleName (value : String) : Bool :=
  identifier.test value &&
    !(["initial", "inherit", "revert", "revert-layer", "unset"].contains (jsToLowerCase value))

def layerName (value : String) : Bool := (jsSplit value '.').all simpleName

def validContainerName (value : String) : Bool :=
  simpleName value && !(["and", "default", "none", "not", "or"].contains (jsToLowerCase value))

/-- Where `balancedParentheses` is in the text. -/
structure BalanceState where
  depth : ℕ := 0
  quote : Option Char := none
  escaped : Bool := false

def balancedFrom : BalanceState → List Char → Bool
  | s, [] => s.depth = 0 && s.quote.isNone && !s.escaped
  | s, c :: rest =>
    if s.escaped then balancedFrom { s with escaped := false } rest
    else if c = '\\' then balancedFrom { s with escaped := true } rest
    else match s.quote with
      | some quote => balancedFrom (if c = quote then { s with quote := none } else s) rest
      | none =>
        if c = '"' || c.toNat = 0x27 then balancedFrom { s with quote := some c } rest
        else if c = '(' then balancedFrom { s with depth := s.depth + 1 } rest
        else if c = ')' then
          if s.depth = 0 then false else balancedFrom { s with depth := s.depth - 1 } rest
        else balancedFrom s rest

def balancedParentheses (value : String) : Bool := balancedFrom {} value.toList

/-- `\([^()]+\)` -/
def parenthesized : Regex := cat [lit "(", plus (noneOf "()"), lit ")"]

def simpleCondition (value : String) : Bool :=
  let connective := group 1 (alt (litFold "and") (litFold "or"))
  if value.toList.any (fun c => ";\x7b\x7d".toList.contains c) || !balancedParentheses value then
    false
  else
    let negated := ((cat [litFold "not", plus space]).execPrefix value).isSome
    let pattern := cat [opt (cat [litFold "not", plus space]), parenthesized,
      star (cat [plus space, connective, plus space, parenthesized])]
    if !pattern.test value then false
    else
      let operators := (matchAll (cat [lit ")", plus space, connective, plus space, lit "("])
        (value.toList.length + 1) value.toList).filterMap fun c =>
          (captured c 1).map jsToLowerCase
      (!negated || operators.isEmpty) && operators.dedup.length ≤ 1

def simpleContainer (value : String) : Bool :=
  if simpleCondition value then true
  else
    match (cat [group 1 (plus (noneOfNorSpace "(),")),
        opt (cat [plus space, group 2 (plus any)])]).exec value with
    | none => false
    | some c =>
      validContainerName ((captured c 1).getD "") &&
        (match captured c 2 with
          | none => false
          | some condition => simpleCondition condition)

/-- `\(\s*[-_A-Za-z][-_A-Za-z0-9]*(?:\s*:\s*[^()\x7b\x7d;\s][^()\x7b\x7d;]*)?\s*\)` -/
def simpleMediaFeature (value : String) : Bool :=
  (cat [lit "(", star space, nameChar "-" false, star (nameChar "-" true),
    opt (cat [star space, lit ":", star space, noneOfNorSpace "()\x7b\x7d;",
      star (noneOf "()\x7b\x7d;")]),
    star space, lit ")"]).test (jsTrim value)

/-! ## `@import` and `@namespace` -/

def backslash : String := String.singleton (Char.ofNat 0x5C)

def doubleQuote : String := String.singleton (Char.ofNat 0x22)

def singleQuote : String := String.singleton (Char.ofNat 0x27)

/-- A string between two `quote`s, without a line break. -/
def quoted (quote : String) : Regex :=
  cat [lit quote,
    star (alt (cat [lit backslash, any])
      (noneOf (quote ++ backslash ++ String.ofList [Char.ofNat 0x0D, Char.ofNat 0x0A]))),
    lit quote]

/-- The URL of a namespace rule that is not a string. -/
def namespaceUrl : Regex :=
  cat [litFold "url(", star space, plus (noneOfNorSpace ("()" ++ singleQuote ++ doubleQuote)),
    star space, lit ")"]

/-- `none` is a rule that is not understood, `some none` one without a prefix. -/
def namespacePrefix (value : String) : Option (Option String) :=
  ((cat [opt (cat [group 1 identifier, plus space]),
    alt namespaceUrl (alt (quoted doubleQuote) (quoted singleQuote))]).exec (jsTrim value)).map
      fun c => captured c 1

/-- Where `consumeFunction` is in the text; `body` is read so far, last character first. -/
def consumeFunctionFrom : BalanceState → List Char → List Char → Option (String × String)
  | _, _, [] => none
  | s, body, c :: rest =>
    if s.escaped then consumeFunctionFrom { s with escaped := false } (c :: body) rest
    else if c = '\\' then consumeFunctionFrom { s with escaped := true } (c :: body) rest
    else match s.quote with
      | some quote =>
        consumeFunctionFrom (if c = quote then { s with quote := none } else s) (c :: body) rest
      | none =>
        if c = '"' || c.toNat = 0x27 then
          consumeFunctionFrom { s with quote := some c } (c :: body) rest
        else if c = '(' then
          consumeFunctionFrom { s with depth := s.depth + 1 } (c :: body) rest
        else if c = ')' then
          if s.depth = 1 then
            if rest.isEmpty || rest.head?.any isJsSpace then
              some (jsTrim (String.ofList body.reverse), jsTrim (String.ofList rest))
            else none
          else consumeFunctionFrom { s with depth := s.depth - 1 } (c :: body) rest
        else consumeFunctionFrom s (c :: body) rest

/-- The body of a leading `name(…)`, and what follows. -/
def consumeFunction (value name : String) : Option (String × String) :=
  let start := name ++ "("
  if (jsToLowerCase value).startsWith (jsToLowerCase start) then
    consumeFunctionFrom { depth := 1 } [] (value.toList.drop start.length)
  else none

def validImportMedia (value : String) : Bool :=
  (jsSplit value ',').all fun entry =>
    match (cat [plus space, litFold "and", plus space]).split (jsTrim entry) with
    | [] => false
    | part :: parts =>
      (parts.isEmpty && simpleMediaFeature part) ||
        (["all", "print", "screen"].contains (jsToLowerCase part) &&
          parts.all simpleMediaFeature)

/-- The URL of an import rule: a string, or a `url(…)` with or without one. -/
def importUrl : Regex :=
  alt (quoted doubleQuote) (alt (quoted singleQuote)
    (cat [litFold "url(", star space,
      alt (quoted doubleQuote) (alt (quoted singleQuote)
        (plus (noneOfNorSpace ("()" ++ singleQuote ++ doubleQuote)))),
      star space, lit ")"]))

def validImportParams (value : String) : Bool :=
  if jsLength value > InspectLimits.valueLength then false
  else
    match (cat [importUrl, opt (cat [plus space, group 1 (plus any)])]).exec (jsTrim value) with
    | none => false
    | some c =>
      let tail := jsTrim ((captured c 1).getD "")
      let layer := (cat [litFold "layer",
        opt (cat [lit "(", star space, group 1 (star (noneOf "()")), star space, lit ")"]),
        alt (plus space) eos]).execPrefix tail
      let layerValid := match layer with
        | some (found, _) =>
          (match captured found 1 with
            | some name => layerName (jsTrim name)
            | none => true)
        | none => true
      if !layerValid then false
      else
        let tail := match layer with
          | some (_, rest) => jsTrim rest
          | none => tail
        match consumeFunction tail "supports" with
        | some (body, rest) =>
          let condition :=
            if (body.startsWith "(") ||
                ((cat [litFold "not", plus space]).execPrefix body).isSome then body
            else "(" ++ body ++ ")"
          if simpleCondition condition then rest = "" || validImportMedia rest else false
        | none => tail = "" || validImportMedia tail

/-! ## At-rules -/

/-- An at-rule without its children. -/
structure AtRule where
  name : String
  params : String
  hasBlock : Bool
  deriving DecidableEq

def groupAtRules : List String :=
  ["container", "layer", "media", "scope", "starting-style", "supports"]

def leafAtRules : List String :=
  ["color-profile", "counter-style", "font-face", "font-feature-values", "font-palette-values",
    "page", "property", "view-transition"]

def keyframesAtRules : List String := ["keyframes", "-webkit-keyframes"]

def reservedFontFamilyNames : List String :=
  ["caption", "cursive", "default", "emoji", "fangsong", "fantasy", "icon", "math", "menu",
    "message-box", "monospace", "sans-serif", "serif", "small-caption", "status-bar",
    "system-ui", "ui-monospace", "ui-rounded", "ui-sans-serif", "ui-serif"]

/-- `^(?:([-_A-Za-z][-_A-Za-z0-9]*))?(?::(left|right|first|blank))?$` -/
def validPageSelector (entry : String) : Bool :=
  match (cat [opt (group 1 (cat [nameChar "-" false, star (nameChar "-" true)])),
      opt (cat [lit ":", group 2 (alt (litFold "left") (alt (litFold "right")
        (alt (litFold "first") (litFold "blank"))))])]).exec entry with
  | none => false
  | some c => (captured c 2).isSome || (captured c 1).any simpleName

def validLeafAtRule (rule : AtRule) : Bool :=
  let name := jsToLowerCase rule.name
  let params := jsTrim rule.params
  if !rule.hasBlock || jsLength params > InspectLimits.valueLength then false
  else if name = "font-face" || name = "view-transition" then params = ""
  else if name = "property" || name = "font-palette-values" || name = "color-profile" then
    (cat [lit "--", nameChar "" false, star (nameChar "-" true)]).test params
  else if name = "counter-style" then simpleName params && jsToLowerCase params ≠ "none"
  else if name = "font-feature-values" then
    (jsSplit params ',').all fun family =>
      ((plus space).split (jsTrim family)).all fun part =>
        simpleName part && !reservedFontFamilyNames.contains (jsToLowerCase part)
  else if name = "page" then
    params = "" || (jsSplit params ',').all fun entry => validPageSelector (jsTrim entry)
  else false

def validGroupAtRule (parser : SelectorParser) (rule : AtRule) (namespaces : List String) : Bool :=
  let name := jsToLowerCase rule.name
  let block := rule.hasBlock
  let params := jsTrim rule.params
  if jsLength params > InspectLimits.valueLength then false
  else if name = "media" then block && balancedParentheses params
  else if name = "supports" then block && simpleCondition params
  else if name = "container" then block && simpleContainer params
  else if name = "starting-style" then block && params = ""
  else if name = "layer" then
    let names := (jsSplit params ',').map jsTrim
    if block then params = "" || (names.length = 1 && names.all layerName)
    else !names.isEmpty && names.all layerName
  else if name = "scope" then
    if !block || params = "" then block
    else
      match (cat [opt (cat [lit "(", group 1 (plus (noneOf "()")), lit ")"]),
          opt (cat [plus space, litFold "to", plus space, lit "(",
            group 2 (plus (noneOf "()")), lit ")"])]).exec params with
      | none => false
      | some c =>
        let selectors := [captured c 1, captured c 2].filterMap id
        !selectors.isEmpty && selectors.all fun selector =>
          validSelectorAst parser selector false namespaces
  else false

inductive ContainerContext where
  | rules
  | keyframes
  deriving DecidableEq

inductive RootPhase where
  | initial
  | imports
  | namespaces
  | body
  deriving DecidableEq

inductive AtRuleClassification where
  | drop
  | uncertain
  /-- `recurse` is the context of the children, when they are indexed too. -/
  | count (recurse : Option ContainerContext) (namespacePrefix : Option String)
  deriving DecidableEq

def classifyAtRule (parser : SelectorParser) (rule : AtRule) (isRoot : Bool)
    (rootPhase : RootPhase) (nestedInStyle : Bool) (namespaces : List String) :
    AtRuleClassification :=
  let name := jsToLowerCase rule.name
  let hasParameters := jsTrim rule.params ≠ ""
  if name = "charset" then .drop
  else if name = "import" then
    if !rule.hasBlock && validImportParams rule.params && isRoot &&
        (rootPhase = .initial || rootPhase = .imports) then .count none none
    else .uncertain
  else if name = "namespace" then
    if rule.hasBlock || !hasParameters || !isRoot || rootPhase = .body then .uncertain
    else
      match namespacePrefix rule.params with
      | none => .uncertain
      | some found => .count none found
  else if groupAtRules.contains name then
    if !validGroupAtRule parser rule namespaces then .uncertain
    else .count (if rule.hasBlock then some .rules else none) none
  else if keyframesAtRules.contains name then
    if nestedInStyle || !rule.hasBlock || !hasParameters then .uncertain
    else .count (some .keyframes) none
  else if leafAtRules.contains name then
    if nestedInStyle || !validLeafAtRule rule then .uncertain else .count none none
  else .uncertain

def nextRootPhase (phase : RootPhase) (name : String) (hasBlock : Bool) : RootPhase :=
  if name = "import" then .imports
  else if name = "namespace" then .namespaces
  else if name = "layer" && !hasBlock && (phase = .initial || phase = .imports) then phase
  else .body

end PinOp.Css
