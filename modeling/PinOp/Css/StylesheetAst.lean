import PinOp.Css.Grammar
import PinOp.Lib.Comparator
import PinOp.Lib.OrderedMap

/-!
# Parsed stylesheets and their index of rule paths

What the IDE makes of a stylesheet: the rules of its syntax tree, and an index from the paths
a browser reports to those rules. `CssomIndexBuilder` walks the syntax tree and numbers the
rules a browser makes of it; where it cannot tell what a browser makes of a construct it
stops trusting its count. The two fallback indexes are filled from what the same walk adds
to `fallback`. The tree itself comes from `postcss`; offsets count code units.
-/

namespace PinOp.Css

open PinOp.Lib PinOp.Protocol

/-! ## Syntax trees -/

abbrev NodeId := ℕ

/-- A style rule without its children; `id` tells the objects of a tree apart. -/
structure RuleNode where
  id : NodeId
  selector : String
  startOffset : Option ℕ
  endOffset : Option ℕ
  deriving DecidableEq

/-- The nodes of an at-rule without a block are not read. -/
inductive Node where
  | decl
  | comment
  | rule (node : RuleNode) (nodes : List Node)
  | atrule (node : AtRule) (nodes : List Node)
  | other

mutual

def Node.rules : Node → List RuleNode
  | .rule node nodes => node :: rulesOf nodes
  | .atrule _ nodes => rulesOf nodes
  | _ => []

/-- The style rules in the order of `walkRules`. -/
def rulesOf : List Node → List RuleNode
  | [] => []
  | node :: rest => node.rules ++ rulesOf rest

end

mutual

def Node.ruleNodeCount : Node → ℕ
  | .rule _ nodes => 1 + ruleNodeCount nodes
  | .atrule _ nodes => 1 + ruleNodeCount nodes
  | _ => 0

/-- How many nodes `enforceRuleNodeLimit` counts. -/
def ruleNodeCount : List Node → ℕ
  | [] => 0
  | node :: rest => node.ruleNodeCount + ruleNodeCount rest

end

/-- The objects of a tree are distinct. -/
structure SyntaxTree where
  nodes : List Node
  distinct : ((rulesOf nodes).map RuleNode.id).Nodup

/-! ## Rules -/

/-- A parsed rule, with the node it was made for. -/
structure StylesheetRule where
  node : NodeId
  selector : String
  startOffset : ℕ
  endOffset : ℕ
  selectorPreludeEndOffset : ℕ
  deriving DecidableEq

/-- Where `findSelectorPreludeEnd` is; `skip` passes over the second half of a delimiter. -/
structure PreludeState where
  quote : Option ℕ := none
  escaped : Bool := false
  comment : Bool := false
  skip : Bool := false
  squareDepth : ℕ := 0
  roundDepth : ℕ := 0

/-- One character of a prelude; `none` is the brace that ends it. -/
def PreludeState.next (s : PreludeState) (character : ℕ) (following : Option ℕ) :
    Option PreludeState :=
  let is : Char → Bool := fun c => character = c.toNat
  let followed : Char → Bool := fun c => following = some c.toNat
  if s.skip then some { s with skip := false }
  else if s.comment then
    some (if is '*' && followed '/' then { s with comment := false, skip := true } else s)
  else if s.quote.isSome then
    some (if s.escaped then { s with escaped := false }
      else if is '\\' then { s with escaped := true }
      else if s.quote = some character then { s with quote := none } else s)
  else if s.escaped then some { s with escaped := false }
  else if is '\\' then some { s with escaped := true }
  else if is '/' && followed '*' then some { s with comment := true, skip := true }
  else if is '"' || character = 0x27 then some { s with quote := some character }
  else if is '[' then some { s with squareDepth := s.squareDepth + 1 }
  else if is ']' then some { s with squareDepth := s.squareDepth - 1 }
  else if is '(' then some { s with roundDepth := s.roundDepth + 1 }
  else if is ')' then some { s with roundDepth := s.roundDepth - 1 }
  else if is '\x7b' && s.squareDepth = 0 && s.roundDepth = 0 then none
  else some s

/-- The text from `index` on, of which `count` characters are looked at. -/
def preludeEndFrom (s : PreludeState) (index : ℕ) : ℕ → List ℕ → Option ℕ
  | 0, _ => none
  | _, [] => none
  | count + 1, character :: rest =>
    match s.next character rest.head? with
    | none => some index
    | some s => preludeEndFrom s (index + 1) count rest

def findSelectorPreludeEnd (text : List ℕ) (start stop : ℕ) : Option ℕ :=
  preludeEndFrom {} start (stop - start) (text.drop start)

/-- The rule of a node whose place in the text is known. -/
def ruleFromNode (text : List ℕ) (node : RuleNode) : Option StylesheetRule :=
  match node.startOffset, node.endOffset with
  | some start, some stop =>
    if stop ≤ start then none
    else
      match findSelectorPreludeEnd text start stop with
      | none => none
      | some selectorEnd =>
        if selectorEnd ≤ start then none
        else some ⟨node.id, node.selector, start, stop, selectorEnd⟩
  | _, _ => none

/-- `rulesByNode` -/
abbrev RulesByNode := OrderedMap NodeId StylesheetRule

/-- `rulesByNode.set` for each node that has a rule. -/
def rulesByNode (text : List ℕ) (nodes : List RuleNode) : RulesByNode :=
  nodes.foldl (fun found node =>
    match ruleFromNode text node with
    | none => found
    | some rule => found.set node.id rule) ∅

/-! ## The index of rule paths -/

/-- `path.join(".")` -/
def joinPath (path : List ℕ) : String := ".".intercalate (path.map Nat.repr)

inductive ContainerType where
  | root
  | rule
  | atrule
  deriving DecidableEq

/-- A container whose children are indexed; `media` are the parameters of the media rules around
them. -/
structure Container where
  type : ContainerType
  parentPath : List ℕ
  owner : Option RuleNode
  context : ContainerContext
  media : List String

/-- A call of `fallback.add`. -/
structure FallbackEntry where
  rule : StylesheetRule
  media : List String
  trusted : Bool
  deriving DecidableEq

/-- The fields of a `CssomIndexBuilder`. -/
structure IndexState where
  pathIndex : OrderedMap String (Option StylesheetRule)
  selectorValidity : OrderedMap NodeId Bool
  namespaces : List String
  fallback : List FallbackEntry
  visitedRules : ℕ

/-- The variables of one run of `indexContainer`. -/
structure LoopState where
  pathTrusted : Bool
  cssomIndex : ℕ
  cssRuleSeen : Bool
  declarationsPending : Bool
  rootPhase : RootPhase

namespace IndexState

def empty : IndexState := ⟨∅, ∅, [], [], 0⟩

def visitRule (s : IndexState) : Bool × IndexState :=
  (s.visitedRules < InspectLimits.cssRules, { s with visitedRules := s.visitedRules + 1 })

def addPath (s : IndexState) (rules : RulesByNode) (path : List ℕ) (node : RuleNode) :
    IndexState :=
  match rules.get? node.id with
  | none => s
  | some rule =>
    let key := joinPath path
    if s.pathIndex.has key then { s with pathIndex := s.pathIndex.set key none }
    else { s with pathIndex := s.pathIndex.set key (some rule) }

/-- `fallback.add` of the rule of a node, if it has one. -/
def addFallback (s : IndexState) (rules : RulesByNode) (node : RuleNode) (media : List String)
    (trusted : Bool) : IndexState :=
  match rules.get? node.id with
  | none => s
  | some rule => { s with fallback := s.fallback ++ [⟨rule, media, trusted⟩] }

def addNamespace (s : IndexState) (name : Option String) : IndexState :=
  match name with
  | none => s
  | some name =>
    if s.namespaces.contains name then s else { s with namespaces := s.namespaces ++ [name] }

/-- What `validSelector` answers when the node was not asked about before. -/
def selectorValid (parser : SelectorParser) (node : RuleNode) (relativeAllowed : Bool)
    (namespaces : List String) : Bool :=
  0 < jsLength node.selector && jsLength node.selector ≤ InspectLimits.selectorLength &&
    validSelectorAst parser node.selector relativeAllowed namespaces

def validSelector (s : IndexState) (parser : SelectorParser) (node : RuleNode)
    (relativeAllowed : Bool) : Bool × IndexState :=
  match s.selectorValidity.get? node.id with
  | some cached => (cached, s)
  | none =>
    let valid := selectorValid parser node relativeAllowed s.namespaces
    (valid, { s with selectorValidity := s.selectorValidity.set node.id valid })

end IndexState

def LoopState.start (container : Container) (trusted : Bool) : LoopState :=
  ⟨trusted, 0, container.type ≠ .rule, false, .initial⟩

def flushDeclarations (rules : RulesByNode) (container : Container) (l : LoopState)
    (s : IndexState) : LoopState × IndexState :=
  match container.owner with
  | none => (l, s)
  | some owner =>
    if l.declarationsPending then
      let (withinBudget, s) := s.visitRule
      let trusted := l.pathTrusted && withinBudget
      let s := if trusted then s.addPath rules (container.parentPath ++ [l.cssomIndex]) owner else s
      let s := s.addFallback rules owner container.media trusted
      ({ l with cssomIndex := l.cssomIndex + 1, declarationsPending := false }, s)
    else (l, s)

def bodyAtRoot (container : Container) (phase : RootPhase) : RootPhase :=
  if container.type = .root then .body else phase

def markUncertain (container : Container) (l : LoopState) : LoopState :=
  { l with
    pathTrusted := false
    declarationsPending := false
    cssRuleSeen := true
    rootPhase := bodyAtRoot container l.rootPhase }

/-- The call that indexes the children of a node; there is none below the greatest depth. -/
abbrev IndexChildren := Container → List Node → Bool → IndexState → IndexState

/-- A style rule outside of keyframes. -/
def indexStyleRule (rules : RulesByNode) (children : Option IndexChildren) (container : Container)
    (node : RuleNode) (nodes : List Node) (l : LoopState) (s : IndexState) :
    LoopState × IndexState :=
  let (l, s) := flushDeclarations rules container l s
  let path := container.parentPath ++ [l.cssomIndex]
  let (withinBudget, s) := s.visitRule
  let trusted := l.pathTrusted && withinBudget
  let s := s.addFallback rules node container.media trusted
  let s := if trusted then s.addPath rules path node else s
  let pathTrusted := l.pathTrusted && (rules.get? node.id).isSome
  let l := { l with
    pathTrusted := pathTrusted
    cssomIndex := l.cssomIndex + 1
    cssRuleSeen := true
    rootPhase := bodyAtRoot container l.rootPhase }
  match children with
  | none => (l, s)
  | some indexChildren =>
    (l, indexChildren ⟨.rule, path, some node, .rules, container.media⟩ nodes
      (pathTrusted && withinBudget) s)

/-- The media conditions around the children of an at-rule. -/
def childMedia (rule : AtRule) (media : List String) : List String :=
  if jsToLowerCase rule.name = "media" then media ++ [rule.params] else media

/-- An at-rule that counts. -/
def indexAtRule (rules : RulesByNode) (children : Option IndexChildren) (container : Container)
    (rule : AtRule) (nodes : List Node) (recurse : Option ContainerContext)
    (namespacePrefix : Option String) (l : LoopState) (s : IndexState) : LoopState × IndexState :=
  let (l, s) := flushDeclarations rules container l s
  let l := if container.type = .root then
    { l with rootPhase := nextRootPhase l.rootPhase (jsToLowerCase rule.name) rule.hasBlock } else l
  let s := if container.type = .root then s.addNamespace namespacePrefix else s
  let path := container.parentPath ++ [l.cssomIndex]
  let (withinBudget, s) := s.visitRule
  let l := { l with cssomIndex := l.cssomIndex + 1, cssRuleSeen := true }
  match children, recurse with
  | some indexChildren, some context =>
    (l, indexChildren ⟨.atrule, path, container.owner, context, childMedia rule container.media⟩
      nodes (l.pathTrusted && withinBudget) s)
  | _, _ => (l, s)

/-- One round of the loop over the children of a container. -/
def indexNode (parser : SelectorParser) (rules : RulesByNode) (children : Option IndexChildren)
    (container : Container) (state : LoopState × IndexState) (node : Node) :
    LoopState × IndexState :=
  let (l, s) := state
  match node with
  | .decl =>
    ({ l with
      declarationsPending :=
        l.declarationsPending || (container.owner.isSome && l.cssRuleSeen) }, s)
  | .comment => (l, s)
  | .rule node nodes =>
    match container.context with
    | .keyframes =>
      let (l, s) := flushDeclarations rules container l s
      ({ l with cssomIndex := l.cssomIndex + 1, cssRuleSeen := true }, s.visitRule.2)
    | .rules =>
      let (valid, s) := s.validSelector parser node container.owner.isSome
      if valid then indexStyleRule rules children container node nodes l s
      else (markUncertain container l, s)
  | .atrule rule nodes =>
    match classifyAtRule parser rule (container.type = .root) l.rootPhase
        container.owner.isSome s.namespaces with
    | .drop => (l, s)
    | .uncertain => (markUncertain container l, s)
    | .count recurse namespacePrefix =>
      indexAtRule rules children container rule nodes recurse namespacePrefix l s
  | .other => (markUncertain container l, s)

/-- `levels` are left until the greatest depth. -/
def indexContainer (parser : SelectorParser) (rules : RulesByNode) : ℕ → IndexChildren
  | levels, container, nodes, trusted, s =>
    let children := match levels with
      | 0 => none
      | levels + 1 => some (indexContainer parser rules levels)
    let (l, s) := nodes.foldl (indexNode parser rules children container)
      (LoopState.start container trusted, s)
    (flushDeclarations rules container l s).2

def rootContainer : Container := ⟨.root, [], none, .rules, []⟩

/-- `CssomIndexBuilder.index` -/
def indexRoot (parser : SelectorParser) (rules : RulesByNode) (nodes : List Node) : IndexState :=
  indexContainer parser rules InspectLimits.cssRuleDepth rootContainer nodes true .empty

/-! ## Parsing -/

inductive StylesheetSyntax where
  | css
  | scss
  deriving DecidableEq

structure ParsedStylesheet where
  syntaxName : StylesheetSyntax
  rules : List StylesheetRule
  rulesByNode : RulesByNode
  pathIndex : OrderedMap String (Option StylesheetRule)
  fallback : List FallbackEntry

/-- `none` is a `StylesheetParseLimitError`. -/
def parseStylesheet (parser : SelectorParser) (syntaxName : StylesheetSyntax) (text : String)
    (tree : SyntaxTree) (maxRules : Option ℕ) : Option ParsedStylesheet :=
  if maxRules.any fun limit => limit < ruleNodeCount tree.nodes then none
  else
    let nodes := rulesOf tree.nodes
    let rules := nodes.filterMap (ruleFromNode (codeUnits text))
    let byNode := rulesByNode (codeUnits text) nodes
    match syntaxName with
    | .scss => some ⟨syntaxName, rules, byNode, ∅, []⟩
    | .css =>
      let indexes := indexRoot parser byNode tree.nodes
      some ⟨syntaxName, rules, byNode, indexes.pathIndex, indexes.fallback⟩

/-! ## Looking a path up -/

/-- `^(?:0|[1-9]\d*)$` -/
def isPathNumber (segment : String) : Bool :=
  segment = "0" ||
    (match segment.toList with
      | [] => false
      | c :: rest => c.isDigit && c ≠ '0' && rest.all Char.isDigit)

/-- `Number(segment)` of a segment of digits. -/
def pathNumber (segment : String) : ℕ := Nat.ofDigitChars 10 segment.toList 0

def maxSafeInteger : ℕ := 2 ^ 53 - 1

def validPathSegment (segment : String) (upperBound : ℕ) : Bool :=
  isPathNumber segment && pathNumber segment ≤ maxSafeInteger && pathNumber segment < upperBound

def parseBrowserRulePath (value : String) : Option String :=
  if jsLength value = 0 || InspectLimits.selectorLength < jsLength value then none
  else
    match jsSplit value '.' with
    | [] => none
    | first :: rest =>
      if rest.length < 1 || InspectLimits.cssRuleDepth + 1 < rest.length then none
      else if validPathSegment first InspectLimits.stylesheets &&
          rest.all (fun segment => validPathSegment segment InspectLimits.cssRules) then
        some (".".intercalate rest)
      else none

def findRuleByBrowserPath (stylesheet : ParsedStylesheet) (browserRulePath : String) :
    Option StylesheetRule :=
  match parseBrowserRulePath browserRulePath with
  | none => none
  | some path => (stylesheet.pathIndex.get? path).join

end PinOp.Css
