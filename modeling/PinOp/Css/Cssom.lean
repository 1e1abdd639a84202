import PinOp.Css.StylesheetAst

/-!
# What a browser makes of a stylesheet

The rules of a stylesheet as the page's CSSOM shows them to the walk: a tree of objects with
the properties the walk reads. `origin` is no property but the node of the parsed file that
the browser made the rule from, when it made it from a style rule; the walk never reads it.
-/

namespace PinOp.Css

open PinOp.Lib

/-- A declaration block, asked for its properties in order. -/
structure StyleDeclarationSource where
  items : List String
  getPropertyValue : String → String
  getPropertyPriority : String → String
  cssText : Option String

abbrev SheetId := ℕ

/-- The properties of a rule; a missing one is `none`. A rule with a `styleSheet` that is null has
`some none`. -/
structure RuleView where
  constructorName : Option String
  selectorText : Option String
  style : Option StyleDeclarationSource
  conditionText : Option String
  mediaText : Option String
  name : Option String
  cssText : Option String
  type : ℕ
  href : Option String
  styleSheet : Option (Option SheetId)
  hasCssRules : Bool
  origin : Option NodeId

inductive RuleSource where
  | mk (view : RuleView) (cssRules : List RuleSource)

namespace RuleSource

def view : RuleSource → RuleView
  | mk view _ => view

def cssRules : RuleSource → List RuleSource
  | mk _ cssRules => cssRules

def origin (rule : RuleSource) : Option NodeId := rule.view.origin

end RuleSource

/-- A stylesheet of the page; reading its rules may be refused. -/
structure StylesheetSource where
  href : Option String
  cssRules : Except String (List RuleSource)

/-- The rule with these child numbers, from the top of the list down. -/
def ruleAt : List RuleSource → List ℕ → Option RuleSource
  | _, [] => none
  | rules, [i] => rules[i]?
  | rules, i :: j :: rest =>
    match rules[i]? with
    | none => none
    | some rule => ruleAt rule.cssRules (j :: rest)

theorem ruleAt_cons {rules : List RuleSource} {rule : RuleSource} {i : ℕ} (h : rules[i]? = some rule)
    {path : List ℕ} (hne : path ≠ []) : ruleAt rules (i :: path) = ruleAt rule.cssRules path := by
  cases path with
  | nil => exact absurd rfl hne
  | cons j rest => rw [ruleAt, h]

theorem ruleAt_append {rules : List RuleSource} {rule : RuleSource} {path more : List ℕ}
    (h : ruleAt rules path = some rule) (hne : more ≠ []) :
    ruleAt rules (path ++ more) = ruleAt rule.cssRules more := by
  induction path generalizing rules with
  | nil => cases h
  | cons i path ih =>
    cases path with
    | nil => exact ruleAt_cons h hne
    | cons j path =>
      rw [ruleAt] at h
      cases hi : rules[i]? with
      | none => simp [hi] at h
      | some parent =>
        rw [hi] at h
        rw [List.cons_append, ruleAt_cons hi (by simp)]
        exact ih h

/-! ## The CSSOM of a syntax tree -/

/-- What a browser knows about a run of children: the container they stand in. -/
structure CssomContainer where
  type : ContainerType
  owner : Option RuleNode
  context : ContainerContext

/-- How far the children of a container have been read: whether declarations that come now stand
after a rule, whether such declarations are waiting, and what the root may still hold. -/
structure CssomReading where
  cssRuleSeen : Bool
  declarationsPending : Bool
  rootPhase : RootPhase
  namespaces : List String

namespace CssomContainer

def root : CssomContainer := ⟨.root, none, .rules⟩

/-- The children of a style rule. -/
def ofRule (node : RuleNode) : CssomContainer := ⟨.rule, some node, .rules⟩

/-- The children of an at-rule in this container. -/
def ofAtRule (c : CssomContainer) (context : ContainerContext) : CssomContainer :=
  ⟨.atrule, c.owner, context⟩

/-- Declarations that stand directly in a grouping rule are not its own. -/
def start (c : CssomContainer) (namespaces : List String) : CssomReading :=
  ⟨c.type ≠ .rule, false, .initial, namespaces⟩

def bodyAtRoot (c : CssomContainer) (phase : RootPhase) : RootPhase :=
  if c.type = .root then .body else phase

def classify (parser : SelectorParser) (c : CssomContainer) (s : CssomReading) (rule : AtRule) :
    AtRuleClassification :=
  classifyAtRule parser rule (c.type = .root) s.rootPhase c.owner.isSome s.namespaces

def selectorValid (parser : SelectorParser) (c : CssomContainer) (s : CssomReading)
    (node : RuleNode) : Bool :=
  IndexState.selectorValid parser node c.owner.isSome s.namespaces

end CssomContainer

namespace CssomReading

/-- After a child rule. -/
def afterRule (s : CssomReading) (phase : RootPhase) (namespaces : List String) : CssomReading :=
  { s with
    cssRuleSeen := true
    declarationsPending := false
    rootPhase := phase
    namespaces := namespaces }

/-- After a style rule, or one of a keyframes rule. -/
def afterStyleRule (s : CssomReading) (phase : RootPhase) : CssomReading :=
  s.afterRule phase s.namespaces

def insertNamespace (namespaces : List String) : Option String → List String
  | none => namespaces
  | some name => if namespaces.contains name then namespaces else namespaces ++ [name]

def afterAtRule (s : CssomReading) (c : CssomContainer) (rule : AtRule)
    (namespacePrefix : Option String) : CssomReading :=
  if c.type = .root then
    s.afterRule (nextRootPhase s.rootPhase (jsToLowerCase rule.name) rule.hasBlock)
      (insertNamespace s.namespaces namespacePrefix)
  else s.afterRule s.rootPhase s.namespaces

end CssomReading

/-- The rules that the waiting declarations become: one, of the owning style rule. -/
inductive DeclarationRun (c : CssomContainer) : Bool → List RuleSource → Prop where
  | none : DeclarationRun c false []
  | one {owner : RuleNode} {rule : RuleSource} (howner : c.owner = some owner)
      (horigin : rule.origin = some owner.id) : DeclarationRun c true [rule]

/-- The nodes that no rule is known of. -/
inductive Uncertain (parser : SelectorParser) (c : CssomContainer) (s : CssomReading) : Node → Prop
  | other : Uncertain parser c s .other
  | selector {node : RuleNode} {nodes : List Node} (hcontext : c.context = .rules)
      (hinvalid : c.selectorValid parser s node = false) : Uncertain parser c s (.rule node nodes)
  | atrule {rule : AtRule} {nodes : List Node}
      (hclass : c.classify parser s rule = .uncertain) : Uncertain parser c s (.atrule rule nodes)

/-- `Built parser c s nodes rules`: the children `nodes` of the container `c`, read from `s` on, are
the child rules `rules` of its CSSOM rule. -/
inductive Built (parser : SelectorParser) :
    CssomContainer → CssomReading → List Node → List RuleSource → Prop
  | done {c : CssomContainer} {s : CssomReading} {run : List RuleSource}
      (hrun : DeclarationRun c s.declarationsPending run) : Built parser c s [] run
  | decl {c : CssomContainer} {s : CssomReading} {rest : List Node} {rules : List RuleSource}
      (hrest : Built parser c
        { s with
          declarationsPending :=
            s.declarationsPending || (c.owner.isSome && s.cssRuleSeen) } rest rules) :
      Built parser c s (.decl :: rest) rules
  | comment {c : CssomContainer} {s : CssomReading} {rest : List Node} {rules : List RuleSource}
      (hrest : Built parser c s rest rules) : Built parser c s (.comment :: rest) rules
  /-- A rule of keyframes is one rule. -/
  | keyframe {c : CssomContainer} {s : CssomReading} {node : RuleNode} {nodes rest : List Node}
      {run rules : List RuleSource} {rule : RuleSource} (hcontext : c.context = .keyframes)
      (hrun : DeclarationRun c s.declarationsPending run)
      (hrest : Built parser c (s.afterStyleRule s.rootPhase) rest rules) :
      Built parser c s (.rule node nodes :: rest) (run ++ rule :: rules)
  | style {c : CssomContainer} {s : CssomReading} {node : RuleNode} {nodes rest : List Node}
      {run rules : List RuleSource} {rule : RuleSource} (hcontext : c.context = .rules)
      (hvalid : c.selectorValid parser s node = true)
      (hrun : DeclarationRun c s.declarationsPending run)
      (horigin : rule.origin = some node.id)
      (hchildren : Built parser (.ofRule node) ((CssomContainer.ofRule node).start s.namespaces)
        nodes rule.cssRules)
      (hrest : Built parser c (s.afterStyleRule (c.bodyAtRoot s.rootPhase)) rest rules) :
      Built parser c s (.rule node nodes :: rest) (run ++ rule :: rules)
  /-- `@charset` -/
  | dropped {c : CssomContainer} {s : CssomReading} {rule : AtRule} {nodes rest : List Node}
      {rules : List RuleSource} (hclass : c.classify parser s rule = .drop)
      (hrest : Built parser c s rest rules) : Built parser c s (.atrule rule nodes :: rest) rules
  | counted {c : CssomContainer} {s : CssomReading} {atRule : AtRule} {nodes rest : List Node}
      {recurse : Option ContainerContext} {namespacePrefix : Option String}
      {run rules : List RuleSource} {rule : RuleSource}
      (hclass : c.classify parser s atRule = .count recurse namespacePrefix)
      (hrun : DeclarationRun c s.declarationsPending run)
      (hchildren : ∀ context, recurse = some context →
        Built parser (c.ofAtRule context)
          ((c.ofAtRule context).start (s.afterAtRule c atRule namespacePrefix).namespaces)
          nodes rule.cssRules)
      (hrest : Built parser c (s.afterAtRule c atRule namespacePrefix) rest rules) :
      Built parser c s (.atrule atRule nodes :: rest) (run ++ rule :: rules)
  /-- An uncertain node yields any rules, and may end a run of declarations or not. -/
  | uncertain {c : CssomContainer} {s : CssomReading} {node : Node} {rest : List Node}
      {some rules : List RuleSource} {seen pending : Bool} (huncertain : Uncertain parser c s node)
      (hrest : Built parser c
        ⟨seen, pending, c.bodyAtRoot s.rootPhase, s.namespaces⟩ rest rules) :
      Built parser c s (node :: rest) (some ++ rules)

/-- The CSSOM of a parsed stylesheet. -/
def BuiltFrom (parser : SelectorParser) (tree : SyntaxTree) (rules : List RuleSource) : Prop :=
  Built parser .root (CssomContainer.root.start []) tree.nodes rules

end PinOp.Css
