import PinOp.Css.IndexSound
import PinOp.Css.WalkPaths

/-!
# A rule path means the same rule in the browser and in the IDE

The walk reports where a rule stands in the CSSOM, the index holds only such places, each
with the parsed rule that the CSSOM rule there came from.
-/

namespace PinOp.Css

open PinOp.Lib PinOp.Protocol

variable {parser : SelectorParser} {syntaxName : StylesheetSyntax} {text : String}
  {tree : SyntaxTree} {maxRules : Option ℕ} {parsed : ParsedStylesheet} {cssom : List RuleSource}

/-- The rules by node are the rules of nodes. -/
theorem rulesByNode_get? {units : List ℕ} {nodes : List RuleNode} {id : NodeId}
    {rule : StylesheetRule} (h : (rulesByNode units nodes).get? id = some rule) :
    ∃ node ∈ nodes, node.id = id ∧ ruleFromNode units node = some rule := by
  refine List.foldlRecOn (motive := fun found : RulesByNode => ∀ rule, found.get? id = some rule →
    ∃ node ∈ nodes, node.id = id ∧ ruleFromNode units node = some rule) nodes _ ?_ ?_ rule h
  · intro rule h
    cases h
  · intro found ih node hmem rule h
    cases hnode : ruleFromNode units node with
    | none =>
      simp only [hnode] at h
      exact ih rule h
    | some rule' =>
      simp only [hnode, OrderedMap.get?_set] at h
      split at h
      next heq => exact ⟨node, hmem, heq.symm, hnode.trans h⟩
      · exact ih rule h

/-- An entry of the path index is the rule of the node that the CSSOM rule there came from. -/
theorem pathIndex_placed (hparsed : parseStylesheet parser syntaxName text tree maxRules = some parsed)
    (hbuilt : BuiltFrom parser tree cssom) {key : String} {entry : Option StylesheetRule}
    (h : parsed.pathIndex.get? key = some entry) :
    ∃ path source node, path ≠ [] ∧ key = joinPath path ∧ ruleAt cssom path = some source ∧
      node ∈ rulesOf tree.nodes ∧ source.origin = some node.id ∧
      ∃ rule, entry = some rule ∧ ruleFromNode (codeUnits text) node = some rule := by
  unfold parseStylesheet at hparsed
  split at hparsed
  · cases hparsed
  cases syntaxName with
  | scss =>
    obtain rfl := Option.some.inj hparsed
    cases h
  | css =>
    obtain rfl := Option.some.inj hparsed
    obtain ⟨path, hne, hkey, source, rule, id, rfl, hat, horigin, hrule⟩ :=
      indexRoot_placed hbuilt h
    obtain ⟨node, hnode, rfl, hfrom⟩ := rulesByNode_get? hrule
    exact ⟨path, source, node, hne, hkey, hat, hnode, horigin, rule, rfl, hfrom⟩

/-- What is found by the path of a CSSOM rule, behind any namespace. -/
theorem findRuleByBrowserPath_at
    (hparsed : parseStylesheet parser syntaxName text tree maxRules = some parsed)
    (hbuilt : BuiltFrom parser tree cssom) {ns : ℕ} {path : List ℕ} {source : RuleSource}
    (hsource : ruleAt cssom path = some source) {rule : StylesheetRule}
    (h : findRuleByBrowserPath parsed (joinPath (ns :: path)) = some rule) :
    ∃ node ∈ rulesOf tree.nodes, source.origin = some node.id ∧
      ruleFromNode (codeUnits text) node = some rule := by
  unfold findRuleByBrowserPath at h
  split at h
  · cases h
  next key hkey =>
  obtain ⟨hne, rfl⟩ := parse_joinPath hkey
  have hentry : parsed.pathIndex.get? (joinPath path) = some (some rule) := Option.join_eq_some_iff.1 h
  obtain ⟨path', source', node, hne', hpath, hat, hnode, horigin, rule', hrule, hfrom⟩ :=
    pathIndex_placed hparsed hbuilt hentry
  obtain rfl := joinPath_inj hne hne' hpath
  obtain rfl := Option.some.inj (hsource.symm.trans hat)
  obtain rfl := Option.some.inj hrule
  exact ⟨node, hnode, horigin, hfrom⟩

/-- The path that the walk reports for a rule leads to nothing, or to the parsed rule that the rule
came from; and no path of the index is ambiguous. -/
theorem findRuleByBrowserPath_walked
    (hparsed : parseStylesheet parser syntaxName text tree maxRules = some parsed)
    (hbuilt : BuiltFrom parser tree cssom) {host : WalkHost} {document : CssDocumentSource}
    {workBudget : CssRuleWalkBudget} {report : WalkReport}
    (hreport : report ∈ (walkCssRules host document workBudget).reports)
    (hsheet : (host.stylesheet report.stylesheet.nativeStylesheet).cssRules = .ok cssom) :
    (findRuleByBrowserPath parsed report.rulePath = none ∨
      ∃ node ∈ rulesOf tree.nodes, report.nativeRule.origin = some node.id ∧
        findRuleByBrowserPath parsed report.rulePath = ruleFromNode (codeUnits text) node) ∧
    ∀ key, parsed.pathIndex.get? key ≠ some none := by
  constructor
  · obtain ⟨ns, path, rules, hrules, hat, hpath⟩ := walkCssRules_located hreport
    obtain rfl : rules = cssom := by
      rw [hsheet] at hrules
      exact (Except.ok.inj hrules).symm
    cases hfound : findRuleByBrowserPath parsed report.rulePath with
    | none => exact .inl rfl
    | some rule =>
      rw [hpath] at hfound
      obtain ⟨node, hnode, horigin, hfrom⟩ := findRuleByBrowserPath_at hparsed hbuilt hat hfound
      exact .inr ⟨node, hnode, horigin, hfrom.symm⟩
  · intro key hnull
    obtain ⟨_, _, _, _, _, _, _, _, rule, hrule, _⟩ := pathIndex_placed hparsed hbuilt hnull
    cases hrule

/-! ## A sample -/

namespace Sample

/-- A selector is one tag. -/
def tags : SelectorParser := fun value =>
  some [.mk .selector none none [.mk .tag (some value) none []]]

def source : String := "@charset \"x\";a\x7bcolor:red;b\x7b\x7dtop:0\x7d"

def outer : RuleNode := ⟨1, "a", some 13, some 33⟩

def inner : RuleNode := ⟨2, "b", some 25, some 28⟩

/-- The declaration behind the nested rule is a run of its own. -/
def sheet : SyntaxTree :=
  ⟨[.atrule ⟨"charset", "\"x\"", false⟩ [], .rule outer [.decl, .rule inner [], .decl]], by decide⟩

def style (property value : String) : StyleDeclarationSource :=
  ⟨[property], fun _ => value, fun _ => "", none⟩

def styleRule (selector : String) (block : StyleDeclarationSource) (node : RuleNode)
    (rules : List RuleSource) : RuleSource :=
  .mk ⟨some "CSSStyleRule", some selector, some block, none, none, none, none, 1, none, none, true,
    some node.id⟩ rules

/-- The nested declarations of the outer rule. -/
def nested : RuleSource :=
  .mk ⟨some "CSSNestedDeclarations", none, some (style "top" "0"), none, none, none, none, 0, none,
    none, false, some outer.id⟩ []

def innerRule : RuleSource := styleRule "b" ⟨[], fun _ => "", fun _ => "", none⟩ inner []

def outerRule : RuleSource := styleRule "a" (style "color" "red") outer [innerRule, nested]

def rules : List RuleSource := [outerRule]

def page : WalkHost :=
  ⟨fun _ => some true, fun _ => ⟨some "/a.css", .ok rules⟩, none, fun _ => true, fun _ _ => none⟩

def budget : CssRuleWalkBudget := ⟨256, 4096, 256, 524288⟩

/-- All reports of the page. -/
def reports : List WalkReport := (walkCssRules page ⟨[0], none⟩ budget).reports

theorem built : BuiltFrom tags sheet rules := by
  have hinner : Built tags (.ofRule inner) ((CssomContainer.ofRule inner).start []) []
      innerRule.cssRules := .done .none
  have hnested : Built tags (.ofRule outer) ⟨true, true, .initial, []⟩ [] [nested] :=
    .done (.one rfl rfl)
  have hafter : Built tags (.ofRule outer) ⟨false, false, .initial, []⟩ [.rule inner [], .decl]
      ([] ++ innerRule :: [nested]) :=
    .style rfl (by decide +kernel) .none rfl hinner (.decl hnested)
  have houter : Built tags (.ofRule outer) ((CssomContainer.ofRule outer).start [])
      [.decl, .rule inner [], .decl] outerRule.cssRules := .decl hafter
  have hbody : Built tags .root (CssomContainer.root.start [])
      [.rule outer [.decl, .rule inner [], .decl]] ([] ++ outerRule :: []) :=
    .style rfl (by decide +kernel) .none rfl houter (.done .none)
  exact .dropped (by decide +kernel) hbody

end Sample

open Sample

theorem findRuleByBrowserPath_walked_sample :
    ∃ parsed report, parseStylesheet tags .css source sheet none = some parsed ∧
      report ∈ reports ∧ report.rulePath = "0.0.1" ∧
      findRuleByBrowserPath parsed report.rulePath = ruleFromNode (codeUnits source) outer ∧
      ((findRuleByBrowserPath parsed report.rulePath = none ∨
        ∃ node ∈ rulesOf sheet.nodes, report.nativeRule.origin = some node.id ∧
          findRuleByBrowserPath parsed report.rulePath =
            ruleFromNode (codeUnits source) node) ∧
        ∀ key, parsed.pathIndex.get? key ≠ some none) := by
  have hpath : (reports[5]?).map WalkReport.rulePath = some "0.0.1" := by decide +kernel
  have hfound : ((parseStylesheet tags .css source sheet none).map fun parsed =>
      findRuleByBrowserPath parsed "0.0.1") = some (ruleFromNode (codeUnits source) outer) := by
    decide +kernel
  obtain ⟨report, hreport, hpath⟩ := Option.map_eq_some_iff.1 hpath
  obtain ⟨parsed, hparsed, hfound⟩ := Option.map_eq_some_iff.1 hfound
  have hmem : report ∈ reports := List.mem_of_getElem? hreport
  exact ⟨parsed, report, hparsed, hmem, hpath, by rw [hpath, hfound],
    findRuleByBrowserPath_walked hparsed built hmem rfl⟩

end PinOp.Css
