import PinOp.Css.RulePaths

/-!
# The path index holds rules of the stylesheet

Whatever the index makes of a stylesheet, a rule that is found by a path is one of the rules
that were parsed, and these are told apart by their nodes.
-/

namespace PinOp.Css

open PinOp.Lib

variable {parser : SelectorParser} {rules : RulesByNode} {children : Option IndexChildren}
  {container : Container} {l : LoopState} {s s' : IndexState}

/-- Every path leads to the rule of a node. -/
def HoldsRules (rules : RulesByNode) (s : IndexState) : Prop :=
  ∀ key rule, s.pathIndex.get? key = some (some rule) → ∃ id, rules.get? id = some rule

/-- A call that indexes children and keeps that. -/
def KeepsRules (rules : RulesByNode) (indexChildren : IndexChildren) : Prop :=
  ∀ container nodes trusted s, HoldsRules rules s →
    HoldsRules rules (indexChildren container nodes trusted s)

namespace HoldsRules

theorem of_eq (h : HoldsRules rules s) (heq : s'.pathIndex = s.pathIndex) : HoldsRules rules s' := by
  unfold HoldsRules
  rw [heq]
  exact h

theorem addPath (h : HoldsRules rules s) (path : List ℕ) (node : RuleNode) :
    HoldsRules rules (s.addPath rules path node) := by
  intro key rule hget
  unfold IndexState.addPath at hget
  split at hget
  · exact h key rule hget
  next own hown =>
  simp only at hget
  split at hget
  · rw [OrderedMap.get?_set] at hget
    split at hget
    · cases Option.some.inj hget
    · exact h key rule hget
  · rw [OrderedMap.get?_set] at hget
    split at hget
    · obtain rfl := Option.some.inj (Option.some.inj hget)
      exact ⟨node.id, hown⟩
    · exact h key rule hget

theorem ite_addPath (h : HoldsRules rules s) (c : Prop) [Decidable c] (path : List ℕ)
    (node : RuleNode) : HoldsRules rules (if c then s.addPath rules path node else s) := by
  split
  · exact h.addPath path node
  · exact h

theorem visitRule (h : HoldsRules rules s) : HoldsRules rules s.visitRule.2 := h.of_eq rfl

theorem addFallback (h : HoldsRules rules s) (node : RuleNode) (media : List String)
    (trusted : Bool) : HoldsRules rules (s.addFallback rules node media trusted) :=
  h.of_eq (by simp)

theorem addNamespace (h : HoldsRules rules s) (name : Option String) :
    HoldsRules rules (s.addNamespace name) := h.of_eq (by simp)

theorem validSelector (h : HoldsRules rules s) (parser : SelectorParser) (node : RuleNode)
    (relative : Bool) : HoldsRules rules (s.validSelector parser node relative).2 :=
  h.of_eq (by simp)

theorem flushDeclarations (h : HoldsRules rules s) (container : Container) (l : LoopState) :
    HoldsRules rules (flushDeclarations rules container l s).2 := by
  unfold PinOp.Css.flushDeclarations
  split
  · exact h
  split
  · exact (h.visitRule.ite_addPath _ _ _).addFallback _ _ _
  · exact h

theorem indexStyleRule (h : HoldsRules rules s) (hchildren : ∀ c ∈ children, KeepsRules rules c)
    (container : Container) (node : RuleNode) (nodes : List Node) (l : LoopState) :
    HoldsRules rules (indexStyleRule rules children container node nodes l s).2 := by
  have hflush := h.flushDeclarations container l
  unfold PinOp.Css.indexStyleRule
  have hown := (hflush.visitRule.addFallback node container.media
    ((PinOp.Css.flushDeclarations rules container l s).1.pathTrusted &&
      (PinOp.Css.flushDeclarations rules container l s).2.visitRule.1)).ite_addPath
    (((PinOp.Css.flushDeclarations rules container l s).1.pathTrusted &&
      (PinOp.Css.flushDeclarations rules container l s).2.visitRule.1) = true)
    (container.parentPath ++ [(PinOp.Css.flushDeclarations rules container l s).1.cssomIndex]) node
  cases children with
  | none => exact hown
  | some indexChildren => exact hchildren indexChildren rfl _ _ _ _ hown

theorem indexAtRule (h : HoldsRules rules s) (hchildren : ∀ c ∈ children, KeepsRules rules c)
    (container : Container) (rule : AtRule) (nodes : List Node) (recurse : Option ContainerContext)
    (namespacePrefix : Option String) (l : LoopState) :
    HoldsRules rules
      (indexAtRule rules children container rule nodes recurse namespacePrefix l s).2 := by
  have hflush := h.flushDeclarations container l
  unfold PinOp.Css.indexAtRule
  have hown : HoldsRules rules (if container.type = .root then
      (PinOp.Css.flushDeclarations rules container l s).2.addNamespace namespacePrefix
      else (PinOp.Css.flushDeclarations rules container l s).2).visitRule.2 := by
    split
    · exact (hflush.addNamespace namespacePrefix).visitRule
    · exact hflush.visitRule
  cases children with
  | none => exact hown
  | some indexChildren =>
    cases recurse with
    | none => exact hown
    | some context => exact hchildren indexChildren rfl _ _ _ _ hown

theorem indexNode (h : HoldsRules rules s) (hchildren : ∀ c ∈ children, KeepsRules rules c)
    (parser : SelectorParser) (container : Container) (l : LoopState) (node : Node) :
    HoldsRules rules (indexNode parser rules children container (l, s) node).2 := by
  cases node with
  | decl => exact h
  | comment => exact h
  | other => exact h
  | rule node nodes =>
    simp only [PinOp.Css.indexNode]
    cases container.context with
    | keyframes => exact (h.flushDeclarations container l).visitRule
    | rules =>
      have hvalid := h.validSelector parser node container.owner.isSome
      simp only
      split
      · exact hvalid.indexStyleRule hchildren container node nodes l
      · exact hvalid
  | atrule rule nodes =>
    simp only [PinOp.Css.indexNode]
    split
    · exact h
    · exact h
    · exact h.indexAtRule hchildren container rule nodes _ _ l

theorem indexNodes (h : HoldsRules rules s) (hchildren : ∀ c ∈ children, KeepsRules rules c)
    (parser : SelectorParser) (container : Container) (nodes : List Node) (l : LoopState) :
    HoldsRules rules (nodes.foldl (PinOp.Css.indexNode parser rules children container) (l, s)).2 := by
  induction nodes generalizing l s with
  | nil => exact h
  | cons node rest ih =>
    rw [List.foldl_cons]
    exact ih (h.indexNode hchildren parser container l node) _

end HoldsRules

theorem indexContainer_keepsRules (levels : ℕ) :
    KeepsRules rules (indexContainer parser rules levels) := by
  induction levels with
  | zero =>
    intro container nodes trusted s h
    rw [indexContainer_eq]
    have hnone : ∀ c ∈ childrenAt parser rules 0, KeepsRules rules c := fun c hc => by cases hc
    exact (h.indexNodes hnone parser container nodes _).flushDeclarations _ _
  | succ levels ih =>
    intro container nodes trusted s h
    rw [indexContainer_eq]
    have hsome : ∀ c ∈ childrenAt parser rules (levels + 1), KeepsRules rules c := by
      intro c hc
      cases hc
      exact ih
    exact (h.indexNodes hsome parser container nodes _).flushDeclarations _ _

variable {syntaxName : StylesheetSyntax} {text : String} {tree : SyntaxTree} {maxRules : Option ℕ}
  {parsed : ParsedStylesheet} {rule : StylesheetRule}

theorem ruleFromNode_node {units : List ℕ} {node : RuleNode} (h : ruleFromNode units node = some rule) :
    rule.node = node.id := by
  unfold ruleFromNode at h
  split at h
  · split at h
    · cases h
    split at h
    · cases h
    split at h
    · cases h
    obtain rfl := Option.some.inj h
    rfl
  · cases h

theorem parsed_rules (hparsed : parseStylesheet parser syntaxName text tree maxRules = some parsed) :
    parsed.rules = (rulesOf tree.nodes).filterMap (ruleFromNode (codeUnits text)) := by
  unfold parseStylesheet at hparsed
  split at hparsed
  · cases hparsed
  cases syntaxName <;> exact congrArg ParsedStylesheet.rules (Option.some.inj hparsed).symm

/-- The rules of a stylesheet are told apart by their nodes. -/
theorem parsed_rules_distinct
    (hparsed : parseStylesheet parser syntaxName text tree maxRules = some parsed) :
    (parsed.rules.map StylesheetRule.node).Nodup := by
  have hsub : List.Sublist (parsed.rules.map StylesheetRule.node)
      ((rulesOf tree.nodes).map RuleNode.id) := by
    rw [parsed_rules hparsed]
    induction rulesOf tree.nodes with
    | nil => exact .slnil
    | cons node rest ih =>
      cases hnode : ruleFromNode (codeUnits text) node with
      | none =>
        rw [List.filterMap_cons_none hnode]
        exact ih.cons _
      | some rule =>
        rw [List.filterMap_cons_some hnode, List.map_cons, List.map_cons, ruleFromNode_node hnode]
        exact ih.cons_cons _
  exact hsub.nodup tree.distinct

/-- A rule that is found by a path is one of the stylesheet. -/
theorem findRuleByBrowserPath_mem
    (hparsed : parseStylesheet parser syntaxName text tree maxRules = some parsed) {path : String}
    (h : findRuleByBrowserPath parsed path = some rule) : rule ∈ parsed.rules := by
  unfold findRuleByBrowserPath at h
  split at h
  · cases h
  next key hkey =>
  have hentry : parsed.pathIndex.get? key = some (some rule) := Option.join_eq_some_iff.1 h
  rw [parsed_rules hparsed]
  unfold parseStylesheet at hparsed
  split at hparsed
  · cases hparsed
  cases syntaxName with
  | scss =>
    obtain rfl := Option.some.inj hparsed
    cases hentry
  | css =>
    obtain rfl := Option.some.inj hparsed
    have hholds : HoldsRules (rulesByNode (codeUnits text) (rulesOf tree.nodes))
        (indexRoot parser (rulesByNode (codeUnits text) (rulesOf tree.nodes)) tree.nodes) :=
      indexContainer_keepsRules _ _ _ _ _ fun key rule h => by cases h
    obtain ⟨id, hid⟩ := hholds key rule hentry
    obtain ⟨node, hnode, -, hfrom⟩ := rulesByNode_get? hid
    exact List.mem_filterMap.2 ⟨node, hnode, hfrom⟩

end PinOp.Css
