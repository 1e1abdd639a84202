import PinOp.Css.StylesheetAst

/-!
# What indexing a container leaves alone

Whatever is indexed, the answers of `validSelector` that are remembered are about the rules
indexed, only the root declares namespaces, and a container whose count is not trusted adds
no path.
-/

namespace PinOp.Css

open PinOp.Lib

variable {parser : SelectorParser} {rules : RulesByNode}

/-- The ids of the style rules among and below these nodes. -/
def ruleIds (nodes : List Node) : List NodeId := (rulesOf nodes).map RuleNode.id

/-- The ids of the style rules at and below this node. -/
def Node.ruleIds (node : Node) : List NodeId := node.rules.map RuleNode.id

theorem ruleIds_cons (node : Node) (rest : List Node) :
    ruleIds (node :: rest) = node.ruleIds ++ ruleIds rest := by
  rw [ruleIds, rulesOf, List.map_append]
  rfl

theorem Node.ruleIds_rule (node : RuleNode) (nodes : List Node) :
    (Node.rule node nodes).ruleIds = node.id :: PinOp.Css.ruleIds nodes := by
  rw [Node.ruleIds, Node.rules, List.map_cons]
  rfl

theorem Node.ruleIds_atrule (rule : AtRule) (nodes : List Node) :
    (Node.atrule rule nodes).ruleIds = PinOp.Css.ruleIds nodes := by
  rw [Node.ruleIds, Node.rules]
  rfl

/-! ## The parts of a state -/

namespace IndexState

@[simp] theorem visitRule_pathIndex (s : IndexState) : s.visitRule.2.pathIndex = s.pathIndex := rfl

@[simp] theorem visitRule_selectorValidity (s : IndexState) :
    s.visitRule.2.selectorValidity = s.selectorValidity := rfl

@[simp] theorem visitRule_namespaces (s : IndexState) : s.visitRule.2.namespaces = s.namespaces := rfl

@[simp] theorem addPath_selectorValidity (s : IndexState) (path : List ℕ) (node : RuleNode) :
    (s.addPath rules path node).selectorValidity = s.selectorValidity := by
  unfold addPath
  split
  · rfl
  · simp only
    split <;> rfl

@[simp] theorem addPath_namespaces (s : IndexState) (path : List ℕ) (node : RuleNode) :
    (s.addPath rules path node).namespaces = s.namespaces := by
  unfold addPath
  split
  · rfl
  · simp only
    split <;> rfl

@[simp] theorem addFallback_pathIndex (s : IndexState) (node : RuleNode) (media : List String)
    (trusted : Bool) : (s.addFallback rules node media trusted).pathIndex = s.pathIndex := by
  unfold addFallback
  split <;> rfl

@[simp] theorem addFallback_selectorValidity (s : IndexState) (node : RuleNode)
    (media : List String) (trusted : Bool) :
    (s.addFallback rules node media trusted).selectorValidity = s.selectorValidity := by
  unfold addFallback
  split <;> rfl

@[simp] theorem addFallback_namespaces (s : IndexState) (node : RuleNode) (media : List String)
    (trusted : Bool) : (s.addFallback rules node media trusted).namespaces = s.namespaces := by
  unfold addFallback
  split <;> rfl

@[simp] theorem addNamespace_pathIndex (s : IndexState) (name : Option String) :
    (s.addNamespace name).pathIndex = s.pathIndex := by
  unfold addNamespace
  split
  · rfl
  · split <;> rfl

@[simp] theorem addNamespace_selectorValidity (s : IndexState) (name : Option String) :
    (s.addNamespace name).selectorValidity = s.selectorValidity := by
  unfold addNamespace
  split
  · rfl
  · split <;> rfl

@[simp] theorem validSelector_pathIndex (s : IndexState) (node : RuleNode) (relative : Bool) :
    (s.validSelector parser node relative).2.pathIndex = s.pathIndex := by
  unfold validSelector
  split <;> rfl

@[simp] theorem validSelector_namespaces (s : IndexState) (node : RuleNode) (relative : Bool) :
    (s.validSelector parser node relative).2.namespaces = s.namespaces := by
  unfold validSelector
  split <;> rfl

theorem validSelector_keys {s : IndexState} {node : RuleNode} {relative : Bool} {id : NodeId}
    (h : id ∈ (s.validSelector parser node relative).2.selectorValidity.keys) :
    id ∈ s.selectorValidity.keys ∨ id = node.id := by
  unfold validSelector at h
  split at h
  · exact .inl h
  · exact (OrderedMap.mem_keys_set.1 h).symm

end IndexState

/-! ## Frames -/

/-- From `s` to `s'` only these style rules were asked about; unless `root`, no namespace was
declared; unless `trusted`, no path was added. -/
structure Frame (ids : List NodeId) (root trusted : Bool) (s s' : IndexState) : Prop where
  validity : ∀ id ∈ s'.selectorValidity.keys, id ∈ s.selectorValidity.keys ∨ id ∈ ids
  namespaces : root = false → s'.namespaces = s.namespaces
  pathIndex : trusted = false → s'.pathIndex = s.pathIndex

namespace Frame

variable {ids ids' : List NodeId} {root trusted trusted' : Bool} {s s' s'' : IndexState}

theorem refl (ids : List NodeId) (root trusted : Bool) (s : IndexState) :
    Frame ids root trusted s s :=
  ⟨fun _ h => .inl h, fun _ => rfl, fun _ => rfl⟩

theorem trans (h : Frame ids root trusted s s') (h' : Frame ids' root trusted' s' s'')
    (ht : trusted = false → trusted' = false) : Frame (ids ++ ids') root trusted s s'' where
  validity id hid := by
    rcases h'.validity id hid with hid | hid
    · rcases h.validity id hid with hid | hid
      · exact .inl hid
      · exact .inr (List.mem_append_left _ hid)
    · exact .inr (List.mem_append_right _ hid)
  namespaces hr := (h'.namespaces hr).trans (h.namespaces hr)
  pathIndex hf := (h'.pathIndex (ht hf)).trans (h.pathIndex hf)

/-- Steps that ask about no rule. -/
theorem of_eq (hv : s'.selectorValidity = s.selectorValidity)
    (hn : root = false → s'.namespaces = s.namespaces)
    (hp : trusted = false → s'.pathIndex = s.pathIndex) : Frame [] root trusted s s' :=
  ⟨fun _ h => .inl (hv ▸ h), hn, hp⟩

end Frame

/-- A call that indexes children. -/
def Framed (children : IndexChildren) : Prop :=
  ∀ container nodes trusted s, Frame (ruleIds nodes) (container.type = .root) trusted s
    (children container nodes trusted s)

/-- Below the root no namespace is declared. -/
theorem Framed.call {indexChildren : IndexChildren} (h : Framed indexChildren)
    {container : Container} (hne : container.type ≠ .root) (nodes : List Node) (root trusted : Bool)
    (s : IndexState) :
    Frame (ruleIds nodes) root trusted s (indexChildren container nodes trusted s) :=
  ⟨(h container nodes trusted s).validity,
    fun _ => (h container nodes trusted s).namespaces (decide_eq_false hne),
    (h container nodes trusted s).pathIndex⟩

variable {children : Option IndexChildren} {container : Container} {l : LoopState}
  {s : IndexState}

theorem flushDeclarations_frame (rules : RulesByNode) (container : Container) (l : LoopState)
    (s : IndexState) :
    (flushDeclarations rules container l s).1.pathTrusted = l.pathTrusted ∧
      Frame [] (container.type = .root) l.pathTrusted s
        (flushDeclarations rules container l s).2 := by
  unfold flushDeclarations
  split
  · exact ⟨rfl, .refl _ _ _ _⟩
  split
  · refine ⟨rfl, .of_eq ?_ (fun _ => ?_) fun hf => ?_⟩
    · simp only [IndexState.addFallback_selectorValidity]
      split <;> simp
    · simp only [IndexState.addFallback_namespaces]
      split <;> simp
    · simp [hf]
  · exact ⟨rfl, .refl _ _ _ _⟩

theorem indexStyleRule_frame (rules : RulesByNode) (container : Container)
    (hchildren : ∀ c ∈ children, Framed c) (node : RuleNode) (nodes : List Node) (l : LoopState)
    (s : IndexState) :
    (l.pathTrusted = false →
      (indexStyleRule rules children container node nodes l s).1.pathTrusted = false) ∧
      Frame (ruleIds nodes) (container.type = .root) l.pathTrusted s
        (indexStyleRule rules children container node nodes l s).2 := by
  obtain ⟨htrusted, hflush⟩ := flushDeclarations_frame rules container l s
  unfold indexStyleRule
  revert htrusted hflush
  generalize flushDeclarations rules container l s = flushed
  obtain ⟨l', s'⟩ := flushed
  intro htrusted hflush
  simp only at htrusted hflush
  have hown : Frame [] (container.type = .root) l.pathTrusted s'
      (if (l'.pathTrusted && s'.visitRule.1) = true then
        (s'.visitRule.2.addFallback rules node container.media
          (l'.pathTrusted && s'.visitRule.1)).addPath rules
            (container.parentPath ++ [l'.cssomIndex]) node
      else s'.visitRule.2.addFallback rules node container.media
        (l'.pathTrusted && s'.visitRule.1)) := by
    refine .of_eq ?_ (fun _ => ?_) fun hf => ?_
    · split <;> simp
    · split <;> simp
    · simp [htrusted, hf]
  have hboth := hflush.trans hown id
  rw [List.append_nil] at hboth
  cases children with
  | none =>
    refine ⟨fun hf => by simp [htrusted, hf], ?_⟩
    exact hboth.trans (.refl (ruleIds nodes) _ l.pathTrusted _) id
  | some indexChildren =>
    refine ⟨fun hf => by simp [htrusted, hf], ?_⟩
    exact hboth.trans ((hchildren indexChildren rfl).call (by simp) nodes _ _ _)
      fun hf => by simp [htrusted, hf]

theorem indexAtRule_frame (hchildren : ∀ c ∈ children, Framed c) (rule : AtRule)
    (nodes : List Node) (recurse : Option ContainerContext) (namespacePrefix : Option String) :
    (l.pathTrusted = false →
      (indexAtRule rules children container rule nodes recurse namespacePrefix l s).1.pathTrusted
        = false) ∧
      Frame (ruleIds nodes) (container.type = .root) l.pathTrusted s
        (indexAtRule rules children container rule nodes recurse namespacePrefix l s).2 := by
  obtain ⟨htrusted, hflush⟩ := flushDeclarations_frame rules container l s
  unfold indexAtRule
  revert htrusted hflush
  generalize flushDeclarations rules container l s = flushed
  obtain ⟨l', s'⟩ := flushed
  intro htrusted hflush
  simp only at htrusted hflush
  have hl : (if container.type = .root then
      { l' with rootPhase := nextRootPhase l'.rootPhase (jsToLowerCase rule.name) rule.hasBlock }
      else l').pathTrusted = l.pathTrusted := by
    split <;> exact htrusted
  have hown : Frame [] (container.type = .root) l.pathTrusted s'
      (if container.type = .root then s'.addNamespace namespacePrefix else s').visitRule.2 := by
    refine .of_eq ?_ (fun hr => ?_) fun _ => ?_
    · split <;> simp
    · rw [if_neg (of_decide_eq_false hr)]
      rfl
    · split <;> simp
  have hboth := hflush.trans hown id
  rw [List.append_nil] at hboth
  have hnone := hboth.trans (.refl (ruleIds nodes) _ l.pathTrusted _) id
  cases children with
  | none => exact ⟨fun hf => hl.trans hf, hnone⟩
  | some indexChildren =>
    cases recurse with
    | none => exact ⟨fun hf => hl.trans hf, hnone⟩
    | some context =>
      refine ⟨fun hf => hl.trans hf, ?_⟩
      exact hboth.trans ((hchildren indexChildren rfl).call (by simp) nodes _ _ _)
        fun hf => by simp [hl, hf]

theorem validSelector_frame (parser : SelectorParser) (node : RuleNode)
    (relative root trusted : Bool) (s : IndexState) :
    Frame [node.id] root trusted s (s.validSelector parser node relative).2 := by
  refine ⟨fun id hid => ?_, fun _ => by simp, fun _ => by simp⟩
  rcases IndexState.validSelector_keys hid with hid | hid
  · exact .inl hid
  · exact .inr (by simp [hid])

theorem indexNode_frame (parser : SelectorParser) (rules : RulesByNode) (container : Container)
    (hchildren : ∀ c ∈ children, Framed c) (l : LoopState) (s : IndexState) (node : Node) :
    (l.pathTrusted = false →
      (indexNode parser rules children container (l, s) node).1.pathTrusted = false) ∧
      Frame node.ruleIds (container.type = .root) l.pathTrusted s
        (indexNode parser rules children container (l, s) node).2 := by
  cases node with
  | decl => exact ⟨id, .refl _ _ _ _⟩
  | comment => exact ⟨id, .refl _ _ _ _⟩
  | other => exact ⟨fun _ => rfl, .refl _ _ _ _⟩
  | rule node nodes =>
    simp only [indexNode, Node.ruleIds_rule]
    cases container.context with
    | keyframes =>
      obtain ⟨htrusted, hflush⟩ := flushDeclarations_frame rules container l s
      refine ⟨fun hf => htrusted.trans hf, ?_⟩
      have hall := hflush.trans (.refl (node.id :: ruleIds nodes) _ l.pathTrusted _) id
      exact ⟨hall.validity, hall.namespaces, hall.pathIndex⟩
    | rules =>
      have hvalid := validSelector_frame parser node container.owner.isSome
        (container.type = .root) l.pathTrusted s
      simp only
      split
      · have hrule := indexStyleRule_frame rules container hchildren node nodes l
          (s.validSelector parser node container.owner.isSome).2
        exact ⟨hrule.1, hvalid.trans hrule.2 id⟩
      · exact ⟨fun _ => rfl, hvalid.trans (.refl (ruleIds nodes) _ l.pathTrusted _) id⟩
  | atrule rule nodes =>
    simp only [indexNode, Node.ruleIds_atrule]
    split
    · exact ⟨id, .refl _ _ _ _⟩
    · exact ⟨fun _ => rfl, .refl _ _ _ _⟩
    · exact indexAtRule_frame hchildren rule nodes _ _

theorem indexNodes_frame (parser : SelectorParser) (rules : RulesByNode) (container : Container)
    (hchildren : ∀ c ∈ children, Framed c) (nodes : List Node) (l : LoopState) (s : IndexState) :
    (l.pathTrusted = false →
      (nodes.foldl (indexNode parser rules children container) (l, s)).1.pathTrusted = false) ∧
      Frame (ruleIds nodes) (container.type = .root) l.pathTrusted s
        (nodes.foldl (indexNode parser rules children container) (l, s)).2 := by
  induction nodes generalizing l s with
  | nil => exact ⟨id, .refl _ _ _ _⟩
  | cons node rest ih =>
    obtain ⟨htrusted, hnode⟩ := indexNode_frame parser rules container hchildren l s node
    rw [List.foldl_cons, ruleIds_cons]
    obtain ⟨htrusted', hrest⟩ := ih
      (indexNode parser rules children container (l, s) node).1
      (indexNode parser rules children container (l, s) node).2
    exact ⟨fun hf => htrusted' (htrusted hf), hnode.trans hrest htrusted⟩

/-- The rest of a container: its nodes and the declarations that wait at the end. -/
theorem indexRest_frame (parser : SelectorParser) (rules : RulesByNode) (container : Container)
    (hchildren : ∀ c ∈ children, Framed c) (nodes : List Node) (l : LoopState) (s : IndexState) :
    Frame (ruleIds nodes) (container.type = .root) l.pathTrusted s
      (flushDeclarations rules container
        (nodes.foldl (indexNode parser rules children container) (l, s)).1
        (nodes.foldl (indexNode parser rules children container) (l, s)).2).2 := by
  obtain ⟨htrusted, hnodes⟩ := indexNodes_frame parser rules container hchildren nodes l s
  have hflush := (flushDeclarations_frame rules container
    (nodes.foldl (indexNode parser rules children container) (l, s)).1
    (nodes.foldl (indexNode parser rules children container) (l, s)).2).2
  have hall := hnodes.trans hflush htrusted
  rwa [List.append_nil] at hall

/-- The children calls of a container that stands `levels` above the greatest depth. -/
def childrenAt (parser : SelectorParser) (rules : RulesByNode) : ℕ → Option IndexChildren
  | 0 => none
  | levels + 1 => some (indexContainer parser rules levels)

theorem indexContainer_eq (levels : ℕ) (container : Container) (nodes : List Node) (trusted : Bool)
    (s : IndexState) :
    indexContainer parser rules levels container nodes trusted s =
      (flushDeclarations rules container
        (nodes.foldl (indexNode parser rules (childrenAt parser rules levels) container)
          (LoopState.start container trusted, s)).1
        (nodes.foldl (indexNode parser rules (childrenAt parser rules levels) container)
          (LoopState.start container trusted, s)).2).2 := by
  cases levels <;> rfl

theorem indexContainer_framed (levels : ℕ) : Framed (indexContainer parser rules levels) := by
  induction levels with
  | zero =>
    intro container nodes trusted s
    rw [indexContainer_eq]
    exact indexRest_frame parser rules container (fun c hc => by cases hc) nodes (.start container trusted) s
  | succ levels ih =>
    intro container nodes trusted s
    rw [indexContainer_eq]
    exact indexRest_frame parser rules container (fun c hc => by cases hc; exact ih) nodes (.start container trusted) s

theorem childrenAt_framed (levels : ℕ) : ∀ c ∈ childrenAt parser rules levels, Framed c := by
  cases levels with
  | zero => intro c hc; cases hc
  | succ levels => intro c hc; cases hc; exact indexContainer_framed levels

end PinOp.Css
