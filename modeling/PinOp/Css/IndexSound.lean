import PinOp.Css.Cssom
import PinOp.Css.IndexFrame
import PinOp.Css.RulePathText

/-!
# The index numbers the rules of the CSSOM

Where the count of a container is trusted, the child numbers of the index are the child
numbers of the CSSOM: every path that is added leads to the rule it is added for. The
induction is on the depth and on the children of a container; what it carries is that the
children counted so far are as many as the rules of the CSSOM so far, and that no path at or
behind the next number is in the index yet.
-/

namespace PinOp.Css

open PinOp.Lib

variable {parser : SelectorParser} {rules : RulesByNode}

abbrev PathIndex := OrderedMap String (Option StylesheetRule)

/-- The entry is the parsed rule of the CSSOM rule at this path. -/
def Placed (rules : RulesByNode) (sources : List RuleSource) (path : List ℕ)
    (entry : Option StylesheetRule) : Prop :=
  ∃ source rule id, entry = some rule ∧ ruleAt sources path = some source ∧
    source.origin = some id ∧ rules.get? id = some rule

/-- What is new in `index'` are placed paths below `parent`, at numbers from `lo` to `hi`. -/
def Adds (rules : RulesByNode) (parent : List ℕ) (sources : List RuleSource) (lo hi : ℕ)
    (index index' : PathIndex) : Prop :=
  ∀ key entry, index'.get? key = some entry → index.get? key = some entry ∨
    ∃ i rest, lo ≤ i ∧ i < hi ∧ key = joinPath (parent ++ i :: rest) ∧
      Placed rules sources (i :: rest) entry

/-- No path below `parent` at a number from `lo` on. -/
def Fresh (parent : List ℕ) (lo : ℕ) (index : PathIndex) : Prop :=
  ∀ i rest, lo ≤ i → index.get? (joinPath (parent ++ i :: rest)) = none

theorem joinPath_below_inj {parent : List ℕ} {i j : ℕ} {rest rest' : List ℕ}
    (h : joinPath (parent ++ i :: rest) = joinPath (parent ++ j :: rest')) :
    i = j ∧ rest = rest' := by
  have hpath := joinPath_inj (by simp) (by simp) h
  rw [List.append_cancel_left_eq] at hpath
  exact List.cons.inj hpath

namespace Adds

variable {parent : List ℕ} {sources : List RuleSource} {lo mid hi : ℕ}
  {index index' index'' : PathIndex}

theorem of_eq (h : index' = index) : Adds rules parent sources lo hi index index' := by
  subst h
  exact fun _ _ h => .inl h

theorem trans (h : Adds rules parent sources lo mid index index')
    (h' : Adds rules parent sources mid hi index' index'') (hlo : lo ≤ mid) (hhi : mid ≤ hi) :
    Adds rules parent sources lo hi index index'' := by
  intro key entry hkey
  rcases h' key entry hkey with hkey | ⟨i, rest, hi₁, hi₂, hpath, hplaced⟩
  · rcases h key entry hkey with hkey | ⟨i, rest, hi₁, hi₂, hpath, hplaced⟩
    · exact .inl hkey
    · exact .inr ⟨i, rest, hi₁, by omega, hpath, hplaced⟩
  · exact .inr ⟨i, rest, by omega, hi₂, hpath, hplaced⟩

/-- Two steps at the same number. -/
theorem trans_same (h : Adds rules parent sources lo hi index index')
    (h' : Adds rules parent sources lo hi index' index'') :
    Adds rules parent sources lo hi index index'' := by
  intro key entry hkey
  rcases h' key entry hkey with hkey | hkey
  · exact h key entry hkey
  · exact .inr hkey

theorem mono (h : Adds rules parent sources lo mid index index') (hhi : mid ≤ hi) :
    Adds rules parent sources lo hi index index' := by
  intro key entry hkey
  rcases h key entry hkey with hkey | ⟨i, rest, hi₁, hi₂, hpath, hplaced⟩
  · exact .inl hkey
  · exact .inr ⟨i, rest, hi₁, by omega, hpath, hplaced⟩

/-- What is added below a child. -/
theorem child {i n : ℕ} {source : RuleSource} (hsource : sources[i]? = some source)
    (h : Adds rules (parent ++ [i]) source.cssRules 0 n index index') :
    Adds rules parent sources i (i + 1) index index' := by
  intro key entry hkey
  rcases h key entry hkey with hkey | ⟨j, rest, -, -, hpath, below, rule, id, hentry, hat, hid⟩
  · exact .inl hkey
  · refine .inr ⟨i, j :: rest, le_refl i, by omega, ?_, below, rule, id, hentry, ?_, hid⟩
    · rw [hpath, List.append_assoc]
      rfl
    · rw [ruleAt_cons hsource (by simp)]
      exact hat

end Adds

namespace Fresh

variable {parent : List ℕ} {sources : List RuleSource} {lo hi : ℕ} {index index' : PathIndex}

theorem mono (h : Fresh parent lo index) (hle : lo ≤ hi) : Fresh parent hi index :=
  fun i rest hi => h i rest (by omega)

theorem adds (h : Fresh parent lo index) (hle : lo ≤ hi)
    (hadds : Adds rules parent sources lo hi index index') : Fresh parent hi index' := by
  intro i rest hi'
  rw [Option.eq_none_iff_forall_ne_some]
  intro entry hentry
  rcases hadds _ entry hentry with hold | ⟨j, rest', -, hj, hpath, -⟩
  · rw [h i rest (by omega)] at hold
    cases hold
  · obtain ⟨rfl, -⟩ := joinPath_below_inj hpath
    omega

/-- Below the next child. -/
theorem child {i : ℕ} (h : Fresh parent i index) : Fresh (parent ++ [i]) 0 index := by
  intro j rest _
  have hsame : parent ++ [i] ++ j :: rest = parent ++ i :: j :: rest := by simp
  rw [hsame]
  exact h i (j :: rest) (le_refl i)

/-- Below the next child, once its own path was added. -/
theorem child_set {i : ℕ} (h : Fresh parent i index) (entry : Option StylesheetRule) :
    Fresh (parent ++ [i]) 0 (index.set (joinPath (parent ++ [i])) entry) := by
  intro j rest hj
  rw [OrderedMap.get?_set, if_neg]
  · exact h.child j rest hj
  · intro heq
    have hpath := joinPath_inj (by simp) (by simp) heq
    simp at hpath

end Fresh

/-! ## Adding one path -/

/-- A path that is not in the index yet. -/
theorem addPath_pathIndex {s : IndexState} {path : List ℕ} {node : RuleNode}
    (h : s.pathIndex.get? (joinPath path) = none) :
    (s.addPath rules path node).pathIndex =
      match rules.get? node.id with
      | none => s.pathIndex
      | some rule => s.pathIndex.set (joinPath path) (some rule) := by
  unfold IndexState.addPath
  cases rules.get? node.id with
  | none => rfl
  | some rule =>
    have hhas : s.pathIndex.has (joinPath path) = false := by rw [OrderedMap.has, h]; rfl
    simp only [hhas, Bool.false_eq_true, if_false]

theorem addPath_adds {s : IndexState} {parent : List ℕ} {i : ℕ} {node : RuleNode}
    {sources : List RuleSource} {source : RuleSource} (hfresh : Fresh parent i s.pathIndex)
    (hsource : sources[i]? = some source) (horigin : source.origin = some node.id) :
    Adds rules parent sources i (i + 1) s.pathIndex
      (s.addPath rules (parent ++ [i]) node).pathIndex := by
  rw [addPath_pathIndex (hfresh i [] (le_refl i))]
  cases hrule : rules.get? node.id with
  | none => exact .of_eq rfl
  | some rule =>
    intro key entry hkey
    rw [OrderedMap.get?_set] at hkey
    split at hkey
    next hpath =>
      obtain rfl := Option.some.inj hkey
      exact .inr ⟨i, [], le_refl i, by omega, hpath, source, rule, node.id, rfl, hsource,
        horigin, hrule⟩
    · exact .inl hkey

/-! ## The loop -/

def Container.cssom (c : Container) : CssomContainer := ⟨c.type, c.owner, c.context⟩

/-- Where the loop is, as the CSSOM sees it. -/
def LoopState.reading (l : LoopState) (namespaces : List String) : CssomReading :=
  ⟨l.cssRuleSeen, l.declarationsPending, l.rootPhase, namespaces⟩

/-- The style rules of these nodes are distinct and were not asked about. -/
structure Unasked (ids : List NodeId) (s : IndexState) : Prop where
  nodup : ids.Nodup
  notMem : ∀ id ∈ ids, id ∉ s.selectorValidity.keys

namespace Unasked

variable {ids ids' : List NodeId} {s s' : IndexState}

theorem left (h : Unasked (ids ++ ids') s) : Unasked ids s :=
  ⟨(List.nodup_append.1 h.nodup).1, fun id hid => h.notMem id (List.mem_append_left _ hid)⟩

theorem congr (h : Unasked ids s) (heq : s'.selectorValidity = s.selectorValidity) :
    Unasked ids s' :=
  ⟨h.nodup, fun id hid => heq ▸ h.notMem id hid⟩

/-- After the first ones were asked about. -/
theorem right (h : Unasked (ids ++ ids') s) {root trusted : Bool}
    (hframe : Frame ids root trusted s s') : Unasked ids' s' := by
  obtain ⟨-, hnodup, hdisjoint⟩ := List.nodup_append.1 h.nodup
  refine ⟨hnodup, fun id hid hmem => ?_⟩
  rcases hframe.validity id hmem with hold | hnew
  · exact h.notMem id (List.mem_append_right _ hid) hold
  · exact hdisjoint id hnew id hid rfl

end Unasked

/-- What the loop over the children of a trusted container keeps: `before` are the rules of the
CSSOM so far, `rest` are the ones still to come. -/
structure InStep (container : Container) (l : LoopState) (s : IndexState)
    (before : List RuleSource) : Prop where
  trusted : l.pathTrusted = true
  counted : before.length = l.cssomIndex
  fresh : Fresh container.parentPath l.cssomIndex s.pathIndex

/-- The declarations that wait are numbered as the rule they become. -/
theorem flushDeclarations_adds (rules : RulesByNode) {container : Container} {l : LoopState} {s : IndexState}
    {before run : List RuleSource} (h : InStep container l s before)
    (hrun : DeclarationRun container.cssom l.declarationsPending run) (rest : List RuleSource) :
    let flushed := flushDeclarations rules container l s
    InStep container flushed.1 flushed.2 (before ++ run) ∧
      flushed.1.reading flushed.2.namespaces =
        { l.reading s.namespaces with declarationsPending := false } ∧
      flushed.2.selectorValidity = s.selectorValidity ∧ l.cssomIndex ≤ flushed.1.cssomIndex ∧
      Adds rules container.parentPath (before ++ run ++ rest) l.cssomIndex flushed.1.cssomIndex
        s.pathIndex flushed.2.pathIndex := by
  obtain ⟨htrusted, hcounted, hfresh⟩ := h
  obtain ⟨pathTrusted, index, seen, pending, phase⟩ := l
  simp only at htrusted hcounted hfresh hrun
  subst htrusted hcounted
  cases hrun with
  | none =>
    have hflush : flushDeclarations rules container
        ⟨true, before.length, seen, false, phase⟩ s = (⟨true, before.length, seen, false, phase⟩, s) := by
      unfold flushDeclarations
      split <;> rfl
    simp only [hflush, List.append_nil]
    exact ⟨⟨rfl, by simp, hfresh⟩, by simp [LoopState.reading], by simp, by simp, .of_eq rfl⟩
  | one howner horigin =>
    next owner source =>
    have howner' : container.owner = some owner := howner
    have hsource : (before ++ [source] ++ rest)[before.length]? = some source := by simp
    have hadds : Adds rules container.parentPath (before ++ [source] ++ rest) before.length
        (before.length + 1) s.pathIndex
        (if s.visitRule.1 = true then
          s.visitRule.2.addPath rules (container.parentPath ++ [before.length]) owner
          else s.visitRule.2).pathIndex := by
      split
      · exact addPath_adds (s := s.visitRule.2) hfresh hsource horigin
      · exact .of_eq rfl
    simp only [flushDeclarations, howner', if_true, Bool.true_and]
    refine ⟨⟨rfl, by simp, ?_⟩, ?_, ?_, by simp, ?_⟩
    · rw [IndexState.addFallback_pathIndex]
      exact hfresh.adds (Nat.le_succ _) hadds
    · simp only [LoopState.reading, IndexState.addFallback_namespaces]
      split <;> simp
    · rw [IndexState.addFallback_selectorValidity]
      split <;> simp
    · rw [IndexState.addFallback_pathIndex]
      exact hadds

/-- What one round of the loop does: it adds the paths of the rules that were `before` and are
`before'` now, and as long as the count is trusted the loop stays in step. -/
structure Counted (rules : RulesByNode) (container : Container) (l : LoopState) (s : IndexState)
    (l' : LoopState) (s' : IndexState) (before' rest : List RuleSource) : Prop where
  le : l.cssomIndex ≤ l'.cssomIndex
  adds : Adds rules container.parentPath (before' ++ rest) l.cssomIndex l'.cssomIndex s.pathIndex
    s'.pathIndex
  inStep : l'.pathTrusted = true → InStep container l' s' before'

/-- A call that numbers the children of a trusted container as the CSSOM does. -/
def Sound (parser : SelectorParser) (rules : RulesByNode) (indexChildren : IndexChildren) : Prop :=
  ∀ (container : Container) (nodes : List Node) (s : IndexState) (sources : List RuleSource),
    Built parser container.cssom (container.cssom.start s.namespaces) nodes sources →
    Fresh container.parentPath 0 s.pathIndex → Unasked (ruleIds nodes) s →
    ∃ hi, Adds rules container.parentPath sources 0 hi s.pathIndex
      (indexChildren container nodes true s).pathIndex

variable {children : Option IndexChildren} {container : Container}

/-- The children of a child, whether its container is trusted or not. -/
theorem childCall_adds {indexChildren : IndexChildren} (hframed : Framed indexChildren)
    (hsound : Sound parser rules indexChildren) {child : Container} {nodes : List Node}
    {s : IndexState} {trusted : Bool} {sources : List RuleSource} {source : RuleSource}
    {parent : List ℕ} {i : ℕ} (hpath : child.parentPath = parent ++ [i])
    (hsource : sources[i]? = some source)
    (hbuilt : Built parser child.cssom (child.cssom.start s.namespaces) nodes source.cssRules)
    (hfresh : Fresh (parent ++ [i]) 0 s.pathIndex) (hunasked : Unasked (ruleIds nodes) s) :
    Adds rules parent sources i (i + 1) s.pathIndex
      (indexChildren child nodes trusted s).pathIndex := by
  cases trusted with
  | false => exact .of_eq ((hframed child nodes false s).pathIndex rfl)
  | true =>
    obtain ⟨hi, hadds⟩ := hsound child nodes s source.cssRules hbuilt (hpath ▸ hfresh) hunasked
    rw [hpath] at hadds
    exact hadds.child hsource

/-- A child that is counted after the declarations that waited. -/
theorem InStep.counted_child {l l' l'' : LoopState} {s s' s'' : IndexState}
    {before run rest : List RuleSource} {source : RuleSource}
    (h : InStep container l' s' (before ++ run)) (hle : l.cssomIndex ≤ l'.cssomIndex)
    (hadds : Adds rules container.parentPath (before ++ run ++ source :: rest) l.cssomIndex
      l'.cssomIndex s.pathIndex s'.pathIndex)
    (hindex : l''.cssomIndex = l'.cssomIndex + 1)
    (hown : Adds rules container.parentPath (before ++ run ++ source :: rest) l'.cssomIndex
      (l'.cssomIndex + 1) s'.pathIndex s''.pathIndex) :
    Counted rules container l s l'' s'' (before ++ run ++ [source]) rest := by
  have hall : before ++ run ++ [source] ++ rest = before ++ run ++ source :: rest := by simp
  refine ⟨by omega, ?_, fun htrusted => ⟨htrusted, ?_, ?_⟩⟩
  · rw [hall, hindex]
    exact hadds.trans hown hle (Nat.le_succ _)
  · rw [List.length_append, h.counted, hindex]
    rfl
  · rw [hindex]
    exact h.fresh.adds (Nat.le_succ _) hown

theorem InStep.getElem? {l : LoopState} {s : IndexState} {before : List RuleSource}
    (h : InStep container l s before) (source : RuleSource) (rest : List RuleSource) :
    (before ++ source :: rest)[l.cssomIndex]? = some source := by
  rw [← h.counted]
  simp

/-- The next child's own path, if it is added. -/
theorem addOwnPath (rules : RulesByNode) (trusted : Bool) {s : IndexState} {parent : List ℕ} {i : ℕ} {node : RuleNode}
    {sources : List RuleSource} {source : RuleSource} (hfresh : Fresh parent i s.pathIndex)
    (hsource : sources[i]? = some source) (horigin : source.origin = some node.id) :
    let s' := if trusted = true then s.addPath rules (parent ++ [i]) node else s
    Adds rules parent sources i (i + 1) s.pathIndex s'.pathIndex ∧
      Fresh (parent ++ [i]) 0 s'.pathIndex ∧ s'.selectorValidity = s.selectorValidity ∧
      s'.namespaces = s.namespaces := by
  cases trusted with
  | false => exact ⟨.of_eq rfl, hfresh.child, rfl, rfl⟩
  | true =>
    refine ⟨addPath_adds hfresh hsource horigin, ?_, by simp, by simp⟩
    simp only [if_true]
    rw [addPath_pathIndex (hfresh i [] (le_refl i))]
    cases rules.get? node.id with
    | none => exact hfresh.child
    | some rule => exact hfresh.child_set (some rule)

theorem reading_afterRule {l l' : LoopState} {namespaces names : List String} {phase : RootPhase}
    (hseen : l'.cssRuleSeen = true) (hpending : l'.declarationsPending = false)
    (hphase : l'.rootPhase = phase) :
    l'.reading names = (l.reading namespaces).afterRule phase names := by
  rw [LoopState.reading, CssomReading.afterRule, hseen, hpending, hphase]

theorem indexStyleRule_counted (hframed : ∀ c ∈ children, Framed c)
    (hsound : ∀ c ∈ children, Sound parser rules c) {l : LoopState} {s : IndexState}
    {before run : List RuleSource} (h : InStep container l s before)
    (hrun : DeclarationRun container.cssom l.declarationsPending run) {node : RuleNode}
    {nodes : List Node} {source : RuleSource} (horigin : source.origin = some node.id)
    (hbuilt : Built parser (.ofRule node) ((CssomContainer.ofRule node).start s.namespaces) nodes
      source.cssRules)
    (hunasked : Unasked (ruleIds nodes) s) (rest : List RuleSource) :
    let next := indexStyleRule rules children container node nodes l s
    Counted rules container l s next.1 next.2 (before ++ run ++ [source]) rest ∧
      next.1.reading next.2.namespaces =
        (l.reading s.namespaces).afterStyleRule (container.cssom.bodyAtRoot l.rootPhase) := by
  obtain ⟨hflushed, hreading, hvalidity, hle, hadds⟩ :=
    flushDeclarations_adds rules h hrun (source :: rest)
  unfold indexStyleRule
  revert hflushed hreading hvalidity hle hadds
  generalize flushDeclarations rules container l s = flushed
  obtain ⟨l', s'⟩ := flushed
  intro hflushed hreading hvalidity hle hadds
  simp only at hflushed hreading hvalidity hle hadds
  obtain ⟨hpending, hphase, hnamespaces⟩ : l'.declarationsPending = false ∧
      l'.rootPhase = l.rootPhase ∧ s'.namespaces = s.namespaces := by
    simp only [LoopState.reading, CssomReading.mk.injEq] at hreading
    exact hreading.2
  have hsource := hflushed.getElem? source rest
  have hfresh : Fresh container.parentPath l'.cssomIndex
      (s'.visitRule.2.addFallback rules node container.media
        (l'.pathTrusted && s'.visitRule.1)).pathIndex := by
    simpa using hflushed.fresh
  obtain ⟨hown, hbelow, hvalidity', hnamespaces'⟩ :=
    addOwnPath rules (l'.pathTrusted && s'.visitRule.1) hfresh hsource horigin
  simp only [IndexState.addFallback_pathIndex, IndexState.visitRule_pathIndex] at hown
  simp only [IndexState.addFallback_selectorValidity, IndexState.visitRule_selectorValidity]
    at hvalidity'
  simp only [IndexState.addFallback_namespaces, IndexState.visitRule_namespaces] at hnamespaces'
  have hreading' : ∀ trusted : Bool, ∀ names : List String, names = s.namespaces →
      LoopState.reading ⟨trusted, l'.cssomIndex + 1, true, l'.declarationsPending,
        bodyAtRoot container l'.rootPhase⟩ names =
        (l.reading s.namespaces).afterStyleRule (container.cssom.bodyAtRoot l.rootPhase) := by
    rintro trusted names rfl
    exact reading_afterRule rfl hpending (by rw [hphase]; rfl)
  cases children with
  | none =>
    exact ⟨hflushed.counted_child hle hadds rfl hown,
      hreading' _ _ (hnamespaces'.trans hnamespaces)⟩
  | some indexChildren =>
    refine ⟨hflushed.counted_child hle hadds rfl (hown.trans_same ?_), hreading' _ _ ?_⟩
    · refine childCall_adds (hframed indexChildren rfl) (hsound indexChildren rfl) rfl hsource ?_
        hbelow (hunasked.congr (hvalidity'.trans hvalidity))
      rw [hnamespaces', hnamespaces]
      exact hbuilt
    · exact (((hframed indexChildren rfl).call (by simp) nodes false _ _).namespaces rfl).trans
        (hnamespaces'.trans hnamespaces)

theorem indexAtRule_counted (hframed : ∀ c ∈ children, Framed c)
    (hsound : ∀ c ∈ children, Sound parser rules c) {l : LoopState} {s : IndexState}
    {before run : List RuleSource} (h : InStep container l s before)
    (hrun : DeclarationRun container.cssom l.declarationsPending run) {rule : AtRule}
    {nodes : List Node} {recurse : Option ContainerContext} {namespacePrefix : Option String}
    {source : RuleSource}
    (hbuilt : ∀ context, recurse = some context →
      Built parser (container.cssom.ofAtRule context)
        ((container.cssom.ofAtRule context).start
          ((l.reading s.namespaces).afterAtRule container.cssom rule namespacePrefix).namespaces)
        nodes source.cssRules)
    (hunasked : Unasked (ruleIds nodes) s) (rest : List RuleSource) :
    let next := indexAtRule rules children container rule nodes recurse namespacePrefix l s
    Counted rules container l s next.1 next.2 (before ++ run ++ [source]) rest ∧
      next.1.reading next.2.namespaces =
        (l.reading s.namespaces).afterAtRule container.cssom rule namespacePrefix := by
  obtain ⟨hflushed, hreading, hvalidity, hle, hadds⟩ :=
    flushDeclarations_adds rules h hrun (source :: rest)
  unfold indexAtRule
  revert hflushed hreading hvalidity hle hadds
  generalize flushDeclarations rules container l s = flushed
  obtain ⟨l', s'⟩ := flushed
  intro hflushed hreading hvalidity hle hadds
  simp only at hflushed hreading hvalidity hle hadds
  obtain ⟨hpending, hphase, hnamespaces⟩ : l'.declarationsPending = false ∧
      l'.rootPhase = l.rootPhase ∧ s'.namespaces = s.namespaces := by
    simp only [LoopState.reading, CssomReading.mk.injEq] at hreading
    exact hreading.2
  have hsource := hflushed.getElem? source rest
  let s₁ := if container.type = .root then s'.addNamespace namespacePrefix else s'
  let l₁ := if container.type = .root then
    { l' with rootPhase := nextRootPhase l'.rootPhase (jsToLowerCase rule.name) rule.hasBlock }
    else l'
  have hindex : l₁.cssomIndex = l'.cssomIndex := by
    simp only [l₁]
    split <;> rfl
  have hpath₁ : s₁.pathIndex = s'.pathIndex := by
    simp only [s₁]
    split <;> simp
  have hvalidity₁ : s₁.selectorValidity = s.selectorValidity := by
    rw [← hvalidity]
    simp only [s₁]
    split <;> simp
  have hreading' : LoopState.reading { l₁ with cssomIndex := l₁.cssomIndex + 1, cssRuleSeen := true }
      s₁.namespaces = (l.reading s.namespaces).afterAtRule container.cssom rule namespacePrefix := by
    by_cases hroot : container.type = .root
    · have hnames : (s'.addNamespace namespacePrefix).namespaces =
          CssomReading.insertNamespace s.namespaces namespacePrefix := by
        rw [← hnamespaces]
        cases namespacePrefix with
        | none => rfl
        | some name =>
          simp only [IndexState.addNamespace, CssomReading.insertNamespace]
          split <;> rfl
      simp only [l₁, s₁, if_pos hroot, hnames]
      rw [CssomReading.afterAtRule, if_pos (show container.cssom.type = .root from hroot)]
      exact reading_afterRule rfl hpending (by rw [hphase]; rfl)
    · simp only [l₁, s₁, if_neg hroot, hnamespaces]
      rw [CssomReading.afterAtRule, if_neg (show ¬ container.cssom.type = .root from hroot)]
      exact reading_afterRule rfl hpending hphase
  have hnames : s₁.namespaces =
      ((l.reading s.namespaces).afterAtRule container.cssom rule namespacePrefix).namespaces := by
    rw [← hreading']
    rfl
  have hnone : Adds rules container.parentPath (before ++ run ++ source :: rest) l'.cssomIndex
      (l'.cssomIndex + 1) s'.pathIndex s₁.visitRule.2.pathIndex := .of_eq hpath₁
  cases children with
  | none => exact ⟨hflushed.counted_child hle hadds (by rw [← hindex]) hnone, hreading'⟩
  | some indexChildren =>
    cases recurse with
    | none => exact ⟨hflushed.counted_child hle hadds (by rw [← hindex]) hnone, hreading'⟩
    | some context =>
      refine ⟨hflushed.counted_child hle hadds (by rw [← hindex]) (hnone.trans_same ?_), ?_⟩
      · refine childCall_adds (hframed indexChildren rfl) (hsound indexChildren rfl)
          (congrArg (fun i => container.parentPath ++ [i]) hindex) hsource ?_ ?_
          (hunasked.congr hvalidity₁)
        · exact hnames ▸ hbuilt context rfl
        · exact hpath₁ ▸ hflushed.fresh.child
      · rw [← hreading']
        exact congrArg (LoopState.reading
          { l₁ with cssomIndex := l₁.cssomIndex + 1, cssRuleSeen := true })
          (((hframed indexChildren rfl).call (by simp) nodes false _ _).namespaces rfl)

/-- `validSelector` is asked about a rule for the first time. -/
theorem validSelector_eq {s : IndexState} {node : RuleNode} {relative : Bool}
    (h : node.id ∉ s.selectorValidity.keys) :
    (s.validSelector parser node relative).1 =
      IndexState.selectorValid parser node relative s.namespaces := by
  rw [IndexState.validSelector, OrderedMap.get?_eq_none.2 h]

/-- The rest of a container, once a round has been counted. -/
theorem Counted.finish {l l' : LoopState} {s s' : IndexState} {before' rest : List RuleSource}
    {nodes : List Node} (h : Counted rules container l s l' s' before' rest)
    (hframed : ∀ c ∈ children, Framed c)
    (hrest : l'.pathTrusted = true → ∃ hi, l'.cssomIndex ≤ hi ∧
      Adds rules container.parentPath (before' ++ rest) l'.cssomIndex hi s'.pathIndex
        (flushDeclarations rules container
          (nodes.foldl (indexNode parser rules children container) (l', s')).1
          (nodes.foldl (indexNode parser rules children container) (l', s')).2).2.pathIndex) :
    ∃ hi, l.cssomIndex ≤ hi ∧
      Adds rules container.parentPath (before' ++ rest) l.cssomIndex hi s.pathIndex
        (flushDeclarations rules container
          (nodes.foldl (indexNode parser rules children container) (l', s')).1
          (nodes.foldl (indexNode parser rules children container) (l', s')).2).2.pathIndex := by
  cases htrusted : l'.pathTrusted with
  | false =>
    -- nothing is added any more
    have hsame := (indexRest_frame parser rules container
      hframed nodes l' s').pathIndex htrusted
    exact ⟨l'.cssomIndex, h.le, hsame ▸ h.adds⟩
  | true =>
    obtain ⟨hi, hle, hadds⟩ := hrest htrusted
    exact ⟨hi, h.le.trans hle, h.adds.trans hadds h.le hle⟩

/-- The loop over the children, from any round on. -/
theorem indexRest_adds (hframed : ∀ c ∈ children, Framed c)
    (hsound : ∀ c ∈ children, Sound parser rules c) {nodes : List Node} {l : LoopState}
    {s : IndexState} {before sources : List RuleSource} (h : InStep container l s before)
    (hbuilt : Built parser container.cssom (l.reading s.namespaces) nodes sources)
    (hunasked : Unasked (ruleIds nodes) s) :
    ∃ hi, l.cssomIndex ≤ hi ∧
      Adds rules container.parentPath (before ++ sources) l.cssomIndex hi s.pathIndex
        (flushDeclarations rules container
          (nodes.foldl (indexNode parser rules children container) (l, s)).1
          (nodes.foldl (indexNode parser rules children container) (l, s)).2).2.pathIndex := by
  induction nodes generalizing l s before sources with
  | nil =>
    cases hbuilt with
    | done hrun =>
      obtain ⟨-, -, -, hle, hadds⟩ := flushDeclarations_adds rules h hrun []
      rw [List.append_nil] at hadds
      exact ⟨_, hle, hadds⟩
  | cons node rest ih =>
    rw [ruleIds_cons] at hunasked
    have hrest : Unasked (ruleIds rest)
        (indexNode parser rules children container (l, s) node).2 :=
      hunasked.right (indexNode_frame parser rules container hframed l s node).2
    rw [List.foldl_cons]
    cases hbuilt with
    | decl hbuilt =>
      have hstep : InStep container
          { l with
            declarationsPending :=
              l.declarationsPending || (container.owner.isSome && l.cssRuleSeen) } s before :=
        ⟨h.trusted, h.counted, h.fresh⟩
      exact ih hstep hbuilt hrest
    | comment hbuilt => exact ih h hbuilt hrest
    | keyframe hcontext hrun hbuilt =>
      next node nodes run sources source =>
      have hcontext' : container.context = .keyframes := hcontext
      obtain ⟨hflushed, hreading, -, hle, hadds⟩ :=
        flushDeclarations_adds rules h hrun (source :: sources)
      have hnode : indexNode parser rules children container (l, s) (.rule node nodes) =
          ({ (flushDeclarations rules container l s).1 with
              cssomIndex := (flushDeclarations rules container l s).1.cssomIndex + 1
              cssRuleSeen := true },
            (flushDeclarations rules container l s).2.visitRule.2) := by
        simp only [indexNode, hcontext']
      rw [hnode] at hrest ⊢
      have hcounted : Counted rules container l s
          { (flushDeclarations rules container l s).1 with
            cssomIndex := (flushDeclarations rules container l s).1.cssomIndex + 1
            cssRuleSeen := true } (flushDeclarations rules container l s).2.visitRule.2
          (before ++ run ++ [source]) sources :=
        hflushed.counted_child hle hadds rfl (.of_eq rfl)
      have hall : before ++ (run ++ source :: sources) = before ++ run ++ [source] ++ sources := by
        simp
      rw [hall]
      refine hcounted.finish hframed fun htrusted => ih (hcounted.inStep htrusted) ?_ hrest
      simp only [LoopState.reading, CssomReading.mk.injEq] at hreading
      obtain ⟨-, hpending, hphase, hnamespaces⟩ := hreading
      simp only [LoopState.reading, hpending, hphase, IndexState.visitRule_namespaces, hnamespaces]
      exact hbuilt
    | style hcontext hvalid hrun horigin hchildren hbuilt =>
      next node nodes run sources source =>
      have hcontext' : container.context = .rules := hcontext
      rw [Node.ruleIds_rule] at hunasked
      have hasked : (s.validSelector parser node container.owner.isSome).1 = true := by
        rw [validSelector_eq (hunasked.notMem node.id (by simp))]
        exact hvalid
      have hnode : indexNode parser rules children container (l, s) (.rule node nodes) =
          indexStyleRule rules children container node nodes l
            (s.validSelector parser node container.owner.isSome).2 := by
        simp only [indexNode, hcontext', hasked, if_true]
      rw [hnode] at hrest ⊢
      have hunasked' : Unasked (ruleIds nodes)
          (s.validSelector parser node container.owner.isSome).2 := by
        have hsplit : Unasked ([node.id] ++ ruleIds nodes) s := hunasked.left
        exact hsplit.right (validSelector_frame parser node container.owner.isSome false false s)
      obtain ⟨hcounted, hreading⟩ := indexStyleRule_counted hframed hsound
        (s := (s.validSelector parser node container.owner.isSome).2)
        ⟨h.trusted, h.counted, by simpa using h.fresh⟩ hrun horigin
        (by rw [IndexState.validSelector_namespaces]; exact hchildren) hunasked' sources
      have hall : before ++ (run ++ source :: sources) = before ++ run ++ [source] ++ sources := by
        simp
      rw [hall]
      have hcounted' : Counted rules container l s _ _ (before ++ run ++ [source]) sources :=
        ⟨hcounted.le, by simpa using hcounted.adds, hcounted.inStep⟩
      refine hcounted'.finish hframed fun htrusted => ih (hcounted'.inStep htrusted) ?_ hrest
      rw [hreading, IndexState.validSelector_namespaces]
      exact hbuilt
    | dropped hclass hbuilt =>
      next rule nodes =>
      have hnode : indexNode parser rules children container (l, s) (.atrule rule nodes) =
          (l, s) := by
        have hclass' : classifyAtRule parser rule (container.type = .root) l.rootPhase
            container.owner.isSome s.namespaces = .drop := hclass
        simp only [indexNode, hclass']
      rw [hnode] at hrest ⊢
      exact ih h hbuilt hrest
    | counted hclass hrun hchildren hbuilt =>
      next rule nodes recurse namespacePrefix run sources source =>
      have hnode : indexNode parser rules children container (l, s) (.atrule rule nodes) =
          indexAtRule rules children container rule nodes recurse namespacePrefix l s := by
        have hclass' : classifyAtRule parser rule (container.type = .root) l.rootPhase
            container.owner.isSome s.namespaces = .count recurse namespacePrefix := hclass
        simp only [indexNode, hclass']
      rw [hnode] at hrest ⊢
      rw [Node.ruleIds_atrule] at hunasked
      obtain ⟨hcounted, hreading⟩ := indexAtRule_counted hframed hsound h hrun
        hchildren hunasked.left sources
      have hall : before ++ (run ++ source :: sources) = before ++ run ++ [source] ++ sources := by
        simp
      rw [hall]
      refine hcounted.finish hframed fun htrusted => ih (hcounted.inStep htrusted) ?_ hrest
      rw [hreading]
      exact hbuilt
    | uncertain huncertain hbuilt =>
      next some sources seen pending =>
      have hnode : ∃ s', s'.pathIndex = s.pathIndex ∧
          indexNode parser rules children container (l, s) node = (markUncertain container l, s') := by
        cases huncertain with
        | other => exact ⟨s, rfl, rfl⟩
        | selector hcontext hinvalid =>
          next node nodes =>
          have hcontext' : container.context = .rules := hcontext
          rw [Node.ruleIds_rule] at hunasked
          have hasked : (s.validSelector parser node container.owner.isSome).1 = false := by
            rw [validSelector_eq (hunasked.notMem node.id (by simp))]
            exact hinvalid
          refine ⟨(s.validSelector parser node container.owner.isSome).2, by simp, ?_⟩
          simp only [indexNode, hcontext', hasked, Bool.false_eq_true, if_false]
        | atrule hclass =>
          next rule nodes =>
          have hclass' : classifyAtRule parser rule (container.type = .root) l.rootPhase
              container.owner.isSome s.namespaces = .uncertain := hclass
          exact ⟨s, rfl, by simp only [indexNode, hclass']⟩
      obtain ⟨s', hpath, hnode⟩ := hnode
      rw [hnode]
      have hsame := (indexRest_frame parser rules container
        hframed rest (markUncertain container l) s').pathIndex rfl
      exact ⟨l.cssomIndex, le_refl _, .of_eq (hsame.trans hpath)⟩

theorem indexContainer_sound (parser : SelectorParser) (rules : RulesByNode) (levels : ℕ) :
    Sound parser rules (indexContainer parser rules levels) := by
  have hcontainer : ∀ levels, (∀ c ∈ childrenAt parser rules levels, Sound parser rules c) →
      Sound parser rules (indexContainer parser rules levels) := by
    intro levels hsound container nodes s sources hbuilt hfresh hunasked
    rw [indexContainer_eq]
    have hstart : InStep container (.start container true) s [] := ⟨rfl, rfl, hfresh⟩
    obtain ⟨hi, -, hadds⟩ :=
      indexRest_adds (childrenAt_framed levels) hsound hstart hbuilt hunasked
    exact ⟨hi, hadds⟩
  induction levels with
  | zero => exact hcontainer 0 fun c hc => by cases hc
  | succ levels ih => exact hcontainer (levels + 1) fun c hc => by cases hc; exact ih

/-- The index of a parsed stylesheet holds paths of its CSSOM only, each with its rule. -/
theorem indexRoot_placed {tree : SyntaxTree} {sources : List RuleSource}
    (hbuilt : BuiltFrom parser tree sources) {key : String} {entry : Option StylesheetRule}
    (h : (indexRoot parser rules tree.nodes).pathIndex.get? key = some entry) :
    ∃ path, path ≠ [] ∧ key = joinPath path ∧ Placed rules sources path entry := by
  obtain ⟨hi, hadds⟩ := indexContainer_sound parser rules InspectLimits.cssRuleDepth rootContainer tree.nodes .empty sources hbuilt
    (fun _ _ _ => rfl) ⟨tree.distinct, fun _ _ hid => by cases hid⟩
  rcases hadds key entry h with hold | ⟨i, rest, -, -, hpath, hplaced⟩
  · cases hold
  · exact ⟨i :: rest, by simp, hpath, hplaced⟩

end PinOp.Css
