import Mathlib.Algebra.Order.BigOperators.Group.List
import Mathlib.Algebra.Order.Ring.Nat
import PinOp.Css.ScssExpansion

/-!
# Chains of nested SCSS rules

The expansion of a chain is what Sass writes if and only if no rule puts several parents in the place
of several `&` of a branch, and no white space before a comma of the outermost rule comes to stand
before something that is glued to an `&`.
-/

namespace PinOp.Css

variable {parents parents' children : List SelectorBranch} {chain : List (List SelectorBranch)}

/-- The rules around a rule, and the rule: the branches of each, from the outermost one on. -/
structure ScssChain where
  outermost : List SelectorBranch
  chain : List (List SelectorBranch)
  outermost_ne : outermost ≠ []
  chain_ne : ∀ children ∈ chain, children ≠ []
  written : ∀ branch ∈ outermost, branch.tokens ≠ [] ∧ branch.nestings = 0
  nested : ∀ children ∈ chain, ∀ branch ∈ children,
    branch.tokens ≠ [] ∧ NestingFirst none branch.tokens

/-! ## Level by level -/

def nestLevel (parents children : List SelectorBranch) : List SelectorBranch :=
  parents.flatMap fun parent => children.map (nestOne parent)

def Sass.nestLevel (parents children : List SelectorBranch) : List SelectorBranch :=
  Sass.flattenVertically (children.map (Sass.nestWithin parents))

def AllWritten (branches : List SelectorBranch) : Prop := ∀ branch ∈ branches, branch.tokens ≠ []

theorem mapM_some {α β : Type} {f : α → Option β} {g : α → β} {xs : List α}
    (h : ∀ x ∈ xs, f x = some (g x)) : xs.mapM f = some (xs.map g) := by
  induction xs with
  | nil => rfl
  | cons x xs ih =>
    rw [List.mapM_cons, h x List.mem_cons_self, ih fun y hmem => h y (List.mem_cons_of_mem _ hmem)]
    rfl

theorem expandUnder_eq (hparents : AllWritten parents) (hne : children ≠ [])
    (hchildren : AllWritten children) :
    expandUnder parents children = some (nestLevel parents children) := by
  have hentries : selectorEntries children = some children := if_neg hne
  unfold expandUnder
  rw [hentries]
  show (parents.flatMap fun parent => children.map fun child => (parent, child)).mapM
    (fun pair => expandNestedSelector pair.1 pair.2) = _
  rw [mapM_some (g := fun pair => nestOne pair.1 pair.2)]
  · rw [List.map_flatMap]
    simp only [List.map_map]
    rfl
  · intro pair hmem
    obtain ⟨parent, hparent, hmem⟩ := List.mem_flatMap.1 hmem
    obtain ⟨child, hchild, rfl⟩ := List.mem_map.1 hmem
    exact expandNestedSelector_eq (hparents parent hparent) (hchildren child hchild)

theorem settled_nestLevel (hparents : AllWritten parents) (hchildren : AllWritten children) :
    ∀ branch ∈ nestLevel parents children, Settled branch := by
  intro branch hmem
  obtain ⟨parent, hparent, hmem⟩ := List.mem_flatMap.1 hmem
  obtain ⟨child, hchild, rfl⟩ := List.mem_map.1 hmem
  exact settled_nestOne (hparents parent hparent) (hchildren child hchild)

theorem nestLevel_length : (nestLevel parents children).length = parents.length * children.length := by
  unfold nestLevel
  rw [List.length_flatMap]
  simp

theorem expandScssSelector_eq (rules : ScssChain) :
    expandScssSelector (rules.outermost :: rules.chain) =
      some ((rules.chain.foldl nestLevel rules.outermost).map SelectorBranch.normalizeSelector) := by
  have hfold : ∀ (chain : List (List SelectorBranch)) (parents : List SelectorBranch),
      AllWritten parents → (∀ children ∈ chain, children ≠ [] ∧ AllWritten children) →
      chain.foldlM expandUnder parents = some (chain.foldl nestLevel parents) := by
    intro chain
    induction chain with
    | nil => exact fun _ _ _ => rfl
    | cons children chain ih =>
      intro parents hparents hchain
      obtain ⟨hne, hwritten⟩ := hchain children List.mem_cons_self
      rw [List.foldlM_cons, expandUnder_eq hparents hne hwritten, List.foldl_cons]
      exact ih _ (fun branch hmem => (settled_nestLevel hparents hwritten branch hmem).nonempty)
        fun other hmem => hchain other (List.mem_cons_of_mem _ hmem)
  have hentries : selectorEntries rules.outermost = some rules.outermost := if_neg rules.outermost_ne
  show (selectorEntries rules.outermost).bind _ = _
  rw [hentries]
  show (rules.chain.foldlM expandUnder rules.outermost).bind _ = _
  rw [hfold rules.chain rules.outermost (fun branch hmem => (rules.written branch hmem).1)
    fun children hmem => ⟨rules.chain_ne children hmem, fun branch hbranch =>
      (rules.nested children hmem branch hbranch).1⟩]
  rfl

/-! ## How many branches there are -/

/-- Each rule has one parent, or one `&` at most in every branch. -/
def FewChoices : ℕ → List (List SelectorBranch) → Prop
  | _, [] => True
  | n, children :: chain =>
    (n = 1 ∨ ∀ child ∈ children, child.nestings ≤ 1) ∧ FewChoices (n * children.length) chain

theorem sass_nestLevel_eq (hparents : ∀ parent ∈ parents, Settled parent) (hne : children ≠ [])
    (hfew : parents.length = 1 ∨ ∀ child ∈ children, child.nestings ≤ 1) :
    Sass.nestLevel parents children = nestLevel parents children := by
  have hcolumns : children.map (Sass.nestWithin parents) =
      children.map fun child => parents.map fun parent => nestOne parent child :=
    List.map_congr_left fun child hmem => Sass.nestWithin_eq (fun parent hp => (hparents parent hp).trailing)
      (hfew.imp_right fun h => h child hmem)
  unfold Sass.nestLevel nestLevel
  rw [hcolumns, Sass.flattenVertically_columns hne]

theorem sass_nestLevel_length : (Sass.nestLevel parents children).length =
    (children.map fun child => parents.length ^ max 1 child.nestings).sum := by
  unfold Sass.nestLevel
  rw [Sass.flattenVertically_length, List.map_map]
  exact congrArg List.sum (List.map_congr_left fun child _ => Sass.nestWithin_length parents)

/-- Sass never has fewer branches. -/
theorem length_le_sass (h : parents.length ≤ parents'.length) :
    (nestLevel parents children).length ≤ (Sass.nestLevel parents' children).length := by
  rw [nestLevel_length, sass_nestLevel_length]
  have hsum : (children.map fun _ => parents.length).sum ≤
      (children.map fun child => parents'.length ^ max 1 child.nestings).sum :=
    List.sum_le_sum fun child _ => h.trans (Nat.le_self_pow (by omega) _)
  simpa [Nat.mul_comm] using hsum

theorem length_lt_sass (h : parents.length < parents'.length) (hne : children ≠ []) :
    (nestLevel parents children).length < (Sass.nestLevel parents' children).length := by
  have hle := @length_le_sass parents' parents' children (Nat.le_refl _)
  rw [nestLevel_length] at hle ⊢
  have hpos : 0 < children.length := List.length_pos_iff.2 hne
  have := Nat.mul_lt_mul_of_pos_right h hpos
  omega

/-- Several parents in the place of several `&`. -/
theorem length_lt_of_choices (h : parents.length = parents'.length) (hmany : 1 < parents.length)
    {child : SelectorBranch} (hmem : child ∈ children) (hchild : 1 < child.nestings) :
    (nestLevel parents children).length < (Sass.nestLevel parents' children).length := by
  rw [nestLevel_length, sass_nestLevel_length, ← h]
  have hsum : (children.map fun _ => parents.length).sum <
      (children.map fun child => parents.length ^ max 1 child.nestings).sum := by
    refine List.sum_lt_sum _ _ (fun other _ => Nat.le_self_pow (by omega) _) ⟨child, hmem, ?_⟩
    have hmax : max 1 child.nestings = child.nestings := by omega
    rw [hmax]
    exact lt_self_pow₀ hmany hchild
  simpa [Nat.mul_comm] using hsum

theorem foldl_length_lt (hchain : ∀ children ∈ chain, children ≠ [])
    (h : parents.length < parents'.length) :
    (chain.foldl nestLevel parents).length < (chain.foldl Sass.nestLevel parents').length := by
  induction chain generalizing parents parents' with
  | nil => exact h
  | cons children chain ih =>
    exact ih (fun other hmem => hchain other (List.mem_cons_of_mem _ hmem))
      (length_lt_sass h (hchain children List.mem_cons_self))

/-- With a choice, the numbers of branches differ in the end. -/
theorem fewChoices_of_length (hchain : ∀ children ∈ chain, children ≠ [])
    (hpos : 0 < parents.length) (h : parents.length = parents'.length)
    (heq : (chain.foldl nestLevel parents).length = (chain.foldl Sass.nestLevel parents').length)
    (hsettled : ∀ parent ∈ parents', Settled parent) (hwritten : ∀ children ∈ chain, AllWritten children) :
    FewChoices parents.length chain := by
  induction chain generalizing parents parents' with
  | nil => trivial
  | cons children chain ih =>
    have hne := hchain children List.mem_cons_self
    have hchain' : ∀ other ∈ chain, other ≠ [] := fun other hmem => hchain other (List.mem_cons_of_mem _ hmem)
    have hfew : parents.length = 1 ∨ ∀ child ∈ children, child.nestings ≤ 1 := by
      by_contra hnot
      rw [not_or, not_forall] at hnot
      obtain ⟨hmany, child, hchild⟩ := hnot
      rw [Classical.not_imp, not_le] at hchild
      have hlt := length_lt_of_choices h (by omega) hchild.1 hchild.2
      exact absurd heq (foldl_length_lt hchain' hlt).ne
    have hlength : (nestLevel parents children).length = (Sass.nestLevel parents' children).length := by
      rw [sass_nestLevel_eq hsettled hne (h ▸ hfew), nestLevel_length, nestLevel_length, h]
    refine ⟨hfew, ?_⟩
    rw [← nestLevel_length]
    refine ih hchain' ?_ hlength heq ?_ fun other hmem => hwritten other (List.mem_cons_of_mem _ hmem)
    · rw [nestLevel_length]
      exact Nat.mul_pos hpos (List.length_pos_iff.2 hne)
    · rw [sass_nestLevel_eq hsettled hne (h ▸ hfew)]
      exact settled_nestLevel (fun parent hp => (hsettled parent hp).nonempty)
        (hwritten children List.mem_cons_self)

theorem foldl_sass_eq (hchain : ∀ children ∈ chain, children ≠ [])
    (hsettled : ∀ parent ∈ parents, Settled parent) (hwritten : ∀ children ∈ chain, AllWritten children)
    (hfew : FewChoices parents.length chain) :
    chain.foldl Sass.nestLevel parents = chain.foldl nestLevel parents := by
  induction chain generalizing parents with
  | nil => rfl
  | cons children chain ih =>
    obtain ⟨hlevel, hfew⟩ := hfew
    rw [List.foldl_cons, List.foldl_cons, sass_nestLevel_eq hsettled (hchain children List.mem_cons_self) hlevel]
    refine ih (fun other hmem => hchain other (List.mem_cons_of_mem _ hmem))
      (settled_nestLevel (fun parent hp => (hsettled parent hp).nonempty)
        (hwritten children List.mem_cons_self))
      (fun other hmem => hwritten other (List.mem_cons_of_mem _ hmem)) ?_
    rw [nestLevel_length]
    exact hfew

/-! ## How much white space there is -/

/-- The same branches, but for white space. -/
def SameParts (parents parents' : List SelectorBranch) : Prop :=
  List.Forall₂ (fun p q => Settled p ∧ Settled q ∧ parts p.tokens = parts q.tokens) parents parents'

def totalSpaces (branches : List SelectorBranch) : ℕ :=
  (branches.map fun branch => spaces branch.tokens).sum

theorem totalSpaces_append (xs ys : List SelectorBranch) :
    totalSpaces (xs ++ ys) = totalSpaces xs + totalSpaces ys := by
  unfold totalSpaces
  rw [List.map_append, List.sum_append]

theorem totalSpaces_nestLevel (parents children : List SelectorBranch) :
    totalSpaces (nestLevel parents children) =
      (parents.map fun parent => (children.map fun child => spaces (nestOne parent child).tokens).sum).sum := by
  induction parents with
  | nil => rfl
  | cons parent parents ih =>
    rw [List.map_cons, List.sum_cons, ← ih]
    show totalSpaces (children.map (nestOne parent) ++ nestLevel parents children) = _
    rw [totalSpaces_append]
    unfold totalSpaces
    rw [List.map_map]
    rfl

theorem SameParts.nestLevel (h : SameParts parents parents') (hchildren : AllWritten children) :
    SameParts (nestLevel parents children) (nestLevel parents' children) := by
  refine List.rel_flatMap h fun p q ⟨hp, hq, hparts⟩ => ?_
  rw [List.forall₂_map_left_iff, List.forall₂_map_right_iff]
  refine List.forall₂_same.2 fun child hmem => ?_
  exact ⟨settled_nestOne hp.nonempty (hchildren child hmem),
    settled_nestOne hq.nonempty (hchildren child hmem), parts_nestOne hparts⟩

theorem sum_nestOne {p q : SelectorBranch}
    (h : Settled p ∧ Settled q ∧ parts p.tokens = parts q.tokens) (children : List SelectorBranch) :
    (children.map fun child => spaces (nestOne p child).tokens).sum +
        (children.map SelectorBranch.copies).sum * spaces q.tokens =
      (children.map fun child => spaces (nestOne q child).tokens).sum +
        (children.map SelectorBranch.copies).sum * spaces p.tokens := by
  induction children with
  | nil => simp
  | cons child children ih =>
    have hchild := @spaces_nestOne p q child h.1 h.2.1 h.2.2
    simp only [List.map_cons, List.sum_cons, Nat.add_mul]
    omega

/-- More white space in the parents is more white space in the branches, once for each copy. -/
theorem SameParts.totalSpaces (h : SameParts parents parents') (children : List SelectorBranch) :
    totalSpaces (PinOp.Css.nestLevel parents children) +
        (children.map SelectorBranch.copies).sum * PinOp.Css.totalSpaces parents' =
      PinOp.Css.totalSpaces (PinOp.Css.nestLevel parents' children) +
        (children.map SelectorBranch.copies).sum * PinOp.Css.totalSpaces parents := by
  rw [totalSpaces_nestLevel, totalSpaces_nestLevel]
  induction h with
  | nil => rfl
  | @cons p q parents parents' hpq _ ih =>
    have hone := sum_nestOne hpq children
    unfold PinOp.Css.totalSpaces at ih ⊢
    simp only [List.map_cons, List.sum_cons, Nat.mul_add]
    omega

theorem SameParts.foldl (h : SameParts parents parents')
    (hwritten : ∀ children ∈ chain, AllWritten children) :
    SameParts (chain.foldl PinOp.Css.nestLevel parents) (chain.foldl PinOp.Css.nestLevel parents') := by
  induction chain generalizing parents parents' with
  | nil => exact h
  | cons children chain ih =>
    exact ih (h.nestLevel (hwritten children List.mem_cons_self))
      fun other hmem => hwritten other (List.mem_cons_of_mem _ hmem)

/-- A difference stays to the end. -/
theorem SameParts.totalSpaces_foldl (h : SameParts parents parents')
    (hchain : ∀ children ∈ chain, children ≠ []) (hwritten : ∀ children ∈ chain, AllWritten children)
    (heq : PinOp.Css.totalSpaces (chain.foldl PinOp.Css.nestLevel parents) =
      PinOp.Css.totalSpaces (chain.foldl PinOp.Css.nestLevel parents')) :
    PinOp.Css.totalSpaces parents = PinOp.Css.totalSpaces parents' := by
  induction chain generalizing parents parents' with
  | nil => exact heq
  | cons children chain ih =>
    have hnext := ih (h.nestLevel (hwritten children List.mem_cons_self))
      (fun other hmem => hchain other (List.mem_cons_of_mem _ hmem))
      (fun other hmem => hwritten other (List.mem_cons_of_mem _ hmem)) heq
    have hlevel := h.totalSpaces children
    rw [hnext] at hlevel
    obtain ⟨child, rest, rfl⟩ := List.exists_cons_of_ne_nil (hchain children List.mem_cons_self)
    have hpos : 0 < ((child :: rest).map SelectorBranch.copies).sum := by
      rw [List.map_cons, List.sum_cons]
      have := @copies_pos child
      omega
    exact (Nat.eq_of_mul_eq_mul_left hpos (by omega)).symm

theorem text_length (branch : SelectorBranch) :
    branch.text.length =
      ((parts branch.tokens).map fun part => part.text.length).sum + spaces branch.tokens := by
  unfold SelectorBranch.text
  rw [String.length_join, List.map_map]
  induction branch.tokens with
  | nil => rfl
  | cons token tokens ih =>
    have hparts : parts (token :: tokens) = token.part :: parts tokens := rfl
    rw [List.map_cons, List.sum_cons, ih, spaces_cons, hparts, List.map_cons, List.sum_cons]
    have htoken : (tokenText token).length = (if token.spaced then 1 else 0) + token.part.text.length := by
      unfold tokenText
      rw [String.length_append]
      split <;> rfl
    show (tokenText token).length + _ = _
    rw [htoken]
    omega

/-- What is printed tells how much white space there is. -/
theorem SameParts.of_texts (h : SameParts parents parents')
    (heq : parents.map SelectorBranch.text = parents'.map SelectorBranch.text) :
    PinOp.Css.totalSpaces parents = PinOp.Css.totalSpaces parents' := by
  induction h with
  | nil => rfl
  | @cons p q parents parents' hpq _ ih =>
    rw [List.map_cons, List.map_cons, List.cons.injEq] at heq
    have hlength := congrArg String.length heq.1
    rw [text_length, text_length, hpq.2.2] at hlength
    unfold PinOp.Css.totalSpaces at ih ⊢
    rw [List.map_cons, List.map_cons, List.sum_cons, List.sum_cons, ih heq.2]
    omega

/-! ## The outermost rule -/

/-- No white space before a comma of the outermost rule comes before something glued to an `&`. -/
def NothingSpoiled (outermost : List SelectorBranch) (chain : List (List SelectorBranch)) : Prop :=
  ∀ children, chain.head? = some children → ∀ parent ∈ outermost, ∀ child ∈ children,
    (parent.spoils && glued false child.tokens) = false

theorem sameParts_first (hwritten : AllWritten parents) (hchildren : AllWritten children) :
    SameParts (nestLevel parents children)
      (nestLevel (parents.map SelectorBranch.normalizeSelector) children) := by
  unfold nestLevel
  rw [List.flatMap_map]
  have hself : List.Forall₂ (fun p q => p = q ∧ p ∈ parents) parents parents :=
    List.forall₂_same.2 fun p hmem => ⟨rfl, hmem⟩
  refine List.rel_flatMap hself ?_
  rintro p _ ⟨rfl, hmem⟩
  rw [List.forall₂_map_left_iff, List.forall₂_map_right_iff]
  refine List.forall₂_same.2 fun child hchild => ?_
  exact ⟨settled_nestOne (hwritten p hmem) (hchildren child hchild),
    settled_nestOne (settled_normalize (hwritten p hmem)).nonempty (hchildren child hchild),
    parts_nestOne parts_settle.symm⟩

theorem first_eq (hwritten : AllWritten parents)
    (hfirst : ∀ child ∈ children, NestingFirst none child.tokens)
    (hnone : ∀ parent ∈ parents, ∀ child ∈ children, (parent.spoils && glued false child.tokens) = false) :
    nestLevel parents children =
      nestLevel (parents.map SelectorBranch.normalizeSelector) children := by
  unfold nestLevel
  rw [List.flatMap_map]
  refine List.flatMap_congr fun p hmem => List.map_congr_left fun child hchild => ?_
  obtain ⟨more, -, hsame, hzero⟩ := nestOne_normalize (hwritten p hmem) (hfirst child hchild)
  exact hsame (hzero.2 (hnone p hmem child hchild))

theorem first_lt (hwritten : AllWritten parents)
    (hfirst : ∀ child ∈ children, NestingFirst none child.tokens) {parent child : SelectorBranch}
    (hparent : parent ∈ parents) (hchild : child ∈ children)
    (hspoiled : (parent.spoils && glued false child.tokens) = true) :
    totalSpaces (nestLevel (parents.map SelectorBranch.normalizeSelector) children) <
      totalSpaces (nestLevel parents children) := by
  have hle : ∀ p ∈ parents, ∀ c ∈ children,
      spaces (nestOne p.normalizeSelector c).tokens ≤ spaces (nestOne p c).tokens := by
    intro p hp c hc
    obtain ⟨more, hmore, -, -⟩ := nestOne_normalize (hwritten p hp) (hfirst c hc)
    omega
  rw [totalSpaces_nestLevel, totalSpaces_nestLevel, List.map_map]
  refine List.sum_lt_sum _ _ (fun p hp => List.sum_le_sum fun c hc => hle p hp c hc)
    ⟨parent, hparent, List.sum_lt_sum _ _ (fun c hc => hle parent hparent c hc) ⟨child, hchild, ?_⟩⟩
  obtain ⟨more, hmore, -, hzero⟩ := nestOne_normalize (hwritten parent hparent) (hfirst child hchild)
  have hne : more ≠ 0 := by
    intro hmore
    rw [hzero.1 hmore] at hspoiled
    cases hspoiled
  omega

/-! ## Every chain -/

/-- The expansion is what Sass writes, as far as `normalizeSelector` tells. -/
def ExpandsAsSass (rules : ScssChain) : Prop :=
  (expandScssSelector (rules.outermost :: rules.chain)).map (List.map SelectorBranch.text) =
    some ((Sass.selectors (rules.outermost :: rules.chain)).map SelectorBranch.text)

theorem settled_foldl (hparents : ∀ parent ∈ parents, Settled parent)
    (hwritten : ∀ children ∈ chain, AllWritten children) :
    ∀ branch ∈ chain.foldl nestLevel parents, Settled branch := by
  induction chain generalizing parents with
  | nil => exact hparents
  | cons children chain ih =>
    exact ih (settled_nestLevel (fun parent hp => (hparents parent hp).nonempty)
      (hwritten children List.mem_cons_self)) fun other hmem => hwritten other (List.mem_cons_of_mem _ hmem)

theorem normalize_settled {branches : List SelectorBranch} (h : ∀ branch ∈ branches, Settled branch) :
    branches.map SelectorBranch.normalizeSelector = branches := by
  conv_rhs => rw [← List.map_id branches]
  exact List.map_congr_left fun branch hmem => (h branch hmem).normalize

/-- The code expands a chain as Sass does if and only if it never has to choose a parent for each of
several `&`, and no white space before a comma of the outermost rule shows. -/
theorem expandsAsSass_iff (rules : ScssChain) : ExpandsAsSass rules ↔
    FewChoices rules.outermost.length rules.chain ∧ NothingSpoiled rules.outermost rules.chain := by
  have hwritten : AllWritten rules.outermost := fun branch hmem => (rules.written branch hmem).1
  have hnested : ∀ children ∈ rules.chain, AllWritten children :=
    fun children hmem branch hbranch => (rules.nested children hmem branch hbranch).1
  have hfirst : ∀ children ∈ rules.chain, ∀ child ∈ children, NestingFirst none child.tokens :=
    fun children hmem branch hbranch => (rules.nested children hmem branch hbranch).2
  have hsettled : ∀ parent ∈ rules.outermost.map SelectorBranch.normalizeSelector, Settled parent := by
    intro parent hmem
    obtain ⟨branch, hbranch, rfl⟩ := List.mem_map.1 hmem
    exact settled_normalize (hwritten branch hbranch)
  have hsass : Sass.selectors (rules.outermost :: rules.chain) =
      rules.chain.foldl Sass.nestLevel (rules.outermost.map SelectorBranch.normalizeSelector) := rfl
  have hlength : rules.outermost.length =
      (rules.outermost.map SelectorBranch.normalizeSelector).length := (List.length_map _).symm
  have hpos : 0 < rules.outermost.length := List.length_pos_iff.2 rules.outermost_ne
  unfold ExpandsAsSass
  rw [expandScssSelector_eq, hsass, Option.map_some, Option.some.injEq]
  constructor
  · intro htexts
    have hcount := congrArg List.length htexts
    rw [List.length_map, List.length_map, List.length_map] at hcount
    have hfew := fewChoices_of_length rules.chain_ne hpos hlength hcount hsettled hnested
    refine ⟨hfew, fun children hhead parent hparent child hchild => ?_⟩
    rw [foldl_sass_eq rules.chain_ne hsettled hnested (hlength ▸ hfew)] at htexts
    obtain ⟨rest, hchain⟩ : ∃ rest, rules.chain = children :: rest := by
      cases hchain : rules.chain with
      | nil =>
        rw [hchain] at hhead
        cases hhead
      | cons first rest =>
        rw [hchain] at hhead
        cases hhead
        exact ⟨rest, rfl⟩
    have hchildren := hnested children (hchain ▸ List.mem_cons_self)
    have hrest : ∀ other ∈ rest, AllWritten other :=
      fun other hmem => hnested other (hchain ▸ List.mem_cons_of_mem _ hmem)
    have hrest_ne : ∀ other ∈ rest, other ≠ [] :=
      fun other hmem => rules.chain_ne other (hchain ▸ List.mem_cons_of_mem _ hmem)
    have hsame := sameParts_first hwritten hchildren
    rw [hchain, List.foldl_cons, List.foldl_cons,
      normalize_settled (settled_foldl (settled_nestLevel hwritten hchildren) hrest)] at htexts
    have htotal := hsame.totalSpaces_foldl hrest_ne hrest ((hsame.foldl hrest).of_texts htexts)
    by_contra hspoiled
    rw [Bool.not_eq_false] at hspoiled
    have hlt := first_lt hwritten (hfirst children (hchain ▸ List.mem_cons_self)) hparent hchild hspoiled
    omega
  · rintro ⟨hfew, hspoiled⟩
    rw [foldl_sass_eq rules.chain_ne hsettled hnested (hlength ▸ hfew)]
    cases hchain : rules.chain with
    | nil => rfl
    | cons children rest =>
      have hmem : children ∈ rules.chain := hchain ▸ List.mem_cons_self
      have hrest : ∀ other ∈ rest, AllWritten other :=
        fun other hmem => hnested other (hchain ▸ List.mem_cons_of_mem _ hmem)
      rw [List.foldl_cons, List.foldl_cons, normalize_settled
        (settled_foldl (settled_nestLevel hwritten (hnested children hmem)) hrest),
        first_eq hwritten (hfirst children hmem) (hspoiled children (by rw [hchain]; rfl))]

/-- `.a, .b { & + & { } }` -/
def twiceNested : ScssChain where
  outermost := [⟨[⟨.word ".a", false⟩], false⟩, ⟨[⟨.word ".b", true⟩], false⟩]
  chain := [[⟨[⟨.nesting, false⟩, ⟨.combinator "+", true⟩, ⟨.nesting, true⟩], false⟩]]
  outermost_ne := List.cons_ne_nil _ _
  chain_ne := by simp
  written := by simp [SelectorBranch.nestings, isNesting]
  nested := by simp [NestingFirst, isNesting]

theorem twiceNested_differs : expandScssSelector (twiceNested.outermost :: twiceNested.chain) =
      some [⟨[⟨.word ".a", false⟩, ⟨.combinator "+", false⟩, ⟨.word ".a", false⟩], false⟩,
        ⟨[⟨.word ".b", false⟩, ⟨.combinator "+", false⟩, ⟨.word ".b", false⟩], false⟩] ∧
    (Sass.selectors (twiceNested.outermost :: twiceNested.chain)).map SelectorBranch.text =
      [".a+.a", ".a+.b", ".b+.a", ".b+.b"] ∧ ¬ExpandsAsSass twiceNested := by
  have hsass : (Sass.selectors (twiceNested.outermost :: twiceNested.chain)).map SelectorBranch.text =
      [".a+.a", ".a+.b", ".b+.a", ".b+.b"] := by decide +kernel
  refine ⟨by decide +kernel, hsass, ?_⟩
  unfold ExpandsAsSass
  rw [hsass]
  decide +kernel

end PinOp.Css
