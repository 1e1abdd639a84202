import Mathlib
import PinOp.Css.ScssSelector

/-!
# When the expansion is the one of Sass

The code puts one parent in the place of every `&` of a branch, and white space before a comma goes
with the parent. Where neither shows, the expansion is what Sass writes.
-/

namespace PinOp.Css

open SelectorPart

variable {p q c : SelectorBranch} {before : Option SelectorPart} {tokens xs ys : List SelectorToken}

/-! ## Settled tokens -/

def parts (tokens : List SelectorToken) : List SelectorPart := tokens.map SelectorToken.part

def spaces (tokens : List SelectorToken) : ℕ := tokens.countP SelectorToken.spaced

/-- The part that stands last. -/
def lastPart (before : Option SelectorPart) (tokens : List SelectorToken) : Option SelectorPart :=
  ((parts tokens).getLast?).or before

/-- White space says something between the two. -/
def apart (before : Option SelectorPart) (part : SelectorPart) : Bool :=
  !part.tightBefore && before.any fun other => !other.tightAfter

theorem parts_append : parts (xs ++ ys) = parts xs ++ parts ys := List.map_append

theorem spaces_cons (token : SelectorToken) (tokens : List SelectorToken) :
    spaces (token :: tokens) = spaces tokens + if token.spaced then 1 else 0 := by
  unfold spaces
  rw [List.countP_cons]

theorem spaces_append : spaces (xs ++ ys) = spaces xs + spaces ys := List.countP_append

theorem lastPart_cons (token : SelectorToken) :
    lastPart before (token :: tokens) = lastPart (some token.part) tokens := by
  unfold lastPart
  show ((token.part :: parts tokens).getLast?).or before = _
  rw [List.getLast?_cons]
  cases (parts tokens).getLast? <;> rfl

theorem lastPart_of_ne_nil (h : tokens ≠ []) : lastPart before tokens = lastPart none tokens := by
  cases tokens with
  | nil => exact absurd rfl h
  | cons token tokens => rw [lastPart_cons, lastPart_cons]

theorem settle_cons (before : Option SelectorPart) (token : SelectorToken)
    (tokens : List SelectorToken) :
    settle before (token :: tokens) =
      ⟨token.part, token.spaced && apart before token.part⟩ :: settle (some token.part) tokens := by
  rw [settle, apart, Bool.and_assoc]

theorem settle_append :
    settle before (xs ++ ys) = settle before xs ++ settle (lastPart before xs) ys := by
  induction xs generalizing before with
  | nil => rfl
  | cons token xs ih =>
    rw [List.cons_append, settle_cons, settle_cons, ih, lastPart_cons, List.cons_append]

theorem parts_settle : parts (settle before tokens) = parts tokens := by
  induction tokens generalizing before with
  | nil => rfl
  | cons token tokens ih =>
    rw [settle_cons]
    exact congrArg (token.part :: ·) ih

theorem settle_idem : settle before (settle before tokens) = settle before tokens := by
  induction tokens generalizing before with
  | nil => rfl
  | cons token tokens ih =>
    rw [settle_cons, settle_cons, ih]
    dsimp only
    rw [Bool.and_assoc, Bool.and_self]

theorem settle_ne_nil (h : tokens ≠ []) : settle before tokens ≠ [] := by
  cases tokens with
  | nil => exact absurd rfl h
  | cons token tokens => exact List.cons_ne_nil _ _

/-- A branch that was normalized, with the parts of another. -/
structure Settled (branch : SelectorBranch) : Prop where
  nonempty : branch.tokens ≠ []
  settled : settle none branch.tokens = branch.tokens
  trailing : branch.trailing = false

theorem settled_normalize (h : p.tokens ≠ []) : Settled p.normalizeSelector :=
  ⟨settle_ne_nil h, settle_idem, rfl⟩

theorem Settled.normalize (h : Settled p) : p.normalizeSelector = p := by
  obtain ⟨tokens, trailing⟩ := p
  obtain rfl : trailing = false := h.trailing
  exact congrArg (SelectorBranch.mk · false) h.settled

/-- Behind something else, only the white space before the first token may change. -/
theorem settle_lead (h : Settled p) (before : Option SelectorPart) (spaced : Bool) :
    spaces (settle before (lead spaced p.tokens)) =
      spaces p.tokens + if spaced && (p.tokens.head?.any fun token => apart before token.part)
        then 1 else 0 := by
  cases hp : p.tokens with
  | nil => exact absurd hp h.nonempty
  | cons token tokens =>
    have hsettled := h.settled
    rw [hp, settle_cons, List.cons.injEq] at hsettled
    obtain ⟨hfirst, hrest⟩ := hsettled
    have hflag : token.spaced = false := by
      rw [← hfirst]
      simp [apart]
    rw [lead, settle_cons, spaces_cons, spaces_cons]
    dsimp only
    rw [hflag, Bool.false_or, hrest, List.head?_cons, Option.any_some, if_neg Bool.false_ne_true,
      Nat.add_zero]

theorem head_congr (h : parts xs = parts ys) (before : Option SelectorPart) :
    (xs.head?.any fun token => apart before token.part) =
      ys.head?.any fun token => apart before token.part := by
  cases xs with
  | nil =>
    cases ys with
    | nil => rfl
    | cons token ys => cases h
  | cons token xs =>
    cases ys with
    | nil => cases h
    | cons other ys =>
      rw [List.head?_cons, List.head?_cons, Option.any_some, Option.any_some, (List.cons.inj h).1]

theorem lastPart_congr (h : parts xs = parts ys) (before : Option SelectorPart) :
    lastPart before xs = lastPart before ys := by
  unfold lastPart
  rw [h]

theorem parts_lead {spaced : Bool} : parts (lead spaced tokens) = parts tokens := by
  cases tokens <;> rfl

/-! ## The same parts in the place of `&` -/

theorem parts_replace {carried carried' : Bool} (hparts : parts p.tokens = parts q.tokens) :
    parts (replaceNesting p carried tokens) = parts (replaceNesting q carried' tokens) := by
  induction tokens generalizing carried carried' with
  | nil => rfl
  | cons token tokens ih =>
    rw [replaceNesting, replaceNesting]
    split
    · rw [parts_append, parts_append, parts_lead, parts_lead, hparts, ih]
    · exact congrArg (token.part :: ·) ih

/-- Later parents with more white space give branches with more white space. -/
theorem spaces_replace (hp : Settled p) (hq : Settled q) (hparts : parts p.tokens = parts q.tokens)
    (before : Option SelectorPart) :
    spaces (settle before (replaceNesting p false tokens)) +
        tokens.countP isNesting * spaces q.tokens =
      spaces (settle before (replaceNesting q false tokens)) +
        tokens.countP isNesting * spaces p.tokens := by
  induction tokens generalizing before with
  | nil => simp [replaceNesting]
  | cons token tokens ih =>
    rw [replaceNesting, replaceNesting, List.countP_cons]
    split
    · have hlast := lastPart_congr (show parts (lead (token.spaced || false) p.tokens) =
        parts (lead (token.spaced || false) q.tokens) by rw [parts_lead, parts_lead, hparts]) before
      have hrest := ih (lastPart before (lead (token.spaced || false) q.tokens))
      rw [hp.trailing, hq.trailing, settle_append, settle_append, spaces_append, spaces_append,
        settle_lead hp, settle_lead hq, head_congr hparts, hlast, Nat.add_mul, Nat.add_mul,
        Nat.one_mul, Nat.one_mul]
      omega
    · rw [settle_cons, settle_cons, spaces_cons, spaces_cons]
      have hrest := ih (some token.part)
      simp only [Nat.add_zero] at hrest ⊢
      omega

/-! ## White space before a comma -/

/-- As Sass has it, `&` begins a compound. -/
def NestingFirst : Option SelectorPart → List SelectorToken → Prop
  | _, [] => True
  | before, token :: tokens =>
    (isNesting token = true → token.spaced = false → before.all tightAfter = true) ∧
      NestingFirst (some token.part) tokens

/-- Something stands right behind an `&`. -/
def glued : Bool → List SelectorToken → Bool
  | _, [] => false
  | afterNesting, token :: tokens =>
    afterNesting && !token.spaced && !token.part.tightBefore || glued (isNesting token) tokens

/-- White space at the end of the branch says something if something comes behind it. -/
def SelectorBranch.spoils (branch : SelectorBranch) : Bool :=
  branch.trailing && (lastPart none branch.tokens).any fun part => !part.tightAfter

/-- How often white space at the end of the parent says something. -/
def surplus (parent : SelectorBranch) :
    Bool → Option SelectorPart → List SelectorToken → ℕ
  | _, _, [] => 0
  | carried, before, token :: tokens =>
    if isNesting token then surplus parent parent.trailing (lastPart none parent.tokens) tokens
    else (if carried && !token.spaced && apart before token.part then 1 else 0) +
      surplus parent false (some token.part) tokens

theorem settle_lead_normalize (hp : p.tokens ≠ []) {spaced spaced' : Bool}
    (h : spaced = true ∧ spaced' = true ∨ ∀ part, apart before part = false) :
    settle before (lead spaced p.tokens) = settle before (lead spaced' p.normalizeSelector.tokens) := by
  show _ = settle before (lead spaced' (settle none p.tokens))
  cases hpt : p.tokens with
  | nil => exact absurd hpt hp
  | cons token tokens =>
    rw [settle_cons, lead, lead, settle_cons, settle_cons]
    dsimp only
    rw [settle_idem]
    rcases h with ⟨rfl, rfl⟩ | h
    · rw [Bool.or_true, Bool.or_true]
    · rw [h, Bool.and_false, Bool.and_false]

theorem replace_surplus (hp : p.tokens ≠ []) {carried : Bool} {previous : Option SelectorPart}
    (hfirst : NestingFirst previous tokens) (hprevious : previous = some .nesting ∨ before = previous) :
    spaces (settle before (replaceNesting p carried tokens)) =
        spaces (settle before (replaceNesting p.normalizeSelector false tokens)) +
          surplus p carried before tokens ∧
      (surplus p carried before tokens = 0 →
        settle before (replaceNesting p carried tokens) =
          settle before (replaceNesting p.normalizeSelector false tokens)) := by
  induction tokens generalizing carried previous before with
  | nil => exact ⟨rfl, fun _ => rfl⟩
  | cons token tokens ih =>
    obtain ⟨hnesting, hrest⟩ := hfirst
    rw [replaceNesting, replaceNesting, surplus]
    split
    · rename_i hisNesting
      have hlead : settle before (lead (token.spaced || carried) p.tokens) =
          settle before (lead (token.spaced || false) p.normalizeSelector.tokens) := by
        refine settle_lead_normalize hp ?_
        cases hspaced : token.spaced with
        | true => exact .inl ⟨rfl, rfl⟩
        | false =>
          right
          have htight := hnesting hisNesting hspaced
          intro part
          rcases hprevious with rfl | rfl
          · cases htight
          · unfold apart
            cases before with
            | none => simp
            | some other =>
              rw [Option.all_some] at htight
              rw [Option.any_some, htight, Bool.not_true, Bool.and_false]
      have hlast : lastPart before (lead (token.spaced || carried) p.tokens) = lastPart none p.tokens := by
        rw [lastPart_congr parts_lead, lastPart_of_ne_nil hp]
      have hlast' : lastPart before (lead (token.spaced || false) p.normalizeSelector.tokens) =
          lastPart none p.tokens := by
        rw [lastPart_congr parts_lead]
        show lastPart before (settle none p.tokens) = _
        rw [lastPart_congr parts_settle, lastPart_of_ne_nil hp]
      have hpart : token.part = .nesting := of_decide_eq_true hisNesting
      rw [hpart] at hrest
      obtain ⟨hspaces, hsame⟩ := @ih (lastPart none p.tokens) p.trailing _ hrest (.inl rfl)
      rw [settle_append, settle_append, spaces_append, spaces_append, hlead, hlast, hlast']
      constructor
      · show _ = spaces _ + spaces (settle _ (replaceNesting _ false tokens)) + _
        omega
      · intro hzero
        rw [hsame hzero]
        rfl
    · obtain ⟨hspaces, hsame⟩ := @ih (some token.part) false _ hrest (.inr rfl)
      rw [settle_cons, settle_cons, spaces_cons, spaces_cons]
      dsimp only
      rw [Bool.or_false, hspaces]
      have hflag : (if ((token.spaced || carried) && apart before token.part) = true then 1 else 0) =
          (if (token.spaced && apart before token.part) = true then 1 else 0) +
            if (carried && !token.spaced && apart before token.part) = true then 1 else 0 := by
        cases token.spaced <;> cases carried <;> cases apart before token.part <;> rfl
      constructor
      · rw [hflag]
        omega
      · intro hzero
        have hnone : (carried && !token.spaced && apart before token.part) = false := by
          by_contra hnot
          rw [Bool.not_eq_false] at hnot
          rw [if_pos hnot] at hzero
          omega
        rw [hsame (by omega)]
        have hsame' : ((token.spaced || carried) && apart before token.part) =
            (token.spaced && apart before token.part) := by
          revert hnone
          cases token.spaced <;> cases carried <;> cases apart before token.part <;> simp
        rw [hsame']

/-- Nothing more is said, unless something stands right behind an `&`. -/
theorem surplus_eq_zero {afterNesting : Bool} {previous : Option SelectorPart}
    (hfirst : NestingFirst previous tokens)
    (hafter : afterNesting = true → previous = some .nesting ∧ before = lastPart none p.tokens) :
    surplus p (afterNesting && p.trailing) before tokens = 0 ↔
      (p.spoils && glued afterNesting tokens) = false := by
  induction tokens generalizing afterNesting previous before with
  | nil => simp [surplus, glued]
  | cons token tokens ih =>
    obtain ⟨hnesting, hrest⟩ := hfirst
    rw [surplus, glued]
    split
    · rename_i hisNesting
      have hspaced : (afterNesting && !token.spaced && !token.part.tightBefore) = false := by
        cases afterNesting with
        | false => rfl
        | true =>
          cases hspaced : token.spaced with
          | true => rfl
          | false =>
            have htight := hnesting hisNesting hspaced
            rw [(hafter rfl).1] at htight
            cases htight
      have hpart : token.part = .nesting := of_decide_eq_true hisNesting
      rw [hpart] at hrest
      have hnext := @ih (lastPart none p.tokens) true _ hrest (fun _ => ⟨rfl, rfl⟩)
      rw [Bool.true_and] at hnext
      rw [hspaced, hisNesting, Bool.false_or, hnext]
    · rename_i hisNesting
      rw [Bool.not_eq_true] at hisNesting
      have hnext := @ih (some token.part) false _ hrest nofun
      rw [Bool.false_and] at hnext
      rw [hisNesting, Nat.add_eq_zero_iff, hnext]
      cases afterNesting with
      | false => simp
      | true =>
        rw [(hafter rfl).2]
        unfold apart SelectorBranch.spoils
        cases p.trailing <;> cases token.spaced <;> cases token.part.tightBefore <;>
          cases ((lastPart none p.tokens).any fun part => !part.tightAfter) <;>
            cases glued false tokens <;> simp

/-! ## One parent and one child -/

/-- The child under the parent, which stands in the place of every `&`. -/
def nestOne (parent child : SelectorBranch) : SelectorBranch :=
  SelectorBranch.normalizeSelector
    ⟨if child.tokens.any isNesting then replaceNesting parent false child.tokens
      else parent.tokens ++ lead true child.tokens, false⟩

theorem lead_ne_nil {spaced : Bool} (h : tokens ≠ []) : lead spaced tokens ≠ [] := by
  cases tokens with
  | nil => exact absurd rfl h
  | cons token tokens => exact List.cons_ne_nil _ _

theorem replaceNesting_ne_nil (hp : p.tokens ≠ []) {carried : Bool} (h : tokens ≠ []) :
    replaceNesting p carried tokens ≠ [] := by
  cases tokens with
  | nil => exact absurd rfl h
  | cons token tokens =>
    rw [replaceNesting]
    split
    · exact List.append_ne_nil_of_left_ne_nil (lead_ne_nil hp) _
    · exact List.cons_ne_nil _ _

theorem combined_ne_nil (hp : p.tokens ≠ []) (hc : c.tokens ≠ []) :
    (if c.tokens.any isNesting then replaceNesting p false c.tokens
      else p.tokens ++ lead true c.tokens) ≠ [] := by
  split
  · exact replaceNesting_ne_nil hp hc
  · exact List.append_ne_nil_of_left_ne_nil hp _

theorem expandNestedSelector_eq (hp : p.tokens ≠ []) (hc : c.tokens ≠ []) :
    expandNestedSelector p c = some (nestOne p c) := if_neg (combined_ne_nil hp hc)

theorem settled_nestOne (hp : p.tokens ≠ []) (hc : c.tokens ≠ []) : Settled (nestOne p c) :=
  settled_normalize (combined_ne_nil hp hc)

/-- How often the parent stands in the result. -/
def SelectorBranch.copies (child : SelectorBranch) : ℕ :=
  if child.tokens.any isNesting then child.nestings else 1

theorem copies_pos : 0 < c.copies := by
  unfold SelectorBranch.copies
  split
  · rename_i hany
    obtain ⟨token, hmem, hnesting⟩ := List.any_eq_true.1 hany
    exact List.countP_pos_iff.2 ⟨token, hmem, hnesting⟩
  · exact Nat.one_pos

theorem parts_nestOne (hparts : parts p.tokens = parts q.tokens) :
    parts (nestOne p c).tokens = parts (nestOne q c).tokens := by
  show parts (settle none _) = parts (settle none _)
  rw [parts_settle, parts_settle]
  dsimp only
  split
  · exact parts_replace hparts
  · rw [parts_append, parts_append, hparts]

theorem spaces_nestOne (hp : Settled p) (hq : Settled q) (hparts : parts p.tokens = parts q.tokens) :
    spaces (nestOne p c).tokens + c.copies * spaces q.tokens =
      spaces (nestOne q c).tokens + c.copies * spaces p.tokens := by
  unfold SelectorBranch.copies
  show spaces (settle none _) + _ = spaces (settle none _) + _
  dsimp only
  split
  · exact spaces_replace hp hq hparts none
  · rw [settle_append, settle_append, hp.settled, hq.settled, lastPart_congr hparts, spaces_append,
      spaces_append]
    omega

/-- White space at the end of the parent shows if the parent spoils what stands behind an `&`. -/
theorem nestOne_normalize (hp : p.tokens ≠ []) (hc : NestingFirst none c.tokens) :
    ∃ more, spaces (nestOne p c).tokens = spaces (nestOne p.normalizeSelector c).tokens + more ∧
      (more = 0 → nestOne p c = nestOne p.normalizeSelector c) ∧
      (more = 0 ↔ (p.spoils && glued false c.tokens) = false) := by
  by_cases hany : c.tokens.any isNesting = true
  · have hone : ∀ parent, nestOne parent c =
        SelectorBranch.normalizeSelector ⟨replaceNesting parent false c.tokens, false⟩ := by
      intro parent
      unfold nestOne
      rw [if_pos hany]
    obtain ⟨hspaces, hsame⟩ := @replace_surplus p none c.tokens hp false none hc (.inr rfl)
    refine ⟨surplus p false none c.tokens, ?_, fun hzero => ?_, ?_⟩
    · rw [hone, hone]
      exact hspaces
    · rw [hone, hone]
      exact congrArg (SelectorBranch.mk · false) (hsame hzero)
    · have hiff := @surplus_eq_zero p none c.tokens false none hc nofun
      rwa [Bool.false_and] at hiff
  · have hone : ∀ parent, nestOne parent c =
        SelectorBranch.normalizeSelector ⟨parent.tokens ++ lead true c.tokens, false⟩ := by
      intro parent
      unfold nestOne
      rw [if_neg hany]
    have hsame : nestOne p c = nestOne p.normalizeSelector c := by
      rw [hone, hone]
      refine congrArg (SelectorBranch.mk · false) ?_
      show settle none (p.tokens ++ _) = settle none (settle none p.tokens ++ _)
      rw [settle_append, settle_append, settle_idem, lastPart_congr parts_settle]
    have hglued : ∀ tokens : List SelectorToken, tokens.any isNesting = false →
        glued false tokens = false := by
      intro tokens
      induction tokens with
      | nil => exact fun _ => rfl
      | cons token tokens ih =>
        intro hnone
        rw [List.any_cons, Bool.or_eq_false_iff] at hnone
        rw [glued, hnone.1, ih hnone.2]
        rfl
    rw [Bool.not_eq_true] at hany
    refine ⟨0, by rw [hsame]; rfl, fun _ => hsame, iff_of_true rfl ?_⟩
    rw [hglued _ hany, Bool.and_false]

/-! ## What Sass does with one parent, and with one `&` -/

namespace Sass

theorem fill_nesting {token : SelectorToken} (h : isNesting token = true) (parent : SelectorBranch)
    (parents : List SelectorBranch) : fill (parent :: parents) (token :: tokens) =
      lead token.spaced parent.tokens ++ fill parents tokens := by
  simp [fill, h]

theorem fill_other {token : SelectorToken} (h : isNesting token = false)
    (parents : List SelectorBranch) : fill parents (token :: tokens) = token :: fill parents tokens := by
  cases parents <;> simp [fill, h]

theorem fill_replicate (hp : p.trailing = false) (tokens : List SelectorToken) :
    fill (List.replicate (tokens.countP isNesting) p) tokens = replaceNesting p false tokens := by
  induction tokens with
  | nil => rfl
  | cons token tokens ih =>
    rw [replaceNesting, List.countP_cons]
    split
    · rename_i hnesting
      rw [List.replicate_succ, fill_nesting hnesting, hp, Bool.or_false, ih]
    · rename_i hnesting
      rw [fill_other (Bool.not_eq_true _ ▸ hnesting), Nat.add_zero, ih, Bool.or_false]

theorem choices_one (parent : SelectorBranch) (n : ℕ) :
    choices [parent] n = [List.replicate n parent] := by
  induction n with
  | zero => rfl
  | succ n ih => rw [choices, ih, List.replicate_succ]; rfl

theorem choices_length (parents : List SelectorBranch) (n : ℕ) :
    (choices parents n).length = parents.length ^ n := by
  induction n with
  | zero => rfl
  | succ n ih =>
    rw [choices, List.length_flatMap]
    simp [ih, pow_succ, Nat.mul_comm]

theorem nestWithin_eq {parents : List SelectorBranch} (hp : ∀ p ∈ parents, p.trailing = false)
    (hfew : parents.length = 1 ∨ c.nestings ≤ 1) :
    nestWithin parents c = parents.map fun parent => nestOne parent c := by
  unfold nestWithin nestOne
  split
  · rename_i hnone
    have hany : c.tokens.any isNesting = false := by
      rw [List.any_eq_false]
      exact fun token hmem => List.countP_eq_zero.1 hnone token hmem
    rw [hany]
    rfl
  · rename_i hsome
    have hany : c.tokens.any isNesting = true := by
      obtain ⟨token, hmem, hnesting⟩ := List.countP_pos_iff.1 (Nat.pos_of_ne_zero hsome)
      exact List.any_eq_true.2 ⟨token, hmem, hnesting⟩
    rw [hany]
    rcases hfew with hone | hone
    · obtain ⟨parent, rfl⟩ := List.length_eq_one_iff.1 hone
      rw [choices_one, List.map_singleton, List.map_singleton]
      unfold SelectorBranch.nestings
      rw [fill_replicate (hp parent (List.mem_singleton_self _))]
      rfl
    · have hone : c.nestings = 1 := by omega
      have hchoices : choices parents c.nestings = parents.map fun parent => [parent] := by
        rw [hone, choices, List.map_eq_flatMap]
        rfl
      rw [hchoices, List.map_map]
      refine List.map_congr_left fun parent hmem => ?_
      have hfill := fill_replicate (hp parent hmem) c.tokens
      rw [show c.tokens.countP isNesting = 1 from hone] at hfill
      show SelectorBranch.normalizeSelector ⟨fill [parent] c.tokens, false⟩ = _
      rw [show [parent] = List.replicate 1 parent from rfl, hfill]
      rfl

theorem nestWithin_length (parents : List SelectorBranch) :
    (nestWithin parents c).length = parents.length ^ max 1 c.nestings := by
  unfold nestWithin
  split
  · rename_i hnone
    rw [List.length_map, hnone]
    simp
  · rename_i hsome
    have hmax : max 1 c.nestings = c.nestings := by omega
    rw [List.length_map, choices_length, hmax]

/-! ## Column by column -/

theorem range_filterMap {α : Type} {β : Type} (rows : List α) (f : α → List β) :
    (List.range rows.length).flatMap (fun i => (rows[i]?.map f).getD []) = rows.flatMap f := by
  induction rows with
  | nil => rfl
  | cons row rows ih =>
    rw [List.length_cons, List.range_succ_eq_map, List.flatMap_cons, List.flatMap_cons,
      List.flatMap_map]
    exact congrArg (f row ++ ·) ih

/-- Every child has one branch for each parent: all children of the first parent come first. -/
theorem flattenVertically_columns {parents children : List SelectorBranch} (hchildren : children ≠ [])
    (f : SelectorBranch → SelectorBranch → SelectorBranch) :
    flattenVertically (children.map fun child => parents.map fun parent => f parent child) =
      parents.flatMap fun parent => children.map (f parent) := by
  have hmax : ((children.map fun child => parents.map fun parent => f parent child).map
      List.length).foldr max 0 = parents.length := by
    obtain ⟨first, rest, rfl⟩ := List.exists_cons_of_ne_nil hchildren
    induction rest generalizing first with
    | nil => simp
    | cons child rest ih =>
      rw [List.map_cons, List.map_cons, List.foldr_cons, ih child (List.cons_ne_nil _ _)]
      simp
  unfold flattenVertically
  rw [hmax, ← range_filterMap parents fun parent => children.map (f parent)]
  refine List.flatMap_congr fun i hi => ?_
  rw [List.mem_range] at hi
  rw [List.getElem?_eq_getElem hi, Option.map_some, Option.getD_some, List.filterMap_map]
  rw [← List.filterMap_eq_map]
  refine List.filterMap_congr fun child _ => ?_
  show (parents.map fun parent => f parent child)[i]? = some (f parents[i] child)
  rw [List.getElem?_map, List.getElem?_eq_getElem hi, Option.map_some]

theorem sum_range_lt {m n : ℕ} (h : m ≤ n) :
    ((List.range n).map fun i => if i < m then 1 else 0).sum = m := by
  induction n generalizing m with
  | zero =>
    rw [Nat.le_zero.1 h]
    rfl
  | succ n ih =>
    rw [List.range_succ, List.map_append, List.sum_append, List.map_singleton, List.sum_singleton]
    rcases Nat.lt_or_eq_of_le h with hlt | rfl
    · rw [ih (Nat.le_of_lt_succ hlt), if_neg (by omega), Nat.add_zero]
    · have hall : ((List.range n).map fun i => if i < n + 1 then 1 else 0) =
          (List.range n).map fun i => if i < n then 1 else 0 := by
        refine List.map_congr_left fun i hi => ?_
        rw [List.mem_range] at hi
        rw [if_pos hi, if_pos (by omega)]
      rw [hall, ih (Nat.le_refl n), if_pos (Nat.lt_succ_self n)]

theorem sum_columns {α : Type} {lists : List (List α)} {n : ℕ} (h : ∀ list ∈ lists, list.length ≤ n) :
    ((List.range n).map fun i => (lists.filterMap fun list => list[i]?).length).sum =
      (lists.map List.length).sum := by
  induction lists with
  | nil => simp
  | cons list lists ih =>
    have hcolumn : ∀ i, ((list :: lists).filterMap fun list => list[i]?).length =
        (if i < list.length then 1 else 0) + (lists.filterMap fun list => list[i]?).length := by
      intro i
      by_cases hi : i < list.length
      · rw [List.filterMap_cons, List.getElem?_eq_getElem hi, if_pos hi, Nat.add_comm]
        rfl
      · rw [List.filterMap_cons, List.getElem?_eq_none (by omega), if_neg hi, Nat.zero_add]
    simp only [hcolumn]
    rw [List.sum_map_add, sum_range_lt (h list List.mem_cons_self),
      ih fun other hmem => h other (List.mem_cons_of_mem _ hmem), List.map_cons, List.sum_cons]

theorem flattenVertically_length {α : Type} (lists : List (List α)) :
    (flattenVertically lists).length = (lists.map List.length).sum := by
  unfold flattenVertically
  rw [List.length_flatMap]
  refine sum_columns fun list hmem => ?_
  induction lists with
  | nil => cases hmem
  | cons first lists ih =>
    rw [List.map_cons, List.foldr_cons]
    rcases List.mem_cons.1 hmem with rfl | hmem
    · exact Nat.le_max_left _ _
    · exact Nat.le_trans (ih hmem) (Nat.le_max_right _ _)

end Sass

end PinOp.Css
