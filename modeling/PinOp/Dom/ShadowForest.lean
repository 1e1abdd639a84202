import PinOp.Dom.DomNodeRegistry

/-!
# Trees with open shadow roots

A node is found in a subtree by `contains`, or by the walk up from it, which goes on from a shadow
root to its host. The walk gives up after `maxShadowAncestryDepth` nodes.
-/

namespace PinOp.Dom

open DomNodeRegistry (maxShadowAncestryDepth)

variable {Node : Type}

/-! ## Climbing -/

/-- What is reached in so many steps. -/
def climb (step : Node → Option Node) : ℕ → Node → Option Node
  | 0, n => some n
  | k + 1, n => (step n).bind (climb step k)

section Climb

variable {step : Node → Option Node} {n m : Node} {k j : ℕ}

theorem climb_succ (h : step n = some m) : climb step (k + 1) n = climb step k m := by
  rw [climb, h, Option.bind_some]

theorem climb_of_top (h : step n = none) (hk : 0 < k) : climb step k n = none := by
  obtain ⟨k, rfl⟩ := Nat.exists_eq_succ_of_ne_zero hk.ne'
  rw [climb, h, Option.bind_none]

theorem climb_add : climb step (k + j) n = (climb step k n).bind (climb step j) := by
  induction k generalizing n with
  | zero => rw [Nat.zero_add]; rfl
  | succ k ih =>
    rw [Nat.add_right_comm, climb, climb]
    cases step n with
    | none => rfl
    | some m => exact ih

/-- Nothing is beyond the top. -/
theorem climb_le_of_top {t : Node} (ht : climb step k n = some t) (htop : step t = none)
    (hm : climb step j n = some m) : j ≤ k := by
  by_contra hlt
  have hj : j = k + (j - k) := by omega
  rw [hj, climb_add, ht, Option.bind_some, climb_of_top htop (by omega)] at hm
  cases hm

end Climb

/-! ## The forest -/

/-- `host` is that of a shadow root. A hyperlink element has a `host` of its own, which is no node. -/
structure ShadowForest (Node : Type) where
  parent : Node → Option Node
  host : Node → Option Node
  hyperlink : Node → Bool
  rank : Node → ℕ
  rank_parent : ∀ n m, parent n = some m → rank m < rank n
  rank_host : ∀ n m, host n = some m → rank m < rank n

namespace ShadowForest

variable (F : ShadowForest Node)

/-- Out of a tree that is the shadow tree of a host. -/
def up (n : Node) : Option Node :=
  match F.parent n with
  | some p => some p
  | none => F.host n

/-- `root.contains(n)` -/
def Contains (root n : Node) : Prop := ∃ k, climb F.parent k n = some root

/-- The node is the root or a shadow-including descendant of it. -/
def Includes (root n : Node) : Prop := ∃ k, climb F.up k n = some root

/-- The walk meets the root or the end of the trees in time, or is not made. -/
def Decided (root n : Node) : Prop :=
  F.Contains root n ∨ ∃ k < maxShadowAncestryDepth, climb F.up k n = some root ∨
    ∃ t, climb F.up k n = some t ∧ F.up t = none ∧ F.hyperlink t = false

/-- The walk is too long. -/
def Distant (root n : Node) : Prop :=
  ¬F.Contains root n ∧ (climb F.up maxShadowAncestryDepth n).isSome = true ∧
    ∀ k < maxShadowAncestryDepth, climb F.up k n ≠ some root

/-- What is read of the forest, with a root that has its `contains`. -/
structure Reads (root : Node) (dom : DomReads Node) (contains : Node → Option Bool) : Prop where
  method : dom.contains = some contains
  contains : ∀ n, ∃ found, contains n = some found ∧ (found = true ↔ F.Contains root n)
  parentNode : ∀ n, dom.parentNode n = match F.parent n with
    | some p => .node p
    | none => .null
  host : ∀ n, F.parent n = none → dom.host n = match F.host n with
    | some h => .node h
    | none => if F.hyperlink n then .invalid else .absent

variable {F} {root n m : Node} {dom : DomReads Node} {contains : Node → Option Bool}

theorem up_of_parent (h : F.parent n = some m) : F.up n = some m := by
  unfold up
  rw [h]

theorem rank_up (h : F.up n = some m) : F.rank m < F.rank n := by
  unfold ShadowForest.up at h
  cases hparent : F.parent n with
  | some p =>
    rw [hparent] at h
    cases h
    exact F.rank_parent n m hparent
  | none =>
    rw [hparent] at h
    exact F.rank_host n m h

theorem contains_of_parent (hparent : F.parent n = some m) (h : F.Contains root m) :
    F.Contains root n := by
  obtain ⟨k, hk⟩ := h
  exact ⟨k + 1, (climb_succ hparent).trans hk⟩

theorem Contains.includes (h : F.Contains root n) : F.Includes root n := by
  obtain ⟨k, hk⟩ := h
  refine ⟨k, ?_⟩
  induction k generalizing n with
  | zero => exact hk
  | succ k ih =>
    rw [climb] at hk
    obtain ⟨p, hparent, hk⟩ := Option.bind_eq_some_iff.1 hk
    rw [climb_succ (up_of_parent hparent)]
    exact ih hk

/-- What the walk keeps: it goes down in rank, and it has crossed a boundary unless the root contains
no node on the way. -/
structure Walks (F : ShadowForest Node) (root n : Node) (crossed : Bool) (seen : List Node) : Prop where
  seen : ∀ other ∈ seen, F.rank n < F.rank other
  outside : crossed = false → ¬F.Contains root n

theorem Walks.start (h : ¬F.Contains root n) : F.Walks root n false [] :=
  ⟨List.forall_mem_nil _, fun _ => h⟩

theorem Walks.next {crossed : Bool} {seen : List Node} (h : F.Walks root n crossed seen)
    (hup : F.up n = some m) : F.Walks root m (crossed || (F.parent n).isNone) (n :: seen) where
  seen := by
    intro other hmem
    rcases List.mem_cons.1 hmem with rfl | hmem
    · exact rank_up hup
    · exact (rank_up hup).trans (h.seen other hmem)
  outside := by
    intro hcrossed hcontains
    rw [Bool.or_eq_false_iff] at hcrossed
    cases hparent : F.parent n with
    | none =>
      rw [hparent] at hcrossed
      cases hcrossed.2
    | some p =>
      rw [up_of_parent hparent] at hup
      cases hup
      exact h.outside hcrossed.1 (contains_of_parent hparent hcontains)

theorem Walks.fresh {crossed : Bool} {seen : List Node} (h : F.Walks root n crossed seen) :
    n ∉ seen := fun hmem => absurd (h.seen n hmem) (Nat.lt_irrefl _)

/-! ## The walk -/

variable [DecidableEq Node]

/-- One round of the walk, at a node that is not the root. -/
theorem shadowAncestry_step (reads : F.Reads root dom contains) {depth : ℕ} {crossed : Bool}
    {seen : List Node} (hroot : n ≠ root) (hseen : n ∉ seen) :
    DomNodeRegistry.shadowAncestry dom root (depth + 1) n crossed seen =
      match F.up n with
      | some next => DomNodeRegistry.shadowAncestry dom root depth next
          (crossed || (F.parent n).isNone) (n :: seen)
      | none => if F.hyperlink n then none else some false := by
  rw [DomNodeRegistry.shadowAncestry, if_neg hroot, if_neg hseen, reads.parentNode n]
  unfold up
  cases hparent : F.parent n with
  | some p =>
    rw [Option.isNone_some, Bool.or_false]
  | none =>
    dsimp only
    rw [reads.host n hparent]
    cases F.host n with
    | some h => rw [Option.isNone_none, Bool.or_true]
    | none => cases F.hyperlink n <;> rfl

theorem walk_meets (reads : F.Reads root dom contains) {depth k : ℕ} {crossed : Bool}
    {seen : List Node} (h : F.Walks root n crossed seen) (hk : k < depth)
    (hmeets : climb F.up k n = some root) :
    DomNodeRegistry.shadowAncestry dom root depth n crossed seen = some true := by
  induction depth generalizing n crossed seen k with
  | zero => omega
  | succ depth ih =>
    by_cases hroot : n = root
    · subst hroot
      have hcrossed : crossed = true := by
        by_contra hnot
        exact h.outside (Bool.not_eq_true _ ▸ hnot) ⟨0, rfl⟩
      rw [DomNodeRegistry.shadowAncestry, if_pos rfl, hcrossed]
      rfl
    · rw [shadowAncestry_step reads hroot h.fresh]
      cases k with
      | zero => exact absurd (Option.some.inj hmeets) hroot
      | succ k =>
        rw [climb] at hmeets
        obtain ⟨next, hup, hmeets⟩ := Option.bind_eq_some_iff.1 hmeets
        rw [hup]
        exact ih (h.next hup) (by omega) hmeets

theorem walk_ends (reads : F.Reads root dom contains) {depth k : ℕ} {crossed : Bool}
    {seen : List Node} {t : Node} (h : F.Walks root n crossed seen) (hk : k < depth)
    (hends : climb F.up k n = some t) (htop : F.up t = none) (hplain : F.hyperlink t = false)
    (hnot : ∀ j < depth, climb F.up j n ≠ some root) :
    DomNodeRegistry.shadowAncestry dom root depth n crossed seen = some false := by
  induction depth generalizing n crossed seen k with
  | zero => omega
  | succ depth ih =>
    have hroot : n ≠ root := fun heq => hnot 0 (Nat.succ_pos _) (heq ▸ rfl)
    rw [shadowAncestry_step reads hroot h.fresh]
    cases k with
    | zero =>
      obtain rfl := Option.some.inj hends
      rw [htop, hplain]
      rfl
    | succ k =>
      rw [climb] at hends
      obtain ⟨next, hup, hends⟩ := Option.bind_eq_some_iff.1 hends
      rw [hup]
      refine ih (h.next hup) (by omega) hends fun j hj => ?_
      rw [← climb_succ hup]
      exact hnot (j + 1) (by omega)

theorem walk_stops (reads : F.Reads root dom contains) {depth : ℕ} {crossed : Bool}
    {seen : List Node} (h : F.Walks root n crossed seen) (hsome : (climb F.up depth n).isSome = true)
    (hnot : ∀ j < depth, climb F.up j n ≠ some root) :
    DomNodeRegistry.shadowAncestry dom root depth n crossed seen = none := by
  induction depth generalizing n crossed seen with
  | zero => rfl
  | succ depth ih =>
    have hroot : n ≠ root := fun heq => hnot 0 (Nat.succ_pos _) (heq ▸ rfl)
    rw [shadowAncestry_step reads hroot h.fresh]
    cases hup : F.up n with
    | none =>
      rw [climb_of_top hup (Nat.succ_pos _)] at hsome
      cases hsome
    | some next =>
      rw [climb_succ hup] at hsome
      refine ih (h.next hup) hsome fun j hj => ?_
      rw [← climb_succ hup]
      exact hnot (j + 1) (by omega)

/-! ## Both ways to tell -/

theorem withinSubtree_decided (reads : F.Reads root dom contains) (h : F.Decided root n) :
    ∃ found, DomNodeRegistry.withinSubtree dom contains root n = some found ∧
      (found = true ↔ F.Includes root n) := by
  unfold DomNodeRegistry.withinSubtree
  split
  · rename_i heq
    exact ⟨true, rfl, iff_of_true rfl ⟨0, heq ▸ rfl⟩⟩
  · obtain ⟨found, hfound, hiff⟩ := reads.contains n
    rw [hfound]
    cases found with
    | true => exact ⟨true, rfl, iff_of_true rfl (hiff.1 rfl).includes⟩
    | false =>
      have hout : ¬F.Contains root n := fun hin => absurd (hiff.2 hin) Bool.false_ne_true
      by_cases hmeets : ∃ k < maxShadowAncestryDepth, climb F.up k n = some root
      · obtain ⟨k, hk, hmeets⟩ := hmeets
        exact ⟨true, walk_meets reads (.start hout) hk hmeets, iff_of_true rfl ⟨k, hmeets⟩⟩
      · have hnot : ∀ j < maxShadowAncestryDepth, climb F.up j n ≠ some root :=
          fun j hj heq => hmeets ⟨j, hj, heq⟩
        rcases h with hin | ⟨k, hk, hroot | ⟨t, ht, htop, hplain⟩⟩
        · exact absurd hin hout
        · exact absurd hroot (hnot k hk)
        · refine ⟨false, walk_ends reads (.start hout) hk ht htop hplain hnot, ?_⟩
          refine iff_of_false Bool.false_ne_true ?_
          rintro ⟨j, hj⟩
          exact hnot j (lt_of_le_of_lt (climb_le_of_top ht htop hj) hk) hj

theorem withinSubtree_distant (reads : F.Reads root dom contains) (h : F.Distant root n) :
    DomNodeRegistry.withinSubtree dom contains root n = none := by
  obtain ⟨hout, hsome, hnot⟩ := h
  have hroot : n ≠ root := by
    rintro rfl
    exact hnot 0 (by decide) rfl
  unfold DomNodeRegistry.withinSubtree
  rw [if_neg hroot]
  obtain ⟨found, hfound, hiff⟩ := reads.contains n
  rw [hfound]
  cases found with
  | true => exact absurd (hiff.1 rfl) hout
  | false => exact walk_stops reads (.start hout) hsome hnot

end ShadowForest

end PinOp.Dom
