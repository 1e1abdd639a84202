import PinOp.Lib.Recency
import PinOp.Lib.Runs
import PinOp.Dom.RegistryRestore

/-!
# Sessions of the registry

A session calls one operation after another. With the registry it keeps what `reference` has
returned, which references were used, and the snapshots that were taken. Restoring a snapshot
takes the uses back to what they were when it was taken; what was returned stays returned.
-/

namespace PinOp.Dom

open PinOp.Lib Program

inductive Operation (Node : Type) where
  | reference (node : Node) (scope : NodeScope) (created : Except WeakRefError Unit)
  | resolve (ref : String) (scope : NodeScope)
  | retain (ref : String) (reason : RetentionReason)
  | release (ref : String) (reason : RetentionReason)
  | invalidateSubtree (root : Node) (dom : DomReads Node)
  | prune
  | resetDocument (documentEpoch : ℕ)
  | snapshot
  | restore (snapshot : DomNodeRegistrySnapshot Node)

/-- The reference was returned for the node in the scope. -/
structure Issued (Node : Type) where
  ref : String
  node : Node
  scope : NodeScope

structure Session (Node : Type) where
  registry : DomNodeRegistry Node
  issued : List (Issued Node)
  uses : List String
  snapshots : List (DomNodeRegistrySnapshot Node × List String)

namespace Session

variable {Node : Type} [DecidableEq Node]

def start (registry : ℕ) (maxReverseEntries : ℕ+) (documentEpoch : ℕ) : Session Node :=
  ⟨DomNodeRegistry.start registry maxReverseEntries documentEpoch, [], [], []⟩

/-- The uses when the snapshot was taken. -/
def recallUses (s : Session Node) (snapshot : DomNodeRegistrySnapshot Node) : List String :=
  ((s.snapshots.find? fun taken => taken.1 = snapshot).map (·.2)).getD s.uses

def apply (alive : ℕ → Bool) (s : Session Node) : Operation Node → Session Node
  | .reference node scope created =>
    match DomNodeRegistry.reference alive node scope created s.registry with
    | (.ok ref, r) =>
      { s with registry := r, issued := ⟨ref, node, scope⟩ :: s.issued, uses := ref :: s.uses }
    | (.error _, r) => { s with registry := r }
  | .resolve ref scope =>
    match DomNodeRegistry.resolve alive ref scope s.registry with
    | (.ok (some _), r) => { s with registry := r, uses := ref :: s.uses }
    | (_, r) => { s with registry := r }
  | .retain ref reason =>
    match DomNodeRegistry.retain alive ref reason s.registry with
    | (.ok true, r) => { s with registry := r, uses := ref :: s.uses }
    | (_, r) => { s with registry := r }
  | .release ref reason =>
    { s with registry := (DomNodeRegistry.release ref reason s.registry).2 }
  | .invalidateSubtree root dom =>
    { s with registry := (DomNodeRegistry.invalidateSubtree alive root dom s.registry).2 }
  | .prune => { s with registry := (DomNodeRegistry.prune alive s.registry).2 }
  | .resetDocument documentEpoch =>
    { s with registry := (DomNodeRegistry.resetDocument documentEpoch s.registry).2 }
  | .snapshot =>
    match DomNodeRegistry.snapshot alive s.registry with
    | (.ok (some snapshot), r) =>
      { s with registry := r, snapshots := (snapshot, s.uses) :: s.snapshots }
    | (_, r) => { s with registry := r }
  | .restore snapshot =>
    match DomNodeRegistry.restore alive snapshot s.registry with
    | (.ok true, r) => { s with registry := r, uses := s.recallUses snapshot }
    | (_, r) => { s with registry := r }

/-- A snapshot that names this registry was taken of it. -/
def Allowed (s : Session Node) : Operation Node → Prop
  | .restore snapshot =>
    snapshot.registry = s.registry.registry → ∃ uses, (snapshot, uses) ∈ s.snapshots
  | _ => True

inductive Step (s : Session Node) (op : Operation Node) : Session Node → Prop
  | call (alive : ℕ → Bool) (h : s.Allowed op) : Step s op (s.apply alive op)

end Session

namespace DomNodeRegistry

variable {Node : Type} {r r' : DomNodeRegistry Node} {marks : List (Mark Node)} {ref : String}
  {entry : NodeEntry Node} {uses : List String}

def Mark.issued? : Mark Node → Option (Issued Node)
  | .inserted ref node scope => some ⟨ref, node, scope⟩
  | _ => none

theorem OnlyEvicted.used?_eq_nil (h : OnlyEvicted marks) : marks.filterMap Mark.used? = [] :=
  List.filterMap_eq_nil_iff.mpr h

theorem OnlyEvicted.issued?_eq_nil (h : OnlyEvicted marks) : marks.filterMap Mark.issued? = [] := by
  refine List.filterMap_eq_nil_iff.mpr fun mark hm => ?_
  cases mark with
  | used ref => rfl
  | inserted ref node scope => cases h _ hm
  | evicted eviction => rfl

variable [DecidableEq Node]

theorem Move.maxReverseEntries (h : Move r marks r') :
    r'.maxReverseEntries = r.maxReverseEntries := by
  cases h with
  | frame h => exact h.maxReverseEntries
  | touch ref _ =>
    obtain ⟨reverse, heq⟩ := moveToEnd_eq r ref
    rw [heq]
  | drop => rfl
  | evict => rfl
  | insert => rfl
  | hold => rfl
  | letGo => rfl
  | reset => rfl

theorem Moves.maxReverseEntries (h : Moves r marks r') :
    r'.maxReverseEntries = r.maxReverseEntries := by
  induction h with
  | refl => rfl
  | tail _ hm ih => exact hm.maxReverseEntries.trans ih

theorem Move.evicted (h : Move r marks r') :
    r'.evicted = marks.filterMap Mark.eviction? ++ r.evicted := by
  cases h with
  | frame h => exact h.evicted
  | touch ref _ =>
    obtain ⟨reverse, heq⟩ := moveToEnd_eq r ref
    rw [heq]
    rfl
  | drop => rfl
  | evict => rfl
  | insert => rfl
  | hold => rfl
  | letGo => rfl
  | reset => rfl

theorem Moves.evicted (h : Moves r marks r') :
    r'.evicted = marks.filterMap Mark.eviction? ++ r.evicted := by
  induction h with
  | refl => rfl
  | tail _ hm ih => rw [hm.evicted, ih, List.filterMap_append, List.append_assoc]

/-- The numbers of the references never fall, and a new reference has the next one. -/
theorem Move.nextRef (h : Move r marks r') :
    r.nextRef ≤ r'.nextRef ∧ ∀ issued ∈ marks.filterMap Mark.issued?,
      issued.ref = nodeRef r.nextRef ∧ r.nextRef < r'.nextRef ∧ r.nextRef ≤ maxSafeInteger := by
  cases h with
  | frame h => exact ⟨h.nextRef.ge, by simp⟩
  | touch ref _ =>
    obtain ⟨reverse, heq⟩ := moveToEnd_eq r ref
    rw [heq]
    exact ⟨le_refl _, by simp [Mark.issued?]⟩
  | drop => exact ⟨le_refl _, by simp⟩
  | evict => exact ⟨le_refl _, by simp [Mark.issued?]⟩
  | insert node scope _ _ _ hsafe =>
    refine ⟨Nat.le_succ _, fun issued hi => ?_⟩
    rw [show [Mark.inserted (nodeRef r.nextRef) node scope].filterMap Mark.issued? =
      [⟨nodeRef r.nextRef, node, scope⟩] from rfl, List.mem_singleton] at hi
    rw [hi]
    exact ⟨rfl, Nat.lt_succ_self _, hsafe⟩
  | hold => exact ⟨le_refl _, by simp⟩
  | letGo => exact ⟨le_refl _, by simp⟩
  | reset => exact ⟨le_refl _, by simp⟩

/-- At most one reference is returned. -/
theorem Move.issued_unique (h : Move r marks r') {issued issued' : Issued Node}
    (hi : issued ∈ marks.filterMap Mark.issued?) (hi' : issued' ∈ marks.filterMap Mark.issued?) :
    issued = issued' := by
  cases h with
  | insert node scope _ _ _ _ =>
    exact (List.mem_singleton.mp hi).trans (List.mem_singleton.mp hi').symm
  | frame => cases hi
  | drop => cases hi
  | evict => cases hi
  | touch => cases hi
  | hold => cases hi
  | letGo => cases hi
  | reset => cases hi

/-- An entry was there with its node and its scope, or it is a new one. -/
theorem Move.origin (h : Move r marks r') (hg : r'.reverse.get? ref = some entry) :
    (∃ old, r.reverse.get? ref = some old ∧ old.node = entry.node ∧ old.scope = entry.scope) ∨
      ⟨ref, entry.node, entry.scope⟩ ∈ marks.filterMap Mark.issued? := by
  have hset (old : NodeEntry Node) (reasons : List RetentionReason)
      (ref' : String) (hold : r.reverse.get? ref' = some old)
      (h : (r.reverse.set ref' { old with reasons := reasons }).get? ref = some entry) :
      ∃ old, r.reverse.get? ref = some old ∧ old.node = entry.node ∧ old.scope = entry.scope := by
    rw [OrderedMap.get?_set] at h
    split at h
    · rename_i he
      cases h
      exact ⟨old, he ▸ hold, rfl, rfl⟩
    · exact ⟨entry, h, rfl, rfl⟩
  have hdrop (ref' : String) (h : (r.reverse.delete ref').get? ref = some entry) :
      ∃ old, r.reverse.get? ref = some old ∧ old.node = entry.node ∧ old.scope = entry.scope := by
    rw [OrderedMap.get?_delete] at h
    split at h
    · cases h
    · exact ⟨entry, h, rfl, rfl⟩
  cases h with
  | frame h => exact .inl ⟨entry, h.reverse ▸ hg, rfl, rfl⟩
  | drop ref' entry' node _ => exact .inl (hdrop ref' hg)
  | evict ref' entry' rest node _ => exact .inl (hdrop ref' hg)
  | touch ref' _ =>
    rw [get?_moveToEnd] at hg
    exact .inl ⟨entry, hg, rfl, rfl⟩
  | insert node scope _ _ _ _ =>
    simp only [DomNodeRegistry.insert, OrderedMap.get?_set] at hg
    split at hg
    · rename_i he
      cases hg
      rw [he]
      exact .inr (List.mem_singleton_self _)
    · exact .inl ⟨entry, hg, rfl, rfl⟩
  | hold ref' entry' reason hold => exact .inl (hset entry' _ ref' hold hg)
  | letGo ref' entry' reason hold _ => exact .inl (hset entry' _ ref' hold hg)
  | reset _ _ => cases hg

/-- A key that is used goes last; the others keep their order. -/
theorem Move.byRecency (inv : RegistryInvariant r) (h : Move r marks r')
    (ho : ByRecency uses r.reverse.keys) :
    ByRecency (marks.filterMap Mark.used? ++ uses) r'.reverse.keys := by
  have hdelete (ref : String) : ByRecency uses (r.reverse.delete ref).keys :=
    ho.sublist (List.filter_sublist.map _)
  cases h with
  | frame h => exact h.reverse ▸ ho
  | drop ref entry node _ => exact hdelete ref
  | evict ref entry rest node _ => exact hdelete ref
  | touch ref hm =>
    obtain ⟨entry, hget⟩ := OrderedMap.mem_keys.mp hm
    have hnot : ref ∉ (r.reverse.delete ref).keys := fun h => (OrderedMap.mem_keys_delete.mp h).1 rfl
    have heq : (r.moveToEnd ref).reverse.keys = (r.reverse.delete ref).keys ++ [ref] := by
      unfold moveToEnd
      rw [hget]
      exact OrderedMap.keys_set_of_not_mem entry hnot
    rw [heq]
    exact (hdelete ref).use hnot
  | insert node scope _ _ _ _ =>
    have hnot : nodeRef r.nextRef ∉ r.reverse.keys := fun hm => by
      obtain ⟨entry, hget⟩ := OrderedMap.mem_keys.mp hm
      obtain ⟨-, k, -, hlt, -, hk⟩ := inv.ref _ _ hget
      have := nodeRef_injective hk
      omega
    simp only [DomNodeRegistry.insert]
    rw [OrderedMap.keys_set_of_not_mem _ hnot]
    exact ho.use hnot
  | hold ref entry reason h =>
    simp only [DomNodeRegistry.hold]
    rw [OrderedMap.keys_set_of_mem _ (OrderedMap.mem_keys.mpr ⟨entry, h⟩)]
    exact ho
  | letGo ref entry reason h _ =>
    simp only [DomNodeRegistry.letGo]
    rw [OrderedMap.keys_set_of_mem _ (OrderedMap.mem_keys.mpr ⟨entry, h⟩)]
    exact ho
  | reset _ _ => exact List.Pairwise.nil

end DomNodeRegistry

end PinOp.Dom
