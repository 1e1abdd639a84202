import PinOp.Dom.DomNodeRegistry

/-!
# What an operation does to the registry

An operation is a sequence of moves, whether it returns or throws: it drops an entry, evicts the
first that nothing retains, moves one to the end, inserts a new one, or changes what retains one.
`Moves` lists them with a mark for every entry that is used, inserted or evicted, newest first, and
`RegistryInvariant` is what all of them keep.
-/

namespace PinOp.Dom

open PinOp.Lib

namespace DomNodeRegistry

variable {Node : Type} {r r' r'' : DomNodeRegistry Node}

/-! ## Indexes -/

section
variable [DecidableEq Node]

theorem lookup_link (forward : OrderedMap Node (OrderedMap String String)) (node node' : Node)
    (key key' ref : String) :
    lookup (link forward node key ref) node' key' =
      if node' = node ∧ key' = key then some ref else lookup forward node' key' := by
  unfold lookup link
  rw [OrderedMap.get?_set]
  by_cases hn : node' = node
  · subst hn
    rw [if_pos rfl, Option.bind_some, OrderedMap.get?_set]
    by_cases hk : key' = key
    · simp [hk]
    · rw [if_neg hk, if_neg (fun h => hk h.2)]
      cases forward.get? node' with
      | none => rfl
      | some refs => rfl
  · rw [if_neg hn, if_neg (fun h => hn h.1)]

/-- Another reference is found where it was. -/
theorem lookup_unlink {forward : OrderedMap Node (OrderedMap String String)} {node node' : Node}
    {key key' ref ref' : String} (hne : ref' ≠ ref)
    (h : lookup forward node' key' = some ref') :
    lookup (unlink forward node key ref) node' key' = some ref' := by
  unfold unlink
  split
  · exact h
  · rename_i refs hrefs
    split
    · rename_i href
      unfold lookup at h ⊢
      by_cases hn : node' = node
      · subst hn
        rw [hrefs, Option.bind_some] at h
        have hk : key' ≠ key := by
          rintro rfl
          rw [href] at h
          exact hne (Option.some.inj h).symm
        have hdel : (refs.delete key).get? key' = some ref' := by
          rw [OrderedMap.get?_delete, if_neg hk, h]
        split
        · rename_i hz
          rw [OrderedMap.size_eq_zero.mp hz] at hdel
          cases hdel
        · rw [OrderedMap.get?_set, if_pos rfl, Option.bind_some, hdel]
      · split
        · rw [OrderedMap.get?_delete, if_neg hn]
          exact h
        · rw [OrderedMap.get?_set, if_neg hn]
          exact h
    · exact h

end

/-! ## Moves -/

/-- Only the revisions and the number of reads change; the authority revision never falls. -/
structure Frame (r r' : DomNodeRegistry Node) : Prop where
  registry : r'.registry = r.registry
  maxReverseEntries : r'.maxReverseEntries = r.maxReverseEntries
  forward : r'.forward = r.forward
  reverse : r'.reverse = r.reverse
  retained : r'.retained = r.retained
  documentEpoch : r'.documentEpoch = r.documentEpoch
  nextRef : r'.nextRef = r.nextRef
  nextSequence : r'.nextSequence = r.nextSequence
  evicted : r'.evicted = r.evicted
  authorityRevision : r.authorityRevision ≤ r'.authorityRevision

theorem Frame.trans (h₁ : Frame r r') (h₂ : Frame r' r'') : Frame r r'' :=
  ⟨h₂.1.trans h₁.1, h₂.2.trans h₁.2, h₂.3.trans h₁.3, h₂.4.trans h₁.4, h₂.5.trans h₁.5,
    h₂.6.trans h₁.6, h₂.7.trans h₁.7, h₂.8.trans h₁.8, h₂.9.trans h₁.9,
    h₁.authorityRevision.trans h₂.authorityRevision⟩

theorem Frame.refl (r : DomNodeRegistry Node) : Frame r r :=
  ⟨rfl, rfl, rfl, rfl, rfl, rfl, rfl, rfl, rfl, le_refl _⟩

/-- The entry of a reference is used, a reference is given to a node, or room is made. -/
inductive Mark (Node : Type) where
  | used (ref : String)
  | inserted (ref : String) (node : Node) (scope : NodeScope)
  | evicted (eviction : Eviction)

/-- The reference that is used. -/
def Mark.used? : Mark Node → Option String
  | .used ref => some ref
  | .inserted ref _ _ => some ref
  | .evicted _ => none

def Mark.eviction? : Mark Node → Option Eviction
  | .evicted eviction => some eviction
  | _ => none

/-- No entry is that of the node in the scope. -/
def Absent (r : DomNodeRegistry Node) (node : Node) (scope : NodeScope) : Prop :=
  ∀ ref entry, r.reverse.get? ref = some entry → ¬(entry.node = node ∧ entry.scope = scope)

theorem get?_moveToEnd (r : DomNodeRegistry Node) (ref ref' : String) :
    (r.moveToEnd ref).reverse.get? ref' = r.reverse.get? ref' := by
  unfold moveToEnd
  split
  · rfl
  · rename_i entry h
    simp only [OrderedMap.get?_set, OrderedMap.get?_delete]
    by_cases he : ref' = ref
    · rw [if_pos he, he, h]
    · rw [if_neg he, if_neg he]

theorem moveToEnd_eq (r : DomNodeRegistry Node) (ref : String) :
    ∃ reverse, r.moveToEnd ref = { r with reverse := reverse } := by
  unfold moveToEnd
  split
  · exact ⟨_, rfl⟩
  · exact ⟨_, rfl⟩

variable [DecidableEq Node]

inductive Move (r : DomNodeRegistry Node) :
    List (Mark Node) → DomNodeRegistry Node → Prop
  | frame {r' : DomNodeRegistry Node} (h : Frame r r') : Move r [] r'
  | drop (ref : String) (entry : NodeEntry Node) (node : Option Node)
    (h : r.reverse.get? ref = some entry) : Move r [] (r.drop ref entry.scope node)
  | evict (ref : String) (entry : NodeEntry Node) (rest : List (String × NodeEntry Node))
    (node : Option Node) (h : r.unretained = (ref, entry) :: rest) :
    Move r [.evicted ⟨ref, rest.map (·.1)⟩] { r.drop ref entry.scope node with
      evicted := ⟨ref, rest.map (·.1)⟩ :: r.evicted }
  | touch (ref : String) (h : ref ∈ r.reverse.keys) : Move r [.used ref] (r.moveToEnd ref)
  | insert (node : Node) (scope : NodeScope) (hscope : r.isCurrentScope scope = true)
    (hroom : r.reverse.size < r.maxReverseEntries) (habsent : Absent r node scope)
    (hsafe : r.nextRef ≤ maxSafeInteger) :
    Move r [.inserted (nodeRef r.nextRef) node scope] (r.insert node scope)
  | hold (ref : String) (entry : NodeEntry Node) (reason : RetentionReason)
    (h : r.reverse.get? ref = some entry) : Move r [] (r.hold ref entry reason)
  | letGo (ref : String) (entry : NodeEntry Node) (reason : RetentionReason)
    (h : r.reverse.get? ref = some entry) (hr : reason ∈ entry.reasons) :
    Move r [] (r.letGo ref entry reason)
  | reset (documentEpoch : ℕ) (h : r.documentEpoch < documentEpoch) :
    Move r [] { r with documentEpoch := documentEpoch, forward := ∅, reverse := ∅, retained := ∅ }

inductive Moves (r : DomNodeRegistry Node) : List (Mark Node) → DomNodeRegistry Node → Prop
  | refl : Moves r [] r
  | tail {marks new : List (Mark Node)} {r' r'' : DomNodeRegistry Node} :
    Moves r marks r' → Move r' new r'' → Moves r (new ++ marks) r''

theorem Moves.frame {marks : List (Mark Node)} (h : Moves r marks r') (hf : Frame r' r'') :
    Moves r marks r'' := h.tail (.frame hf)

theorem Move.authorityRevision {marks : List (Mark Node)} (h : Move r marks r') :
    r.authorityRevision ≤ r'.authorityRevision := by
  cases h with
  | frame h => exact h.authorityRevision
  | touch ref _ =>
    obtain ⟨reverse, heq⟩ := moveToEnd_eq r ref
    rw [heq]
  | drop => exact le_refl _
  | evict => exact le_refl _
  | insert => exact le_refl _
  | hold => exact le_refl _
  | letGo => exact le_refl _
  | reset => exact le_refl _

theorem Moves.authorityRevision {marks : List (Mark Node)} (h : Moves r marks r') :
    r.authorityRevision ≤ r'.authorityRevision := by
  induction h with
  | refl => exact le_refl _
  | tail _ hm ih => exact ih.trans hm.authorityRevision

/-! ## The invariant -/

structure RegistryInvariant (r : DomNodeRegistry Node) : Prop where
  capacity : r.reverse.size ≤ r.maxReverseEntries
  nextRef : 1 ≤ r.nextRef
  ref : ∀ ref entry, r.reverse.get? ref = some entry →
    entry.ref = ref ∧ ∃ k, 1 ≤ k ∧ k < r.nextRef ∧ k ≤ maxSafeInteger ∧ ref = nodeRef k
  scope : ∀ ref entry, r.reverse.get? ref = some entry → r.isCurrentScope entry.scope = true
  forward : ∀ ref entry, r.reverse.get? ref = some entry →
    lookup r.forward entry.node (createScopeKey entry.scope) = some ref
  retained : ∀ ref node, r.retained.get? ref = some node ↔
    ∃ entry, r.reverse.get? ref = some entry ∧ entry.reasons ≠ [] ∧ entry.node = node

namespace RegistryInvariant

theorem start (registry : ℕ) (maxReverseEntries : ℕ+) (documentEpoch : ℕ) :
    RegistryInvariant
      (start registry maxReverseEntries documentEpoch : DomNodeRegistry Node) := by
  refine ⟨Nat.zero_le _, le_refl 1, ?_, ?_, ?_, ?_⟩
  · intro ref entry h
    cases h
  · intro ref entry h
    cases h
  · intro ref entry h
    cases h
  · intro ref node
    constructor
    · intro h
      cases h
    · rintro ⟨entry, h, -⟩
      cases h

theorem frame (inv : RegistryInvariant r) (h : Frame r r') : RegistryInvariant r' := by
  obtain ⟨-, hmax, hf, hr, hret, hdoc, hn, -, -, -⟩ := h
  refine ⟨hr ▸ hmax ▸ inv.capacity, hn ▸ inv.nextRef, ?_, ?_, ?_, ?_⟩
  · rw [hr, hn]
    exact inv.ref
  · rw [hr]
    unfold isCurrentScope
    rw [hdoc]
    exact inv.scope
  · rw [hr, hf]
    exact inv.forward
  · rw [hr, hret]
    exact inv.retained

/-- Two entries of one node in one scope are the same. -/
theorem unique (inv : RegistryInvariant r) {ref ref' : String} {entry entry' : NodeEntry Node}
    (h : r.reverse.get? ref = some entry) (h' : r.reverse.get? ref' = some entry')
    (hnode : entry.node = entry'.node) (hscope : entry.scope = entry'.scope) : ref = ref' := by
  have hf := inv.forward ref entry h
  rw [hnode, hscope, inv.forward ref' entry' h'] at hf
  exact (Option.some.inj hf).symm

theorem drop (inv : RegistryInvariant r) (ref : String) (scope : NodeScope) (node : Option Node) :
    RegistryInvariant (r.drop ref scope node) := by
  have hrev (ref') (entry') (h : (r.drop ref scope node).reverse.get? ref' = some entry') :
      ref' ≠ ref ∧ r.reverse.get? ref' = some entry' := by
    simp only [DomNodeRegistry.drop, OrderedMap.get?_delete] at h
    split at h
    · cases h
    · rename_i hne
      exact ⟨hne, h⟩
  refine ⟨le_trans (OrderedMap.size_delete_le _ _) inv.capacity, inv.nextRef, ?_, ?_, ?_, ?_⟩
  · intro ref' entry' h
    exact inv.ref ref' entry' (hrev ref' entry' h).2
  · intro ref' entry' h
    exact inv.scope ref' entry' (hrev ref' entry' h).2
  · intro ref' entry' h
    obtain ⟨hne, h⟩ := hrev ref' entry' h
    have hf := inv.forward ref' entry' h
    cases node with
    | none => exact hf
    | some node => exact lookup_unlink hne hf
  · intro ref' node'
    simp only [DomNodeRegistry.drop, OrderedMap.get?_delete]
    by_cases he : ref' = ref
    · rw [if_pos he, if_pos he]
      constructor
      · intro h
        cases h
      · rintro ⟨_, h, -⟩
        cases h
    · rw [if_neg he, if_neg he]
      exact inv.retained ref' node'

theorem touch (inv : RegistryInvariant r) (ref : String) : RegistryInvariant (r.moveToEnd ref) := by
  have hget := get?_moveToEnd r ref
  have hrest : (r.moveToEnd ref).forward = r.forward ∧ (r.moveToEnd ref).retained = r.retained ∧
      (r.moveToEnd ref).documentEpoch = r.documentEpoch ∧
      (r.moveToEnd ref).nextRef = r.nextRef := by
    obtain ⟨reverse, heq⟩ := moveToEnd_eq r ref
    rw [heq]
    exact ⟨rfl, rfl, rfl, rfl⟩
  have hsize : (r.moveToEnd ref).reverse.size ≤ (r.moveToEnd ref).maxReverseEntries := by
    unfold moveToEnd
    split
    · exact inv.capacity
    · rename_i entry h
      have hm : ref ∈ r.reverse.keys := OrderedMap.mem_keys.mpr ⟨entry, h⟩
      show ((r.reverse.delete ref).set ref entry).size ≤ _
      rw [OrderedMap.size_delete_set entry hm]
      exact inv.capacity
  obtain ⟨hf, hret, hdoc, hn⟩ := hrest
  refine ⟨hsize, hn ▸ inv.nextRef, ?_, ?_, ?_, ?_⟩
  · simp only [hget, hn]
    exact inv.ref
  · unfold isCurrentScope
    simp only [hget, hdoc]
    exact inv.scope
  · simp only [hget, hf]
    exact inv.forward
  · simp only [hget, hret]
    exact inv.retained

theorem insert (inv : RegistryInvariant r) {node : Node} {scope : NodeScope}
    (hscope : r.isCurrentScope scope = true) (hroom : r.reverse.size < r.maxReverseEntries)
    (habsent : Absent r node scope) (hsafe : r.nextRef ≤ maxSafeInteger) :
    RegistryInvariant (r.insert node scope) := by
  -- the reference is new
  have hfresh : nodeRef r.nextRef ∉ r.reverse.keys := by
    intro hm
    obtain ⟨entry, h⟩ := OrderedMap.mem_keys.mp hm
    obtain ⟨-, k, -, hlt, -, hk⟩ := inv.ref _ _ h
    have := nodeRef_injective hk
    omega
  refine ⟨?_, Nat.le_add_left 1 _, ?_, ?_, ?_, ?_⟩
  · simp only [DomNodeRegistry.insert]
    rw [OrderedMap.size_set_of_not_mem _ hfresh]
    exact hroom
  · intro ref entry h
    simp only [DomNodeRegistry.insert, OrderedMap.get?_set] at h ⊢
    split at h
    · rename_i he
      cases h
      exact ⟨he.symm, r.nextRef, inv.nextRef, Nat.lt_succ_self _, hsafe, he⟩
    · obtain ⟨he, k, h1, hlt, hk, hr⟩ := inv.ref ref entry h
      exact ⟨he, k, h1, Nat.lt_succ_of_lt hlt, hk, hr⟩
  · intro ref entry h
    simp only [DomNodeRegistry.insert, OrderedMap.get?_set] at h ⊢
    split at h
    · cases h
      exact hscope
    · exact inv.scope ref entry h
  · intro ref entry h
    simp only [DomNodeRegistry.insert, OrderedMap.get?_set] at h ⊢
    rw [lookup_link]
    split at h
    · rename_i he
      cases h
      rw [if_pos ⟨rfl, rfl⟩, he]
    · rw [if_neg]
      · exact inv.forward ref entry h
      · rintro ⟨hnode, hkey⟩
        refine habsent ref entry h ⟨hnode, createScopeKey_inj ?_ ?_ hkey⟩
        · exact (Bool.and_eq_true_iff.mp (inv.scope ref entry h)).1
        · exact (Bool.and_eq_true_iff.mp hscope).1
  · intro ref node'
    simp only [DomNodeRegistry.insert, OrderedMap.get?_set]
    by_cases he : ref = nodeRef r.nextRef
    · rw [if_pos he]
      constructor
      · intro h
        obtain ⟨entry, hget, -⟩ := (inv.retained ref node').mp h
        exact absurd (OrderedMap.mem_keys.mpr ⟨entry, hget⟩) (he ▸ hfresh)
      · rintro ⟨entry, h, hne, -⟩
        cases h
        exact absurd rfl hne
    · rw [if_neg he]
      exact inv.retained ref node'

/-- An entry gets other reasons, and is retained exactly if there are some. -/
theorem reasons (inv : RegistryInvariant r) {ref : String} {entry : NodeEntry Node}
    (h : r.reverse.get? ref = some entry) (reasons : List RetentionReason)
    (retained : OrderedMap String Node)
    (hret : ∀ ref' node, retained.get? ref' = some node ↔
      if ref' = ref then reasons ≠ [] ∧ entry.node = node else r.retained.get? ref' = some node) :
    RegistryInvariant { r with
      reverse := r.reverse.set ref { entry with reasons := reasons }
      retained := retained } := by
  have hm : ref ∈ r.reverse.keys := OrderedMap.mem_keys.mpr ⟨entry, h⟩
  have hback (ref') (entry')
      (h' : (r.reverse.set ref { entry with reasons := reasons }).get? ref' = some entry') :
      ∃ old, r.reverse.get? ref' = some old ∧ old.ref = entry'.ref ∧ old.node = entry'.node ∧
        old.scope = entry'.scope := by
    rw [OrderedMap.get?_set] at h'
    split at h'
    · rename_i he
      cases h'
      exact ⟨entry, he ▸ h, rfl, rfl, rfl⟩
    · exact ⟨entry', h', rfl, rfl, rfl⟩
  refine ⟨?_, inv.nextRef, ?_, ?_, ?_, ?_⟩
  · rw [OrderedMap.size_set_of_mem _ hm]
    exact inv.capacity
  · intro ref' entry' h'
    obtain ⟨old, hold, href, -⟩ := hback ref' entry' h'
    exact href ▸ inv.ref ref' old hold
  · intro ref' entry' h'
    obtain ⟨old, hold, -, -, hscope⟩ := hback ref' entry' h'
    exact hscope ▸ inv.scope ref' old hold
  · intro ref' entry' h'
    obtain ⟨old, hold, -, hnode, hscope⟩ := hback ref' entry' h'
    exact hscope ▸ hnode ▸ inv.forward ref' old hold
  · intro ref' node
    rw [hret]
    simp only [OrderedMap.get?_set]
    split
    · constructor
      · rintro ⟨hne, hnode⟩
        exact ⟨_, rfl, hne, hnode⟩
      · rintro ⟨entry', he, hne, hnode⟩
        cases he
        exact ⟨hne, hnode⟩
    · exact inv.retained ref' node

theorem hold (inv : RegistryInvariant r) {ref : String} {entry : NodeEntry Node}
    (h : r.reverse.get? ref = some entry)
    (reason : RetentionReason) : RegistryInvariant (r.hold ref entry reason) := by
  refine inv.reasons h _ _ fun ref' node => ?_
  have hne : (if reason ∈ entry.reasons then entry.reasons else entry.reasons ++ [reason]) ≠ [] := by
    split
    · rename_i hm
      exact List.ne_nil_of_mem hm
    · simp
  rw [OrderedMap.get?_set]
  split
  · simp [hne]
  · rfl

theorem letGo (inv : RegistryInvariant r) {ref : String} {entry : NodeEntry Node}
    (h : r.reverse.get? ref = some entry)
    {reason : RetentionReason} (hr : reason ∈ entry.reasons) :
    RegistryInvariant (r.letGo ref entry reason) := by
  have hself : r.retained.get? ref = some entry.node :=
    (inv.retained ref entry.node).mpr ⟨entry, h, List.ne_nil_of_mem hr, rfl⟩
  refine inv.reasons h _ _ fun ref' node => ?_
  generalize entry.reasons.filter (fun other => other ≠ reason) = reasons
  by_cases hnil : reasons = []
  · rw [if_pos hnil, OrderedMap.get?_delete]
    split
    · simp [hnil]
    · rfl
  · rw [if_neg hnil]
    split
    · rename_i he
      subst he
      rw [hself]
      simp [hnil]
    · rfl

theorem move {marks : List (Mark Node)} (inv : RegistryInvariant r) (h : Move r marks r') :
    RegistryInvariant r' := by
  cases h with
  | frame h => exact inv.frame h
  | drop ref entry node _ => exact inv.drop ref entry.scope node
  | evict ref entry rest node _ =>
    obtain ⟨h1, h2, h3, h4, h5, h6⟩ := inv.drop ref entry.scope node
    exact ⟨h1, h2, h3, h4, h5, h6⟩
  | touch ref _ => exact inv.touch ref
  | insert node scope hscope hroom habsent hsafe => exact inv.insert hscope hroom habsent hsafe
  | hold ref entry reason h => exact inv.hold h reason
  | letGo ref entry reason h hr => exact inv.letGo h hr
  | reset documentEpoch _ =>
    refine ⟨Nat.zero_le _, inv.nextRef, ?_, ?_, ?_, ?_⟩
    · intro ref entry h
      cases h
    · intro ref entry h
      cases h
    · intro ref entry h
      cases h
    · intro ref node
      constructor
      · intro h
        cases h
      · rintro ⟨_, h, -⟩
        cases h

theorem moves {marks : List (Mark Node)} (inv : RegistryInvariant r) (h : Moves r marks r') :
    RegistryInvariant r' := by
  induction h with
  | refl => exact inv
  | tail _ hm ih => exact ih.move hm

end RegistryInvariant

end DomNodeRegistry

end PinOp.Dom
