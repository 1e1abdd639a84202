import PinOp.Dom.NodeReferences
import PinOp.Dom.ShadowForest

/-!
# Invalidated subtrees

`invalidateSubtree` removes the dead entries and those in the subtree, or nothing at all: one entry
of which it cannot be told whether it is in the subtree ends the operation.
-/

namespace PinOp.Dom

open PinOp.Lib Program DomNodeRegistry

variable {Node : Type} [DecidableEq Node] {r : DomNodeRegistry Node} {alive : ℕ → Bool}
  {F : ShadowForest Node} {root : Node} {dom : DomReads Node} {contains : Node → Option Bool}
  {entry : NodeEntry Node} {entries : List (NodeEntry Node)} {ref : String}

/-! ## Which entries are taken -/

/-- The entries in the order of their references. -/
def DomNodeRegistry.ordered (r : DomNodeRegistry Node) : List (NodeEntry Node) :=
  (r.reverse.entries.map (·.2)).mergeSort fun left right => left.sequence ≤ right.sequence

/-- The entries that are chosen by what their dereferencing gives. -/
def pick (choose : NodeEntry Node → Bool → Bool) (alive : ℕ → Bool) :
    ℕ → List (NodeEntry Node) → List (NodeEntry Node)
  | _, [] => []
  | reads, entry :: entries =>
    if choose entry (alive reads) then entry :: pick choose alive (reads + 1) entries
    else pick choose alive (reads + 1) entries

omit [DecidableEq Node] in
theorem mem_pick {choose : NodeEntry Node → Bool → Bool} {reads : ℕ} :
    entry ∈ pick choose alive reads entries ↔
      ∃ i, entries[i]? = some entry ∧ choose entry (alive (reads + i)) = true := by
  induction entries generalizing reads with
  | nil => simp [pick]
  | cons first entries ih =>
    have hrest : entry ∈ pick choose alive (reads + 1) entries ↔
        ∃ i, (first :: entries)[i + 1]? = some entry ∧
          choose entry (alive (reads + (i + 1))) = true := by
      rw [ih]
      refine exists_congr fun i => ?_
      rw [List.getElem?_cons_succ, show reads + (i + 1) = reads + 1 + i by omega]
    rw [pick]
    split
    · rename_i hchoose
      rw [List.mem_cons, hrest]
      constructor
      · rintro (rfl | ⟨i, hi⟩)
        · exact ⟨0, rfl, hchoose⟩
        · exact ⟨i + 1, hi⟩
      · rintro ⟨i, hget, hi⟩
        cases i with
        | zero => exact .inl (Option.some.inj hget).symm
        | succ i => exact .inr ⟨i, hget, hi⟩
    · rename_i hchoose
      rw [hrest]
      constructor
      · rintro ⟨i, hi⟩
        exact ⟨i + 1, hi⟩
      · rintro ⟨i, hget, hi⟩
        cases i with
        | zero =>
          obtain rfl := Option.some.inj hget
          exact absurd hi hchoose
        | succ i => exact ⟨i, hget, hi⟩

omit [DecidableEq Node] in
theorem pick_sublist (choose : NodeEntry Node → Bool → Bool) (reads : ℕ) :
    (pick choose alive reads entries).Sublist entries := by
  induction entries generalizing reads with
  | nil => exact .slnil
  | cons first entries ih =>
    rw [pick]
    split
    · exact (ih _).cons_cons first
    · exact (ih _).cons first

omit [DecidableEq Node] in
theorem length_pick {choose other : NodeEntry Node → Bool → Bool} (reads : ℕ)
    (happart : ∀ entry lives, choose entry lives = true → other entry lives = false) :
    (pick choose alive reads entries).length + (pick other alive reads entries).length ≤
      entries.length := by
  induction entries generalizing reads with
  | nil => exact Nat.le_refl 0
  | cons first entries ih =>
    have hrest := ih (reads + 1)
    rw [pick, pick, List.length_cons]
    cases hchoose : choose first (alive reads) with
    | true =>
      rw [happart first _ hchoose, if_pos rfl, if_neg Bool.false_ne_true, List.length_cons]
      omega
    | false =>
      rw [if_neg Bool.false_ne_true]
      split
      · rw [List.length_cons]
        omega
      · omega

/-- Live entries in the subtree. -/
def taken (within : Node → Option Bool) (entry : NodeEntry Node) (lives : Bool) : Bool :=
  lives && within entry.node = some true

theorem classify_run (hauthoritative : ∀ entry ∈ entries,
      r.isEntryAuthoritative entry.ref entry entry.scope = true)
    (hdecided : ∀ i entry, entries[i]? = some entry → alive (r.reads + i) = true →
      ∃ found, withinSubtree dom contains root entry.node = some found) (found : Subtree Node) :
    classify alive dom contains root entries found r =
      (.ok (some ⟨found.invalidated ++
          pick (taken (withinSubtree dom contains root)) alive r.reads entries,
        found.dead ++ pick (fun _ lives => !lives) alive r.reads entries⟩),
        { r with reads := r.reads + entries.length }) := by
  induction entries generalizing r found with
  | nil => simp [classify, pick]
  | cons entry entries ih =>
    have hread := dereferenceEntry_run alive r entry.ref entry entry.scope
    rw [if_pos (hauthoritative entry List.mem_cons_self)] at hread
    have hrest := fun found => @ih { r with reads := r.reads + 1 }
      (fun other hmem => hauthoritative other (List.mem_cons_of_mem _ hmem))
      (fun i other hget halive => hdecided (i + 1) other hget (by
        rw [← halive, show r.reads + (i + 1) = r.reads + 1 + i by omega])) found
    have hlength : r.reads + 1 + entries.length = r.reads + (entries.length + 1) := by omega
    rw [pick, pick, List.length_cons, ← hlength, classify]
    cases halive : alive r.reads with
    | false =>
      rw [halive, if_neg Bool.false_ne_true] at hread
      rw [run_bind_ok hread]
      exact (hrest _).trans (by simp [taken])
    | true =>
      obtain ⟨within, hwithin⟩ := hdecided 0 entry rfl halive
      rw [halive, if_pos rfl] at hread
      rw [run_bind_ok hread]
      dsimp only
      rw [hwithin]
      cases within with
      | true => exact (hrest _).trans (by simp [taken, hwithin])
      | false => exact (hrest _).trans (by simp [taken, hwithin])

/-- One live entry of which it cannot be told ends the scan. -/
theorem classify_undecided (hauthoritative : ∀ entry ∈ entries,
      r.isEntryAuthoritative entry.ref entry entry.scope = true) {i : ℕ}
    (hget : entries[i]? = some entry) (halive : alive (r.reads + i) = true)
    (hundecided : withinSubtree dom contains root entry.node = none) (found : Subtree Node) :
    ∃ r', classify alive dom contains root entries found r = (.ok none, r') ∧ Frame r r' := by
  induction entries generalizing r found i with
  | nil => cases hget
  | cons first entries ih =>
    have hread := dereferenceEntry_run alive r first.ref first first.scope
    rw [if_pos (hauthoritative first List.mem_cons_self)] at hread
    have hrest : ∀ found, i ≠ 0 → ∃ r', classify alive dom contains root entries found
        { r with reads := r.reads + 1 } = (.ok none, r') ∧ Frame r r' := by
      intro found hi
      obtain ⟨i, rfl⟩ := Nat.exists_eq_succ_of_ne_zero hi
      obtain ⟨r', hrun, hframe⟩ := @ih { r with reads := r.reads + 1 }
        (fun other hmem => hauthoritative other (List.mem_cons_of_mem _ hmem)) i hget
        (by rw [← halive, show r.reads + (i + 1) = r.reads + 1 + i by omega]) found
      exact ⟨r', hrun, (read_frame r).trans hframe⟩
    rw [classify]
    cases hfirst : alive r.reads with
    | false =>
      rw [hfirst, if_neg Bool.false_ne_true] at hread
      rw [run_bind_ok hread]
      refine hrest _ ?_
      rintro rfl
      rw [Nat.add_zero, hfirst] at halive
      cases halive
    | true =>
      rw [hfirst, if_pos rfl] at hread
      rw [run_bind_ok hread]
      dsimp only
      cases hwithin : withinSubtree dom contains root first.node with
      | none => exact ⟨_, rfl, read_frame r⟩
      | some within =>
        have hi : i ≠ 0 := by
          rintro rfl
          obtain rfl := Option.some.inj hget
          rw [hundecided] at hwithin
          cases hwithin
        cases within with
        | true => exact hrest _ hi
        | false => exact hrest _ hi

/-! ## What is removed -/

theorem remove_present (inv : RegistryInvariant r) (hget : r.reverse.get? ref = some entry)
    (hsafe : r.authorityRevision ≤ maxSafeInteger) (node : Option Node) :
    remove ref entry node r = (.ok true, { r with
      structuralRevision := r.structuralRevision + 1
      authorityRevision := r.authorityRevision + 1 }.drop ref entry.scope node) := by
  unfold remove
  rw [run_get_bind, if_pos (authoritative_of_get? hget (inv.scope ref entry hget))]
  have hb := bumpStructuralRevision_run r
  rw [if_neg (not_lt.mpr hsafe)] at hb
  rw [run_bind_ok hb]
  rfl

/-- The entries of these references are gone, and no others. -/
structure Without (r r' : DomNodeRegistry Node) (refs : List String) : Prop where
  invariant : RegistryInvariant r'
  entries : ∀ ref, r'.reverse.get? ref = if ref ∈ refs then none else r.reverse.get? ref
  authorityRevision : r'.authorityRevision ≤ r.authorityRevision + refs.length

theorem removeAll_run (inv : RegistryInvariant r) (known : Bool)
    (hsafe : r.authorityRevision + entries.length ≤ maxSafeInteger) :
    ∃ r', removeAll known entries r = (.ok (), r') ∧ Without r r' (entries.map (·.ref)) := by
  induction entries generalizing r with
  | nil => exact ⟨r, rfl, inv, fun ref => by simp, by simp⟩
  | cons listed entries ih =>
    rw [List.length_cons] at hsafe
    rw [removeAll, run_get_bind]
    cases hget : r.reverse.get? listed.ref with
    | none =>
      obtain ⟨r', hrun, hwithout⟩ := ih inv (by omega)
      refine ⟨r', hrun, hwithout.invariant, fun ref => ?_, ?_⟩
      · rw [hwithout.entries ref, List.map_cons]
        by_cases href : ref = listed.ref
        · rw [href, hget]
          simp
        · simp [href]
      · have := hwithout.authorityRevision
        rw [List.map_cons, List.length_cons]
        omega
    | some entry =>
      dsimp only
      rw [run_bind_ok (remove_present inv hget (by omega) _)]
      have hbumped := inv.frame (bumped_frame r)
      obtain ⟨r', hrun, hwithout⟩ := @ih _
        (hbumped.drop listed.ref entry.scope (if known = true then some listed.node else none))
        (by show r.authorityRevision + 1 + entries.length ≤ maxSafeInteger; omega)
      refine ⟨r', hrun, hwithout.invariant, fun ref => ?_, ?_⟩
      · rw [hwithout.entries ref, List.map_cons]
        show (if ref ∈ entries.map (·.ref) then none else (r.reverse.delete listed.ref).get? ref) = _
        rw [OrderedMap.get?_delete]
        by_cases href : ref = listed.ref
        · simp [href]
        · simp [href]
      · have := hwithout.authorityRevision
        rw [List.map_cons, List.length_cons]
        show r'.authorityRevision ≤ r.authorityRevision + _
        have hdrop : (DomNodeRegistry.drop { r with
            structuralRevision := r.structuralRevision + 1
            authorityRevision := r.authorityRevision + 1 } listed.ref entry.scope
            (if known = true then some listed.node else none)).authorityRevision =
              r.authorityRevision + 1 := rfl
        omega

/-! ## The order of the references -/

omit [DecidableEq Node] in
theorem mem_ordered : entry ∈ r.ordered ↔ entry ∈ r.reverse.entries.map (·.2) :=
  List.mem_mergeSort

theorem ordered_get? (inv : RegistryInvariant r) (h : entry ∈ r.ordered) :
    r.reverse.get? entry.ref = some entry := by
  rw [mem_ordered] at h
  obtain ⟨⟨ref, other⟩, hmem, rfl⟩ := List.mem_map.1 h
  have hget := OrderedMap.get?_eq_some.2 hmem
  rw [(inv.ref ref other hget).1]
  exact hget

omit [DecidableEq Node] in
theorem mem_ordered_of_get? (h : r.reverse.get? ref = some entry) : entry ∈ r.ordered := by
  rw [mem_ordered]
  exact List.mem_map.2 ⟨(ref, entry), OrderedMap.get?_eq_some.1 h, rfl⟩

theorem ordered_authoritative (inv : RegistryInvariant r) (h : entry ∈ r.ordered) :
    r.isEntryAuthoritative entry.ref entry entry.scope = true :=
  authoritative_of_get? (ordered_get? inv h) (inv.scope _ _ (ordered_get? inv h))

omit [DecidableEq Node] in
theorem ordered_sorted (r : DomNodeRegistry Node) :
    r.ordered.Pairwise fun left right => left.sequence ≤ right.sequence := by
  have h := @List.pairwise_mergeSort (NodeEntry Node)
    (fun left right => decide (left.sequence ≤ right.sequence)) (by simp; omega) (by simp; omega)
    (r.reverse.entries.map (·.2))
  exact h.imp fun hle => of_decide_eq_true hle

theorem ordered_nodup (inv : RegistryInvariant r) : (r.ordered.map (·.ref)).Nodup := by
  have hperm : (r.ordered.map (·.ref)).Perm ((r.reverse.entries.map (·.2)).map (·.ref)) :=
    (List.mergeSort_perm _ _).map _
  rw [hperm.nodup_iff, List.map_map]
  have hkeys : r.reverse.entries.map ((·.ref) ∘ (·.2)) = r.reverse.keys := by
    refine List.map_congr_left fun pair hmem => ?_
    exact (inv.ref pair.1 pair.2 (OrderedMap.get?_eq_some.2 hmem)).1
  rw [hkeys]
  exact r.reverse.nodup_keys

/-! ## The subtree is revoked, or nothing is -/

/-- The entry is found alive when it is dereferenced. -/
def Lives (alive : ℕ → Bool) (r : DomNodeRegistry Node) (entry : NodeEntry Node) : Prop :=
  ∃ i, r.ordered[i]? = some entry ∧ alive (r.reads + i) = true

/-- What is left when the subtree of the root was revoked. -/
structure RevokesSubtree (F : ShadowForest Node) (root : Node) (alive : ℕ → Bool)
    (r : DomNodeRegistry Node) (refs : List String) (r' : DomNodeRegistry Node) : Prop where
  /-- The references are those of the live entries in the subtree. -/
  exact : ∀ ref, ref ∈ refs ↔ ∃ entry, r.reverse.get? ref = some entry ∧ Lives alive r entry ∧
    F.Includes root entry.node
  nodup : refs.Nodup
  /-- They come in the order in which they were made. -/
  inOrder : ∃ entries : List (NodeEntry Node), refs = entries.map (·.ref) ∧
    (∀ entry ∈ entries, r.reverse.get? entry.ref = some entry) ∧
    entries.Pairwise fun left right => left.sequence ≤ right.sequence
  revoked : ∀ ref ∈ refs, ∀ alive' scope, (resolve alive' ref scope r').1 = .ok none
  others : ∀ ref entry, r.reverse.get? ref = some entry → Lives alive r entry → ref ∉ refs →
    r'.reverse.get? ref = some entry ∧ ∀ alive', alive' r'.reads = true →
      (resolve alive' ref entry.scope r').1 = .ok (some entry.node)
  dead : ∀ ref entry, r.reverse.get? ref = some entry → ¬Lives alive r entry →
    r'.reverse.get? ref = none
  noneNew : ∀ ref entry, r'.reverse.get? ref = some entry → r.reverse.get? ref = some entry
  invariant : RegistryInvariant r'

theorem resolve_absent (h : r.reverse.get? ref = none) (scope : NodeScope) :
    (resolve alive ref scope r).1 = .ok none := by
  unfold resolve
  rw [run_get_bind, h]
  split <;> rfl

theorem invalidateSubtree_scan (hmethod : dom.contains = some contains) :
    invalidateSubtree alive root dom r =
      (classify alive dom contains root r.ordered ⟨[], []⟩ >>= fun
        | none => pure []
        | some found => do
          removeAll false found.dead
          removeAll true found.invalidated
          pure (found.invalidated.map (·.ref))) r := by
  unfold invalidateSubtree
  rw [run_get_bind, hmethod]
  rfl

theorem invalidateSubtree_eq (inv : RegistryInvariant r) (reads : F.Reads root dom contains)
    (hsafe : r.authorityRevision + r.reverse.size ≤ maxSafeInteger)
    (hdecided : ∀ i entry, r.ordered[i]? = some entry → alive (r.reads + i) = true →
      ∃ found, withinSubtree dom contains root entry.node = some found) :
    ∃ r', invalidateSubtree alive root dom r =
        (.ok ((pick (taken (withinSubtree dom contains root)) alive r.reads r.ordered).map (·.ref)), r') ∧
      RegistryInvariant r' ∧ r'.authorityRevision ≤ maxSafeInteger ∧
      ∀ ref, r'.reverse.get? ref =
        if ref ∈ (pick (taken (withinSubtree dom contains root)) alive r.reads r.ordered).map (·.ref) ∨
          ref ∈ (pick (fun _ lives => !lives) alive r.reads r.ordered).map (·.ref) then none
        else r.reverse.get? ref := by
  have hlength : r.ordered.length = r.reverse.size := by
    unfold DomNodeRegistry.ordered
    rw [List.length_mergeSort, List.length_map]
    rfl
  have hpick := @length_pick Node alive r.ordered (taken (withinSubtree dom contains root))
    (fun _ lives => !lives) r.reads (fun entry lives h => by
      cases lives with
      | true => rfl
      | false => cases h)
  have hclassify := @classify_run Node _ r alive root dom contains r.ordered
    (fun entry hmem => ordered_authoritative inv hmem) hdecided ⟨[], []⟩
  rw [List.nil_append, List.nil_append] at hclassify
  generalize pick (taken (withinSubtree dom contains root)) alive r.reads r.ordered = invalidated at *
  generalize pick (fun _ lives => !lives) alive r.reads r.ordered = dead at *
  have hread : Frame r { r with reads := r.reads + r.ordered.length } :=
    ⟨rfl, rfl, rfl, rfl, rfl, rfl, rfl, rfl, rfl, le_refl _⟩
  obtain ⟨r₁, hdead, hwithout₁⟩ := @removeAll_run Node _ _ dead (inv.frame hread) false
    (by show r.authorityRevision + dead.length ≤ maxSafeInteger; omega)
  have hrevision₁ : r₁.authorityRevision ≤ r.authorityRevision + dead.length := by
    have := hwithout₁.authorityRevision
    rwa [List.length_map] at this
  obtain ⟨r₂, hinvalidated, hwithout₂⟩ := @removeAll_run Node _ _ invalidated hwithout₁.invariant true
    (by omega)
  have hrevision₂ := hwithout₂.authorityRevision
  rw [List.length_map] at hrevision₂
  refine ⟨r₂, ?_, hwithout₂.invariant, by omega, fun ref => ?_⟩
  · rw [invalidateSubtree_scan reads.method, run_bind_ok hclassify]
    dsimp only
    rw [run_bind_ok hdead, run_bind_ok hinvalidated]
    rfl
  · rw [hwithout₂.entries ref, hwithout₁.entries ref]
    by_cases hmem : ref ∈ invalidated.map (·.ref)
    · rw [if_pos hmem, if_pos (.inl hmem)]
    · rw [if_neg hmem]
      by_cases hmem' : ref ∈ dead.map (·.ref)
      · rw [if_pos hmem', if_pos (.inr hmem')]
      · rw [if_neg hmem', if_neg (not_or.2 ⟨hmem, hmem'⟩)]

theorem invalidateSubtree_revokes (inv : RegistryInvariant r) (reads : F.Reads root dom contains)
    (hsafe : r.authorityRevision + r.reverse.size ≤ maxSafeInteger)
    (hdecided : ∀ entry, Lives alive r entry → F.Decided root entry.node) :
    ∃ refs r', invalidateSubtree alive root dom r = (.ok refs, r') ∧
      RevokesSubtree F root alive r refs r' := by
  have htold : ∀ i entry, r.ordered[i]? = some entry → alive (r.reads + i) = true →
      ∃ found, withinSubtree dom contains root entry.node = some found ∧
        (found = true ↔ F.Includes root entry.node) :=
    fun i entry hget halive => ShadowForest.withinSubtree_decided reads (hdecided entry ⟨i, hget, halive⟩)
  obtain ⟨r', hrun, hinv, hrevision, hget'⟩ := invalidateSubtree_eq inv reads hsafe
    fun i entry hget halive => (htold i entry hget halive).imp fun _ h => h.1
  have hsub : (pick (taken (withinSubtree dom contains root)) alive r.reads r.ordered).Sublist
      r.ordered := pick_sublist _ r.reads
  have hexact : ∀ ref,
      ref ∈ (pick (taken (withinSubtree dom contains root)) alive r.reads r.ordered).map (·.ref) ↔
        ∃ entry, r.reverse.get? ref = some entry ∧ Lives alive r entry ∧
          F.Includes root entry.node := by
    intro ref
    constructor
    · intro hmem
      obtain ⟨entry, hin, rfl⟩ := List.mem_map.1 hmem
      obtain ⟨i, hget, htaken⟩ := mem_pick.1 hin
      obtain ⟨halive, hwithin⟩ := Bool.and_eq_true_iff.1 htaken
      obtain ⟨found, hfound, hiff⟩ := htold i entry hget halive
      rw [hfound, decide_eq_true_eq] at hwithin
      exact ⟨entry, ordered_get? inv (List.mem_of_getElem? hget), ⟨i, hget, halive⟩,
        hiff.1 (Option.some.inj hwithin)⟩
    · rintro ⟨entry, hget, ⟨i, hi, halive⟩, hincludes⟩
      obtain ⟨found, hfound, hiff⟩ := htold i entry hi halive
      refine List.mem_map.2 ⟨entry, mem_pick.2 ⟨i, hi, ?_⟩, (inv.ref ref entry hget).1⟩
      rw [taken, halive, hfound, hiff.2 hincludes]
      rfl
  have hdead : ∀ ref entry, r.reverse.get? ref = some entry →
      (ref ∈ (pick (fun _ lives => !lives) alive r.reads r.ordered).map (·.ref) ↔
        ¬Lives alive r entry) := by
    intro ref entry hget
    constructor
    · rintro hmem ⟨i, hi, halive⟩
      obtain ⟨other, hin, rfl⟩ := List.mem_map.1 hmem
      obtain ⟨j, hj, hnot⟩ := mem_pick.1 hin
      have hsame : other = entry := by
        have := ordered_get? inv (List.mem_of_getElem? hj)
        rw [hget] at this
        exact (Option.some.inj this).symm
      rw [hsame] at hj
      have hij := (List.getElem?_inj (List.getElem?_eq_some_iff.1 hi).1
        (List.Nodup.of_map _ (ordered_nodup inv))).1 (hi.trans hj.symm)
      rw [← hij, halive] at hnot
      cases hnot
    · intro hnot
      obtain ⟨i, hi⟩ := List.mem_iff_getElem?.1 (mem_ordered_of_get? hget)
      refine List.mem_map.2 ⟨entry, mem_pick.2 ⟨i, hi, ?_⟩, (inv.ref ref entry hget).1⟩
      rw [Bool.not_eq_true']
      by_contra halive
      exact hnot ⟨i, hi, Bool.not_eq_false _ ▸ halive⟩
  refine ⟨_, r', hrun, hexact, (hsub.map _).nodup (ordered_nodup inv), ⟨_, rfl, fun entry hmem => ?_,
    (ordered_sorted r).sublist hsub⟩, fun ref hmem alive' scope => ?_, fun ref entry hget hlives hout =>
    ?_, fun ref entry hget hnot => ?_, fun ref entry hget => ?_, hinv⟩
  · exact ordered_get? inv (hsub.subset hmem)
  · exact resolve_absent (by rw [hget' ref, if_pos (.inl hmem)]) scope
  · have hkept : r'.reverse.get? ref = some entry := by
      rw [hget' ref, if_neg, hget]
      rintro (hmem | hmem)
      · exact hout hmem
      · exact (hdead ref entry hget).1 hmem hlives
    refine ⟨hkept, fun alive' halive => ?_⟩
    rw [resolve_live hinv hkept halive hrevision]
  · rw [hget' ref, if_pos (.inr ((hdead ref entry hget).2 hnot))]
  · rw [hget' ref] at hget
    split at hget
    · cases hget
    · exact hget

/-- One node too far away, and nothing is removed. -/
theorem invalidateSubtree_distant (inv : RegistryInvariant r) (reads : F.Reads root dom contains)
    (hlives : Lives alive r entry) (hdistant : F.Distant root entry.node) :
    ∃ r', invalidateSubtree alive root dom r = (.ok [], r') ∧ Frame r r' := by
  obtain ⟨i, hget, halive⟩ := hlives
  obtain ⟨r', hrun, hframe⟩ := @classify_undecided Node _ r alive root dom contains entry r.ordered
    (fun entry hmem => ordered_authoritative inv hmem) i hget halive
    (ShadowForest.withinSubtree_distant reads hdistant) ⟨[], []⟩
  refine ⟨r', ?_, hframe⟩
  rw [invalidateSubtree_scan reads.method, run_bind_ok hrun]
  rfl

/-- In every session: where each live entry is contained, or the walk from it is decided, the subtree
is revoked and the rest stays; where a walk is too long, everything stays. -/
theorem subtree_revoked {registry documentEpoch : ℕ} {maxReverseEntries : ℕ+} {s : Session Node}
    {h : List (Transition (Session Node) (Operation Node))}
    (run : Run Session.Step (.start registry maxReverseEntries documentEpoch) h s)
    (reads : F.Reads root dom contains) (alive : ℕ → Bool) :
    (s.registry.authorityRevision + s.registry.reverse.size ≤ maxSafeInteger →
      (∀ entry, Lives alive s.registry entry → F.Decided root entry.node) →
      ∃ refs r', invalidateSubtree alive root dom s.registry = (.ok refs, r') ∧
        RevokesSubtree F root alive s.registry refs r') ∧
      ((∃ entry, Lives alive s.registry entry ∧ F.Distant root entry.node) →
        ∃ r', invalidateSubtree alive root dom s.registry = (.ok [], r') ∧ Frame s.registry r') := by
  have inv : SessionInvariant s := run.invariant (.start registry maxReverseEntries documentEpoch)
    fun _ _ _ inv hs => inv.step hs
  refine ⟨fun hsafe hdecided => invalidateSubtree_revokes inv.registry reads hsafe hdecided, ?_⟩
  rintro ⟨entry, hlives, hdistant⟩
  exact invalidateSubtree_distant inv.registry reads hlives hdistant

/-! ## A long chain -/

/-- The nodes from 1 on hang one under another; 0 is alone. -/
def chainForest : ShadowForest ℕ where
  parent n := if n ≤ 1 then none else some (n - 1)
  host _ := none
  hyperlink _ := false
  rank n := n
  rank_parent := by
    intro n m h
    split at h
    · cases h
    · cases h
      omega
  rank_host := nofun

def chainReads : DomReads ℕ where
  contains := some fun n => some (n = 0)
  parentNode n := if n ≤ 1 then .null else .node (n - 1)
  host _ := .absent

theorem climb_chain {n k : ℕ} (h : k < n) : climb chainForest.parent k n = some (n - k) := by
  induction k generalizing n with
  | zero => rfl
  | succ k ih =>
    have hparent : chainForest.parent n = some (n - 1) := if_neg (by omega)
    rw [climb_succ hparent, ih (by omega), show n - 1 - k = n - (k + 1) by omega]

theorem climb_chain_ne {n : ℕ} (hn : n ≠ 0) (k : ℕ) : climb chainForest.parent k n ≠ some 0 := by
  intro hzero
  rcases Nat.lt_or_ge k n with hlt | hge
  · rw [climb_chain hlt] at hzero
    have := Option.some.inj hzero
    omega
  · have htop : climb chainForest.parent (n - 1) n = some 1 := by
      rw [climb_chain (by omega), show n - (n - 1) = 1 by omega]
    have := climb_le_of_top htop rfl hzero
    omega

theorem chain_up : chainForest.up = chainForest.parent := by
  funext n
  unfold ShadowForest.up
  cases chainForest.parent n <;> rfl

theorem chain_reads : chainForest.Reads 0 chainReads fun n => some (n = 0) where
  method := rfl
  contains := by
    intro n
    refine ⟨decide (n = 0), rfl, ?_⟩
    rw [decide_eq_true_eq]
    constructor
    · rintro rfl
      exact ⟨0, rfl⟩
    · rintro ⟨k, hk⟩
      by_contra hn
      exact climb_chain_ne hn k hk
  parentNode := by
    intro n
    by_cases hn : n ≤ 1
    · simp [chainReads, chainForest, hn]
    · simp [chainReads, chainForest, hn]
  host := fun _ _ => rfl

/-- References to the node that is alone, and to one in the chain. -/
def chainSession (n : ℕ) : Session ℕ :=
  ((Session.start 0 8 1).apply always (.reference 0 sampleScope (.ok ()))).apply always
    (.reference n sampleScope (.ok ()))

theorem chain_run (n : ℕ) : ∃ h, Run Session.Step (.start 0 8 1) h (chainSession n) :=
  ⟨_, (Run.start.next (step_apply _ (.reference 0 sampleScope (.ok ())) trivial)).next
    (step_apply _ (.reference n sampleScope (.ok ())) trivial)⟩

theorem chain_nodes : (chainSession 3).registry.reverse.entries.map (·.2.node) = [0, 3] ∧
    (chainSession 600).registry.reverse.entries.map (·.2.node) = [0, 600] := by
  decide +kernel

omit [DecidableEq Node] in
theorem lives_always (h : entry ∈ r.ordered) : Lives always r entry := by
  obtain ⟨i, hi⟩ := List.mem_iff_getElem?.1 h
  exact ⟨i, hi, rfl⟩

omit [DecidableEq Node] in
theorem node_of_ordered {n : Node} : (∃ entry ∈ r.ordered, entry.node = n) ↔
    n ∈ r.reverse.entries.map (·.2.node) := by
  constructor
  · rintro ⟨entry, hmem, rfl⟩
    obtain ⟨pair, hpair, rfl⟩ := List.mem_map.1 (mem_ordered.1 hmem)
    exact List.mem_map.2 ⟨pair, hpair, rfl⟩
  · intro hmem
    obtain ⟨pair, hpair, rfl⟩ := List.mem_map.1 hmem
    exact ⟨pair.2, mem_ordered.2 (List.mem_map.2 ⟨pair, hpair, rfl⟩), rfl⟩

theorem subtree_revoked_sample : ∃ refs r',
    invalidateSubtree always 0 chainReads (chainSession 3).registry = (.ok refs, r') ∧
      RevokesSubtree chainForest 0 always (chainSession 3).registry refs r' := by
  obtain ⟨h, run⟩ := chain_run 3
  refine (subtree_revoked run chain_reads always).1 (by decide +kernel) ?_
  rintro entry ⟨i, hget, -⟩
  have hnode := node_of_ordered.1 ⟨entry, List.mem_of_getElem? hget, rfl⟩
  rw [chain_nodes.1] at hnode
  rcases List.mem_pair.1 hnode with hnode | hnode
  · rw [hnode]
    exact .inl ⟨0, rfl⟩
  · rw [hnode]
    exact .inr ⟨2, by decide, .inr ⟨1, rfl, rfl, rfl⟩⟩

/-- A node at the end of a long chain keeps the reference of the root. -/
theorem distant_node_keeps : ∃ h,
    Run Session.Step (.start 0 8 1) h (chainSession 600) ∧
      (chainSession 600).registry.authorityRevision + (chainSession 600).registry.reverse.size ≤
        maxSafeInteger ∧
      chainForest.Reads 0 chainReads (fun n => some (n = 0)) ∧
      ¬∃ refs r', invalidateSubtree always 0 chainReads (chainSession 600).registry = (.ok refs, r') ∧
        RevokesSubtree chainForest 0 always (chainSession 600).registry refs r' := by
  obtain ⟨h, run⟩ := chain_run 600
  refine ⟨h, run, by decide +kernel, chain_reads, ?_⟩
  have inv : SessionInvariant (chainSession 600) := run.invariant (.start 0 8 1)
    fun _ _ _ inv hs => inv.step hs
  have hnodes : ∀ n ∈ [0, 600], ∃ entry ∈ (chainSession 600).registry.ordered, entry.node = n := by
    rw [← chain_nodes.2]
    exact fun _ => node_of_ordered.2
  obtain ⟨root, hroot, hzero⟩ := hnodes 0 (by decide)
  obtain ⟨far, hfar, hnode⟩ := hnodes 600 (by decide)
  have hdistant : chainForest.Distant 0 far.node := by
    rw [hnode]
    refine ⟨?_, ?_, fun k _ => ?_⟩
    · rintro ⟨k, hk⟩
      exact climb_chain_ne (by decide) k hk
    · rw [chain_up, climb_chain (by decide)]
      rfl
    · rw [chain_up]
      exact climb_chain_ne (by decide) k
  obtain ⟨r', hrun, -⟩ := invalidateSubtree_distant inv.registry chain_reads
    (lives_always hfar) hdistant
  rintro ⟨refs, r'', hrun', hrevokes⟩
  rw [hrun] at hrun'
  obtain rfl := Except.ok.inj (Prod.mk.inj hrun').1
  have hmem := (hrevokes.exact root.ref).2 ⟨root, ordered_get? inv.registry hroot,
    lives_always hroot, ⟨0, congrArg some hzero⟩⟩
  cases hmem

end PinOp.Dom
