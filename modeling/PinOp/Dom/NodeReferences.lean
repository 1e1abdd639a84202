import PinOp.Dom.RegistrySessions

/-!
# What a node reference means

In every session a reference stands for one node in one scope, and an entry that is evicted is the
one that was used longest ago.
-/

namespace PinOp.Dom

open PinOp.Lib Program DomNodeRegistry

variable {Node : Type} [DecidableEq Node] {s s' : Session Node} {r : DomNodeRegistry Node}
  {marks : List (Mark Node)} {alive : ℕ → Bool} {snapshot : DomNodeRegistrySnapshot Node}

/-- The order is only kept until the authority revision is exhausted; nothing is evicted then. -/
structure SessionInvariant (s : Session Node) : Prop where
  registry : RegistryInvariant s.registry
  issuedRef : ∀ issued ∈ s.issued, ∃ k, 1 ≤ k ∧ k < s.registry.nextRef ∧ k ≤ maxSafeInteger ∧
    issued.ref = nodeRef k
  unique : ∀ issued ∈ s.issued, ∀ issued' ∈ s.issued, issued.ref = issued'.ref → issued = issued'
  entries : ∀ ref entry, s.registry.reverse.get? ref = some entry →
    ⟨ref, entry.node, entry.scope⟩ ∈ s.issued
  snapshots : ∀ taken ∈ s.snapshots, ∀ entry ∈ taken.1.entries,
    ⟨entry.ref, entry.node, entry.scope⟩ ∈ s.issued
  order : s.registry.authorityRevision ≤ maxSafeInteger →
    ByRecency s.uses s.registry.reverse.keys ∧
      ∀ taken ∈ s.snapshots, ByRecency taken.2 (taken.1.entries.map (·.ref))

namespace SessionInvariant

theorem start (registry : ℕ) (maxReverseEntries : ℕ+) (documentEpoch : ℕ) :
    SessionInvariant (.start registry maxReverseEntries documentEpoch : Session Node) := by
  refine ⟨.start registry maxReverseEntries documentEpoch, ?_, ?_, ?_, ?_, ?_⟩
  · intro issued h
    cases h
  · intro issued h
    cases h
  · intro ref entry h
    cases h
  · intro taken h
    cases h
  · intro _
    refine ⟨List.Pairwise.nil, fun taken h => ?_⟩
    cases h

theorem move (inv : SessionInvariant s) (h : Move s.registry marks r) :
    SessionInvariant { s with
      registry := r
      issued := marks.filterMap Mark.issued? ++ s.issued
      uses := marks.filterMap Mark.used? ++ s.uses } := by
  obtain ⟨hle, hnew⟩ := h.nextRef
  refine ⟨inv.registry.move h, fun issued hi => ?_, fun issued hi issued' hi' href => ?_,
    fun ref entry hget => ?_, fun taken ht entry he => ?_, fun ha => ?_⟩
  · rcases List.mem_append.mp hi with hi | hi
    · obtain ⟨href, hlt, hsafe⟩ := hnew issued hi
      exact ⟨_, inv.registry.nextRef, hlt, hsafe, href⟩
    · obtain ⟨k, h1, hlt, hsafe, href⟩ := inv.issuedRef issued hi
      exact ⟨k, h1, hlt.trans_le hle, hsafe, href⟩
  · -- the number of a new reference is larger than those of the others
    have hdiffer (a b : Issued Node) (ha : a ∈ marks.filterMap Mark.issued?) (hb : b ∈ s.issued) :
        a.ref ≠ b.ref := by
      intro href
      obtain ⟨k, -, hlt, -, hk⟩ := inv.issuedRef b hb
      rw [(hnew a ha).1, hk] at href
      have := nodeRef_injective href
      omega
    rcases List.mem_append.mp hi with hi | hi
    · rcases List.mem_append.mp hi' with hi' | hi'
      · exact h.issued_unique hi hi'
      · exact absurd href (hdiffer issued issued' hi hi')
    · rcases List.mem_append.mp hi' with hi' | hi'
      · exact absurd href.symm (hdiffer issued' issued hi' hi)
      · exact inv.unique issued hi issued' hi' href
  · rcases h.origin hget with ⟨old, hold, hnode, hscope⟩ | hm
    · rw [← hnode, ← hscope]
      exact List.mem_append_right _ (inv.entries ref old hold)
    · exact List.mem_append_left _ hm
  · exact List.mem_append_right _ (inv.snapshots taken ht entry he)
  · obtain ⟨ho, hs⟩ := inv.order (h.authorityRevision.trans ha)
    exact ⟨h.byRecency inv.registry ho, hs⟩

theorem moves (inv : SessionInvariant s) (h : Moves s.registry marks r) :
    SessionInvariant { s with
      registry := r
      issued := marks.filterMap Mark.issued? ++ s.issued
      uses := marks.filterMap Mark.used? ++ s.uses } := by
  induction h with
  | refl => exact inv
  | tail _ hm ih =>
    have := ih.move hm
    rw [List.filterMap_append, List.filterMap_append, List.append_assoc, List.append_assoc]
    exact this

/-- Nothing is used or returned. -/
theorem quiet (inv : SessionInvariant s) (h : Moves s.registry [] r) :
    SessionInvariant { s with registry := r } := inv.moves h

theorem used {ref : String} (inv : SessionInvariant s) (h : Moves s.registry [.used ref] r) :
    SessionInvariant { s with registry := r, uses := ref :: s.uses } := inv.moves h

theorem frame (inv : SessionInvariant s) (h : Frame s.registry r) :
    SessionInvariant { s with registry := r } := inv.quiet (Moves.refl.frame h)


/-- A snapshot has the entries of the registry. -/
theorem snapshotTaken (inv : SessionInvariant s) (h : Frame s.registry r)
    {taken : DomNodeRegistrySnapshot Node} (he : taken.entries =
      s.registry.reverse.entries.map fun entry => { entry.2 with ref := entry.1 }) :
    SessionInvariant { s with registry := r, snapshots := (taken, s.uses) :: s.snapshots } := by
  have inv' := inv.frame h
  refine ⟨inv'.registry, inv'.issuedRef, inv'.unique, inv'.entries, ?_, fun ha => ?_⟩
  · intro other ho entry hm
    rcases List.mem_cons.mp ho with rfl | ho
    · rw [he] at hm
      obtain ⟨⟨ref, entry⟩, hmem, rfl⟩ := List.mem_map.mp hm
      exact inv.entries ref entry (OrderedMap.get?_eq_some.mpr hmem)
    · exact inv.snapshots other ho entry hm
  · obtain ⟨ho, hs⟩ := inv'.order ha
    refine ⟨ho, fun other hm => ?_⟩
    rcases List.mem_cons.mp hm with rfl | hm
    · show ByRecency s.uses (taken.entries.map (·.ref))
      rw [he, List.map_map]
      exact h.reverse ▸ ho
    · exact hs other hm

theorem restored (inv : SessionInvariant s) (h : Restored s.registry snapshot r)
    {taken uses : List String} (hm : (snapshot, taken) ∈ s.snapshots)
    (hu : r.authorityRevision ≤ maxSafeInteger → ByRecency uses (snapshot.entries.map (·.ref))) :
    SessionInvariant { s with registry := r, uses := uses } := by
  obtain ⟨hacc, hlt, indexes, hb, huntouched⟩ := h
  have hf := huntouched.frame
  have hentry (ref) (entry) (h : indexes.reverse.get? ref = some entry) :
      entry.ref = ref ∧ entry ∈ snapshot.entries := by
    have hm := OrderedMap.get?_eq_some.mp h
    rw [hb.reverse] at hm
    obtain ⟨e, he, heq⟩ := List.mem_map.mp hm
    cases heq
    exact ⟨rfl, he⟩
  have hissued (ref) (entry) (h : indexes.reverse.get? ref = some entry) :
      (⟨ref, entry.node, entry.scope⟩ : Issued Node) ∈ s.issued := by
    obtain ⟨rfl, he⟩ := hentry ref entry h
    exact inv.snapshots _ hm entry he
  have hkeys : indexes.reverse.keys = snapshot.entries.map (·.ref) := by
    rw [OrderedMap.keys, hb.reverse, List.map_map]
    rfl
  have hrestored : RegistryInvariant (s.registry.restoreIndexes snapshot indexes) := by
    refine ⟨?_, le_max_of_le_left inv.registry.nextRef, fun ref entry h => ?_, fun ref entry h => ?_,
      fun ref entry h => ?_, hb.retained⟩
    · simp only [accepts, Bool.and_eq_true, decide_eq_true_eq] at hacc
      show indexes.reverse.size ≤ _
      rw [← OrderedMap.length_keys, hkeys, List.length_map]
      exact hacc.2
    · obtain ⟨k, h1, hlt, hsafe, hk⟩ := inv.issuedRef _ (hissued ref entry h)
      exact ⟨(hentry ref entry h).1, k, h1, lt_max_of_lt_left hlt, hsafe, hk⟩
    · exact hb.scope entry (hentry ref entry h).2
    · obtain ⟨rfl, he⟩ := hentry ref entry h
      exact hb.forward entry he
  refine ⟨hrestored.frame hf, fun issued hi => ?_, inv.unique, fun ref entry h => ?_,
    inv.snapshots, fun ha => ?_⟩
  · obtain ⟨k, h1, hlt, hsafe, hk⟩ := inv.issuedRef issued hi
    refine ⟨k, h1, ?_, hsafe, hk⟩
    show k < r.nextRef
    rw [hf.nextRef]
    exact lt_max_of_lt_left hlt
  · have h : r.reverse.get? ref = some entry := h
    rw [hf.reverse] at h
    exact hissued ref entry h
  · refine ⟨?_, (inv.order (hlt.le.trans ha)).2⟩
    show ByRecency uses r.reverse.keys
    rw [hf.reverse]
    show ByRecency uses indexes.reverse.keys
    rw [hkeys]
    exact hu ha

/-- The uses that are recalled were those when an equal snapshot was taken. -/
theorem recallUses (inv : SessionInvariant s) (ha : s.registry.authorityRevision ≤ maxSafeInteger)
    {taken : List String} (hm : (snapshot, taken) ∈ s.snapshots) :
    ByRecency (s.recallUses snapshot) (snapshot.entries.map (·.ref)) := by
  unfold Session.recallUses
  cases hfind : s.snapshots.find? fun taken => taken.1 = snapshot with
  | none => exact absurd (List.find?_eq_none.mp hfind _ hm) (by simp)
  | some found =>
    have heq : found.1 = snapshot := by simpa using List.find?_some hfind
    rw [← heq]
    exact (inv.order ha).2 found (List.mem_of_find?_eq_some hfind)

/-- What was returned may be returned again. -/
theorem returned (inv : SessionInvariant s) {issued : Issued Node} (h : issued ∈ s.issued) :
    SessionInvariant { s with issued := issued :: s.issued } := by
  have hmem (other : Issued Node) (ho : other ∈ issued :: s.issued) : other ∈ s.issued := by
    rcases List.mem_cons.mp ho with rfl | ho
    · exact h
    · exact ho
  exact ⟨inv.registry, fun other ho => inv.issuedRef other (hmem other ho),
    fun other ho other' ho' => inv.unique other (hmem other ho) other' (hmem other' ho'),
    fun ref entry hg => List.mem_cons_of_mem _ (inv.entries ref entry hg),
    fun taken ht entry he => List.mem_cons_of_mem _ (inv.snapshots taken ht entry he), inv.order⟩

theorem apply (inv : SessionInvariant s) {op : Operation Node} (h : s.Allowed op) :
    SessionInvariant (s.apply alive op) := by
  cases op with
  | reference node scope created =>
    have hsat : Referenced s.registry node scope
        (reference alive node scope created s.registry).1 _ := reference_sat inv.registry _ rfl
    simp only [Session.apply]
    cases hrun : reference alive node scope created s.registry with
    | mk result r =>
      rw [hrun] at hsat
      rcases hsat with ⟨ref, entry, rfl, hm, hget, rfl, rfl⟩ | ⟨-, marks, honly, hok, herror⟩
      · exact (inv.used hm).returned (inv.entries ref entry hget)
      · cases result with
        | error error =>
          have hm := inv.moves (herror error rfl)
          rw [honly.used?_eq_nil, honly.issued?_eq_nil] at hm
          exact hm
        | ok ref =>
          have hm := inv.moves (hok ref rfl)
          rw [List.filterMap_cons, List.filterMap_cons, honly.used?_eq_nil,
            honly.issued?_eq_nil] at hm
          exact hm
  | resolve ref scope =>
    have hsat := (resolve_sat : Sat _ (resolve alive ref scope) _) s.registry rfl
    simp only [Session.apply]
    cases hrun : resolve alive ref scope s.registry with
    | mk result r =>
      rw [hrun] at hsat
      split
      · rename_i heq
        cases heq
        exact inv.used (hsat.1 _ rfl)
      · rename_i hne heq
        cases heq
        exact inv.quiet (hsat.2 fun node he => hne node he)
  | retain ref reason =>
    have hsat := (retain_sat : Sat _ (retain alive ref reason) _) s.registry rfl
    simp only [Session.apply]
    cases hrun : retain alive ref reason s.registry with
    | mk result r =>
      rw [hrun] at hsat
      split
      · rename_i heq
        cases heq
        exact inv.used (hsat.1 rfl)
      · rename_i hne heq
        cases heq
        exact inv.quiet (hsat.2 fun he => hne he)
  | release ref reason => exact inv.quiet (release_sat s.registry rfl)
  | invalidateSubtree root dom => exact inv.quiet (invalidateSubtree_sat root dom s.registry rfl)
  | prune => exact inv.quiet (prune_sat s.registry rfl)
  | resetDocument documentEpoch => exact inv.quiet (resetDocument_sat documentEpoch s.registry rfl)
  | snapshot =>
    have hsat := (snapshot_sat : Sat _ (DomNodeRegistry.snapshot alive) _) s.registry rfl
    simp only [Session.apply]
    cases hrun : DomNodeRegistry.snapshot alive s.registry with
    | mk result r =>
      rw [hrun] at hsat
      split
      · rename_i heq
        cases heq
        exact inv.snapshotTaken hsat.1 (hsat.2 _ rfl).2.2.2
      · rename_i heq
        cases heq
        exact inv.frame hsat.1
  | restore snapshot =>
    have hsat := (restore_sat : Sat _ (restore alive snapshot) _) s.registry rfl
    simp only [Session.apply]
    cases hrun : restore alive snapshot s.registry with
    | mk result r =>
      rw [hrun] at hsat
      rcases hsat with ⟨hu, hne⟩ | ⟨hr, hresult⟩
      · split
        · rename_i heq
          cases heq
          rcases hne with he | ⟨he, -⟩
          · cases he
          · cases he
        · rename_i heq
          cases heq
          exact inv.frame hu.frame
      · have hregistry : snapshot.registry = s.registry.registry := by
          have hacc := hr.1
          simp only [accepts, Bool.and_eq_true, decide_eq_true_eq] at hacc
          exact hacc.1.1.1.1.1
        obtain ⟨taken, hm⟩ := h hregistry
        split
        · rename_i heq
          cases heq
          exact inv.restored hr hm fun ha => inv.recallUses (hr.2.1.le.trans ha) hm
        · rename_i hne heq
          cases heq
          refine inv.restored hr hm fun ha => ?_
          rcases hresult with he | ⟨-, he⟩
          · exact absurd he hne
          · have := hr.2.1
            omega

theorem step {op : Operation Node} (inv : SessionInvariant s) (h : Session.Step s op s') :
    SessionInvariant s' := by
  cases h with
  | call alive hallowed => exact inv.apply hallowed

end SessionInvariant

/-! ## Live entries -/

section
variable {ref : String} {entry : NodeEntry Node}

/-- An entry whose node is found alive is read. -/
theorem dereferenceEntry_live (inv : RegistryInvariant r) (hget : r.reverse.get? ref = some entry)
    (halive : alive r.reads = true) :
    dereferenceEntry alive ref entry entry.scope r =
      (.ok (.live entry.node), { r with reads := r.reads + 1 }) := by
  rw [dereferenceEntry_run, if_pos (authoritative_of_get? hget (inv.scope ref entry hget)), halive]
  rfl

theorem touch_run (inv : RegistryInvariant r) (hget : r.reverse.get? ref = some entry) :
    touch ref entry r =
      if maxSafeInteger < r.authorityRevision then
        (.error .revisionExhausted, { r with structuralRevision := r.structuralRevision + 1 })
      else
        (.ok true, { r with
          structuralRevision := r.structuralRevision + 1
          authorityRevision := r.authorityRevision + 1 }.moveToEnd ref) := by
  unfold touch
  rw [run_get_bind, if_pos (authoritative_of_get? hget (inv.scope ref entry hget))]
  have hb := bumpStructuralRevision_run r
  split at hb
  · rename_i h
    rw [if_pos h, run_bind_error hb]
  · rename_i h
    rw [if_neg h, run_bind_ok hb]
    rfl

/-- A live entry gives its reference again, unless the authority revision is exhausted. -/
theorem reference_live (inv : RegistryInvariant r) (hget : r.reverse.get? ref = some entry)
    (halive : alive r.reads = true) (created : Except WeakRefError Unit) :
    (reference alive entry.node entry.scope created r).1 =
      if maxSafeInteger < r.authorityRevision then .error .revisionExhausted else .ok ref := by
  have htouch := touch_run (inv.frame (read_frame r)) hget
  unfold reference
  rw [run_get_bind, if_neg (by simp [inv.scope ref entry hget])]
  simp only [inv.forward ref entry hget, Option.bind_some, hget, Option.map_some, sameScope_self,
    Bool.not_true, Bool.false_eq_true, if_false]
  rw [run_bind_ok (dereferenceEntry_live inv hget halive)]
  dsimp only
  rw [if_pos rfl]
  split at htouch
  · rename_i h
    rw [run_bind_error htouch, if_pos h]
  · rename_i h
    rw [run_bind_ok htouch, if_neg h]
    rfl

theorem resolve_live (inv : RegistryInvariant r) (hget : r.reverse.get? ref = some entry)
    (halive : alive r.reads = true) (hsafe : r.authorityRevision ≤ maxSafeInteger) :
    resolve alive ref entry.scope r = (.ok (some entry.node), { r with
      reads := r.reads + 1
      structuralRevision := r.structuralRevision + 1
      authorityRevision := r.authorityRevision + 1 }.moveToEnd ref) := by
  have htouch := touch_run (inv.frame (read_frame r)) hget
  obtain ⟨-, k, h1, -, hk, hkref⟩ := inv.ref ref entry hget
  unfold resolve
  rw [run_get_bind, if_neg (by simp [inv.scope ref entry hget, hkref, isNodeRef_nodeRef h1 hk]),
    hget]
  dsimp only
  rw [if_neg (by simp), run_bind_ok (dereferenceEntry_live inv hget halive)]
  dsimp only
  rw [if_neg (not_lt.mpr hsafe)] at htouch
  rw [run_bind_ok htouch]
  rfl

end

/-! ## Every session -/

/-- What the operation leaves of the registry. -/
def DomNodeRegistry.after (alive : ℕ → Bool) (r : DomNodeRegistry Node) :
    Operation Node → DomNodeRegistry Node
  | .reference node scope created => (reference alive node scope created r).2
  | .resolve ref scope => (resolve alive ref scope r).2
  | .retain ref reason => (retain alive ref reason r).2
  | .release ref reason => (release ref reason r).2
  | .invalidateSubtree root dom => (invalidateSubtree alive root dom r).2
  | .prune => (prune alive r).2
  | .resetDocument documentEpoch => (resetDocument documentEpoch r).2
  | .snapshot => (DomNodeRegistry.snapshot alive r).2
  | .restore snapshot => (restore alive snapshot r).2

/-- An entry whose node is alive gives its reference and its node. -/
def Answers (r : DomNodeRegistry Node) : Prop :=
  ∀ alive ref entry created, r.reverse.get? ref = some entry → alive r.reads = true →
    (reference alive entry.node entry.scope created r).1 = .ok ref ∧
      (resolve alive ref entry.scope r).1 = .ok (some entry.node)

namespace SessionInvariant

theorem answers (inv : SessionInvariant s) (hsafe : s.registry.authorityRevision ≤ maxSafeInteger) :
    Answers s.registry := by
  intro alive ref entry created hget halive
  refine ⟨?_, ?_⟩
  · rw [reference_live inv.registry hget halive, if_neg (not_lt.mpr hsafe)]
  · rw [resolve_live inv.registry hget halive hsafe]

end SessionInvariant

def sampleScope : NodeScope := ⟨1, "frame-1", 1⟩

/-- Everything stays alive. -/
def always : ℕ → Bool := fun _ => true

theorem step_apply (s : Session Node) (op : Operation Node) (h : s.Allowed op) :
    Session.Step s op (s.apply always op) := .call always h

end PinOp.Dom
