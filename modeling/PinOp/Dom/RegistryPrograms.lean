import PinOp.Dom.RegistryMoves

/-!
# The operations as moves

One lemma for each operation: where it returns or throws, the registry has come there by moves,
with the marks that its answer tells.
-/

namespace PinOp.Dom

open PinOp.Lib Program

namespace DomNodeRegistry

variable {Node : Type} [DecidableEq Node] {alive : ℕ → Bool} {r r' r₀ : DomNodeRegistry Node}
  {P : DomNodeRegistry Node → Prop} {ref : String} {entry : NodeEntry Node} {scope : NodeScope}
  {node : Node}

/-- It is kept when entries are only dropped. -/
structure Dropping (P : DomNodeRegistry Node → Prop) : Prop where
  frame : ∀ r r', P r → Frame r r' → P r'
  drop : ∀ r ref entry node, P r → r.reverse.get? ref = some entry →
    P (r.drop ref entry.scope node)

/-- It is kept when entries are only dropped and evicted. -/
structure Shrinking (P : DomNodeRegistry Node → Prop) : Prop extends Dropping P where
  evict : ∀ r r' ref entry rest node, P r → r.authorityRevision ≤ maxSafeInteger → Frame r r' →
    r'.unretained = (ref, entry) :: rest →
      P { r'.drop ref entry.scope node with evicted := ⟨ref, rest.map (·.1)⟩ :: r'.evicted }

theorem dropping_moves (r₀ : DomNodeRegistry Node) (marks : List (Mark Node)) :
    Dropping fun r => Moves r₀ marks r :=
  ⟨fun _ _ h hf => h.frame hf, fun _ ref entry node h he => h.tail (.drop ref entry node he)⟩

theorem Shrinking.and {Q : DomNodeRegistry Node → Prop} (hP : Shrinking P) (hQ : Shrinking Q) :
    Shrinking fun r => P r ∧ Q r :=
  ⟨⟨fun r r' h hf => ⟨hP.frame r r' h.1 hf, hQ.frame r r' h.2 hf⟩,
    fun r ref entry node h he =>
      ⟨hP.drop r ref entry node h.1 he, hQ.drop r ref entry node h.2 he⟩⟩,
    fun r r' ref entry rest node h ha hf he => ⟨hP.evict r r' ref entry rest node h.1 ha hf he,
      hQ.evict r r' ref entry rest node h.2 ha hf he⟩⟩

/-- All that is marked is that room was made. -/
def OnlyEvicted (marks : List (Mark Node)) : Prop := ∀ mark ∈ marks, mark.used? = none

/-- What was evicted came first among what could have been, and the authority revision was not
exhausted. -/
def EvictedFirst (r₀ r : DomNodeRegistry Node) : Prop :=
  ∃ newly, r.evicted = newly ++ r₀.evicted ∧ ∀ eviction ∈ newly,
    r₀.authorityRevision ≤ maxSafeInteger ∧ (∃ entry, r₀.reverse.get? eviction.ref = some entry ∧ entry.reasons = []) ∧
      ∀ other ∈ eviction.candidates, [eviction.ref, other].Sublist r₀.reverse.keys

/-- Entries were only removed, with marks for those that were evicted. -/
def Shrunk (r₀ r : DomNodeRegistry Node) : Prop :=
  (∃ marks, OnlyEvicted marks ∧ Moves r₀ marks r) ∧ EvictedFirst r₀ r ∧
    r.reverse.entries.Sublist r₀.reverse.entries

theorem Shrunk.refl (r : DomNodeRegistry Node) : Shrunk r r :=
  ⟨⟨[], by simp [OnlyEvicted], .refl⟩, ⟨[], rfl, by simp⟩, .refl _⟩

theorem shrinking_shrunk (r₀ : DomNodeRegistry Node) : Shrinking fun r => Shrunk r₀ r := by
  refine ⟨⟨fun r r' ⟨⟨marks, hm, h⟩, he, hs⟩ hf => ?_, fun r ref entry node ⟨⟨marks, hm, h⟩, he, hs⟩ hg
    => ?_⟩, fun r r' ref entry rest node ⟨⟨marks, hm, h⟩, he, hs⟩ ha hf hu => ?_⟩
  · exact ⟨⟨marks, hm, h.frame hf⟩, by rw [EvictedFirst, hf.evicted]; exact he, hf.reverse ▸ hs⟩
  · exact ⟨⟨marks, hm, h.tail (.drop ref entry node hg)⟩, he, List.filter_sublist.trans hs⟩
  · have hs : r'.reverse.entries.Sublist r₀.reverse.entries := hf.reverse ▸ hs
    have hsub : ((ref, entry) :: rest).Sublist r₀.reverse.entries :=
      (hu ▸ List.filter_sublist : ((ref, entry) :: rest).Sublist r'.reverse.entries).trans hs
    refine ⟨⟨_ :: marks, ?_, (h.frame hf).tail (.evict ref entry rest node hu)⟩, ?_, ?_⟩
    · intro mark hmark
      rcases List.mem_cons.mp hmark with rfl | hmark
      · rfl
      · exact hm mark hmark
    · obtain ⟨newly, heq, hall⟩ := he
      refine ⟨⟨ref, rest.map (·.1)⟩ :: newly, by simp [hf.evicted, heq], fun eviction hmem => ?_⟩
      rcases List.mem_cons.mp hmem with rfl | hmem
      · refine ⟨h.authorityRevision.trans ha,
          ⟨entry, OrderedMap.get?_eq_some.mpr (hsub.subset List.mem_cons_self), ?_⟩, ?_⟩
        · have hm : (ref, entry) ∈ r'.unretained := hu ▸ List.mem_cons_self
          simpa using (List.mem_filter.mp hm).2
        · intro other hother
          have hpair : [ref, other].Sublist (((ref, entry) :: rest).map (·.1)) := by
            rw [List.map_cons]
            exact (List.singleton_sublist.mpr hother).cons_cons ref
          exact hpair.trans (hsub.map _)
      · exact hall eviction hmem
    · exact List.filter_sublist.trans hs

/-! ## Revisions and weak references -/

omit [DecidableEq Node] in
theorem bumpAuthorityRevision_run (r : DomNodeRegistry Node) :
    bumpAuthorityRevision r =
      if maxSafeInteger < r.authorityRevision then (.error .revisionExhausted, r)
      else (.ok (), { r with authorityRevision := r.authorityRevision + 1 }) := by
  simp only [bumpAuthorityRevision, run_get_bind]
  split
  · rfl
  · rfl

omit [DecidableEq Node] in
theorem bumpStructuralRevision_run (r : DomNodeRegistry Node) :
    bumpStructuralRevision r =
      if maxSafeInteger < r.authorityRevision then
        (.error .revisionExhausted, { r with structuralRevision := r.structuralRevision + 1 })
      else
        (.ok (), { r with
          structuralRevision := r.structuralRevision + 1
          authorityRevision := r.authorityRevision + 1 }) := by
  simp only [bumpStructuralRevision, run_modify_bind, bumpAuthorityRevision_run]

omit [DecidableEq Node] in
theorem exhausted_frame (r : DomNodeRegistry Node) :
    Frame r { r with structuralRevision := r.structuralRevision + 1 } :=
  ⟨rfl, rfl, rfl, rfl, rfl, rfl, rfl, rfl, rfl, le_refl _⟩

omit [DecidableEq Node] in
theorem bumped_frame (r : DomNodeRegistry Node) :
    Frame r { r with
      structuralRevision := r.structuralRevision + 1
      authorityRevision := r.authorityRevision + 1 } :=
  ⟨rfl, rfl, rfl, rfl, rfl, rfl, rfl, rfl, rfl, Nat.le_succ _⟩

omit [DecidableEq Node] in
theorem bumpStructuralRevision_sat (hP : ∀ r r', P r → Frame r r' → P r') :
    Sat P bumpStructuralRevision fun _ r => P r := by
  intro r hr
  rw [bumpStructuralRevision_run]
  split
  · exact hP r _ hr (exhausted_frame r)
  · exact hP r _ hr (bumped_frame r)

omit [DecidableEq Node] in
theorem deref_run (entry : NodeEntry Node) (r : DomNodeRegistry Node) :
    deref alive entry r =
      (.ok (if alive r.reads then some entry.node else none), { r with reads := r.reads + 1 }) :=
  rfl

omit [DecidableEq Node] in
theorem read_frame (r : DomNodeRegistry Node) : Frame r { r with reads := r.reads + 1 } :=
  ⟨rfl, rfl, rfl, rfl, rfl, rfl, rfl, rfl, rfl, le_refl _⟩

theorem get?_of_authoritative (h : r.isEntryAuthoritative ref entry scope = true) :
    (∃ current, r.reverse.get? ref = some current ∧ current.scope = entry.scope ∧
      current.node = entry.node) ∧ entry.scope = scope := by
  simp only [isEntryAuthoritative, Bool.and_eq_true, Option.any_eq_true, NodeEntry.is,
    decide_eq_true_eq] at h
  obtain ⟨⟨⟨current, hget, his⟩, hscope⟩, -⟩ := h
  exact ⟨⟨current, hget, his.1.1.2, his.1.2⟩, sameScope_iff.mp hscope⟩

theorem isEntryAuthoritative_frame (h : Frame r r') (ref : String) (entry : NodeEntry Node)
    (scope : NodeScope) :
    r'.isEntryAuthoritative ref entry scope = r.isEntryAuthoritative ref entry scope := by
  simp only [isEntryAuthoritative, isCurrentScope, h.reverse, h.documentEpoch]

/-- An entry that is there is authoritative in its own scope. -/
theorem authoritative_of_get? (h : r.reverse.get? ref = some entry)
    (hscope : r.isCurrentScope entry.scope = true) :
    r.isEntryAuthoritative ref entry entry.scope = true := by
  simp [isEntryAuthoritative, h, NodeEntry.is, hscope]

theorem dereferenceEntry_run (alive : ℕ → Bool) (r : DomNodeRegistry Node) (ref : String) (entry : NodeEntry Node)
    (scope : NodeScope) :
    dereferenceEntry alive ref entry scope r =
      if r.isEntryAuthoritative ref entry scope then
        (.ok (if alive r.reads then .live entry.node else .dead), { r with reads := r.reads + 1 })
      else (.ok .stale, r) := by
  simp only [dereferenceEntry, run_get_bind]
  split
  · rw [run_bind_ok (deref_run entry r)]
    cases alive r.reads with
    | true => rfl
    | false => rfl
  · rfl

theorem dereferenceEntry_sat (hP : ∀ r r', P r → Frame r r' → P r') :
    Sat P (dereferenceEntry alive ref entry scope) fun result r => P r ∧
      (∀ error, result ≠ .error error) ∧ (∀ node, result = .ok (.live node) → node = entry.node) ∧
      (result ≠ .ok .stale → r.isEntryAuthoritative ref entry scope = true) := by
  intro r hr
  rw [dereferenceEntry_run]
  split
  · rename_i ha
    refine ⟨hP r _ hr (read_frame r), by simp, fun node h => ?_, fun _ => ?_⟩
    · split at h
      · cases h
        rfl
      · cases h
    · rw [isEntryAuthoritative_frame (read_frame r)]
      exact ha
  · exact ⟨hr, by simp, by simp, by simp⟩

/-! ## Removing and moving -/

theorem remove_run (r : DomNodeRegistry Node) (ref : String) (entry : NodeEntry Node)
    (node : Option Node) :
    ∃ r', Frame r r' ∧ (remove ref entry node r = (.ok false, r) ∧
        r.isEntryAuthoritative ref entry entry.scope = false ∨
      remove ref entry node r = (.error .revisionExhausted, r') ∨
      remove ref entry node r = (.ok true, r'.drop ref entry.scope node) ∧
        r.isEntryAuthoritative ref entry entry.scope = true ∧
          r.authorityRevision ≤ maxSafeInteger) := by
  unfold remove
  rw [run_get_bind]
  by_cases ha : r.isEntryAuthoritative ref entry entry.scope = true
  · rw [if_pos ha]
    have hb := bumpStructuralRevision_run r
    split at hb
    · exact ⟨_, exhausted_frame r, .inr (.inl (run_bind_error hb))⟩
    · rename_i hsafe
      refine ⟨_, bumped_frame r, .inr (.inr ⟨?_, ha, not_lt.mp hsafe⟩)⟩
      rw [run_bind_ok hb]
      rfl
  · rw [if_neg ha]
    exact ⟨r, .refl r, .inl ⟨rfl, Bool.not_eq_true _ ▸ ha⟩⟩

theorem remove_sat (hP : Dropping P) (entry : NodeEntry Node) (node : Option Node) :
    Sat P (remove ref entry node) fun _ r => P r := by
  intro r hr
  obtain ⟨r', hf, ⟨he, -⟩ | he | ⟨he, ha⟩⟩ := remove_run r ref entry node
  · rw [he]
    exact hr
  · rw [he]
    exact hP.frame r r' hr hf
  · rw [he]
    obtain ⟨⟨current, hget, hscope, -⟩, -⟩ := get?_of_authoritative ha.1
    rw [← hscope]
    exact hP.drop r' ref current node (hP.frame r r' hr hf) (by rw [hf.reverse, hget])

theorem touch_sat (hP : ∀ r r', P r → Frame r r' → P r') :
    Sat P (touch ref entry) fun result r => (result ≠ .ok true → P r) ∧
      (result = .ok true → ∃ r', P r' ∧ ref ∈ r'.reverse.keys ∧ r = r'.moveToEnd ref) := by
  unfold touch
  refine Sat.get fun r hr => ?_
  split
  · rename_i ha
    obtain ⟨⟨current, hget, -⟩, -⟩ := get?_of_authoritative ha
    refine .of_eq ?_
    have hb := bumpStructuralRevision_run r
    split at hb
    · rw [run_bind_error hb]
      exact ⟨fun _ => hP r _ hr (exhausted_frame r), by simp⟩
    · rw [run_bind_ok hb]
      refine ⟨fun hne => absurd rfl hne, fun _ => ⟨_, hP r _ hr (bumped_frame r), ?_, rfl⟩⟩
      exact OrderedMap.mem_keys.mpr ⟨current, hget⟩
  · exact .of_eq ⟨fun _ => hr, by simp⟩

theorem touch_moves (r₀ : DomNodeRegistry Node) (marks : List (Mark Node)) :
    Sat (fun r => Moves r₀ marks r) (touch ref entry) fun result r =>
      (result = .ok true → Moves r₀ (.used ref :: marks) r) ∧
        (result ≠ .ok true → Moves r₀ marks r) := by
  refine (touch_sat fun r r' h hf => Moves.frame h hf).mono (fun _ h => h) fun result r h =>
    ⟨fun he => ?_, h.1⟩
  obtain ⟨r', hr', hm, rfl⟩ := h.2 he
  exact hr'.tail (.touch ref hm)

theorem pruneList_sat (hP : Dropping P) (entries : List (String × NodeEntry Node))
    (removed : ℕ) : Sat P (pruneList alive entries removed) fun _ r => P r := by
  induction entries generalizing removed with
  | nil => exact .pure fun _ h => h
  | cons entry entries ih =>
    obtain ⟨ref, entry⟩ := entry
    unfold pruneList
    refine .bind (dereferenceEntry_sat hP.frame) (fun result => ?_) fun _ _ h => h.1
    cases result with
    | stale => exact .pure fun _ h => h.1
    | live node => exact (ih removed).mono (fun _ h => h.1) fun _ _ h => h
    | dead =>
      refine .bind ((remove_sat hP entry none).mono (fun _ h => h.1) fun _ _ h => h) (fun b => ?_)
        fun _ _ h => h
      split
      · exact ih (removed + 1)
      · exact ih removed

theorem pruneEntries_sat (hP : Dropping P) : Sat P (pruneEntries alive) fun _ r => P r := by
  refine Sat.get fun r hr => ?_
  exact (pruneList_sat hP _ 0).mono (fun _ h => h ▸ hr) fun _ _ h => h

theorem size_drop (h : ref ∈ r.reverse.keys) (scope : NodeScope) (node : Option Node) :
    (r.drop ref scope node).reverse.size + 1 = r.reverse.size :=
  OrderedMap.size_delete_of_mem h

omit [DecidableEq Node] in
theorem unretained_frame (h : Frame r r') : r'.unretained = r.unretained := by
  rw [unretained, h.reverse]
  rfl

omit [DecidableEq Node] in
theorem mem_keys_of_unretained {rest : List (String × NodeEntry Node)}
    (h : r.unretained = (ref, entry) :: rest) : ref ∈ r.reverse.keys := by
  have hm : (ref, entry) ∈ r.unretained := h ▸ List.mem_cons_self
  exact List.mem_map_of_mem (List.mem_of_mem_filter hm)

/-- One round of `makeRoom` removes the first entry that nothing retains. -/
theorem evictFirst_sat {rounds : ℕ} (ref : String) (entry : NodeEntry Node)
    (rest : List (String × NodeEntry Node)) (found : Option Node) (hP : Shrinking P) {next : RegistryProgram Node Unit}
    {Q : Except RegistryError Unit → DomNodeRegistry Node → Prop}
    (hnext : Sat (fun r => P r ∧ r.reverse.size ≤ rounds) next Q)
    (herror : ∀ r, P r → Q (.error .revisionExhausted) r) :
    Sat (fun r => (P r ∧ r.reverse.size ≤ rounds + 1) ∧ r.unretained = (ref, entry) :: rest ∧
        r.isEntryAuthoritative ref entry entry.scope = true)
      (remove ref entry found >>= fun _ =>
        Program.modify (fun r => { r with evicted := ⟨ref, rest.map (·.1)⟩ :: r.evicted }) >>=
          fun _ => next) Q := by
  rintro r ⟨⟨hr, hsize⟩, hu, ha⟩
  obtain ⟨r', hf, ⟨-, hn⟩ | he | ⟨he, -, hsafe⟩⟩ := remove_run r ref entry found
  · rw [hn] at ha
    cases ha
  · rw [run_bind_error he]
    exact herror r' (hP.frame r r' hr hf)
  · rw [run_bind_ok he]
    have hu' : r'.unretained = (ref, entry) :: rest := (unretained_frame hf).trans hu
    refine hnext _ ⟨hP.evict r r' ref entry rest found hr hsafe hf hu', ?_⟩
    have hdrop := size_drop (mem_keys_of_unretained hu') entry.scope found
    have hkeep : r'.reverse.size = r.reverse.size := by rw [hf.reverse]
    show (r'.drop ref entry.scope found).reverse.size ≤ rounds
    omega

/-- The loop ends with room for one more. -/
theorem evict_sat (hP : Shrinking P) (rounds : ℕ) :
    Sat (fun r => P r ∧ r.reverse.size ≤ rounds) (evict alive rounds) fun result r => P r ∧
      (result = .ok () → r.reverse.size < r.maxReverseEntries) := by
  induction rounds with
  | zero =>
    refine .pure fun r h => ⟨h.1, fun _ => ?_⟩
    have := r.maxReverseEntries.pos
    omega
  | succ rounds ih =>
    unfold evict
    refine Sat.get fun r hr => ?_
    split
    · rename_i hlt
      exact .of_eq ⟨hr.1, fun _ => hlt⟩
    · split
      · exact .of_eq ⟨hr.1, by simp⟩
      · rename_i ref entry rest hu
        have hframe : ∀ s s', ((P s ∧ s.reverse.size ≤ rounds + 1) ∧
            s.unretained = (ref, entry) :: rest) → Frame s s' →
            (P s' ∧ s'.reverse.size ≤ rounds + 1) ∧ s'.unretained = (ref, entry) :: rest :=
          fun s s' h hf => ⟨⟨hP.frame s s' h.1.1 hf, hf.reverse ▸ h.1.2⟩,
            (unretained_frame hf).trans h.2⟩
        have hnext := fun found => evictFirst_sat ref entry rest found hP ih
          fun r h => ⟨h, by simp⟩
        refine .bind ((dereferenceEntry_sat hframe).mono (fun s h => ?_) fun _ _ h => h)
          (fun result => ?_) fun _ _ h => ⟨h.1.1.1, by simp⟩
        · rw [h]
          exact ⟨hr, hu⟩
        · cases result with
          | stale => exact .throw fun s h => ⟨h.1.1.1, by simp⟩
          | live found =>
            exact (hnext (some found)).mono
              (fun s h => ⟨h.1.1, h.1.2, h.2.2.2 (by simp)⟩) fun _ _ h => h
          | dead =>
            exact (hnext none).mono
              (fun s h => ⟨h.1.1, h.1.2, h.2.2.2 (by simp)⟩) fun _ _ h => h

theorem makeRoom_sat (hP : Shrinking P) (scope : NodeScope) :
    Sat P (makeRoom alive scope) fun result r => P r ∧
      (result = .ok () → r.reverse.size < r.maxReverseEntries) := by
  refine .bind (pruneEntries_sat hP.toDropping) (fun pruned => ?_) fun _ _ h => ⟨h, by simp⟩
  refine Sat.get fun r hr => ?_
  split
  · exact .of_eq ⟨hr, by simp⟩
  · exact (evict_sat hP _).mono (fun s h => by rw [h]; exact ⟨hr, le_refl _⟩) fun _ _ h => h

/-! ## References -/

theorem shrinking_absent (node : Node) (scope : NodeScope) :
    Shrinking fun r => Absent r node scope ∧ r.isCurrentScope scope = true := by
  have hdrop (r : DomNodeRegistry Node) (ref : String) (scope' : NodeScope) (found : Option Node)
      (h : Absent r node scope) : Absent (r.drop ref scope' found) node scope := by
    intro ref' entry' h'
    simp only [drop, OrderedMap.get?_delete] at h'
    split at h'
    · cases h'
    · exact h ref' entry' h'
  have hframe (r r' : DomNodeRegistry Node)
      (h : Absent r node scope ∧ r.isCurrentScope scope = true) (hf : Frame r r') :
      Absent r' node scope ∧ r'.isCurrentScope scope = true := by
    rw [Absent, isCurrentScope, hf.reverse, hf.documentEpoch]
    exact h
  refine ⟨⟨hframe, fun r ref entry found h _ => ⟨hdrop r ref entry.scope found h.1, h.2⟩⟩,
    fun r r' ref entry rest found h _ hf _ => ?_⟩
  obtain ⟨h, hscope⟩ := hframe r r' h hf
  exact ⟨hdrop r' ref entry.scope found h, hscope⟩

/-- No reference is given out while entries are only removed. -/
theorem shrinking_nextRef (n : ℕ) : Shrinking fun r : DomNodeRegistry Node => r.nextRef = n :=
  ⟨⟨fun _ _ h hf => hf.nextRef.trans h, fun _ _ _ _ h _ => h⟩,
    fun _ _ _ _ _ _ h _ hf _ => hf.nextRef.trans h⟩

/-- Room was made, and a new reference was given to the node unless that failed. -/
def Created (r₀ : DomNodeRegistry Node) (node : Node) (scope : NodeScope)
    (result : Except RegistryError String) (r : DomNodeRegistry Node) : Prop :=
  EvictedFirst r₀ r ∧ ∃ marks, OnlyEvicted marks ∧
    (∀ ref, result = .ok ref → Moves r₀ (.inserted ref node scope :: marks) r) ∧
      (∀ error, result = .error error → Moves r₀ marks r)

theorem Created.error (error : RegistryError) (h : Shrunk r₀ r) :
    Created r₀ node scope (.error error) r := by
  obtain ⟨⟨marks, hm, h⟩, he, -⟩ := h
  exact ⟨he, marks, hm, by simp, fun _ _ => h⟩

theorem create_sat {created : Except WeakRefError Unit} :
    Sat (fun r => Shrunk r₀ r ∧ Absent r node scope ∧ r.isCurrentScope scope = true)
      (create alive node scope created) fun result r => Created r₀ node scope result r := by
  unfold create
  refine Sat.get fun s hs => ?_
  split
  · exact .of_eq (.error _ hs.1)
  · rename_i hsafe
    have hP : Shrinking fun r => (Shrunk r₀ r ∧ Absent r node scope ∧
        r.isCurrentScope scope = true) ∧ r.nextRef = s.nextRef :=
      ((shrinking_shrunk r₀).and (shrinking_absent node scope)).and (shrinking_nextRef _)
    cases created with
    | error error => exact .of_eq (.error _ hs.1)
    | ok _ =>
      refine .bind ((makeRoom_sat hP scope).mono (fun r h => ?_) fun _ _ h => h) (fun _ => ?_)
        fun error r h => .error error h.1.1.1
      · rw [h]
        exact ⟨hs, rfl⟩
      · refine Sat.get fun t ht => ?_
        obtain ⟨⟨⟨hshrunk, habsent, hscope⟩, hn⟩, hroom⟩ := ht
        split
        · exact .of_eq (.error _ hshrunk)
        · refine .of_eq ?_
          have hb := bumpStructuralRevision_run t
          split at hb
          · rw [run_bind_error hb]
            exact .error _ ((shrinking_shrunk r₀).frame t _ hshrunk (exhausted_frame t))
          · rw [run_bind_ok hb]
            obtain ⟨⟨marks, hm, hmoves⟩, he, -⟩ := hshrunk
            refine ⟨he, marks, hm, fun ref href => ?_, fun _ he => by cases he⟩
            cases href
            have hsafe : t.nextRef ≤ maxSafeInteger := by omega
            exact (hmoves.frame (bumped_frame t)).tail
              (.insert node scope hscope (hroom rfl) habsent hsafe)

/-- An entry that is not where the index looks for it is not there. -/
theorem absent_of_lookup (inv : RegistryInvariant r) (hscope : r.isCurrentScope scope = true)
    (h : ∀ ref entry, lookup r.forward node (createScopeKey scope) = some ref →
      r.reverse.get? ref = some entry → entry.scope ≠ scope ∨ entry.node ≠ node) :
    Absent r node scope := by
  rintro ref entry hget ⟨rfl, rfl⟩
  rcases h ref entry (inv.forward ref entry hget) hget with hne | hne
  · exact hne rfl
  · exact hne rfl

/-- A reference is one that the node has, or a new one. -/
def Referenced (r₀ : DomNodeRegistry Node) (node : Node) (scope : NodeScope)
    (result : Except RegistryError String) (r : DomNodeRegistry Node) : Prop :=
  (∃ ref entry, result = .ok ref ∧ Moves r₀ [.used ref] r ∧ r₀.reverse.get? ref = some entry ∧
      entry.node = node ∧ entry.scope = scope) ∨
    Created r₀ node scope result r

theorem reference_sat {created : Except WeakRefError Unit} (inv : RegistryInvariant r₀) :
    Sat (fun r => r = r₀) (reference alive node scope created) fun result r =>
      Referenced r₀ node scope result r := by
  unfold reference
  refine Sat.get fun s hs => ?_
  subst hs
  split
  · exact .of_eq (.inr (.error _ (.refl s)))
  · rename_i hscope
    simp only [Bool.not_eq_true', Bool.not_eq_false] at hscope
    have hcreate : Sat (fun r => Shrunk s r ∧ Absent r node scope ∧
        r.isCurrentScope scope = true) (create alive node scope created) fun result r =>
          Referenced s node scope result r := create_sat.mono (fun _ h => h) fun _ _ h => .inr h
    have hpre (r) (h : r = s) (habsent : Absent s node scope) :
        Shrunk s r ∧ Absent r node scope ∧ r.isCurrentScope scope = true := by
      subst h
      exact ⟨.refl r, habsent, hscope⟩
    have hframe (r) (hf : Frame s r) : Shrunk s r :=
      (shrinking_shrunk s).frame s r (.refl s) hf
    dsimp only
    split
    · rename_i hnone
      refine hcreate.mono (fun r h => hpre r h ?_) fun _ _ h => h
      refine absent_of_lookup inv hscope fun ref entry hl hget => ?_
      rw [hl, Option.bind_some, hget] at hnone
      cases hnone
    · rename_i ref existing hsome
      simp only [Option.bind_eq_some_iff, Option.map_eq_some_iff, Prod.mk.injEq] at hsome
      obtain ⟨_, hl, _, hget, rfl, rfl⟩ := hsome
      rename_i ref existing
      have hfound (ref' : String) (entry : NodeEntry Node)
          (hl' : lookup s.forward node (createScopeKey scope) = some ref')
          (hget' : s.reverse.get? ref' = some entry) : entry = existing := by
        rw [hl] at hl'
        cases hl'
        rw [hget] at hget'
        exact (Option.some.inj hget').symm
      split
      · rename_i hother
        refine hcreate.mono (fun r h => hpre r h ?_) fun _ _ h => h
        refine absent_of_lookup inv hscope fun ref' entry hl' hget' => .inl ?_
        rw [hfound ref' entry hl' hget']
        rintro rfl
        simp at hother
      · rename_i hsame
        simp only [Bool.not_eq_true', Bool.not_eq_false] at hsame
        have hsame := sameScope_iff.mp hsame
        refine .bind (Q := fun result r => Frame s r ∧ _) ((dereferenceEntry_sat fun r r' h hf =>
          Frame.trans h hf).mono (fun r h => ?_) fun _ _ h => h) (fun result => ?_) fun error r h =>
            absurd rfl (h.2.1 error)
        · rw [h]
          exact .refl s
        · cases result with
          | stale => exact .throw fun r h => .inr (.error _ (hframe r h.1))
          | live found =>
            refine .assume (fun r h => h.2.2.1 found rfl) fun hfoundNode => ?_
            subst hfoundNode
            dsimp only
            split
            · rename_i hnode
              refine .bind ((touch_sat fun r r' h hf => Frame.trans h hf).mono (fun r h => h.1)
                fun _ _ h => h) (fun b => ?_) fun error r h =>
                  .inr (.error _ (hframe r (h.1 (by simp))))
              cases b with
              | false => exact .throw fun r h => .inr (.error _ (hframe r (h.1 (by simp))))
              | true =>
                refine .pure fun r h => .inl ⟨ref, existing, rfl, ?_, hget, hnode, hsame⟩
                obtain ⟨r', hf, hm, rfl⟩ := h.2 rfl
                exact (Moves.refl.frame hf).tail (.touch ref hm)
            · rename_i hne
              refine hcreate.mono (fun r h => ?_) fun _ _ h => h
              have habsent : Absent s node scope :=
                absent_of_lookup inv hscope fun ref' entry hl' hget' => .inr (by
                  rw [hfound ref' entry hl' hget']
                  exact hne)
              refine ⟨hframe r h.1, ?_, ?_⟩
              · unfold Absent
                rw [h.1.reverse]
                exact habsent
              · rw [isCurrentScope, h.1.documentEpoch]
                exact hscope
          | dead =>
            rintro r ⟨hf, -, -, hauth⟩
            have ha := hauth (by simp)
            rw [← hsame] at ha
            obtain ⟨r', hf', ⟨-, hn⟩ | he | ⟨he, -⟩⟩ := remove_run r ref existing none
            · rw [hn] at ha
              cases ha
            · dsimp only
              rw [run_bind_error he]
              exact .inr (.error _ (hframe r' (hf.trans hf')))
            · dsimp only
              rw [run_bind_ok he]
              have hff := hf.trans hf'
              have hget' : r'.reverse.get? ref = some existing := by rw [hff.reverse, hget]
              refine hcreate _ ⟨(shrinking_shrunk s).drop r' ref existing none (hframe r' hff) hget',
                ?_, ?_⟩
              · rintro ref' entry hdrop ⟨hnode, rfl⟩
                simp only [drop, OrderedMap.get?_delete, hff.reverse] at hdrop
                split at hdrop
                · cases hdrop
                · rename_i hne
                  have hl' := inv.forward ref' entry hdrop
                  rw [hnode, hl] at hl'
                  exact hne (Option.some.inj hl').symm
              · show r'.isCurrentScope scope = true
                rw [isCurrentScope, hff.documentEpoch]
                exact hscope

/-- A node is resolved when its entry is used. -/
theorem resolve_sat :
    Sat (fun r => r = r₀) (resolve alive ref scope) fun result r =>
      (∀ node, result = .ok (some node) → Moves r₀ [.used ref] r) ∧
        ((∀ node, result ≠ .ok (some node)) → Moves r₀ [] r) := by
  unfold resolve
  refine Sat.get fun s hs => ?_
  subst hs
  split
  · exact .of_eq ⟨by simp, fun _ => .refl⟩
  · split
    · exact .of_eq ⟨by simp, fun _ => .refl⟩
    · rename_i entry hget
      split
      · exact .of_eq ⟨by simp, fun _ => .refl⟩
      · refine .bind (Q := fun result r => Moves s [] r ∧ _)
          ((dereferenceEntry_sat (dropping_moves s []).frame).mono (fun r h => ?_)
            fun _ _ h => h) (fun result => ?_) fun error r h => absurd rfl (h.2.1 error)
        · rw [h]
          exact .refl
        · cases result with
          | stale => exact .pure fun r h => ⟨by simp, fun _ => h.1⟩
          | dead =>
            refine .bind ((remove_sat (dropping_moves s []) entry none).mono (fun r h => h.1)
              fun _ _ h => h) (fun _ => ?_) fun error r h => ⟨by simp, fun _ => h⟩
            exact .pure fun r h => ⟨by simp, fun _ => h⟩
          | live found =>
            refine .bind ((touch_moves s []).mono (fun r h => h.1)
              fun _ _ h => h) (fun b => ?_) fun error r h => ⟨by simp, fun _ => h.2 (by simp)⟩
            cases b with
            | true => exact .pure fun r h => ⟨fun _ _ => h.1 rfl, fun hne => absurd rfl (hne found)⟩
            | false => exact .pure fun r h => ⟨by simp, fun _ => h.2 (by simp)⟩

theorem retain_sat {reason : RetentionReason} :
    Sat (fun r => r = r₀) (retain alive ref reason) fun result r =>
      (result = .ok true → Moves r₀ [.used ref] r) ∧ (result ≠ .ok true → Moves r₀ [] r) := by
  unfold retain
  refine Sat.get fun s hs => ?_
  subst hs
  split
  · exact .of_eq ⟨by simp, fun _ => .refl⟩
  · split
    · exact .of_eq ⟨by simp, fun _ => .refl⟩
    · rename_i entry hget
      refine .bind (Q := fun result r => (Moves s [] r ∧ r.reverse.get? ref = some entry) ∧ _)
        ((dereferenceEntry_sat fun r r' h hf => ⟨h.1.frame hf, by rw [hf.reverse, h.2]⟩).mono
          (fun r h => ?_) fun _ _ h => h) (fun result => ?_) fun error r h => absurd rfl (h.2.1 error)
      · rw [h]
        exact ⟨.refl, hget⟩
      · cases result with
        | stale => exact .pure fun r h => ⟨by simp, fun _ => h.1.1⟩
        | dead =>
          refine .bind ((remove_sat (dropping_moves s []) entry none).mono (fun r h => h.1.1)
            fun _ _ h => h) (fun _ => ?_) fun error r h => ⟨by simp, fun _ => h⟩
          exact .pure fun r h => ⟨by simp, fun _ => h⟩
        | live found =>
          refine .bind ((bumpStructuralRevision_sat
            (P := fun r => Moves s [] r ∧ r.reverse.get? ref = some entry) fun r r' h hf =>
              ⟨h.1.frame hf, by rw [hf.reverse, h.2]⟩).mono (fun r h => h.1) fun _ _ h => h)
            (fun _ => ?_) fun error r h => ⟨by simp, fun _ => h.1⟩
          refine .modify_bind (fun r h => ?_) (touch_moves s [])
          exact h.1.tail (.hold ref entry reason h.2)

theorem release_sat {reason : RetentionReason} :
    Sat (fun r => r = r₀) (release ref reason) fun _ r => Moves r₀ [] r := by
  unfold release
  refine Sat.get fun s hs => ?_
  subst hs
  split
  · exact .of_eq .refl
  · split
    · exact .of_eq .refl
    · rename_i entry hget
      split
      · exact .of_eq .refl
      · split
        · exact .of_eq .refl
        · rename_i hr
          refine .bind ((bumpStructuralRevision_sat
            (P := fun r => Moves s [] r ∧ r.reverse.get? ref = some entry) fun r r' h hf =>
              ⟨h.1.frame hf, by rw [hf.reverse, h.2]⟩).mono (fun r h => ?_) fun _ _ h => h)
            (fun _ => ?_) fun error r h => h.1
          · rw [h]
            exact ⟨.refl, hget⟩
          · exact .modify fun r h => h.1.tail (.letGo ref entry reason h.2 (not_not.mp hr))

theorem prune_sat : Sat (fun r => r = r₀) (prune alive) fun _ r => Moves r₀ [] r := by
  refine .bind ((pruneEntries_sat (dropping_moves r₀ [])).mono (fun r h => ?_) fun _ _ h => h)
    (fun _ => .pure fun _ h => h) fun _ _ h => h
  rw [h]
  exact .refl

/-! ## Subtrees -/

theorem classify_sat (r₀ : DomNodeRegistry Node) (dom : DomReads Node) (contains : Node → Option Bool) (root : Node)
    (entries : List (NodeEntry Node)) (found : Subtree Node) :
    Sat (fun r => Moves r₀ [] r) (classify alive dom contains root entries found) fun _ r =>
      Moves r₀ [] r := by
  induction entries generalizing found with
  | nil => exact .pure fun _ h => h
  | cons entry entries ih =>
    unfold classify
    refine .bind (dereferenceEntry_sat (dropping_moves r₀ []).frame) (fun result => ?_)
      fun _ _ h => h.1
    cases result with
    | stale => exact .pure fun _ h => h.1
    | dead => exact (ih _).mono (fun _ h => h.1) fun _ _ h => h
    | live node =>
      dsimp only
      split
      · exact .pure fun _ h => h.1
      · exact (ih _).mono (fun _ h => h.1) fun _ _ h => h
      · exact (ih _).mono (fun _ h => h.1) fun _ _ h => h

theorem removeAll_sat (known : Bool) (entries : List (NodeEntry Node)) :
    Sat (fun r => Moves r₀ [] r) (removeAll known entries) fun _ r => Moves r₀ [] r := by
  induction entries with
  | nil => exact .pure fun _ h => h
  | cons listed entries ih =>
    unfold removeAll
    refine Sat.get fun s hs => ?_
    split
    · exact ih.mono (fun r h => by rw [h]; exact hs) fun _ _ h => h
    · refine .bind ((remove_sat (dropping_moves r₀ []) _ _).mono (fun r h => by rw [h]; exact hs)
        fun _ _ h => h) (fun _ => ih) fun _ _ h => h

theorem invalidateSubtree_sat (root : Node) (dom : DomReads Node) :
    Sat (fun r => r = r₀) (invalidateSubtree alive root dom) fun _ r => Moves r₀ [] r := by
  unfold invalidateSubtree
  refine Sat.get fun s hs => ?_
  subst hs
  split
  · exact .of_eq .refl
  · refine .bind ((classify_sat s dom _ root _ _).mono (fun r h => by rw [h]; exact .refl)
      fun _ _ h => h) (fun result => ?_) fun _ _ h => h
    cases result with
    | none => exact .pure fun _ h => h
    | some found =>
      refine .bind (removeAll_sat false _) (fun _ => ?_) fun _ _ h => h
      refine .bind (removeAll_sat true _) (fun _ => ?_) fun _ _ h => h
      exact .pure fun _ h => h

theorem resetDocument_sat (documentEpoch : ℕ) :
    Sat (fun r => r = r₀) (resetDocument documentEpoch) fun _ r => Moves r₀ [] r := by
  unfold resetDocument
  refine Sat.get fun s hs => ?_
  subst hs
  split
  · exact .of_eq .refl
  · split
    · exact .of_eq .refl
    · rename_i hlt
      refine .bind ((bumpStructuralRevision_sat
        (P := fun r => Moves s [] r ∧ r.documentEpoch = s.documentEpoch) fun r r' h hf =>
          ⟨h.1.frame hf, by rw [hf.documentEpoch, h.2]⟩).mono (fun r h => ?_) fun _ _ h => h)
        (fun _ => ?_) fun error r h => h.1
      · rw [h]
        exact ⟨.refl, rfl⟩
      · exact .modify fun r h => h.1.tail (.reset documentEpoch (by rw [h.2]; omega))

/-! ## Snapshots -/

theorem snapshotList_sat (r₀ : DomNodeRegistry Node)
    (entries : List (String × NodeEntry Node)) (taken : List (NodeEntry Node)) :
    Sat (fun r => Frame r₀ r) (snapshotList alive entries taken) fun result r => Frame r₀ r ∧
      ∀ all, result = .ok (some all) →
        all = taken ++ entries.map fun entry => { entry.2 with ref := entry.1 } := by
  induction entries generalizing taken with
  | nil =>
    refine .pure fun _ h => ⟨h, fun all he => ?_⟩
    cases he
    simp
  | cons entry entries ih =>
    unfold snapshotList
    refine .bind (dereferenceEntry_sat fun r r' h hf => Frame.trans h hf) (fun result => ?_)
      fun error r h => ⟨h.1, by simp⟩
    cases result with
    | stale => exact .pure fun _ h => ⟨h.1, by simp⟩
    | dead => exact .pure fun _ h => ⟨h.1, by simp⟩
    | live node =>
      refine .assume (fun r h => h.2.2.1 node rfl) fun hnode => ?_
      subst hnode
      refine (ih _).mono (fun _ h => h.1) fun result r h => ⟨h.1, fun all he => ?_⟩
      rw [h.2 all he]
      simp

/-- A snapshot has the entries of the registry, in their order. -/
theorem snapshot_sat :
    Sat (fun r => r = r₀) (snapshot alive) fun result r => Frame r₀ r ∧
      ∀ taken, result = .ok (some taken) → taken.registry = r₀.registry ∧
        taken.documentEpoch = r₀.documentEpoch ∧ taken.nextRef = r₀.nextRef ∧
        taken.entries = r₀.reverse.entries.map fun entry => { entry.2 with ref := entry.1 } := by
  unfold snapshot
  refine Sat.get fun s hs => ?_
  subst hs
  refine .bind ((snapshotList_sat s s.reverse.entries []).mono (fun r h => ?_)
    fun _ _ h => h) (fun result => ?_) fun error r h => ⟨h.1, by simp⟩
  · rw [h]
    exact .refl s
  · cases result with
    | none => exact .pure fun r h => ⟨h.1, by simp⟩
    | some entries =>
      refine .pure fun r h => ⟨h.1, fun taken he => ?_⟩
      cases he
      exact ⟨rfl, rfl, rfl, h.2 entries rfl⟩

end DomNodeRegistry

end PinOp.Dom
