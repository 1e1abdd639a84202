import PinOp.Dom.RegistryPrograms

/-!
# Restoring a snapshot

`restore` builds new indexes from the entries of the snapshot, each of which is checked. Nothing
of the registry changes unless all of them pass.
-/

namespace PinOp.Dom

open PinOp.Lib Program

namespace DomNodeRegistry

variable {Node : Type} {alive : ℕ → Bool} {r r' r₀ : DomNodeRegistry Node}

/-- Only the authority revision and the number of reads change. -/
def Untouched (r r' : DomNodeRegistry Node) : Prop :=
  ∃ reads revision, r.authorityRevision ≤ revision ∧
    r' = { r with reads := reads, authorityRevision := revision }

theorem Untouched.refl (r : DomNodeRegistry Node) : Untouched r r := ⟨_, _, le_refl _, rfl⟩

theorem Untouched.frame (h : Untouched r r') : Frame r r' := by
  obtain ⟨_, _, h, rfl⟩ := h
  exact ⟨rfl, rfl, rfl, rfl, rfl, rfl, rfl, rfl, rfl, h⟩

/-- Only the number of reads changes. -/
def Reread (r r' : DomNodeRegistry Node) : Prop := ∃ reads, r' = { r with reads := reads }

theorem Reread.next (h : Reread r₀ r) : Reread r₀ { r with reads := r.reads + 1 } := by
  obtain ⟨_, rfl⟩ := h
  exact ⟨_, rfl⟩

theorem Reread.frame (h : Reread r r') : Frame r r' := by
  obtain ⟨_, rfl⟩ := h
  exact ⟨rfl, rfl, rfl, rfl, rfl, rfl, rfl, rfl, rfl, le_refl _⟩

variable [DecidableEq Node] {entry : NodeEntry Node} {indexes : Indexes Node}
  {done : List (NodeEntry Node)} {snapshot : DomNodeRegistrySnapshot Node}

/-- The indexes are those of the entries. -/
structure Built (r : DomNodeRegistry Node) (done : List (NodeEntry Node))
    (indexes : Indexes Node) : Prop where
  reverse : indexes.reverse.entries = done.map fun entry => (entry.ref, entry)
  scope : ∀ entry ∈ done, r.isCurrentScope entry.scope = true
  forward : ∀ entry ∈ done,
    lookup indexes.forward entry.node (createScopeKey entry.scope) = some entry.ref
  retained : ∀ ref node, indexes.retained.get? ref = some node ↔
    ∃ entry, indexes.reverse.get? ref = some entry ∧ entry.reasons ≠ [] ∧ entry.node = node

namespace Built

theorem empty (r : DomNodeRegistry Node) : Built r [] ⟨∅, ∅, ∅⟩ := by
  refine ⟨rfl, by simp, by simp, fun ref node => ?_⟩
  constructor
  · intro h
    cases h
  · rintro ⟨_, h, -⟩
    cases h

theorem add (hb : Built r done indexes) (hc : r.restorable indexes entry = true) :
    Built r (done ++ [entry]) (indexes.add entry) := by
  simp only [restorable, Bool.and_eq_true, Bool.not_eq_true', Option.isNone_iff_eq_none] at hc
  obtain ⟨⟨⟨⟨⟨-, hscope⟩, -⟩, hfresh⟩, -⟩, hnone⟩ := hc
  have hfresh : entry.ref ∉ indexes.reverse.keys := fun hm => by
    rw [OrderedMap.has_eq_true.mpr hm] at hfresh
    cases hfresh
  refine ⟨?_, fun e he => ?_, fun e he => ?_, fun ref node => ?_⟩
  · rw [Indexes.add, OrderedMap.entries_set_of_not_mem _ hfresh, hb.reverse, List.map_append]
    rfl
  · rcases List.mem_append.mp he with he | he
    · exact hb.scope e he
    · rw [List.mem_singleton.mp he]
      exact hscope
  · rw [Indexes.add, lookup_link]
    rcases List.mem_append.mp he with he | he
    · have hold := hb.forward e he
      rw [if_neg, hold]
      rintro ⟨hnode, hkey⟩
      rw [hnode, hkey, hnone] at hold
      cases hold
    · rw [List.mem_singleton.mp he, if_pos ⟨rfl, rfl⟩]
  · have hold : indexes.retained.get? entry.ref = none := by
      by_contra hne
      obtain ⟨node, hnode⟩ := Option.ne_none_iff_exists'.mp hne
      obtain ⟨e, he, -⟩ := (hb.retained entry.ref node).mp hnode
      exact hfresh (OrderedMap.mem_keys.mpr ⟨e, he⟩)
    simp only [Indexes.add, OrderedMap.get?_set]
    by_cases href : ref = entry.ref
    · subst href
      by_cases hr : entry.reasons = []
      · simp [hr, hold]
      · simp [hr]
    · rw [if_neg href]
      split
      · exact hb.retained ref node
      · rw [OrderedMap.get?_set, if_neg href]
        exact hb.retained ref node

end Built

theorem restorable_frame (h : Frame r r') (indexes : Indexes Node) (entry : NodeEntry Node) :
    r'.restorable indexes entry = r.restorable indexes entry := by
  simp only [restorable, isCurrentScope, h.documentEpoch]

theorem restoreList_sat (alive : ℕ → Bool) (entries : List (NodeEntry Node)) (hb : Built r₀ done indexes) :
    Sat (fun r => Reread r₀ r) (restoreList alive entries indexes) fun result r =>
      Reread r₀ r ∧ (∀ error, result ≠ .error error) ∧
        ∀ built, result = .ok (some built) → Built r₀ (done ++ entries) built := by
  induction entries generalizing done indexes with
  | nil =>
    refine .pure fun r h => ⟨h, by simp, fun built he => ?_⟩
    cases he
    rw [List.append_nil]
    exact hb
  | cons entry entries ih =>
    intro r hr
    unfold restoreList
    rw [run_bind_ok (deref_run entry r), run_get_bind]
    generalize (if alive r.reads then some entry.node else none) = found
    split
    · rename_i hc
      rw [Bool.and_eq_true] at hc
      have hadd := hb.add ((restorable_frame hr.next.frame indexes entry).symm.trans hc.2)
      have htail := ih hadd _ hr.next
      rwa [List.append_assoc] at htail
    · exact ⟨hr.next, by simp, by simp⟩

/-- The registry has the entries of the snapshot. -/
def Restored (r : DomNodeRegistry Node) (snapshot : DomNodeRegistrySnapshot Node)
    (r' : DomNodeRegistry Node) : Prop :=
  r.accepts snapshot = true ∧ r.authorityRevision < r'.authorityRevision ∧ ∃ indexes, Built r snapshot.entries indexes ∧
    Untouched (r.restoreIndexes snapshot indexes) r'

/-- Either nothing changes, or the snapshot is restored. Then the answer is `true` unless the
revision was the last safe one. -/
theorem restore_sat :
    Sat (fun r => r = r₀) (restore alive snapshot) fun result r =>
      Untouched r₀ r ∧ (result = .ok false ∨
          result = .error .revisionExhausted ∧ maxSafeInteger < r₀.authorityRevision) ∨
        Restored r₀ snapshot r ∧
          (result = .ok true ∨ result = .ok false ∧ r₀.authorityRevision = maxSafeInteger) := by
  unfold restore
  refine Sat.get fun s hs => ?_
  subst hs
  split
  · exact .of_eq (.inl ⟨.refl s, .inl rfl⟩)
  · rename_i hacc
    simp only [Bool.not_eq_true', Bool.not_eq_false] at hacc
    refine .of_eq ?_
    have hbump := bumpAuthorityRevision_run s
    split at hbump
    · rename_i hlt
      rw [run_bind_error hbump]
      exact .inl ⟨.refl s, .inr ⟨rfl, hlt⟩⟩
    · rename_i hsafe
      rw [run_bind_ok hbump]
      have hlist := restoreList_sat alive snapshot.entries
        (.empty { s with authorityRevision := s.authorityRevision + 1 })
        { s with authorityRevision := s.authorityRevision + 1 } ⟨_, rfl⟩
      cases hrun : restoreList alive snapshot.entries ⟨∅, ∅, ∅⟩
          { s with authorityRevision := s.authorityRevision + 1 } with
      | mk result r =>
        rw [hrun] at hlist
        obtain ⟨⟨reads, rfl⟩, herror, hbuilt⟩ := hlist
        cases result with
        | error error => exact absurd rfl (herror error)
        | ok result =>
          rw [run_bind_ok hrun]
          cases result with
          | none => exact .inl ⟨⟨_, _, Nat.le_succ _, rfl⟩, .inl rfl⟩
          | some indexes =>
            obtain ⟨h1, h2, h3, h4⟩ := hbuilt indexes rfl
            have hb : Built s snapshot.entries indexes := ⟨h1, h2, h3, h4⟩
            dsimp only
            rw [run_modify_bind]
            have hlast := bumpAuthorityRevision_run (restoreIndexes { s with
              authorityRevision := s.authorityRevision + 1
              reads := reads } snapshot indexes)
            split at hlast
            · rename_i hlt
              have heq : s.authorityRevision = maxSafeInteger := by
                have hlt : maxSafeInteger < s.authorityRevision + 1 := hlt
                omega
              refine .inr ?_
              unfold Program.succeeds
              rw [hlast]
              exact ⟨⟨hacc, Nat.lt_succ_self _, indexes, hb, _, _, Nat.le_succ _, rfl⟩, .inr ⟨rfl, heq⟩⟩
            · refine .inr ?_
              unfold Program.succeeds
              rw [hlast]
              exact ⟨⟨hacc, by simp only [restoreIndexes]; omega, indexes, hb, _, _,
                by simp only [restoreIndexes]; omega, rfl⟩,
                .inl rfl⟩

end DomNodeRegistry

end PinOp.Dom
