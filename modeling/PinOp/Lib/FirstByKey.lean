import PinOp.Lib.OrderedMap

/-!
# The first of each key

Going through a list and keeping, in a map, each element whose key is new. In a list that is in
order what is kept of a key is a least element with the key.
-/

namespace PinOp.Lib

variable {α κ : Type*}

def firstByKey [DecidableEq κ] (key : α → κ) (l : List α) : OrderedMap κ α :=
  l.foldl (fun unique x => if unique.has (key x) then unique else unique.set (key x) x) ∅

/-- What is kept of a list in which `r` holds from left to right. -/
structure Kept (key : α → κ) (r : α → α → Prop) (l : List α) (unique : OrderedMap κ α) :
    Prop where
  keyed : ∀ e ∈ unique.entries, e.1 = key e.2
  sublist : (unique.entries.map Prod.snd).Sublist l
  least : ∀ x ∈ l, ∃ y ∈ unique.entries.map Prod.snd, key y = key x ∧ r y x

variable {key : α → κ} {r : α → α → Prop} {l : List α}

theorem Kept.keys {unique : OrderedMap κ α} (h : Kept key r l unique) :
    unique.keys = (unique.entries.map Prod.snd).map key := by
  rw [List.map_map]
  exact List.map_congr_left h.keyed

theorem Kept.nodup {unique : OrderedMap κ α} (h : Kept key r l unique) :
    ((unique.entries.map Prod.snd).map key).Nodup := h.keys ▸ unique.nodup_keys

theorem firstByKey_kept [DecidableEq κ] (hrefl : ∀ x ∈ l, r x x) (hl : l.Pairwise r) :
    Kept key r l (firstByKey key l) := by
  have hfold : ∀ (rest before : List α) (unique : OrderedMap κ α),
      Kept key r before unique → before ++ rest = l →
        Kept key r l (rest.foldl (fun unique x =>
          if unique.has (key x) then unique else unique.set (key x) x) unique) := by
    intro rest
    induction rest with
    | nil =>
      intro before unique hk he
      rw [List.append_nil] at he
      exact he ▸ hk
    | cons x rest ih =>
      intro before unique hk he
      have hx : x ∈ l := he ▸ List.mem_append_right _ List.mem_cons_self
      have hbefore : ∀ y ∈ before, r y x := by
        intro y hy
        rw [← he] at hl
        exact (List.pairwise_append.mp hl).2.2 y hy x List.mem_cons_self
      rw [List.foldl_cons]
      refine ih (before ++ [x]) _ ?_ (by rw [List.append_assoc]; exact he)
      split
      · rename_i hhas
        refine ⟨hk.keyed, hk.sublist.trans (List.sublist_append_left _ _), fun z hz => ?_⟩
        rcases List.mem_append.mp hz with hz | hz
        · exact hk.least z hz
        · obtain rfl := List.mem_singleton.mp hz
          have hin := OrderedMap.has_eq_true.mp hhas
          rw [hk.keys] at hin
          obtain ⟨y, hy, hkey⟩ := List.mem_map.mp hin
          exact ⟨y, hy, hkey, hbefore y (hk.sublist.subset hy)⟩
      · rename_i hhas
        have hnew : key x ∉ unique.keys := fun hin => hhas (OrderedMap.has_eq_true.mpr hin)
        have hentries := OrderedMap.entries_set_of_not_mem x hnew
        refine ⟨fun e he => ?_, ?_, fun z hz => ?_⟩
        · rw [hentries] at he
          rcases List.mem_append.mp he with he | he
          · exact hk.keyed e he
          · rw [List.mem_singleton.mp he]
        · rw [hentries, List.map_append]
          exact hk.sublist.append (List.Sublist.refl _)
        · rw [hentries, List.map_append]
          rcases List.mem_append.mp hz with hz | hz
          · obtain ⟨y, hy, hkey, hle⟩ := hk.least z hz
            exact ⟨y, List.mem_append_left _ hy, hkey, hle⟩
          · obtain rfl := List.mem_singleton.mp hz
            exact ⟨z, List.mem_append_right _ (by simp), rfl, hrefl z hx⟩
  refine hfold l [] ∅ ⟨fun e he => absurd he List.not_mem_nil, List.Sublist.refl _, ?_⟩ rfl
  exact fun x hx => absurd hx List.not_mem_nil

/-! ## Filling a map with new keys -/

namespace OrderedMap

variable {ν : Type*} [DecidableEq κ] {val : α → ν} {l : List α}

theorem keys_foldl_set : ∀ {m : OrderedMap κ ν}, (m.keys ++ l.map key).Nodup →
    (l.foldl (fun m x => m.set (key x) (val x)) m).keys = m.keys ++ l.map key := by
  induction l with
  | nil => exact fun _ => (List.append_nil _).symm
  | cons x rest ih =>
    intro m h
    have hnew : key x ∉ m.keys := fun hin =>
      List.disjoint_of_nodup_append h hin List.mem_cons_self
    have hkeys := keys_set_of_not_mem (m := m) (val x) hnew
    rw [List.foldl_cons, ih (by rw [hkeys]; simpa using h), hkeys]
    simp

/-- Under a new key stands its value. -/
theorem get?_foldl_set {k : κ} {v : ν} : ∀ {m : OrderedMap κ ν}, (m.keys ++ l.map key).Nodup →
    ((l.foldl (fun m x => m.set (key x) (val x)) m).get? k = some v ↔
      m.get? k = some v ∨ ∃ x ∈ l, key x = k ∧ val x = v) := by
  induction l with
  | nil => simp
  | cons x rest ih =>
    intro m h
    have hnew : key x ∉ m.keys := fun hin =>
      List.disjoint_of_nodup_append h hin List.mem_cons_self
    have hkeys := keys_set_of_not_mem (m := m) (val x) hnew
    rw [List.foldl_cons, ih (by rw [hkeys]; simpa using h), get?_set]
    by_cases hk : k = key x
    · have hnone : m.get? k = none := get?_eq_none.mpr (hk ▸ hnew)
      rw [if_pos hk, hnone]
      simp [hk]
    · rw [if_neg hk]
      simp [Ne.symm hk]

end OrderedMap

end PinOp.Lib
