import Mathlib.Data.List.Nodup

/-!
# Insertion-ordered maps

`OrderedMap κ ν` is a finite map that remembers the order in which its keys were
first inserted: overwriting a key keeps its place, deleting it and inserting it
again moves it to the end, and iteration follows that order. This is the order an
ECMAScript `Map` (and, with `Unit` values, a `Set`) iterates in, and the one an
LRU index built from a `Map` relies on.
-/

namespace PinOp.Lib

/-- A list of entries with pairwise distinct keys, oldest first. -/
structure OrderedMap (κ ν : Type*) where
  entries : List (κ × ν)
  nodup : (entries.map Prod.fst).Nodup

namespace OrderedMap

variable {κ ν : Type*}

@[ext] theorem ext {m m' : OrderedMap κ ν} (h : m.entries = m'.entries) : m = m' := by
  cases m; cases m'; cases h; rfl

def empty : OrderedMap κ ν := ⟨[], List.nodup_nil⟩

instance : EmptyCollection (OrderedMap κ ν) := ⟨empty⟩

instance : Inhabited (OrderedMap κ ν) := ⟨empty⟩

instance [DecidableEq κ] [DecidableEq ν] : DecidableEq (OrderedMap κ ν) := fun _ _ =>
  decidable_of_iff _ OrderedMap.ext_iff.symm

def keys (m : OrderedMap κ ν) : List κ := m.entries.map Prod.fst

def size (m : OrderedMap κ ν) : Nat := m.entries.length

/-- The key inserted first among those present. -/
def firstKey? (m : OrderedMap κ ν) : Option κ := m.keys.head?

/-- Keep the entries that satisfy `p`, in order. -/
def filter (m : OrderedMap κ ν) (p : κ → ν → Bool) : OrderedMap κ ν :=
  ⟨m.entries.filter fun e => p e.1 e.2,
    m.nodup.sublist (List.filter_sublist.map Prod.fst)⟩

@[simp] theorem entries_empty : (∅ : OrderedMap κ ν).entries = [] := rfl

@[simp] theorem keys_empty : (∅ : OrderedMap κ ν).keys = [] := rfl

@[simp] theorem size_empty : (∅ : OrderedMap κ ν).size = 0 := rfl

@[simp] theorem length_keys (m : OrderedMap κ ν) : m.keys.length = m.size := by
  simp [keys, size]

theorem nodup_keys (m : OrderedMap κ ν) : m.keys.Nodup := m.nodup

theorem size_eq_zero {m : OrderedMap κ ν} : m.size = 0 ↔ m = ∅ := by
  rw [size, List.length_eq_zero_iff, OrderedMap.ext_iff]; rfl

theorem size_filter_le (m : OrderedMap κ ν) (p : κ → ν → Bool) : (m.filter p).size ≤ m.size :=
  List.length_filter_le _ _

theorem firstKey?_mem {m : OrderedMap κ ν} {k : κ} (h : m.firstKey? = some k) : k ∈ m.keys :=
  List.mem_of_mem_head? h

theorem firstKey?_isSome {m : OrderedMap κ ν} (h : 0 < m.size) : m.firstKey?.isSome := by
  rw [← length_keys] at h
  cases hk : m.keys with
  | nil => simp [hk] at h
  | cons k ks => simp [firstKey?, hk]

section
variable [DecidableEq κ]

def get? (m : OrderedMap κ ν) (k : κ) : Option ν :=
  (m.entries.find? fun e => e.1 = k).map Prod.snd

def has (m : OrderedMap κ ν) (k : κ) : Bool := (m.get? k).isSome

/-- Overwrite in place, or append. -/
def set (m : OrderedMap κ ν) (k : κ) (v : ν) : OrderedMap κ ν :=
  if h : k ∈ m.keys then
    ⟨m.entries.map fun e => if e.1 = k then (k, v) else e, by
      have : (Prod.fst ∘ fun e : κ × ν => if e.1 = k then (k, v) else e) = Prod.fst := by
        funext e; by_cases he : e.1 = k <;> simp [he]
      rw [List.map_map, this]; exact m.nodup⟩
  else
    ⟨m.entries ++ [(k, v)], by
      rw [List.map_append, List.nodup_append]
      refine ⟨m.nodup, by simp, ?_⟩
      intro a ha b hb
      simp only [List.map_cons, List.map_nil, List.mem_singleton] at hb
      subst hb
      exact fun e => h (e ▸ ha)⟩

def delete (m : OrderedMap κ ν) (k : κ) : OrderedMap κ ν := m.filter fun k' _ => k' ≠ k

theorem get?_eq_some {m : OrderedMap κ ν} {k : κ} {v : ν} :
    m.get? k = some v ↔ (k, v) ∈ m.entries := by
  unfold get?
  constructor
  · intro h
    obtain ⟨e, he, rfl⟩ := Option.map_eq_some_iff.1 h
    have hk := List.find?_some he
    have hm := List.mem_of_find?_eq_some he
    simp only [decide_eq_true_eq] at hk
    subst hk
    exact hm
  · intro h
    obtain ⟨e, he⟩ : ∃ e, m.entries.find? (fun e => e.1 = k) = some e := by
      apply Option.isSome_iff_exists.1
      rw [List.find?_isSome]
      exact ⟨(k, v), h, by simp⟩
    have hk := List.find?_some he
    simp only [decide_eq_true_eq] at hk
    have : e = (k, v) := List.inj_on_of_nodup_map m.nodup (List.mem_of_find?_eq_some he) h hk
    rw [he, this]; rfl

theorem mem_keys {m : OrderedMap κ ν} {k : κ} : k ∈ m.keys ↔ ∃ v, m.get? k = some v := by
  simp only [keys, List.mem_map, get?_eq_some, Prod.exists, exists_and_right, exists_eq_right]

theorem get?_eq_none {m : OrderedMap κ ν} {k : κ} : m.get? k = none ↔ k ∉ m.keys := by
  rw [mem_keys, Option.eq_none_iff_forall_ne_some]; simp

theorem has_eq_true {m : OrderedMap κ ν} {k : κ} : m.has k = true ↔ k ∈ m.keys := by
  rw [mem_keys, has, Option.isSome_iff_exists]

@[simp] theorem get?_empty (k : κ) : (∅ : OrderedMap κ ν).get? k = none := rfl

theorem get?_congr {m m' : OrderedMap κ ν} {k k' : κ}
    (h : ∀ v, (k, v) ∈ m.entries ↔ (k', v) ∈ m'.entries) : m.get? k = m'.get? k' := by
  apply Option.ext
  intro v
  rw [get?_eq_some, get?_eq_some, h]

theorem entries_set_of_mem {m : OrderedMap κ ν} {k : κ} (v : ν) (h : k ∈ m.keys) :
    (m.set k v).entries = m.entries.map fun e => if e.1 = k then (k, v) else e := by
  simp [set, h]

theorem entries_set_of_not_mem {m : OrderedMap κ ν} {k : κ} (v : ν) (h : k ∉ m.keys) :
    (m.set k v).entries = m.entries ++ [(k, v)] := by
  simp [set, h]

theorem mem_entries_set {m : OrderedMap κ ν} {k : κ} {v : ν} {e : κ × ν} :
    e ∈ (m.set k v).entries ↔ e = (k, v) ∨ (e ∈ m.entries ∧ e.1 ≠ k) := by
  by_cases hk : k ∈ m.keys
  · rw [entries_set_of_mem v hk, List.mem_map]
    constructor
    · rintro ⟨e', he', rfl⟩
      by_cases h : e'.1 = k
      · simp [h]
      · simp [h, he']
    · rintro (rfl | ⟨he, hne⟩)
      · obtain ⟨w, hw⟩ := mem_keys.1 hk
        exact ⟨(k, w), get?_eq_some.1 hw, by simp⟩
      · exact ⟨e, he, by simp [hne]⟩
  · rw [entries_set_of_not_mem v hk, List.mem_append, List.mem_singleton]
    constructor
    · rintro (he | rfl)
      · exact .inr ⟨he, fun h => hk (h ▸ List.mem_map_of_mem he)⟩
      · exact .inl rfl
    · rintro (rfl | ⟨he, -⟩)
      · exact .inr rfl
      · exact .inl he

@[simp] theorem get?_set (m : OrderedMap κ ν) (k k' : κ) (v : ν) :
    (m.set k v).get? k' = if k' = k then some v else m.get? k' := by
  split
  · next h => subst h; rw [get?_eq_some, mem_entries_set]; exact .inl rfl
  · next h =>
    apply get?_congr
    intro w
    rw [mem_entries_set]
    simp [h]

theorem get?_filter (m : OrderedMap κ ν) (p : κ → ν → Bool) (k : κ) :
    (m.filter p).get? k = (m.get? k).filter (p k) := by
  apply Option.ext
  intro v
  rw [get?_eq_some, Option.filter_eq_some_iff, get?_eq_some]
  simp [filter, List.mem_filter]

@[simp] theorem get?_delete (m : OrderedMap κ ν) (k k' : κ) :
    (m.delete k).get? k' = if k' = k then none else m.get? k' := by
  unfold delete
  rw [get?_filter]
  split
  · next h => cases hg : m.get? k' <;> simp [Option.filter, h]
  · next h => cases hg : m.get? k' <;> simp [Option.filter, h]

theorem mem_keys_set {m : OrderedMap κ ν} {k k' : κ} {v : ν} :
    k' ∈ (m.set k v).keys ↔ k' = k ∨ k' ∈ m.keys := by
  rw [mem_keys, mem_keys, get?_set]
  by_cases h : k' = k <;> simp [h]

theorem mem_keys_delete {m : OrderedMap κ ν} {k k' : κ} :
    k' ∈ (m.delete k).keys ↔ k' ≠ k ∧ k' ∈ m.keys := by
  rw [mem_keys, mem_keys, get?_delete]
  by_cases h : k' = k <;> simp [h]

@[simp] theorem has_set (m : OrderedMap κ ν) (k k' : κ) (v : ν) :
    (m.set k v).has k' = (decide (k' = k) || m.has k') := by
  unfold has
  rw [get?_set]
  by_cases h : k' = k <;> simp [h]

@[simp] theorem has_delete (m : OrderedMap κ ν) (k k' : κ) :
    (m.delete k).has k' = (decide (k' ≠ k) && m.has k') := by
  unfold has
  rw [get?_delete]
  by_cases h : k' = k <;> simp [h]

theorem keys_set_of_mem {m : OrderedMap κ ν} {k : κ} (v : ν) (h : k ∈ m.keys) :
    (m.set k v).keys = m.keys := by
  unfold keys
  rw [entries_set_of_mem v h, List.map_map]
  congr 1
  funext e
  by_cases he : e.1 = k <;> simp [he]

theorem keys_set_of_not_mem {m : OrderedMap κ ν} {k : κ} (v : ν) (h : k ∉ m.keys) :
    (m.set k v).keys = m.keys ++ [k] := by
  simp [keys, entries_set_of_not_mem v h]

theorem keys_delete (m : OrderedMap κ ν) (k : κ) : (m.delete k).keys = m.keys.erase k := by
  rw [m.nodup_keys.erase_eq_filter]
  unfold keys delete filter
  rw [List.filter_map]
  congr 1
  apply List.filter_congr
  intro e _
  simp [bne, BEq.beq]

theorem size_set_of_mem {m : OrderedMap κ ν} {k : κ} (v : ν) (h : k ∈ m.keys) :
    (m.set k v).size = m.size := by
  rw [← length_keys, keys_set_of_mem v h, length_keys]

theorem size_set_of_not_mem {m : OrderedMap κ ν} {k : κ} (v : ν) (h : k ∉ m.keys) :
    (m.set k v).size = m.size + 1 := by
  rw [← length_keys, keys_set_of_not_mem v h, List.length_append, length_keys]; rfl

theorem size_delete_of_mem {m : OrderedMap κ ν} {k : κ} (h : k ∈ m.keys) :
    (m.delete k).size + 1 = m.size := by
  have hpos : 0 < m.keys.length := List.length_pos_of_mem h
  rw [← length_keys, keys_delete, List.length_erase_of_mem h, ← length_keys m]
  omega

theorem size_delete_le (m : OrderedMap κ ν) (k : κ) : (m.delete k).size ≤ m.size := by
  rw [← length_keys, keys_delete, ← length_keys m]
  exact List.length_erase_le

/-- Moving a key that is present to the end keeps the size. -/
theorem size_delete_set {m : OrderedMap κ ν} {k : κ} (v : ν) (h : k ∈ m.keys) :
    ((m.delete k).set k v).size = m.size := by
  have hn : k ∉ (m.delete k).keys := by simp [mem_keys_delete]
  rw [size_set_of_not_mem v hn, size_delete_of_mem h]

/-- Deleting the first key drops the first entry. -/
theorem entries_delete_firstKey {m : OrderedMap κ ν} {k : κ} (h : m.firstKey? = some k) :
    (m.delete k).entries = m.entries.tail := by
  obtain ⟨entries, hn⟩ := m
  change entries.filter (fun e => decide (e.1 ≠ k)) = entries.tail
  cases entries with
  | nil => rfl
  | cons e es =>
    obtain rfl : e.1 = k := Option.some.inj h
    rw [List.map_cons, List.nodup_cons] at hn
    rw [List.filter_cons_of_neg (by simp), List.tail_cons, List.filter_eq_self]
    intro e' he'
    have hne : e'.1 ≠ e.1 := fun heq => hn.1 (heq ▸ List.mem_map_of_mem he')
    simpa using hne

theorem entries_delete_set (m : OrderedMap κ ν) (k : κ) (v : ν) :
    ((m.delete k).set k v).entries = (m.delete k).entries ++ [(k, v)] :=
  entries_set_of_not_mem v (by simp [mem_keys_delete])

theorem eq_empty_iff {m : OrderedMap κ ν} : m = ∅ ↔ ∀ k, m.get? k = none := by
  constructor
  · rintro rfl k; rfl
  · intro h
    apply ext
    cases he : m.entries with
    | nil => rfl
    | cons e es =>
      have hm : (e.1, e.2) ∈ m.entries := by simp [he]
      have := get?_eq_some.2 hm
      rw [h] at this
      cases this

theorem set_ne_empty (m : OrderedMap κ ν) (k : κ) (v : ν) : m.set k v ≠ ∅ := by
  intro h
  have := eq_empty_iff.1 h k
  simp at this

end

end OrderedMap

end PinOp.Lib
