import PinOp.Lib.OrderedMap

/-!
# Two-level maps

An outer `OrderedMap` whose values are inner `OrderedMap`s, created on demand by
the first insertion and dropped by the deletion of their last key. `NoEmpty` is
the invariant that pattern keeps: no inner map is empty. It makes the two-level
lookup `get2?` a complete description of the map up to order.
-/

namespace PinOp.Lib

abbrev NestedMap (α β ν : Type*) := OrderedMap α (OrderedMap β ν)

namespace NestedMap

variable {α β ν : Type*} [DecidableEq α] [DecidableEq β]

/-- The inner map at `a`, empty when there is none. -/
def inner (m : NestedMap α β ν) (a : α) : OrderedMap β ν := (m.get? a).getD ∅

def get2? (m : NestedMap α β ν) (a : α) (b : β) : Option ν := (m.inner a).get? b

def set2 (m : NestedMap α β ν) (a : α) (b : β) (v : ν) : NestedMap α β ν :=
  m.set a ((m.inner a).set b v)

/-- Insert at the end of the inner map, wherever the key was before. -/
def touch2 (m : NestedMap α β ν) (a : α) (b : β) (v : ν) : NestedMap α β ν :=
  m.set a (((m.inner a).delete b).set b v)

/-- Delete the inner key, and the inner map with its last key. -/
def delete2 (m : NestedMap α β ν) (a : α) (b : β) : NestedMap α β ν :=
  match m.get? a with
  | none => m
  | some i => if (i.delete b).size = 0 then m.delete a else m.set a (i.delete b)

def NoEmpty (m : NestedMap α β ν) : Prop := ∀ a i, m.get? a = some i → i ≠ ∅

omit [DecidableEq β] in
@[simp] theorem inner_empty (a : α) : inner (∅ : NestedMap α β ν) a = ∅ := rfl

@[simp] theorem get2?_empty (a : α) (b : β) : get2? (∅ : NestedMap α β ν) a b = none := rfl

omit [DecidableEq β] in
theorem noEmpty_empty : NoEmpty (∅ : NestedMap α β ν) := fun _ _ h => by cases h

theorem get2?_eq_some {m : NestedMap α β ν} {a : α} {b : β} {v : ν} :
    m.get2? a b = some v ↔ ∃ i, m.get? a = some i ∧ i.get? b = some v := by
  unfold get2? inner
  cases m.get? a <;> simp

theorem inner_set2 (m : NestedMap α β ν) (a a' : α) (b : β) (v : ν) :
    (m.set2 a b v).inner a' = if a' = a then (m.inner a).set b v else m.inner a' := by
  unfold set2 inner
  rw [OrderedMap.get?_set]
  split <;> rfl

theorem inner_touch2 (m : NestedMap α β ν) (a a' : α) (b : β) (v : ν) :
    (m.touch2 a b v).inner a' =
      if a' = a then ((m.inner a).delete b).set b v else m.inner a' := by
  unfold touch2 inner
  rw [OrderedMap.get?_set]
  split <;> rfl

theorem inner_delete2 (m : NestedMap α β ν) (a a' : α) (b : β) :
    (m.delete2 a b).inner a' = if a' = a then (m.inner a).delete b else m.inner a' := by
  unfold delete2 inner
  split
  · next h =>
    split
    · next e => subst e; rw [h]; rfl
    · rfl
  · next i h =>
    split
    · next hs =>
      rw [OrderedMap.get?_delete]
      split
      · rw [h]; exact (OrderedMap.size_eq_zero.1 hs).symm
      · rfl
    · rw [OrderedMap.get?_set]
      split
      · rw [h]; rfl
      · rfl

@[simp] theorem get2?_set2 (m : NestedMap α β ν) (a a' : α) (b b' : β) (v : ν) :
    (m.set2 a b v).get2? a' b' = if a' = a ∧ b' = b then some v else m.get2? a' b' := by
  unfold get2?
  rw [inner_set2]
  by_cases ha : a' = a <;> simp [ha]

@[simp] theorem get2?_touch2 (m : NestedMap α β ν) (a a' : α) (b b' : β) (v : ν) :
    (m.touch2 a b v).get2? a' b' = if a' = a ∧ b' = b then some v else m.get2? a' b' := by
  unfold get2?
  rw [inner_touch2]
  by_cases ha : a' = a <;> by_cases hb : b' = b <;> simp [ha, hb]

@[simp] theorem get2?_delete2 (m : NestedMap α β ν) (a a' : α) (b b' : β) :
    (m.delete2 a b).get2? a' b' = if a' = a ∧ b' = b then none else m.get2? a' b' := by
  unfold get2?
  rw [inner_delete2]
  by_cases ha : a' = a <;> simp [ha]

theorem mem_inner_set2 {m : NestedMap α β ν} {a a' : α} {b b' : β} {v : ν} :
    b' ∈ ((m.set2 a b v).inner a').keys ↔ (a' = a ∧ b' = b) ∨ b' ∈ (m.inner a').keys := by
  rw [inner_set2]
  by_cases ha : a' = a <;> simp [ha, OrderedMap.mem_keys_set]

theorem mem_inner_touch2 {m : NestedMap α β ν} {a a' : α} {b b' : β} {v : ν} :
    b' ∈ ((m.touch2 a b v).inner a').keys ↔ (a' = a ∧ b' = b) ∨ b' ∈ (m.inner a').keys := by
  rw [inner_touch2]
  by_cases ha : a' = a <;> by_cases hb : b' = b <;>
    simp [ha, hb, OrderedMap.mem_keys_set, OrderedMap.mem_keys_delete]

theorem mem_inner_delete2 {m : NestedMap α β ν} {a a' : α} {b b' : β} :
    b' ∈ ((m.delete2 a b).inner a').keys ↔ ¬(a' = a ∧ b' = b) ∧ b' ∈ (m.inner a').keys := by
  rw [inner_delete2]
  by_cases ha : a' = a <;> simp [ha, OrderedMap.mem_keys_delete]

omit [DecidableEq β] in
theorem noEmpty_set {m : NestedMap α β ν} (h : m.NoEmpty) {a : α} {i : OrderedMap β ν}
    (hi : i ≠ ∅) : NoEmpty (m.set a i) := by
  intro a' i' h'
  rw [OrderedMap.get?_set] at h'
  split at h'
  · cases h'; exact hi
  · exact h a' i' h'

theorem noEmpty_set2 {m : NestedMap α β ν} (h : m.NoEmpty) (a : α) (b : β) (v : ν) :
    NoEmpty (m.set2 a b v) :=
  noEmpty_set h (OrderedMap.set_ne_empty _ _ _)

theorem noEmpty_touch2 {m : NestedMap α β ν} (h : m.NoEmpty) (a : α) (b : β) (v : ν) :
    NoEmpty (m.touch2 a b v) :=
  noEmpty_set h (OrderedMap.set_ne_empty _ _ _)

theorem noEmpty_delete2 {m : NestedMap α β ν} (h : m.NoEmpty) (a : α) (b : β) :
    NoEmpty (m.delete2 a b) := by
  unfold delete2
  split
  · exact h
  · next i hi =>
    split
    · intro a' i' h'
      rw [OrderedMap.get?_delete] at h'
      split at h'
      · cases h'
      · exact h a' i' h'
    · next hs => exact noEmpty_set h fun e => hs (OrderedMap.size_eq_zero.2 e)

/-- Moving a key that is present to the end keeps the inner sizes. -/
theorem size_inner_touch2 {m : NestedMap α β ν} {a : α} {b : β} (v : ν)
    (h : b ∈ (m.inner a).keys) (a' : α) :
    ((m.touch2 a b v).inner a').size = (m.inner a').size := by
  rw [inner_touch2]
  split
  · next e =>
    subst e
    exact OrderedMap.size_delete_set v h
  · rfl

end NestedMap

end PinOp.Lib
