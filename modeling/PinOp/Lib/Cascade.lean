import Mathlib.Data.List.Induction
import PinOp.Lib.OrderedMap

/-!
# The cascade of a list

Items with a key supersede one another: of two with one key the later counts, unless the earlier
is important and the later is not. `survivors` keeps what nothing supersedes, in the order of the
list. `winners` is what a loop over an insertion-ordered map leaves, in which a key keeps the
place of its first item; the two are the same items, and the same list just when the keys come in
one order.
-/

namespace PinOp.Lib.Cascade

variable {α κ : Type} [DecidableEq κ] {key : α → κ} {important : α → Bool}

/-- The later item counts. -/
def overtakes (key : α → κ) (important : α → Bool) (earlier later : α) : Bool :=
  decide (key earlier = key later) && !(important earlier && !important later)

/-- The earlier item counts still. -/
def outlasts (key : α → κ) (important : α → Bool) (earlier later : α) : Bool :=
  decide (key earlier = key later) && important earlier && !important later

def superseded (key : α → κ) (important : α → Bool) (before : List α) (d : α) (rest : List α) :
    Bool :=
  (rest.any fun later => overtakes key important d later) ||
    before.any fun earlier => outlasts key important earlier d

def survivorsFrom (key : α → κ) (important : α → Bool) : List α → List α → List α
  | _, [] => []
  | before, d :: rest =>
    if superseded key important before d rest then
      survivorsFrom key important (before ++ [d]) rest
    else d :: survivorsFrom key important (before ++ [d]) rest

/-- What no other item supersedes, in the order of the list. -/
def survivors (key : α → κ) (important : α → Bool) (xs : List α) : List α :=
  survivorsFrom key important [] xs

/-- One turn of the loop over the map. -/
def settle (key : α → κ) (important : α → Bool) (m : OrderedMap κ α) (d : α) : OrderedMap κ α :=
  if (m.get? (key d)).any important && !important d then m else m.set (key d) d

def winners (key : α → κ) (important : α → Bool) (xs : List α) : OrderedMap κ α :=
  xs.foldl (settle key important) ∅

/-! ## One more item -/

theorem survivorsFrom_concat (before xs : List α) (d : α) :
    survivorsFrom key important before (xs ++ [d]) =
      (survivorsFrom key important before xs).filter (fun x => !overtakes key important x d) ++
        if (before ++ xs).any fun earlier => outlasts key important earlier d then [] else [d] := by
  induction xs generalizing before with
  | nil =>
    simp [survivorsFrom, superseded]
  | cons x xs ih =>
    have hsuperseded : superseded key important before x (xs ++ [d]) =
        (superseded key important before x xs || overtakes key important x d) := by
      simp only [superseded, List.any_append, List.any_cons, List.any_nil, Bool.or_false]
      rw [Bool.or_right_comm]
    rw [List.cons_append, survivorsFrom, survivorsFrom, hsuperseded, ih,
      List.append_assoc, List.singleton_append]
    by_cases hs : superseded key important before x xs = true
    · simp only [hs, Bool.true_or, if_true]
    · simp only [hs, Bool.false_or, Bool.false_eq_true, if_false]
      by_cases ho : overtakes key important x d = true
      · simp [ho]
      · simp [ho]

theorem survivors_concat (xs : List α) (d : α) :
    survivors key important (xs ++ [d]) =
      (survivors key important xs).filter (fun x => !overtakes key important x d) ++
        if xs.any fun earlier => outlasts key important earlier d then [] else [d] :=
  survivorsFrom_concat [] xs d

theorem winners_concat (xs : List α) (d : α) :
    winners key important (xs ++ [d]) = settle key important (winners key important xs) d := by
  rw [winners, List.foldl_append]
  rfl

theorem survivors_sublist (xs : List α) : (survivors key important xs).Sublist xs := by
  suffices h : ∀ before, (survivorsFrom key important before xs).Sublist xs from h []
  induction xs with
  | nil => exact fun _ => List.Sublist.slnil
  | cons x xs ih =>
    intro before
    rw [survivorsFrom]
    split
    · exact (ih _).cons x
    · exact (ih _).cons_cons x

/-! ## The two agree -/

/-- How the map stands to the list that the loop has read. -/
structure Agrees (key : α → κ) (important : α → Bool) (xs : List α) : Prop where
  keyed : ∀ e ∈ (winners key important xs).entries, key e.2 = e.1
  entries : ∀ d, (key d, d) ∈ (winners key important xs).entries ↔ d ∈ survivors key important xs
  unique : ((survivors key important xs).map key).Nodup
  outlasting : ∀ e ∈ xs, important e = true →
    ∃ s ∈ survivors key important xs, key s = key e ∧ important s = true
  order : (winners key important xs).keys.Pairwise fun a b =>
    (xs.map key).idxOf a < (xs.map key).idxOf b
  keys : ∀ k, k ∈ (winners key important xs).keys ↔ k ∈ xs.map key

namespace Agrees

theorem nil : Agrees key important ([] : List α) where
  keyed _ he := absurd he List.not_mem_nil
  entries d := by simp [winners, survivors, survivorsFrom]
  unique := List.nodup_nil
  outlasting _ he := absurd he List.not_mem_nil
  order := List.Pairwise.nil
  keys k := by simp [winners]

variable {xs : List α}

/-- Only one survivor has a key. -/
theorem eq_of_key (h : Agrees key important xs) {s t : α} (hs : s ∈ survivors key important xs)
    (ht : t ∈ survivors key important xs) (hk : key s = key t) : s = t :=
  List.inj_on_of_nodup_map h.unique hs ht hk

/-- The map knows whether something important was written. -/
theorem any_important (h : Agrees key important xs) (k : κ) :
    ((winners key important xs).get? k).any important =
      xs.any fun e => decide (key e = k) && important e := by
  rw [Bool.eq_iff_iff, Option.any_eq_true, List.any_eq_true]
  constructor
  · rintro ⟨s, hs, hi⟩
    have hentry := OrderedMap.get?_eq_some.mp hs
    have hk : key s = k := h.keyed _ hentry
    have hsurvivor := (h.entries s).mp (hk.symm ▸ hentry)
    exact ⟨s, (survivors_sublist xs).subset hsurvivor, by simp [hk, hi]⟩
  · rintro ⟨e, he, hke⟩
    simp only [Bool.and_eq_true, decide_eq_true_eq] at hke
    obtain ⟨s, hs, hks, hi⟩ := h.outlasting e he hke.2
    refine ⟨s, OrderedMap.get?_eq_some.mpr ?_, hi⟩
    rw [← hke.1, ← hks]
    exact (h.entries s).mpr hs

theorem survivors_of_skip (h : Agrees key important xs) {d : α}
    (hs : ((winners key important xs).get? (key d)).any important = true)
    (hd : important d = false) :
    survivors key important (xs ++ [d]) = survivors key important xs := by
  rw [h.any_important, List.any_eq_true] at hs
  obtain ⟨e, he, hke⟩ := hs
  simp only [Bool.and_eq_true, decide_eq_true_eq] at hke
  have hout : (xs.any fun earlier => outlasts key important earlier d) = true :=
    List.any_eq_true.mpr ⟨e, he, by simp [outlasts, hke.1, hke.2, hd]⟩
  rw [survivors_concat, hout, if_pos rfl, List.append_nil, List.filter_eq_self]
  intro s hs
  -- the survivor of the key is the important one
  obtain ⟨t, ht, hkt, hit⟩ := h.outlasting e he hke.2
  by_cases hk : key s = key d
  · have hst := h.eq_of_key hs ht (by rw [hk, hkt, hke.1])
    simp [overtakes, hst, hit, hd]
  · simp [overtakes, hk]

theorem survivors_of_set (h : Agrees key important xs) {d : α}
    (hs : (((winners key important xs).get? (key d)).any important && !important d) = false) :
    survivors key important (xs ++ [d]) =
      (survivors key important xs).filter (fun x => decide (key x ≠ key d)) ++ [d] := by
  rw [h.any_important] at hs
  have hnone : ∀ e ∈ xs, key e = key d → important d = true ∨ important e = false := by
    intro e he hk
    cases hd : important d with
    | true => exact .inl rfl
    | false =>
      refine .inr ?_
      rw [hd, Bool.not_false, Bool.and_true, List.any_eq_false] at hs
      simpa [hk] using hs e he
  have hout : (xs.any fun earlier => outlasts key important earlier d) = false := by
    rw [List.any_eq_false]
    intro e he
    by_cases hk : key e = key d
    · rcases hnone e he hk with hd | hi
      · simp [outlasts, hd]
      · simp [outlasts, hi]
    · simp [outlasts, hk]
  rw [survivors_concat, hout, if_neg Bool.false_ne_true]
  congr 1
  refine List.filter_congr fun s hs => ?_
  by_cases hk : key s = key d
  · rcases hnone s ((survivors_sublist xs).subset hs) hk with hd | hi
    · simp [overtakes, hk, hd]
    · simp [overtakes, hk, hi]
  · simp [overtakes, hk]

theorem idxOf_concat {a : κ} (ha : a ∈ xs.map key) (d : α) :
    ((xs ++ [d]).map key).idxOf a = (xs.map key).idxOf a := by
  rw [List.map_append, List.idxOf_append_of_mem ha]

theorem concat_of_skip (h : Agrees key important xs) {d : α}
    (hs : ((winners key important xs).get? (key d)).any important = true)
    (hd : important d = false) : Agrees key important (xs ++ [d]) := by
  have hw : winners key important (xs ++ [d]) = winners key important xs := by
    simp [winners_concat, settle, hs, hd]
  have hv := h.survivors_of_skip hs hd
  have hkey : key d ∈ xs.map key := by
    rw [← h.keys, OrderedMap.mem_keys]
    cases hg : (winners key important xs).get? (key d) with
    | none =>
      rw [hg] at hs
      cases hs
    | some s => exact ⟨s, rfl⟩
  refine ⟨hw ▸ h.keyed, ?_, hv ▸ h.unique, ?_, ?_, ?_⟩
  · rw [hw, hv]
    exact h.entries
  · intro e he hi
    rw [hv]
    rcases List.mem_append.mp he with he | he
    · exact h.outlasting e he hi
    · rw [List.mem_singleton.mp he, hd] at hi
      cases hi
  · rw [hw]
    refine h.order.imp_of_mem fun {a b} ha hb hab => ?_
    rw [idxOf_concat ((h.keys a).mp ha), idxOf_concat ((h.keys b).mp hb)]
    exact hab
  · intro k
    rw [hw, h.keys, List.map_append, List.mem_append, List.map_singleton, List.mem_singleton]
    exact ⟨.inl, fun hk => hk.elim id fun he => he ▸ hkey⟩

theorem concat_of_set (h : Agrees key important xs) {d : α}
    (hs : (((winners key important xs).get? (key d)).any important && !important d) = false) :
    Agrees key important (xs ++ [d]) := by
  have hw : winners key important (xs ++ [d]) = (winners key important xs).set (key d) d := by
    simp only [winners_concat, settle, hs, Bool.false_eq_true, if_false]
  have hv := h.survivors_of_set hs
  refine ⟨?_, ?_, ?_, ?_, ?_, ?_⟩
  · intro e he
    rw [hw, OrderedMap.mem_entries_set] at he
    rcases he with rfl | ⟨he, -⟩
    · rfl
    · exact h.keyed e he
  · intro x
    rw [hw, hv, OrderedMap.mem_entries_set, List.mem_append, List.mem_filter, List.mem_singleton,
      h.entries, decide_eq_true_eq]
    constructor
    · rintro (he | hx)
      · exact .inr (Prod.mk.inj he).2
      · exact .inl hx
    · rintro (hx | rfl)
      · exact .inr hx
      · exact .inl rfl
  · rw [hv, List.map_append, List.nodup_append]
    refine ⟨h.unique.sublist (List.filter_sublist.map key), List.nodup_singleton _, ?_⟩
    intro a ha b hb
    obtain ⟨x, hx, rfl⟩ := List.mem_map.mp ha
    obtain ⟨y, hy, rfl⟩ := List.mem_map.mp hb
    rw [List.mem_singleton.mp hy]
    simpa using (List.mem_filter.mp hx).2
  · intro e he hi
    rw [hv]
    rcases List.mem_append.mp he with he | he
    · obtain ⟨s, hsurvivor, hk, his⟩ := h.outlasting e he hi
      by_cases hkd : key s = key d
      · -- what takes the place of something important is important
        refine ⟨d, List.mem_append_right _ (List.mem_singleton.mpr rfl), hkd ▸ hk, ?_⟩
        by_contra hd
        have hany : ((winners key important xs).get? (key d)).any important = true := by
          rw [h.any_important, List.any_eq_true]
          exact ⟨e, he, by simp [← hk, hkd, hi]⟩
        simp [hany, hd] at hs
      · exact ⟨s, List.mem_append_left _ (List.mem_filter.mpr ⟨hsurvivor, by simpa using hkd⟩), hk,
          his⟩
    · exact ⟨d, List.mem_append_right _ (List.mem_singleton.mpr rfl),
        (List.mem_singleton.mp he) ▸ rfl, (List.mem_singleton.mp he) ▸ hi⟩
  · rw [hw]
    have hold : (winners key important xs).keys.Pairwise fun a b =>
        ((xs ++ [d]).map key).idxOf a < ((xs ++ [d]).map key).idxOf b := by
      refine h.order.imp_of_mem fun {a b} ha hb hab => ?_
      rw [idxOf_concat ((h.keys a).mp ha), idxOf_concat ((h.keys b).mp hb)]
      exact hab
    by_cases hk : key d ∈ (winners key important xs).keys
    · rw [OrderedMap.keys_set_of_mem d hk]
      exact hold
    · rw [OrderedMap.keys_set_of_not_mem d hk, List.pairwise_append]
      refine ⟨hold, List.pairwise_singleton _ _, fun a ha b hb => ?_⟩
      rw [List.mem_singleton.mp hb, idxOf_concat ((h.keys a).mp ha), List.map_append,
        List.idxOf_append_of_notMem fun hm => hk ((h.keys _).mpr hm)]
      have hlt := List.idxOf_lt_length_of_mem ((h.keys a).mp ha)
      omega
  · intro k
    rw [hw, OrderedMap.mem_keys_set, h.keys, List.map_append, List.mem_append, List.map_singleton,
      List.mem_singleton]
    exact or_comm

end Agrees

theorem agrees (xs : List α) : Agrees key important xs := by
  induction xs using List.reverseRecOn with
  | nil => exact Agrees.nil
  | append_singleton xs d ih =>
    cases hs : ((winners key important xs).get? (key d)).any important && !important d with
    | true =>
      rw [Bool.and_eq_true, Bool.not_eq_true'] at hs
      exact ih.concat_of_skip hs.1 hs.2
    | false => exact ih.concat_of_set hs

/-! ## The items that are left -/

/-- What the loop leaves. -/
def values (m : OrderedMap κ α) : List α := m.entries.map Prod.snd

theorem map_key_values (xs : List α) :
    (values (winners key important xs)).map key = (winners key important xs).keys := by
  rw [values, List.map_map, OrderedMap.keys]
  exact List.map_congr_left (agrees xs).keyed

theorem mem_values (xs : List α) (d : α) :
    d ∈ values (winners key important xs) ↔ d ∈ survivors key important xs := by
  rw [← (agrees xs).entries, values, List.mem_map]
  constructor
  · rintro ⟨e, he, rfl⟩
    rw [(agrees xs).keyed e he]
    exact he
  · exact fun h => ⟨_, h, rfl⟩

theorem values_perm (xs : List α) :
    (values (winners key important xs)).Perm (survivors key important xs) := by
  have hnodup : (values (winners key important xs)).Nodup := by
    refine List.Nodup.of_map key ?_
    rw [map_key_values]
    exact OrderedMap.nodup_keys _
  exact (List.perm_ext_iff_of_nodup hnodup (agrees xs).unique.of_map).mpr (mem_values xs)

/-- The keys of the list come in one order, by their first items and by what survives. -/
def InOrder (key : α → κ) (important : α → Bool) (xs : List α) : Prop :=
  ((survivors key important xs).map key).Pairwise fun a b =>
    (xs.map key).idxOf a < (xs.map key).idxOf b

instance (xs : List α) : Decidable (InOrder key important xs) :=
  inferInstanceAs (Decidable (List.Pairwise _ _))

theorem values_eq_survivors_iff (xs : List α) :
    values (winners key important xs) = survivors key important xs ↔
      InOrder key important xs := by
  have horder := (@agrees α κ _ key important xs).order
  rw [← map_key_values] at horder
  constructor
  · intro he
    rw [InOrder, ← he]
    exact horder
  · intro ho
    have hsurvivors := List.pairwise_map.mp ho
    refine (values_perm xs).eq_of_pairwise (fun a b _ _ hab hba => ?_)
      (List.pairwise_map.mp horder) hsurvivors
    exact absurd hab (Nat.lt_asymm hba)

end PinOp.Lib.Cascade
