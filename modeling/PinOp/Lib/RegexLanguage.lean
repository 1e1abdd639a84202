import Mathlib.Data.List.Forall2
import PinOp.Lib.Regex

/-!
# The language of a pattern

What a pattern matches is a word of its language, whatever way the match was found. So a text
that a pattern accepts has the characters, the beginning and the end that the words of its
language have.
-/

namespace PinOp.Lib

namespace Regex

/-- The words of the pattern. -/
def Matches : Regex → List Char → Prop
  | chars p, s => ∃ x, p x = true ∧ s = [x]
  | empty, s => s = []
  | seq a b, s => ∃ u v, s = u ++ v ∧ a.Matches u ∧ b.Matches v
  | alt a b, s => a.Matches s ∨ b.Matches s
  | star a, s => ∃ words : List (List Char), s = words.flatten ∧ ∀ u ∈ words, a.Matches u
  | group _ a, s => a.Matches s
  | eos, s => s = []

/-! ## Soundness -/

/-- What a match gives is what the continuation gives for the rest of the text. -/
def Sound {α : Type} (r : Regex) : Prop :=
  ∀ (c : Captures) (s : List Char) (next : Captures → List Char → Option α) (x : α),
    r.run c s next = some x → ∃ u v c', s = u ++ v ∧ r.Matches u ∧ next c' v = some x

theorem repeatBody_sound {α : Type} {a : Regex} (ha : a.Sound (α := α))
    (next : Captures → List Char → Option α) (x : α) (fuel : ℕ) (c : Captures) (s : List Char)
    (h : repeatBody a.run next fuel c s = some x) :
    ∃ u v c', s = u ++ v ∧ (star a).Matches u ∧ next c' v = some x := by
  induction fuel generalizing c s with
  | zero => exact ⟨[], s, c, rfl, ⟨[], rfl, by simp⟩, h⟩
  | succ fuel ih =>
    simp only [repeatBody, Option.orElse_eq_orElse, Option.orElse_eq_or, Option.or_eq_some_iff] at h
    rcases h with h | ⟨-, h⟩
    · obtain ⟨u, v, c', rfl, hu, h⟩ := ha c s _ x h
      split at h
      · obtain ⟨_, v', c'', rfl, ⟨words, rfl, hw⟩, hnext⟩ := ih c' v h
        refine ⟨u ++ words.flatten, v', c'', by simp, ⟨u :: words, rfl, ?_⟩, hnext⟩
        intro word hm
        rcases List.mem_cons.mp hm with rfl | hm
        · exact hu
        · exact hw word hm
      · cases h
    · exact ⟨[], s, c, rfl, ⟨[], rfl, by simp⟩, h⟩

theorem run_sound {α : Type} (r : Regex) : r.Sound (α := α) := by
  induction r with
  | chars p =>
    intro c s next x h
    cases s with
    | nil => cases h
    | cons y ys =>
      simp only [run] at h
      split at h
      · rename_i hp
        exact ⟨[y], ys, c, rfl, ⟨y, hp, rfl⟩, h⟩
      · cases h
  | empty => exact fun c s next x h => ⟨[], s, c, rfl, rfl, h⟩
  | seq a b iha ihb =>
    intro c s next x h
    obtain ⟨u, v, c', rfl, hu, h⟩ := iha c s _ x h
    obtain ⟨u', v', c'', rfl, hu', h⟩ := ihb c' v next x h
    exact ⟨u ++ u', v', c'', by simp, ⟨u, u', rfl, hu, hu'⟩, h⟩
  | alt a b iha ihb =>
    intro c s next x h
    simp only [run, Option.orElse_eq_orElse, Option.orElse_eq_or, Option.or_eq_some_iff] at h
    rcases h with h | ⟨-, h⟩
    · obtain ⟨u, v, c', hs, hu, h⟩ := iha c s next x h
      exact ⟨u, v, c', hs, .inl hu, h⟩
    · obtain ⟨u, v, c', hs, hu, h⟩ := ihb c s next x h
      exact ⟨u, v, c', hs, .inr hu, h⟩
  | star a iha => exact fun c s next x h => repeatBody_sound iha next x s.length c s h
  | group n a iha =>
    intro c s next x h
    obtain ⟨u, v, c', hs, hu, h⟩ := iha c s _ x h
    exact ⟨u, v, _, hs, hu, h⟩
  | eos =>
    intro c s next x h
    simp only [run] at h
    split at h
    · exact ⟨[], s, c, rfl, rfl, h⟩
    · cases h

/-- A text that the pattern accepts as a whole is one of its words. -/
theorem matches_of_test {r : Regex} {value : String} (h : r.test value = true) :
    r.Matches value.toList := by
  rw [test, Option.isSome_iff_exists] at h
  obtain ⟨x, h⟩ := h
  obtain ⟨u, v, c', hs, hu, h⟩ := run_sound r [] value.toList _ x h
  split at h
  · rename_i hv
    rw [hs, List.isEmpty_iff.mp hv, List.append_nil]
    exact hu
  · cases h

/-- A text that the pattern accepts the beginning of begins with one of its words. -/
theorem matches_of_execPrefix {r : Regex} {value : String} (h : (r.execPrefix value).isSome) :
    ∃ u v, value.toList = u ++ v ∧ r.Matches u := by
  obtain ⟨x, h⟩ := Option.isSome_iff_exists.mp h
  obtain ⟨u, v, c', hs, hu, -⟩ := run_sound r [] value.toList _ x h
  exact ⟨u, v, hs, hu⟩

/-! ## Words of the derived patterns -/

@[simp] theorem matches_chars {p : Char → Bool} {s : List Char} :
    (chars p).Matches s ↔ ∃ x, p x = true ∧ s = [x] := Iff.rfl

@[simp] theorem matches_empty {s : List Char} : empty.Matches s ↔ s = [] := Iff.rfl

@[simp] theorem matches_seq {a b : Regex} {s : List Char} :
    (seq a b).Matches s ↔ ∃ u v, s = u ++ v ∧ a.Matches u ∧ b.Matches v := Iff.rfl

@[simp] theorem matches_alt {a b : Regex} {s : List Char} :
    (alt a b).Matches s ↔ a.Matches s ∨ b.Matches s := Iff.rfl

@[simp] theorem matches_opt {a : Regex} {s : List Char} :
    (opt a).Matches s ↔ a.Matches s ∨ s = [] := Iff.rfl

@[simp] theorem matches_cat_nil {s : List Char} : (cat []).Matches s ↔ s = [] := Iff.rfl

@[simp] theorem matches_cat_cons {a : Regex} {parts : List Regex} {s : List Char} :
    (cat (a :: parts)).Matches s ↔ ∃ u v, s = u ++ v ∧ a.Matches u ∧ (cat parts).Matches v :=
  Iff.rfl

theorem matches_cat_chars {p : Char → Char → Bool} (text s : List Char) :
    (cat (text.map fun c => chars (p c))).Matches s ↔
      List.Forall₂ (fun c x => p c x = true) text s := by
  induction text generalizing s with
  | nil => exact List.forall₂_nil_left_iff.symm
  | cons c text ih =>
    rw [List.map_cons, matches_cat_cons, List.forall₂_cons_left_iff]
    constructor
    · rintro ⟨_, v, rfl, ⟨x, hx, rfl⟩, hv⟩
      exact ⟨x, v, hx, (ih v).mp hv, rfl⟩
    · rintro ⟨x, v, hx, hv, rfl⟩
      exact ⟨[x], v, rfl, ⟨x, hx, rfl⟩, (ih v).mpr hv⟩

@[simp] theorem matches_lit {text : String} {s : List Char} :
    (lit text).Matches s ↔ s = text.toList := by
  rw [lit, matches_cat_chars]
  simp only [decide_eq_true_eq]
  rw [show (fun (c x : Char) => x = c) = fun c x => c = x from funext₂ fun _ _ => propext eq_comm,
    List.forall₂_eq_eq_eq, eq_comm]

theorem matches_litFold {text : String} {s : List Char} :
    (litFold text).Matches s ↔
      List.Forall₂ (fun c x => x.toLower = c.toLower) text.toList s := by
  rw [litFold, matches_cat_chars]
  simp only [decide_eq_true_eq]

/-- Any number of characters of a kind. -/
theorem matches_star_chars {p : Char → Bool} {s : List Char} :
    (star (chars p)).Matches s ↔ ∀ x ∈ s, p x = true := by
  constructor
  · rintro ⟨words, rfl, hw⟩ x hx
    obtain ⟨word, hm, hx⟩ := List.mem_flatten.mp hx
    obtain ⟨y, hy, rfl⟩ := hw word hm
    rwa [List.mem_singleton.mp hx]
  · intro h
    refine ⟨s.map ([·]), (List.flatMap_singleton' s).symm, fun word hm => ?_⟩
    obtain ⟨x, hx, rfl⟩ := List.mem_map.mp hm
    exact ⟨x, h x hx, rfl⟩

theorem matches_plus_chars {p : Char → Bool} {s : List Char} :
    (plus (chars p)).Matches s ↔ s ≠ [] ∧ ∀ x ∈ s, p x = true := by
  constructor
  · rintro ⟨u, v, rfl, ⟨y, hy, rfl⟩, hv⟩
    refine ⟨by simp, fun x hx => ?_⟩
    rcases List.mem_append.mp hx with hx | hx
    · rwa [List.mem_singleton.mp hx]
    · exact matches_star_chars.mp hv x hx
  · rintro ⟨hne, h⟩
    obtain ⟨y, ys, rfl⟩ := List.exists_cons_of_ne_nil hne
    exact ⟨[y], ys, rfl, ⟨y, h y List.mem_cons_self, rfl⟩,
      matches_star_chars.mpr fun x hx => h x (List.mem_cons_of_mem _ hx)⟩

end Regex

end PinOp.Lib
