import PinOp.Lib.RegexLanguage

/-!
# The first match of a pattern

A pattern without `$` matches every text that begins with one of its words and can go on behind
it: the backtracking leaves no way out. `beforeMatch` gives what stands before the first place where
the pattern matches.
-/

namespace PinOp.Lib

namespace Regex

/-- The pattern does not ask for the end of the text. -/
def EosFree : Regex → Prop
  | chars _ | empty => True
  | seq a b | alt a b => a.EosFree ∧ b.EosFree
  | star a | group _ a => a.EosFree
  | eos => False

theorem isSome_repeatBody {α : Type} {a : Regex} {next : Captures → List Char → Option α}
    (ha : ∀ (u v : List Char) (next : Captures → List Char → Option α), a.Matches u →
      (∀ c, (next c v).isSome) → ∀ c, (a.run c (u ++ v) next).isSome)
    (words : List (List Char)) (hwords : ∀ u ∈ words, a.Matches u) (v : List Char)
    (hnext : ∀ c, (next c v).isSome) :
    ∀ fuel, (words.flatten ++ v).length ≤ fuel →
      ∀ c, (repeatBody a.run next fuel c (words.flatten ++ v)).isSome := by
  induction words with
  | nil =>
    intro fuel _ c
    have h := hnext c
    cases fuel with
    | zero => exact h
    | succ fuel =>
      rw [repeatBody, Option.orElse_eq_orElse, Option.orElse_eq_or, Option.isSome_or]
      exact Bool.or_eq_true_iff.mpr (.inr h)
  | cons word words ih =>
    have ih := ih fun u hu => hwords u (List.mem_cons_of_mem _ hu)
    intro fuel hfuel c
    by_cases hempty : word = []
    · rw [hempty] at hfuel ⊢
      exact ih fuel hfuel c
    · have hpos : 0 < word.length := List.length_pos_of_ne_nil hempty
      rw [List.flatten_cons, List.append_assoc, List.length_append] at hfuel
      rw [List.flatten_cons, List.append_assoc]
      cases fuel with
      | zero => omega
      | succ fuel =>
        rw [repeatBody, Option.orElse_eq_orElse, Option.orElse_eq_or, Option.isSome_or]
        refine Bool.or_eq_true_iff.mpr (.inl (ha word _ _ (hwords word List.mem_cons_self) ?_ c))
        intro c'
        rw [if_pos (by simp only [List.length_append]; omega)]
        exact ih fuel (by omega) c'

/-- A word at the beginning is found when the rest can go on. -/
theorem isSome_run {α : Type} {r : Regex} (hfree : r.EosFree) : ∀ (u v : List Char)
    (next : Captures → List Char → Option α), r.Matches u → (∀ c, (next c v).isSome) →
      ∀ c, (r.run c (u ++ v) next).isSome := by
  induction r with
  | chars p =>
    rintro u v next ⟨x, hx, rfl⟩ hnext c
    rw [List.singleton_append, run, if_pos hx]
    exact hnext c
  | empty =>
    rintro u v next rfl hnext c
    exact hnext c
  | seq a b iha ihb =>
    rintro u v next ⟨s, t, rfl, hs, ht⟩ hnext c
    rw [List.append_assoc]
    exact iha hfree.1 s (t ++ v) _ hs (fun c' => ihb hfree.2 t v next ht hnext c') c
  | alt a b iha ihb =>
    rintro u v next h hnext c
    rw [run, Option.orElse_eq_orElse, Option.orElse_eq_or, Option.isSome_or]
    rcases h with h | h
    · exact Bool.or_eq_true_iff.mpr (.inl (iha hfree.1 u v next h hnext c))
    · exact Bool.or_eq_true_iff.mpr (.inr (ihb hfree.2 u v next h hnext c))
  | star a iha =>
    rintro u v next ⟨words, rfl, hwords⟩ hnext c
    exact isSome_repeatBody (iha hfree) words hwords v hnext _ (Nat.le_refl _) c
  | group n a iha =>
    intro u v next h hnext c
    exact iha hfree u v (fun c' s' => next
      ((n, String.ofList ((u ++ v).take ((u ++ v).length - s'.length))) :: c') s') h
        (fun c' => hnext _) c
  | eos => exact hfree.elim

/-- The pattern matches at the beginning of the text. -/
def matchesAt (r : Regex) (s : List Char) : Bool := (r.run [] s fun _ _ => some ()).isSome

theorem beforeMatch_nil (r : Regex) :
    beforeMatch r [] = if r.matchesAt [] then some [] else none := by
  rw [beforeMatch, matchesAt]
  cases r.run [] [] fun _ _ => some () <;> rfl

theorem beforeMatch_cons (r : Regex) (x : Char) (xs : List Char) :
    beforeMatch r (x :: xs) =
      if r.matchesAt (x :: xs) then some [] else (beforeMatch r xs).map (x :: ·) := by
  rw [beforeMatch, matchesAt]
  cases r.run [] (x :: xs) fun _ _ => some () <;> rfl

theorem beforeMatch_of_first {r : Regex} {t : List Char} (hmatch : r.matchesAt t = true) :
    ∀ {b : List Char},
      (∀ b₁ b₂ : List Char, b = b₁ ++ b₂ → b₂ ≠ [] → r.matchesAt (b₂ ++ t) = false) →
        beforeMatch r (b ++ t) = some b := by
  intro b
  induction b with
  | nil =>
    intro _
    rw [List.nil_append]
    cases t with
    | nil => rw [beforeMatch_nil, if_pos hmatch]
    | cons x xs => rw [beforeMatch_cons, if_pos hmatch]
  | cons x b ih =>
    intro hfirst
    have hhere := hfirst [] (x :: b) rfl (List.cons_ne_nil _ _)
    have hrest := ih fun b₁ b₂ he hne => hfirst (x :: b₁) b₂ (by rw [he, List.cons_append]) hne
    rw [List.cons_append, beforeMatch_cons, hrest, ← List.cons_append, hhere]
    rfl

end Regex

end PinOp.Lib
