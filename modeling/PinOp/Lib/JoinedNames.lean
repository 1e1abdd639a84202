import Mathlib.Data.List.Basic

/-!
# Names joined by a separator

`joinNames sep names` writes the separator in front of every name. When no name holds it, the text
tells the names, and a text that goes on with a separator behind another one has its names in front.
-/

namespace PinOp.Lib

section

variable {α : Type} {sep : α} {xs ys : List (List α)} {s t a b : List α}

def joinNames (sep : α) (names : List (List α)) : List α := names.flatMap fun name => sep :: name

theorem joinNames_cons (x : List α) (xs : List (List α)) :
    joinNames sep (x :: xs) = sep :: (x ++ joinNames sep xs) := rfl

/-- What starts with a separator, or is over. -/
def Breaks (sep : α) (rest : List α) : Prop := rest = [] ∨ rest.head? = some sep

theorem breaks_joinNames (xs : List (List α)) : Breaks sep (joinNames sep xs) := by
  cases xs with
  | nil => exact .inl rfl
  | cons x xs => exact .inr rfl

/-- A name ends where the separator comes. -/
theorem name_inj (hs : sep ∉ s) (ht : sep ∉ t) (ha : Breaks sep a) (hb : Breaks sep b)
    (h : s ++ a = t ++ b) : s = t ∧ a = b := by
  induction s generalizing t with
  | nil =>
    cases t with
    | nil => exact ⟨rfl, h⟩
    | cons y t =>
      rcases ha with rfl | ha
      · cases h
      · rw [show a = y :: (t ++ b) from h] at ha
        exact absurd (List.mem_cons_self) (Option.some.inj ha ▸ ht)
  | cons x s ih =>
    cases t with
    | nil =>
      rcases hb with rfl | hb
      · cases h
      · rw [← show x :: (s ++ a) = b from h] at hb
        exact absurd (List.mem_cons_self) (Option.some.inj hb ▸ hs)
    | cons y t =>
      obtain ⟨rfl, hrest⟩ := List.cons.inj h
      rw [List.mem_cons, not_or] at hs ht
      obtain ⟨rfl, hab⟩ := ih hs.2 ht.2 hrest
      exact ⟨rfl, hab⟩

theorem joinNames_inj (hxs : ∀ x ∈ xs, sep ∉ x) (hys : ∀ y ∈ ys, sep ∉ y) :
    joinNames sep xs = joinNames sep ys ↔ xs = ys := by
  refine ⟨fun h => ?_, fun h => h ▸ rfl⟩
  induction xs generalizing ys with
  | nil =>
    cases ys with
    | nil => rfl
    | cons y ys => cases h
  | cons x xs ih =>
    cases ys with
    | nil => cases h
    | cons y ys =>
      obtain ⟨hxy, hrest⟩ := name_inj (hxs x List.mem_cons_self) (hys y List.mem_cons_self)
        (breaks_joinNames xs) (breaks_joinNames ys) (List.cons.inj h).2
      rw [hxy, ih (fun x h => hxs x (List.mem_cons_of_mem _ h))
        (fun y h => hys y (List.mem_cons_of_mem _ h)) hrest]

/-- The same text, or one that goes on behind it with a separator. -/
theorem joinNames_prefix (hxs : ∀ x ∈ xs, sep ∉ x) (hys : ∀ y ∈ ys, sep ∉ y) :
    (joinNames sep xs = joinNames sep ys ∨ joinNames sep ys ++ [sep] <+: joinNames sep xs) ↔
      ys <+: xs := by
  induction ys generalizing xs with
  | nil =>
    refine ⟨fun _ => List.nil_prefix, fun _ => ?_⟩
    cases xs with
    | nil => exact .inl rfl
    | cons x xs => exact .inr ⟨x ++ joinNames sep xs, rfl⟩
  | cons y ys ih =>
    have hy := hys y List.mem_cons_self
    have htail := fun z h => hys z (List.mem_cons_of_mem y h)
    cases xs with
    | nil =>
      refine ⟨fun h => ?_, fun h => absurd h (by simp)⟩
      rcases h with h | h
      · cases h
      · exact absurd h (by simp [joinNames])
    | cons x xs =>
      have hx := hxs x List.mem_cons_self
      have hrest := ih (fun z h => hxs z (List.mem_cons_of_mem x h)) htail
      rw [List.cons_prefix_cons, ← hrest, joinNames_cons, joinNames_cons]
      constructor
      · rintro (h | ⟨rest, h⟩)
        · obtain ⟨hxy, hjoined⟩ := name_inj hx hy (breaks_joinNames xs) (breaks_joinNames ys)
            (List.cons.inj h).2
          exact ⟨hxy.symm, .inl hjoined⟩
        · rw [List.cons_append, List.cons_append, List.append_assoc, List.append_assoc] at h
          have hbreaks : Breaks sep (joinNames sep ys ++ ([sep] ++ rest)) := by
            cases ys with
            | nil => exact .inr rfl
            | cons z ys => exact .inr rfl
          obtain ⟨hyx, hjoined⟩ := name_inj hy hx hbreaks (breaks_joinNames xs) (List.cons.inj h).2
          exact ⟨hyx, .inr ⟨rest, by rw [List.append_assoc]; exact hjoined⟩⟩
      · rintro ⟨rfl, h | ⟨rest, h⟩⟩
        · exact .inl (by rw [h])
        · refine .inr ⟨rest, ?_⟩
          rw [← h]
          simp
/-- What does not look across a separator may be done name by name. -/
theorem joinNames_map {f : List α → List α} (hnil : f [] = [])
    (hsep : ∀ s t, f (s ++ sep :: t) = f s ++ sep :: f t) (xs : List (List α)) :
    f (joinNames sep xs) = joinNames sep (xs.map f) := by
  have hjoined : ∀ s, f (s ++ joinNames sep xs) = f s ++ joinNames sep (xs.map f) := by
    induction xs with
    | nil => exact fun s => by simp [joinNames]
    | cons x xs ih =>
      intro s
      rw [joinNames_cons, hsep, ih, List.map_cons, joinNames_cons]
  have h := hjoined []
  rwa [List.nil_append, hnil, List.nil_append] at h

end

end PinOp.Lib
