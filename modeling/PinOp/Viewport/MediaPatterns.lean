import PinOp.Viewport.MediaFeature

/-!
# What the patterns read

Each pattern reads the features of its form group by group.
-/

namespace PinOp.Viewport

open PinOp.Lib PinOp.Lib.Regex

variable {c : Char} {u v s : List Char}

/-! ## Kinds of characters -/

/-- Parts of a name. -/
def isNamePart (c : Char) : Bool := isJsSpace c || c.isAlpha

/-- The text begins with a character of the kind. -/
def Begins (p : Char → Bool) (s : List Char) : Prop := ∃ x t, s = x :: t ∧ p x = true

theorem Begins.append {p : Char → Bool} (h : Begins p u) : Begins p (u ++ v) := by
  obtain ⟨x, t, rfl, hx⟩ := h
  exact ⟨x, t ++ v, rfl, hx⟩

/-- It does not begin with a character of another kind. -/
theorem Begins.not {p q : Char → Bool} (h : Begins p s) (hpq : ∀ x, p x = true → q x = false) :
    s.head?.all (fun x => !q x) = true := by
  obtain ⟨x, t, rfl, hx⟩ := h
  simp [hpq x hx]

/-! ## Words in any case -/

end PinOp.Viewport
