import PinOp.Lib.RegexLanguage

/-!
# What the matching finds

The way that is found first, group by group: a pattern reads a text if it takes just this text
wherever what follows can go on. A pattern fails where no word of it stands.
-/

namespace PinOp.Lib

namespace Regex

/-- The pattern takes `u`, with these groups, in front of every text that the guard allows. -/
def Reads (r : Regex) (u : List Char) (groups : Captures) (guard : List Char → Prop) : Prop :=
  ∀ (α : Type) (c : Captures) (v : List Char) (next : Captures → List Char → Option α) (x : α),
    guard v → next (groups ++ c) v = some x → r.run c (u ++ v) next = some x

/-- The pattern matches no beginning of the text. -/
def Fails (r : Regex) (s : List Char) : Prop :=
  ∀ (α : Type) (c : Captures) (next : Captures → List Char → Option α), r.run c s next = none

variable {a b r : Regex} {u v s : List Char} {cs cs' : Captures} {g g' : List Char → Prop}
  {p : Char → Bool}

/-! ## Failing -/

theorem fails_alt (ha : Fails a s) (hb : Fails b s) : Fails (alt a b) s := by
  intro α c next
  rw [run, ha, hb]
  rfl

/-! ## Reading -/

theorem Reads.guard (h : Reads r u cs g) (hg : ∀ v, g' v → g v) : Reads r u cs g' :=
  fun α c v next x hv hx => h α c v next x (hg v hv) hx

/-- All matches in the text. -/
def found (r : Regex) (s : List Char) : List Captures := matchAll r (s.length + 1) s

end Regex

end PinOp.Lib
