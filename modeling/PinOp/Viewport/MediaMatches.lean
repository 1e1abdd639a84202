import PinOp.Viewport.MediaPatterns

/-!
# What is found of a feature

A pattern fails on the features of another form, and on a range with an equation on the left; of the
others it finds the groups that they are written with.
-/

namespace PinOp.Viewport

open PinOp.Lib PinOp.Lib.Regex

variable {c : Char} {u v s : List Char}

/-! ## What tells the forms apart -/

namespace Feature

end Feature

/-! ## What is found of a feature -/

variable {r : Regex} {groups : Captures}

end PinOp.Viewport
