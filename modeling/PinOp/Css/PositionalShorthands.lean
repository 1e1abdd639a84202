import PinOp.Css.DeclarationFingerprint
import PinOp.Css.TopLevel

/-!
# Shorthands whose parts map one to one by position

One value stands for four sides or for two axes, and both are read as the sides they set.
-/

namespace PinOp.Css

def sideLonghands : List (String × List String) :=
  [("margin", ["margin-top", "margin-right", "margin-bottom", "margin-left"]),
    ("padding", ["padding-top", "padding-right", "padding-bottom", "padding-left"]),
    ("inset", ["top", "right", "bottom", "left"]),
    ("border-width", ["border-top-width", "border-right-width", "border-bottom-width",
      "border-left-width"]),
    ("border-style", ["border-top-style", "border-right-style", "border-bottom-style",
      "border-left-style"]),
    ("border-color", ["border-top-color", "border-right-color", "border-bottom-color",
      "border-left-color"]),
    ("scroll-margin", ["scroll-margin-top", "scroll-margin-right", "scroll-margin-bottom",
      "scroll-margin-left"]),
    ("scroll-padding", ["scroll-padding-top", "scroll-padding-right", "scroll-padding-bottom",
      "scroll-padding-left"])]

def axisLonghands : List (String × List String) :=
  [("gap", ["row-gap", "column-gap"]),
    ("overflow", ["overflow-x", "overflow-y"]),
    ("overscroll-behavior", ["overscroll-behavior-x", "overscroll-behavior-y"]),
    ("place-content", ["align-content", "justify-content"]),
    ("place-items", ["align-items", "justify-items"]),
    ("place-self", ["align-self", "justify-self"]),
    ("margin-block", ["margin-block-start", "margin-block-end"]),
    ("margin-inline", ["margin-inline-start", "margin-inline-end"]),
    ("padding-block", ["padding-block-start", "padding-block-end"]),
    ("padding-inline", ["padding-inline-start", "padding-inline-end"]),
    ("inset-block", ["inset-block-start", "inset-block-end"]),
    ("inset-inline", ["inset-inline-start", "inset-inline-end"])]

def cornerLonghands : List (String × List String) :=
  [("border-radius", ["border-top-left-radius", "border-top-right-radius",
    "border-bottom-right-radius", "border-bottom-left-radius"])]

def fourSidedProperties : List String :=
  ["margin", "padding", "inset", "border-width", "border-style", "border-color",
    "border-image-width", "border-image-outset", "scroll-margin", "scroll-padding"]

def twoSidedProperties : List String :=
  ["gap", "overflow", "overscroll-behavior", "place-content", "place-items", "place-self",
    "margin-block", "margin-inline", "padding-block", "padding-inline", "inset-block",
    "inset-inline", "scroll-margin-block", "scroll-margin-inline", "scroll-padding-block",
    "scroll-padding-inline"]

def slashedSidesProperties : List String := ["border-radius", "border-image-slice"]

/-- The sides that a value sets: two, or else four. -/
def expandSides (value : String) (two : Bool) : Option String :=
  let parts := splitTopLevel value ' '
  if parts.any fun part => 1 < (splitTopLevel part ',').length then none
  else
    match two, parts with
    | true, [first] => some (first ++ " " ++ first)
    | true, [first, second] => some (first ++ " " ++ second)
    | false, [first] => some (" ".intercalate [first, first, first, first])
    | false, [first, second] => some (" ".intercalate [first, second, first, second])
    | false, [first, second, third] => some (" ".intercalate [first, second, third, second])
    | false, [first, second, third, fourth] =>
      some (" ".intercalate [first, second, third, fourth])
    | _, _ => none

/-- The end of `canonicalizeSidesValue`, once the values of other kinds are told apart. -/
def canonicalizeSides (property value : String) : String :=
  if slashedSidesProperties.contains property then
    let groups := splitTopLevel value '/'
    if groups.length ≤ 2 then
      "/".intercalate (groups.map fun group => (expandSides group false).getD group)
    else value
  else if fourSidedProperties.contains property then (expandSides value false).getD value
  else if twoSidedProperties.contains property then (expandSides value true).getD value
  else value

/-- One corner from the two axes. -/
def cornerValue (horizontal vertical : String) : String :=
  if horizontal = vertical then horizontal else horizontal ++ " " ++ vertical

/-- Reads a shorthand as the parts it sets. -/
def expandPositionalShorthand (property value : String) : Option (List (String × String)) :=
  match cornerLonghands.lookup property with
  | some corners =>
    let groups := splitTopLevel value '/'
    if 2 < groups.length then none
    else
      let horizontal := splitTopLevel (groups[0]?.getD "") ' '
      let vertical := (groups[1]?.map (splitTopLevel · ' ')).getD horizontal
      if horizontal.length ≠ corners.length then none
      else if vertical.length ≠ corners.length then none
      else some (corners.zip ((horizontal.zip vertical).map fun (h, v) => cornerValue h v))
  | none =>
    match (sideLonghands ++ axisLonghands).lookup property with
    | none => none
    | some parts =>
      let components := splitTopLevel value ' '
      if components.length ≠ parts.length then none else some (parts.zip components)

/-- The longhands of a property that no other shorthand sets. -/
def positionalLonghands (property value : String) : List (String × String) :=
  let canonical := canonicalizeSides property value
  (expandPositionalShorthand property canonical).getD [(property, canonical)]

end PinOp.Css
