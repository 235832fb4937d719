import UtilityCss.Table

/-!
# Theme values

A theme holds values by category and key. Most values are one text; a font size comes with a line height,
a shadow with its colour.
-/

namespace UtilityCss

inductive Value
  | plain (text : String)
  /-- A font size with its line height, or two layers. -/
  | pair (first second : String)
  | list (items : List String)
  | shadow (value color : String)
  deriving DecidableEq, Repr

namespace Value

/-- The text of a value where one text is wanted. -/
def primary : Value → String
  | plain text => text
  | pair first _ => first
  | list items => items.headD ""
  | shadow value _ => value

end Value

/-- The values of one category by key. -/
abbrev Category := Table Value

namespace Category

def ofTexts (pairs : List (String × String)) : Category :=
  Table.ofList (pairs.map fun (key, text) => (key, .plain text))

end Category

end UtilityCss
