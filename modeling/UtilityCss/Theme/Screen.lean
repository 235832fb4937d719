import UtilityCss.Table

/-!
# Screens and containers

A screen is a range of widths. A container has one width on each screen, and its padding may differ from
screen to screen.
-/

namespace UtilityCss

structure Screen where
  min : Option String
  max : Option String
  deriving DecidableEq, Repr

abbrev Screens := Table Screen

/-- The space at the sides of a container: the same on every screen, or by screen. -/
inductive Padding
  | uniform (text : String)
  | perScreen (texts : Table String)

structure Container where
  center : Bool := false
  padding : Option Padding := none

namespace Container

/-- The padding where no screen has one of its own, under the key `DEFAULT` if there are several. -/
def defaultPadding (c : Container) : Option String :=
  match c.padding with
  | some (.uniform text) => some text
  | some (.perScreen texts) => texts.get? "DEFAULT"
  | none => none

/-- The padding of one screen. A uniform padding needs none. -/
def screenPadding (c : Container) (screen : String) : Option String :=
  match c.padding with
  | some (.perScreen texts) => texts.get? screen
  | _ => none

end Container

end UtilityCss
