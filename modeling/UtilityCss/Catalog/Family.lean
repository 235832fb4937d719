import Std.Data.TreeMap
import UtilityCss.Rule

/-!
# Rule families

The built-in rules come in families, each switched on or off as a whole. This module holds the shapes that
their rules share.
-/

namespace UtilityCss

/-- Families switched on or off by name. A family that is not named is on. -/
abbrev FamilyFlags := Std.TreeMap String Bool

def FamilyFlags.enabled (flags : FamilyFlags) (family : String) : Bool :=
  (flags[family]?).getD true

structure Family where
  name : String
  rules : List Rule

namespace Catalog

/-! ### Fixed rules -/

def statics (entries : List (String × List (String × String))) : List Rule :=
  entries.map fun (name, pairs) => .fixed name (pairs.map fun (property, value) => ⟨property, value⟩)

def single (name property value : String) : Rule :=
  .fixed name [⟨property, value⟩]

/-- One rule for each keyword of a property, named for the keyword; the keyword may be written in
another way as the value. -/
def keywordsWith (stem property : String) (write : String → String) (keywords : List String) : List Rule :=
  keywords.map fun keyword => single (stem ++ keyword) property (write keyword)

def keywords (stem property : String) (words : List String) : List Rule :=
  keywordsWith stem property id words

/-- A keyword, with another one in the place of some. -/
def except (special : List (String × String)) (keyword : String) : String :=
  (special.lookup keyword).getD keyword

def flexKeyword : String → String :=
  except [("start", "flex-start"), ("end", "flex-end")]

def spaceKeyword : String → String :=
  except [("between", "space-between"), ("around", "space-around"), ("evenly", "space-evenly")]

/-! ### Keyed rules -/

/-- A rule that gives its value to one property. -/
def property (stem : String) (values : Category) (target : String) : Rule :=
  .keyed stem values fun value => [⟨target, value.primary⟩]

/-- A rule for a colour whose opacity a custom property drives. -/
def alphaColor (stem : String) (values : Category) (opacity target : String) (wanted : Bool) : Rule :=
  .keyed stem values fun value => Color.declarations value.primary opacity wanted [target]

/-- Lets a rule take alpha modifiers if its opacity family is on. -/
def alphaIf (wanted : Bool) (values : Category) (rule : Rule) : Rule :=
  if wanted then rule.withModifier (.alpha values) else rule

def laterChildren : SelectorChange :=
  .template "& > * + *"

def placeholderText : SelectorChange :=
  .suffix "::placeholder"

/-! ### Directed rules -/

def sideDirections : List String :=
  ["x", "y", "t", "l", "b", "r"]

/-- The sides that a direction stands for, as they end the name of a property. -/
def sides : String → List String
  | "x" => ["-left", "-right"]
  | "y" => ["-top", "-bottom"]
  | "t" => ["-top"]
  | "r" => ["-right"]
  | "b" => ["-bottom"]
  | "l" => ["-left"]
  | _ => [""]

/-- Declares a property for each side of a direction. -/
def onSides (base : String) (direction value : String) : List Declaration :=
  (sides direction).map fun side => ⟨base ++ side, value⟩

end Catalog

end UtilityCss
