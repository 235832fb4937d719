import UtilityCss.DefaultGroup
import UtilityCss.Selector

/-!
# Rules

A rule turns a class name into declarations. A fixed rule has one name, a keyed rule one name for each key
of a theme category, a directed rule one for each key and direction, and a shortcut stands for other
utilities.
-/

namespace UtilityCss

/-- Which values in brackets a rule takes. -/
inductive BracketPolicy
  | any
  | colorOnly
  | refused
  deriving DecidableEq, Repr

/-- What may stand behind the slash of a utility. -/
inductive Modifier
  /-- An alpha channel from these values, put onto an opaque colour. -/
  | alpha (values : Category)
  /-- A line height, paired with a font size. -/
  | lineHeight

/-- What a rule asks for besides its declarations. -/
structure Traits where
  /-- How the rule changes the selector of its class. -/
  selectorChange : Option SelectorChange := none
  /-- The custom properties that the rule expects on every element. -/
  group : Option DefaultGroup := none
  brackets : BracketPolicy := .any
  modifier : Option Modifier := none
  /-- The rule prints the container class. -/
  container : Bool := false
  /-- The value names an animation. -/
  keyframes : Bool := false
  /-- The rule has names for negated values. -/
  negative : Bool := false
  /-- The key `DEFAULT` gives no name. -/
  filterDefault : Bool := false
  /-- The direction follows the stem without a hyphen. -/
  omitHyphen : Bool := false
  /-- The rule has no name without a direction. -/
  mandatory : Bool := false
  /-- The rule comes in front of the catalog. -/
  injectFirst : Bool := false

/-- The traits of a shortcut: it asks for nothing and takes no brackets. -/
def Traits.inert : Traits :=
  { brackets := .refused }

inductive Rule
  | fixed (name : String) (declarations : List Declaration) (traits : Traits := {})
  | keyed (stem : String) (values : Category) (declare : Value → List Declaration)
      (traits : Traits := {})
  | directed (stem : String) (directions : List String) (values : Category)
      (declare : String → String → List Declaration) (traits : Traits := {})
  | shortcut (name utilities : String)

namespace Rule

/-- The class name of a rule, or the stem that its class names share. -/
def name : Rule → String
  | fixed name _ _ => name
  | keyed stem _ _ _ => stem
  | directed stem _ _ _ _ => stem
  | shortcut name _ => name

def traits : Rule → Traits
  | fixed _ _ traits => traits
  | keyed _ _ _ traits => traits
  | directed _ _ _ _ traits => traits
  | shortcut _ _ => .inert

def values? : Rule → Option Category
  | keyed _ values _ _ => some values
  | directed _ _ values _ _ => some values
  | _ => none

def shortcut? : Rule → Option String
  | shortcut name _ => some name
  | _ => none

/-- The declarations for a direction and a value. A rule that has keys declares nothing without a value,
and a shortcut has no declarations of its own. -/
def declarations (rule : Rule) (direction : String) (value : Option Value) : List Declaration :=
  match rule with
  | fixed _ declarations _ => declarations
  | keyed _ _ declare _ => (value.map declare).getD []
  | directed _ _ _ declare _ => (value.map fun v => declare direction v.primary).getD []
  | shortcut _ _ => []

/-! ### Asking for more -/

/-- Changes the traits of a rule. A shortcut keeps its own. -/
def update (rule : Rule) (change : Traits → Traits) : Rule :=
  match rule with
  | fixed name declarations traits => fixed name declarations (change traits)
  | keyed stem values declare traits => keyed stem values declare (change traits)
  | directed stem directions values declare traits =>
    directed stem directions values declare (change traits)
  | shortcut name utilities => shortcut name utilities

def withNegative (rule : Rule) : Rule :=
  rule.update ({ · with negative := true })

def withGroup (rule : Rule) (group : DefaultGroup) : Rule :=
  rule.update ({ · with group := some group })

def withSelectorChange (rule : Rule) (change : SelectorChange) : Rule :=
  rule.update ({ · with selectorChange := some change })

def withBrackets (rule : Rule) (brackets : BracketPolicy) : Rule :=
  rule.update ({ · with brackets := brackets })

def withModifier (rule : Rule) (modifier : Modifier) : Rule :=
  rule.update ({ · with modifier := some modifier })

def withFilterDefault (rule : Rule) : Rule :=
  rule.update ({ · with filterDefault := true })

def withMandatory (rule : Rule) : Rule :=
  rule.update ({ · with mandatory := true })

def withOmitHyphen (rule : Rule) : Rule :=
  rule.update ({ · with omitHyphen := true })

def withKeyframes (rule : Rule) : Rule :=
  rule.update ({ · with keyframes := true })

def withContainer (rule : Rule) : Rule :=
  rule.update ({ · with container := true })

def withInjectFirst (rule : Rule) : Rule :=
  rule.update ({ · with injectFirst := true })

end Rule

end UtilityCss
