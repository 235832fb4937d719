import UtilityCss.Rule
import UtilityCss.Variant

/-!
# Utilities

A utility is a token that has been understood: its variants, its important mark, and the rule or the
property that it stands for.
-/

namespace UtilityCss

/-- A rule with the direction and the value that a token gives it. A fixed rule and a shortcut have no
value. -/
structure RuleUse where
  rule : Rule
  direction : String
  order : Nat
  value : Option Value

/-- What a utility does under its variants. -/
inductive UtilityBody
  | rule (use : RuleUse)
  /-- One property with its value, written in brackets. -/
  | property (name value : String)

/-- A token that has been understood. Its variants stand as they are written, the outermost first. -/
structure Utility where
  token : String
  variants : List Variant
  important : Bool
  body : UtilityBody

namespace Utility

/-- The place of a utility in the declaration order. A property comes after every rule. -/
def rank (u : Utility) : Rank :=
  match u.body with
  | .rule use => .nth use.order
  | .property _ _ => .last

/-- The order among the utilities of one block: by rank, and by token at one rank. -/
def sortKey (u : Utility) : Rank × String :=
  (u.rank, u.token)

def rule? (u : Utility) : Option Rule :=
  match u.body with
  | .rule use => some use.rule
  | .property _ _ => none

/-- What the rule of a utility asks for. A property asks for nothing. -/
def traits? (u : Utility) : Option Traits :=
  u.rule?.map Rule.traits

def shortcut? (u : Utility) : Option String :=
  u.rule?.bind Rule.shortcut?

def selectorChange? (u : Utility) : Option SelectorChange :=
  u.traits?.bind (·.selectorChange)

def isContainer (u : Utility) : Bool :=
  u.traits?.any (·.container)

/-- The declarations without regard to the important mark. -/
def plainDeclarations (u : Utility) : List Declaration :=
  match u.body with
  | .rule use => use.rule.declarations use.direction use.value
  | .property name value => [⟨name, value⟩]

/-- The declarations of a utility, all of them marked if it is important. A shortcut has none of its
own. -/
def declarations (u : Utility) : List Declaration :=
  if u.important then u.plainDeclarations.map Declaration.important else u.plainDeclarations

/-- The selector of a utility when its class has the selector `base`. -/
def selectorOn (u : Utility) (base : String) : String :=
  Variant.selector u.variants u.selectorChange? base

def selector (u : Utility) : String :=
  u.selectorOn (classSelector u.token)

/-- The at-rules around the block of a utility, the outermost first. -/
def wrappings (u : Utility) : List Wrapping :=
  Variant.wrappings u.variants

end Utility

end UtilityCss
