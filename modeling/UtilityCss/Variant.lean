import UtilityCss.Rank
import UtilityCss.Selector

/-!
# Variants

A variant changes the selector of a utility or puts its block into an at-rule. `Variant.selector` gives the
selector under a list of variants, and `Variant.wrappings` the at-rules from the outermost to the innermost.
-/

namespace UtilityCss

inductive Variant
  | onSelector (change : SelectorChange)
  | atRule (rank : Rank) (condition : String)
  /-- A feature query, by what it checks. -/
  | supports (rank : Rank) (check : String)
  deriving DecidableEq, Repr

/-- The condition of an at-rule and its place among its siblings. -/
structure Wrapping where
  rank : Rank
  condition : String
  deriving DecidableEq, Repr

namespace Variant

/-- The at-rule around the block, if the variant is one. -/
def wrapping? : Variant → Option Wrapping
  | onSelector _ => none
  | atRule rank condition => some ⟨rank, condition⟩
  | supports rank check => some ⟨rank, "@supports (" ++ check ++ ")"⟩

/-- The change of the selector, if the variant is one. -/
def selectorChange? : Variant → Option SelectorChange
  | onSelector change => some change
  | _ => none

/-- The at-rules of a list of variants, the outermost first. -/
def wrappings (variants : List Variant) : List Wrapping :=
  variants.filterMap wrapping?

def hasWrapping (variants : List Variant) : Bool :=
  variants.any (·.wrapping?.isSome)

/-- The selector under variants, written outermost first: the innermost variant changes it first, and the
rule's own change comes on top. -/
def selector (variants : List Variant) (own : Option SelectorChange) (base : String) : String :=
  let inner := SelectorChange.applyAll (variants.filterMap selectorChange?) base
  match own with
  | some change => change.apply inner
  | none => inner

end Variant

end UtilityCss
