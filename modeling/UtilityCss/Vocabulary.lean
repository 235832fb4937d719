import UtilityCss.Entry.Index
import UtilityCss.Utility
import UtilityCss.Utility.Parts
import UtilityCss.Variant.Table

/-!
# Vocabularies

Everything that gives a token its meaning: variants, entries and line heights. `Vocabulary.read?` understands
a token or refuses it. A class name that the index knows wins over every other reading.
-/

namespace UtilityCss

structure Vocabulary where
  variants : VariantTable
  entries : EntryIndex
  lineHeights : Category

namespace Vocabulary
open Text

/-- The content of brackets as a value: a custom property is read, and underscores stand for spaces. -/
def bracketValue (raw : List Char) : String :=
  if ['-', '-'].isPrefixOf raw then "var(" ++ String.ofList raw ++ ")"
  else String.ofList (exchange '_' ' ' raw)

/-! ### Modifiers -/

/-- What stands behind the slash: a value in brackets, or a key of the values. -/
def modifierValue? (raw : List Char) (values : Category) : Option String :=
  match raw with
  | '[' :: rest => do
    let inner ← unclose? ']' rest
    if inner.isEmpty then none else some (bracketValue inner)
  | _ => (values.get? (String.ofList raw)).map Value.primary

/-- The value of a rule with a modifier. An alpha channel goes onto an opaque colour only. -/
def modify? (lineHeights : Category) (rule : Rule) (base : Value) (raw : List Char) : Option Value := do
  match ← rule.traits.modifier with
  | .lineHeight => return .pair base.primary (← modifierValue? raw lineHeights)
  | .alpha values =>
    let alpha ← modifierValue? raw values
    let color ← Color.parse? base.primary
    if color.alpha.isSome then none else some (.plain (color.withAlpha alpha).text)

/-! ### Reading -/

/-- The text before `]/` and the modifier behind it, or the text before a closing bracket at the end. -/
def cutBrackets? (body : List Char) : Option (List Char × Option (List Char)) :=
  match cut? [']', '/'] body with
  | some (raw, modifier) => some (raw, some modifier)
  | none => (unclose? ']' body).map (·, none)

/-- A value in brackets on a stem, taken by the first family that accepts it as it is written. -/
def readBrackets? (v : Vocabulary) (stem body : List Char) : Option RuleUse := do
  let (raw, modifier) ← cutBrackets? body
  if raw.isEmpty then none
  else
    let family ← (v.entries.families (String.ofList stem)).find? (·.accepts raw)
    let base := Value.plain (bracketValue raw)
    let value ← match modifier with
      | some modifier => modify? v.lineHeights family.rule base modifier
      | none => some base
    return ⟨family.rule, family.direction, family.order, some value⟩

/-- A class name with a modifier behind a slash. -/
def readModified? (v : Vocabulary) (name modifier : List Char) : Option RuleUse := do
  let entry ← v.entries.get? (String.ofList name)
  let value ← modify? v.lineHeights entry.rule (← entry.value?) modifier
  return ⟨entry.rule, entry.direction, entry.order, some value⟩

/-- What stands behind the variants of a token as the use of a rule. -/
def readRule? (v : Vocabulary) (cs : List Char) : Option RuleUse :=
  match v.entries.get? (String.ofList cs) with
  | some entry => some ⟨entry.rule, entry.direction, entry.order, entry.value?⟩
  | none =>
    match cut? ['-', '['] cs with
    | some (stem, body) => v.readBrackets? stem body
    | none => do
      let (name, modifier) ← cut? ['/'] cs
      v.readModified? name modifier

/-- A letter, a digit or a hyphen of ASCII. -/
def isPropertyChar (c : Char) : Bool :=
  c.isAlphanum || c = '-'

def dropHyphen : List Char → List Char
  | '-' :: rest => rest
  | cs => cs

/-- A property name: two hyphens for a custom property, one for a vendor's, then a letter. -/
def isPropertyName (name : List Char) : Bool :=
  let body := dropHyphen ((['-', '-'].isPrefixOf? name).getD name)
  (body.head?.any Char.isAlpha) && body.all isPropertyChar

def readProperty? (cs : List Char) : Option UtilityBody := do
  let content ← unclose? ']' cs
  let (name, value) ← cut? [':'] content
  if isPropertyName name && !value.isEmpty then
    some (.property (String.ofList name) (String.ofList (exchange '_' ' ' value)))
  else none

def readBody? (v : Vocabulary) (cs : List Char) : Option UtilityBody :=
  match cs with
  | '[' :: inner => readProperty? inner
  | _ => (v.readRule? cs).map .rule

/-- A token as a utility, if all of its parts can be understood. -/
def read? (v : Vocabulary) (token : String) : Option Utility := do
  let parts := TokenParts.ofToken token.toList
  let variants ← parts.variants.mapM v.variants.resolve?
  let body ← v.readBody? parts.body
  return ⟨token, variants, parts.important, body⟩

end Vocabulary

end UtilityCss
