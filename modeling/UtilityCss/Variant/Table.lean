import UtilityCss.Theme
import UtilityCss.Variant

/-!
# Variant tables

The variants that a theme offers: those with a name of their own, those that take a value in brackets, and
brackets alone. `VariantTable.resolve?` reads what stands in front of a colon.
-/

namespace UtilityCss

/-- Whose state a variant asks for. -/
inductive Scope
  | own
  | group
  | peer
  deriving DecidableEq, Repr

namespace Scope

def all : List Scope :=
  [own, group, peer]

/-- What stands in front of the name of a variant of this scope. -/
def stem : Scope → String
  | own => ""
  | group => "group-"
  | peer => "peer-"

/-- The change of the selector that asks for a state of the element itself, of a group around it or of a
peer in front of it. -/
def change (scope : Scope) (state : String) : SelectorChange :=
  match scope with
  | own => .suffix state
  | group => .ancestor (".group" ++ state)
  | peer => .sibling (".peer" ++ state)

end Scope

/-- A variant that takes a value in brackets. -/
inductive DynamicVariant
  | minWidth (rank : Rank)
  | maxWidth (rank : Rank)
  | supports (rank : Rank)
  | attr (name : String) (scope : Scope)
  deriving DecidableEq, Repr

/-- The variant for the value in the brackets. A feature query without a colon asks for a property. -/
def DynamicVariant.resolve (dynamic : DynamicVariant) (content : String) : Variant :=
  match dynamic with
  | minWidth rank => .atRule rank ("@media (min-width: " ++ content ++ ")")
  | maxWidth rank => .atRule rank ("@media (max-width: " ++ content ++ ")")
  | supports rank =>
    .supports rank (if content.toList.contains ':' then content else content ++ ": var(--tw)")
  | attr name scope => .onSelector (scope.change ("[" ++ name ++ "-" ++ content ++ "]"))

structure VariantTable where
  statics : Table Variant
  dynamics : Table DynamicVariant

namespace VariantTable
open Text

/-! ### Names -/

def pseudoElements : List (String × String) :=
  [("first-letter", "first-letter"), ("first-line", "first-line"), ("marker", "marker"),
   ("selection", "selection"), ("file", "file-selector-button"), ("placeholder", "placeholder"),
   ("backdrop", "backdrop"), ("before", "before"), ("after", "after")]

def pseudoClasses : List (String × String) :=
  [("first", ":first-child"), ("last", ":last-child"), ("only", ":only-child"),
   ("odd", ":nth-child(odd)"), ("even", ":nth-child(even)"), ("first-of-type", ":first-of-type"),
   ("last-of-type", ":last-of-type"), ("only-of-type", ":only-of-type"), ("visited", ":visited"),
   ("target", ":target"), ("open", "[open]"), ("default", ":default"), ("checked", ":checked"),
   ("indeterminate", ":indeterminate"), ("placeholder-shown", ":placeholder-shown"),
   ("autofill", ":autofill"), ("required", ":required"), ("valid", ":valid"), ("invalid", ":invalid"),
   ("in-range", ":in-range"), ("out-of-range", ":out-of-range"), ("read-only", ":read-only"),
   ("empty", ":empty"), ("focus-within", ":focus-within"), ("hover", ":hover"), ("focus", ":focus"),
   ("focus-visible", ":focus-visible"), ("active", ":active"), ("enabled", ":enabled"),
   ("disabled", ":disabled")]

def mediaFeatures : List (String × String) :=
  [("motion-safe", "(prefers-reduced-motion: no-preference)"),
   ("motion-reduce", "(prefers-reduced-motion: reduce)"), ("print", "print"),
   ("portrait", "(orientation: portrait)"), ("landscape", "(orientation: landscape)"),
   ("contrast-more", "(prefers-contrast: more)"), ("contrast-less", "(prefers-contrast: less)")]

/-! ### Building -/

/-- The media condition of a screen, if it has a bound. -/
def screenCondition? (screen : Screen) : Option String :=
  match screen.min, screen.max with
  | some min, some max => some ("@media (min-width: " ++ min ++ ") and (max-width: " ++ max ++ ")")
  | some min, none => some ("@media (min-width: " ++ min ++ ")")
  | none, some max => some ("@media (max-width: " ++ max ++ ")")
  | none, none => none

/-- The conditions of the screens by name, and those of the widths below a screen if every screen has a
least width only. -/
def screenConditions (screens : Screens) : List (String × String) :=
  let listed := screens.toList
  let wide := listed.filterMap fun (name, screen) => (screenCondition? screen).map (name, ·)
  let narrow := listed.filterMap fun (name, screen) =>
    screen.min.map fun min => ("max-" ++ name, "@media not all and (min-width: " ++ min ++ ")")
  if listed.all fun (_, screen) => screen.min.isSome && screen.max.isNone then wide ++ narrow else wide

/-- Variants by name, at the ranks from `start` on in the order of the list. -/
def ranked (start : Nat) (variant : Rank → String → Variant) (pairs : List (String × String)) :
    List (String × Variant) :=
  (pairs.zipIdx start).map fun ((name, text), n) => (name, variant (.nth n) text)

def stateOf (name state : String) : List (String × Variant) :=
  Scope.all.map fun scope => (scope.stem ++ name, .onSelector (scope.change state))

/-- The attributes that a theme category names. -/
def attributes (theme : Theme) (name : String) : List (String × Variant) :=
  (theme.category name).toList.flatMap fun (key, value) =>
    stateOf (name ++ "-" ++ key) ("[" ++ name ++ "-" ++ value.primary ++ "]")

def attributeBrackets (name : String) : List (String × DynamicVariant) :=
  Scope.all.map fun scope => (scope.stem ++ name, .attr name scope)

/-- The variants of a theme. Ranks run through the screens, the widths in brackets, the media features and
the feature queries. A later name takes an earlier one's place. -/
def ofTheme (theme : Theme) : VariantTable :=
  let screens := screenConditions theme.screens
  let widths := screens.length
  let features := widths + 2
  let queries := features + mediaFeatures.length
  let checks := (theme.category "supports").toList.map fun (key, value) =>
    ("supports-" ++ key, value.primary)
  { statics := .ofList (
      ranked 0 .atRule screens ++
      [("dark", .onSelector (.ancestor ".dark")), ("*", .onSelector (.template "& > *"))] ++
      pseudoElements.map (fun (name, element) => (name, .onSelector (.suffix ("::" ++ element)))) ++
      pseudoClasses.flatMap (fun (name, state) => stateOf name state) ++
      ranked features (fun rank feature => .atRule rank ("@media " ++ feature)) mediaFeatures ++
      ranked queries .supports checks ++
      attributes theme "aria" ++ attributes theme "data")
    dynamics := .ofList (
      [("min", .minWidth (.nth widths)), ("max", .maxWidth (.nth (widths + 1))),
        ("supports", .supports (.nth (queries + checks.length)))] ++
      attributeBrackets "aria" ++ attributeBrackets "data") }

def size (t : VariantTable) : Nat :=
  t.statics.size + t.dynamics.size

def isEmpty (t : VariantTable) : Bool :=
  t.size = 0

def get? (t : VariantTable) (name : String) : Option Variant :=
  t.statics.get? name

/-! ### Reading -/

def mediaMark : List Char := ['@', 'm', 'e', 'd', 'i', 'a']

def supportsMark : List Char := ['@', 's', 'u', 'p', 'p', 'o', 'r', 't', 's']

/-- A text without the parentheses around it, if it has both. -/
def withoutParentheses (cs : List Char) : List Char :=
  match cs with
  | '(' :: inner => (unclose? ')' inner).getD cs
  | _ => cs

/-- A variant in brackets alone: a selector with `&` in it, a media condition or a feature query.
Underscores stand for spaces. -/
def bracketed? (content : List Char) : Option Variant :=
  if content.contains '&' then
    some (.onSelector (.template (String.ofList (exchange '_' ' ' content))))
  else
    match mediaMark.isPrefixOf? content with
    | some media =>
      let media := trim (exchange '_' ' ' media)
      if media.isEmpty then none else some (.atRule .last ("@media " ++ String.ofList media))
    | none =>
      match supportsMark.isPrefixOf? content with
      | some check =>
        let check := withoutParentheses (trim (exchange '_' ' ' check))
        if check.isEmpty then none else some (.supports .last (String.ofList check))
      | none => none

/-- What stands in front of a colon as a variant. -/
def resolve? (t : VariantTable) (cs : List Char) : Option Variant :=
  match cs with
  | '[' :: inner => unclose? ']' inner >>= bracketed?
  | _ =>
    match cut? ['-', '['] cs with
    | some (name, body) => do
      let content ← unclose? ']' body
      if content.isEmpty then none
      else
        let dynamic ← t.dynamics.get? (String.ofList name)
        return dynamic.resolve (String.ofList (exchange '_' ' ' content))
    | none => t.statics.get? (String.ofList cs)

end VariantTable

end UtilityCss
