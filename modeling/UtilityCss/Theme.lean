import UtilityCss.Color
import UtilityCss.Theme.Config
import UtilityCss.Theme.Derived

/-!
# Themes

A theme is resolved once from a configuration and then only read. Its screens come first, then the
categories that stand on their own, then the derived ones. A replaced category holds what the
configuration says and nothing of the base theme.
-/

namespace UtilityCss

/-- The values that rules, variants and written CSS read. -/
structure Theme where
  categories : Table Category
  screens : Screens
  container : Container

namespace Theme
open Text

/-! ### Resolution -/

/-- The screens of a configuration, or those of the base theme, and the added ones. -/
def resolveScreens (config : ThemeConfig) : Except ConfigError Screens := do
  let screens ← match config.overrides.get? "screens" with
    | some items => items.screens
    | none => .ok Base.screens
  match config.additions.get? "screens" with
  | some items => return screens.extend (← items.screens)
  | none => return screens

/-- The derivations of the base theme, and then those of the configuration. -/
def derivations (config : ThemeConfig) : List (String × Derivation) :=
  Base.derived ++ config.derived.toList

/-- Whether a category of a configuration stands on its own: it is neither the screens nor derived. -/
def isPlain (config : ThemeConfig) (name : String) : Bool :=
  name ≠ "screens" && !(derivations config).any fun derivation => derivation.1 = name

/-- Replaces a category by the items of a configuration. -/
def overrideCategory (config : ThemeConfig) (plain : Table Category) (part : String × CategoryItems) :
    Except ConfigError (Table Category) :=
  if isPlain config part.1 then do return plain.insert part.1 (← part.2.category part.1)
  else .ok plain

/-- Adds the items of a configuration to a category. -/
def addToCategory (config : ThemeConfig) (plain : Table Category) (part : String × CategoryItems) :
    Except ConfigError (Table Category) :=
  if isPlain config part.1 then do
    return plain.insert part.1 (((plain.get? part.1).getD ∅).extend (← part.2.category part.1))
  else .ok plain

/-- The categories that stand on their own. -/
def resolvePlain (config : ThemeConfig) : Except ConfigError (Table Category) := do
  let overridden ← config.overrides.toList.foldlM (overrideCategory config) Base.plain
  config.additions.toList.foldlM (addToCategory config) overridden

/-- A derived category: what the configuration has in its place or what its rule gives, and what the
configuration adds. -/
def resolveDerived (config : ThemeConfig) (view : ThemeView) (name : String) (derivation : Derivation) :
    Except ConfigError Category := do
  let values ← match config.overrides.get? name with
    | some items => items.category name
    | none => derivation view
  match config.additions.get? name with
  | some items => return values.extend (← items.category name)
  | none => return values

def resolve (config : ThemeConfig) : Except ConfigError Theme := do
  let screens ← resolveScreens config
  let plain ← resolvePlain config
  let derived ← (derivations config).mapM fun (name, derivation) => do
    return (name, ← resolveDerived config ⟨plain.get?, screens⟩ name derivation)
  return ⟨plain.insertAll derived, screens, config.container.getD {}⟩

/-! ### Reading -/

/-- A category, empty if the theme does not have it. -/
def category (t : Theme) (name : String) : Category :=
  (t.categories.get? name).getD ∅

def value? (t : Theme) (category key : String) : Option Value := do
  (← t.categories.get? category).get? key

/-- The value on a path such as `colors.red-500`: a category, a dot and a key. -/
def get? (t : Theme) (path : String) : Option String := do
  let (category, key) ← cut? ['.'] path.toList
  let (category, key) := (String.ofList category, String.ofList key)
  if category = "screens" then
    let screen ← t.screens.get? key
    screen.max.or screen.min
  else if category = "container" || category = "dropShadow" then none
  else
    let value ← t.value? category key
    if value.primary.isEmpty then none else some value.primary

/-- The value on a path, with the alpha channel that may follow a slash put onto it. -/
def lookup? (t : Theme) (path : String) : Option String :=
  match cut? [' ', '/', ' '] path.toList with
  | some (key, alpha) => do
    let color ← Color.parse? (← t.get? (String.ofList key))
    return (color.withAlpha (String.ofList alpha)).text
  | none => t.get? path

end Theme

end UtilityCss
