import UtilityCss.Error
import UtilityCss.Theme.Screen
import UtilityCss.Theme.Value

/-!
# Theme configuration

What a user writes about the theme: categories that replace those of the base theme, categories that are
added to them key by key, and categories derived from the others. `ThemeItem.values` and `ThemeItem.screen`
read one entry of a category.
-/

namespace UtilityCss

/-- An entry of a category as it is written. -/
inductive ThemeItem
  | text (text : String)
  | pair (first second : String)
  | list (items : List String)
  | record (fields : Table String)

namespace ThemeItem

/-- The values that an entry stands for. A record stands for one value a field, named for the key and the
field; in the shadow category it is one shadow. -/
def values (category key : String) : ThemeItem → Except ConfigError (List (String × Value))
  | text s => .ok [(key, .plain s)]
  | pair first second => .ok [(key, .pair first second)]
  | list [] => .error (.emptyList category key)
  | list items => .ok [(key, .list items)]
  | record fields =>
    if category = "boxShadow" then
      match fields.get? "value", fields.get? "defaultColor" with
      | some value, some color => .ok [(key, .shadow value color)]
      | _, _ => .error (.shadowRecord category key)
    else
      .ok (fields.toList.map fun (field, s) =>
        (if field = "DEFAULT" then key else key ++ "-" ++ field, .plain s))

/-- The screen that an entry stands for: its least width, or a record of its bounds. -/
def screen (name : String) : ThemeItem → Except ConfigError Screen
  | text min => .ok ⟨some min, none⟩
  | record bounds =>
    if !bounds.isEmpty && bounds.keys.all fun key => key = "min" || key = "max" then
      .ok ⟨bounds.get? "min", bounds.get? "max"⟩
    else .error (.screenShape name)
  | _ => .error (.screenShape name)

end ThemeItem

abbrev CategoryItems := Table ThemeItem

namespace CategoryItems

def category (name : String) (items : CategoryItems) : Except ConfigError Category := do
  let parts ← items.toList.mapM fun (key, item) => item.values name key
  return .ofList parts.flatten

def screens (items : CategoryItems) : Except ConfigError Screens := do
  let parts ← items.toList.mapM fun (name, item) => do return (name, ← item.screen name)
  return .ofList parts

end CategoryItems

/-- What a derived category may be computed from: the categories that do not depend on others, each by its name, and
the screens. -/
structure ThemeView where
  category? : String → Option Category
  screens : Screens

/-- A category that does not depend on others. -/
def ThemeView.category (view : ThemeView) (name : String) : Except ConfigError Category :=
  match view.category? name with
  | some category => .ok category
  | none => .error (.missingCategory name)

/-- A rule by which a category is computed from the others. -/
abbrev Derivation := ThemeView → Except ConfigError Category

/-- What a user writes about the theme. -/
structure ThemeConfig where
  container : Option Container := none
  /-- Categories added to those of the theme, key by key. -/
  additions : Table CategoryItems := ∅
  /-- Categories that replace those of the theme. -/
  overrides : Table CategoryItems := ∅
  derived : Table Derivation := ∅

end UtilityCss
