import UtilityCss.Data
import UtilityCss.Settings
import UtilityCss.Toml.Reader

/-!
# Written settings

Settings as data, and as a TOML document. Data that does not fit, or a field that is not known, makes the
settings unreadable. Written rules are fixed rules.
-/

namespace UtilityCss

/-! ### The theme -/

/-- An entry of a category: a text, a pair, a longer or shorter list, or a record of texts. -/
def ThemeItem.ofData? : Data → Option ThemeItem
  | .text s => some (.text s)
  | .list items => do
    match ← items.mapM Data.text? with
    | [first, second] => return .pair first second
    | texts => return .list texts
  | .record fields => ((Data.record fields).tableOf? Data.text?).map .record
  | _ => none

def CategoryItems.ofData? (d : Data) : Option CategoryItems :=
  d.tableOf? ThemeItem.ofData?

/-- The padding of a container: one text, or texts by screen. -/
def Padding.ofData? : Data → Option Padding
  | .text s => some (.uniform s)
  | .record fields => ((Data.record fields).tableOf? Data.text?).map .perScreen
  | _ => none

/-- A value that may be left out or be nothing. -/
def Data.optional? {β : Type} (read? : Data → Option β) : Option Data → Option (Option β)
  | none => some none
  | some .null => some none
  | some d => (read? d).map some

/-- A container: a record, or its fields in order. Fields that are not known do not matter. -/
def Container.ofData? (d : Data) : Option Container := do
  let (center, padding) ← match d with
    | .record fields => some (Data.field? fields "center", Data.field? fields "padding")
    | .list [] => some (none, none)
    | .list [center] => some (some center, none)
    | .list [center, padding] => some (some center, some padding)
    | _ => none
  let center ← match center with
    | some d => d.bool?
    | none => some false
  return { center, padding := ← Data.optional? Padding.ofData? padding }

/-- The theme of a configuration: the container, the additions under `extend`, and categories. -/
def ThemeConfig.ofData? (d : Data) : Option ThemeConfig := do
  let fields ← d.fields?
  let container ← Data.optional? Container.ofData? (Data.field? fields "container")
  let additions ← match Data.field? fields "extend" with
    | some d => d.tableOf? CategoryItems.ofData?
    | none => some ∅
  let overrides ← (Data.record (fields.filter fun field =>
    field.1 ≠ "container" && field.1 ≠ "extend")).tableOf? CategoryItems.ofData?
  return { container, additions, overrides }

namespace Settings

/-! ### All settings -/

def fieldNames : List String :=
  ["theme", "core_rules", "rules", "shortcuts", "safelist", "blocklist"]

/-- A field of a record, or a value for when it is left out. -/
def fieldOr {β : Type} (fields : List (String × Data)) (key : String) (default : β)
    (read? : Data → Option β) : Option β :=
  match Data.field? fields key with
  | some d => read? d
  | none => some default

/-- Fixed rules by name, each with its declarations. -/
def fixedRules (rules : Table (Table String)) : List Rule :=
  rules.toList.map fun (name, declarations) =>
    .fixed name (declarations.toList.map fun (property, value) => ⟨property, value⟩)

def ofData? (d : Data) : Option Settings := do
  let fields ← d.fields?
  if fields.all fun field => fieldNames.contains field.1 then
    let theme ← fieldOr fields "theme" {} ThemeConfig.ofData?
    let families ← fieldOr fields "core_rules" ∅ (·.tableOf? Data.bool?)
    let rules ← fieldOr fields "rules" ∅ (·.tableOf? (·.tableOf? Data.text?))
    let shortcuts ← fieldOr fields "shortcuts" ∅ (·.tableOf? Data.text?)
    let safelist ← fieldOr fields "safelist" [] Data.texts?
    let blocklist ← fieldOr fields "blocklist" [] Data.texts?
    return { theme, shortcuts, blocklist
             families := .ofList families.toList
             rules := fun _ => fixedRules rules
             safelist := fun _ => safelist }
  else none

/-- The settings of a TOML document. -/
def ofToml (text : String) : Except ConfigError Settings :=
  match Toml.read? text >>= ofData? with
  | some settings => .ok settings
  | none => .error .unreadable

end Settings

end UtilityCss
