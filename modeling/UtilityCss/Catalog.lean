import UtilityCss.Catalog.Arrangement
import UtilityCss.Catalog.Effects
import UtilityCss.Catalog.Layout
import UtilityCss.Catalog.Motion
import UtilityCss.Catalog.Surface
import UtilityCss.Catalog.Typography

/-!
# The catalog

The built-in rules of a theme, and the rule list of a configuration: its shortcuts, the user rules that come
first, the families that are on, and the other user rules.
-/

namespace UtilityCss.Catalog

/-- Every built-in family, in cascade order. An opacity family that is off takes the alpha channel from the
colours it belongs to. -/
def families (theme : Theme) (flags : FamilyFlags) : List Family :=
  let t := theme.category
  layout t ++ motion t ++ arrangement t (flags.enabled "divideOpacity") ++
    surface t (flags.enabled "borderOpacity") (flags.enabled "backgroundOpacity") ++
    typography t (flags.enabled "textOpacity") (flags.enabled "placeholderOpacity") ++
    effects t (flags.enabled "ringOpacity")

/-! ### User rules -/

/-- A user rule needs a name, and declarations or directions where its kind has them. -/
def checkUserRule (rule : Rule) : Except ConfigError Unit :=
  if rule.name.isEmpty then .error .namelessRule
  else
    match rule with
    | .fixed name [] _ => .error (.ruleWithoutDeclarations name)
    | .directed stem directions _ _ _ =>
      if directions.isEmpty || directions.any String.isEmpty then .error (.emptyDirection stem) else .ok ()
    | .shortcut _ _ => .error .shortcutAmongRules
    | _ => .ok ()

/-- A shortcut needs a name of one word and at least one utility. -/
def checkShortcut (name utilities : String) : Except ConfigError Unit :=
  if name.isEmpty || name.toList.any Text.isBlank then .error (.shortcutName name utilities)
  else if (Text.trim utilities.toList).isEmpty then .error (.emptyShortcut name utilities)
  else .ok ()

/-- Every flag names a family. -/
def checkFlags (families : List Family) (flags : FamilyFlags) : Except ConfigError Unit :=
  match flags.keys.find? fun name => !families.any (·.name = name) with
  | some name => .error (.unknownFamily name)
  | none => .ok ()

/-- The rules of a configuration, in cascade order. -/
def rules (theme : Theme) (flags : FamilyFlags) (userRules : List Rule) (shortcuts : Table String) :
    Except ConfigError (List Rule) := do
  let families := families theme flags
  checkFlags families flags
  userRules.forM checkUserRule
  shortcuts.toList.forM fun (name, utilities) => checkShortcut name utilities
  let enabled := families.filter fun family => flags.enabled family.name
  return shortcuts.toList.map (fun (name, utilities) => .shortcut name utilities) ++
    userRules.filter (·.traits.injectFirst) ++ enabled.flatMap (·.rules) ++
    userRules.filter (!·.traits.injectFirst)

end UtilityCss.Catalog
