import UtilityCss.Catalog

/-!
# Settings

Everything that an engine is built from. User rules and the safelist may depend on the resolved theme.
-/

namespace UtilityCss

structure Settings where
  theme : ThemeConfig := {}
  /-- Built-in families switched on or off. -/
  families : FamilyFlags := ∅
  rules : Theme → List Rule := fun _ => []
  shortcuts : Table String := ∅
  /-- Tokens that are registered whether or not a scan ever sees them. -/
  safelist : Theme → List String := fun _ => []
  blocklist : List String := []

end UtilityCss
