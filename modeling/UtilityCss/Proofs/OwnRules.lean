import UtilityCss.Proofs.BaseTheme
import UtilityCss.Proofs.History
import UtilityCss.Proofs.RuleList

/-!
# Engines with rules of their own

With every built-in family switched off, the rule list holds what the settings define and nothing else. Such
engines are small enough to be looked at as a whole.
-/

namespace UtilityCss

/-! ### Known class names -/

/-- A class name that the index knows stands for its entry, behind variants and with a mark or not. -/
theorem Vocabulary.read?_of_known {v : Vocabulary} {token name : String} {parts : List (List Char)}
    {variants : List Variant} {important : Bool} {entry : Entry}
    (cut : TokenParts.ofToken token.toList = ⟨parts, important, name.toList⟩)
    (resolved : parts.mapM v.variants.resolve? = some variants) (bare : name.toList.head? ≠ some '[')
    (known : v.entries.get? name = some entry) :
    v.read? token =
      some ⟨token, variants, important, .rule ⟨entry.rule, entry.direction, entry.order, entry.value?⟩⟩ := by
  have body : v.readBody? name.toList =
      some (.rule ⟨entry.rule, entry.direction, entry.order, entry.value?⟩) := by
    unfold readBody?
    split
    · rename_i inner opened
      rw [opened] at bare
      exact absurd rfl bare
    · simp only [readRule?, String.ofList_toList, known, Option.map_some]
  simp only [read?, cut, resolved, body, Option.pure_def, Option.bind_eq_bind, Option.bind_some]

/-- A class name that the index knows, without variants and marks, stands for its entry. -/
theorem Vocabulary.read?_of_plain {v : Vocabulary} {token : String} {entry : Entry}
    (unmarked : token.toList.head? ≠ some '!') (uncut : TokenParts.cutVariant? 0 token.toList = none)
    (bare : token.toList.head? ≠ some '[') (known : v.entries.get? token = some entry) :
    v.read? token =
      some ⟨token, [], false, .rule ⟨entry.rule, entry.direction, entry.order, entry.value?⟩⟩ :=
  read?_of_known (TokenParts.ofToken_uncut unmarked uncut) rfl bare known

/-! ### An engine of two rules -/

namespace Engine

theorem prepare_eq_ok {settings : Settings} {theme : Theme} {rules : List Rule} {index : EntryIndex}
    {warnings : List Warning} {table : ShortcutTable} (resolved : Theme.resolve settings.theme = .ok theme)
    (ruled : Catalog.rules theme settings.families (settings.rules theme) settings.shortcuts = .ok rules)
    (indexed : EntryIndex.build rules = .ok (index, warnings))
    (expanded : Shortcuts.build rules ⟨.ofTheme theme, index, theme.category "lineHeight"⟩ = .ok table) :
    ∃ fresh notices, prepare settings = .ok (fresh, notices) ∧ fresh.theme = theme ∧
      fresh.vocabulary = ⟨.ofTheme theme, index, theme.category "lineHeight"⟩ ∧ fresh.shortcuts = table := by
  simp only [prepare, resolved, ruled, indexed, expanded, bind, Except.bind, pure, Except.pure]
  exact ⟨_, _, rfl, rfl, rfl, rfl⟩

end Engine

def spunRule : Rule :=
  .fixed "spun" [⟨"rotate", "12deg"⟩] { group := some .transform }

def flushRule : Rule :=
  .fixed "flush" [⟨"margin", "0"⟩]

/-- Two rules, the first of which needs a default group. -/
def ownRules : List Rule :=
  [spunRule, flushRule]

def Settings.own : Settings where
  families := Catalog.allOff
  rules := fun _ => ownRules

def ownIndex : EntryIndex :=
  (EntryIndex.progress ownRules).index

def spun : Utility :=
  ⟨"spun", [], false, .rule ⟨spunRule, "", 0, none⟩⟩

def flush : Utility :=
  ⟨"flush", [], false, .rule ⟨flushRule, "", 1, none⟩⟩

namespace Vocabulary

variable {v : Vocabulary}

theorem read?_spun (own : v.entries = ownIndex) : v.read? "spun" = some spun := by
  have known : v.entries.get? "spun" = some ⟨spunRule, "", "", false, 0⟩ := by
    rw [own]
    rfl
  exact read?_of_plain (by decide) (by decide) (by decide) known

theorem read?_flush (own : v.entries = ownIndex) : v.read? "flush" = some flush := by
  have known : v.entries.get? "flush" = some ⟨flushRule, "", "", false, 1⟩ := by
    rw [own]
    rfl
  exact read?_of_plain (by decide) (by decide) (by decide) known

end Vocabulary

namespace Engine

theorem prepare_own (safelist : Theme → List String) :
    ∃ fresh notices, prepare { Settings.own with safelist := safelist } = .ok (fresh, notices) ∧
      fresh.vocabulary.entries = ownIndex ∧ fresh.shortcuts = ∅ := by
  obtain ⟨theme, resolved⟩ := Theme.resolve_base
  have ruled : Catalog.rules theme Catalog.allOff ownRules ∅ = .ok ownRules :=
    Catalog.rules_eq_of_off Catalog.allOff_known Catalog.allOff_off rfl rfl
  have indexed : EntryIndex.build ownRules = .ok (ownIndex, []) := rfl
  obtain ⟨fresh, notices, ready, -, vocabulary, shortcuts⟩ :=
    @prepare_eq_ok { Settings.own with safelist := safelist } _ _ _ _ _ resolved ruled indexed rfl
  exact ⟨fresh, notices, ready, by rw [vocabulary], shortcuts⟩

theorem accepts_own {fresh : Engine} {token : String} (own : fresh.vocabulary.entries = ownIndex)
    (named : token = "spun" ∨ token = "flush") : fresh.Accepts [] token := by
  rcases named with rfl | rfl
  · simp [Accepts, Memo.answer?, Vocabulary.read?_spun own]
  · simp [Accepts, Memo.answer?, Vocabulary.read?_flush own]

end Engine

end UtilityCss
