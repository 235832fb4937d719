import Mathlib.Data.List.Infix
import UtilityCss.Vocabulary

/-!
# Modifiers

What stands behind a slash is an alpha channel for a colour or a line height for a size. A text with a modifier is read
just when the part in front of it is read and the rule takes the modifier, and then it is the same rule with the changed
value: `readRule?_of_modified`.
-/

namespace UtilityCss

/-! ### Where a text is cut -/

namespace Text

variable {mark cs a b a' b' : List Char}

theorem isPrefixOf?_eq_none_iff : mark.isPrefixOf? cs = none ↔ ¬mark <+: cs := by
  constructor
  · rintro none ⟨rest, rfl⟩
    rw [isPrefixOf?_append] at none
    cases none
  · intro other
    cases found : mark.isPrefixOf? cs with
    | none => rfl
    | some rest => exact absurd ⟨rest, (eq_append_of_isPrefixOf? found).symm⟩ other

theorem cut?_eq_none_iff : cut? mark cs = none ↔ ¬mark <:+: cs := by
  rw [← hasMark_iff_infix, hasMark, Option.not_isSome_iff_eq_none]

/-- The mark ends nowhere before the place at which the text is cut. -/
theorem not_infix_of_cut? (nonempty : mark ≠ []) (cut : cut? mark cs = some (a, b)) :
    ¬mark <:+: a ++ mark.dropLast := by
  induction cs generalizing a b with
  | nil =>
    rw [cut?, if_neg (by simpa using nonempty)] at cut
    cases cut
  | cons c cs ih =>
    have whole := eq_of_cut? cut
    rw [cut?] at cut
    split at cut
    · obtain ⟨rfl, -⟩ := Prod.mk.inj (Option.some.inj cut)
      intro inside
      have shorter := inside.length_le
      have long := List.length_pos_iff.mpr nonempty
      rw [List.nil_append, List.length_dropLast] at shorter
      omega
    · rename_i other
      obtain ⟨⟨front, behind⟩, later, same⟩ := Option.map_eq_some_iff.mp cut
      obtain ⟨rfl, rfl⟩ := Prod.mk.inj same
      have start : (c :: front) ++ mark.dropLast <+: c :: cs := by
        rw [whole, List.append_assoc, List.prefix_append_right_inj]
        exact (List.dropLast_prefix mark).trans (List.prefix_append mark behind)
      rw [List.cons_append, List.infix_cons_iff, not_or]
      exact ⟨fun here => isPrefixOf?_eq_none_iff.mp other (here.trans start), ih later⟩

theorem length_le_of_first (nonempty : mark ≠ []) (whole : a ++ mark ++ b = a' ++ mark ++ b')
    (first : ¬mark <:+: a' ++ mark.dropLast) : a'.length ≤ a.length := by
  refine Nat.le_of_not_lt fun shorter => first ?_
  have long := List.length_pos_iff.mpr nonempty
  have front : a ++ mark <+: a' ++ mark ++ b' := whole ▸ List.prefix_append _ _
  have back : a' ++ mark.dropLast <+: a' ++ mark ++ b' := by
    rw [List.append_assoc, List.prefix_append_right_inj]
    exact (List.dropLast_prefix mark).trans (List.prefix_append mark b')
  have fits : (a ++ mark).length ≤ (a' ++ mark.dropLast).length := by
    rw [List.length_append, List.length_append, List.length_dropLast]
    omega
  exact (List.suffix_append a mark).isInfix.trans (List.prefix_of_prefix_length_le front back fits).isInfix

/-- A text is cut at the first place of the mark. -/
theorem cut?_eq_some_iff (nonempty : mark ≠ []) :
    cut? mark cs = some (a, b) ↔ cs = a ++ mark ++ b ∧ ¬mark <:+: a ++ mark.dropLast := by
  refine ⟨fun cut => ⟨eq_of_cut? cut, not_infix_of_cut? nonempty cut⟩, ?_⟩
  rintro ⟨rfl, first⟩
  cases cut : cut? mark (a ++ mark ++ b) with
  | none => exact absurd ⟨a, b, rfl⟩ (cut?_eq_none_iff.mp cut)
  | some halves =>
    obtain ⟨front, behind⟩ := halves
    have whole := eq_of_cut? cut
    have length := Nat.le_antisymm (length_le_of_first nonempty whole.symm first)
      (length_le_of_first nonempty whole (not_infix_of_cut? nonempty cut))
    rw [List.append_assoc, List.append_assoc] at whole
    obtain ⟨rfl, rest⟩ := List.append_inj whole length
    rw [List.append_cancel_left rest]

end Text

/-! ### Values under a modifier -/

namespace Vocabulary

variable {v : Vocabulary} {cs base raw name stem inner body : List Char} {content : Option (List Char)} {use : RuleUse}
  {values : Category} {text : String} {value : Value}

/-- What a modifier says: the value of a key, or what is written in brackets. -/
inductive ModifierText (values : Category) : List Char → String → Prop
  | key {raw : List Char} {value : Value} : raw.head? ≠ some '[' → values.get? (String.ofList raw) = some value →
      ModifierText values raw value.primary
  | brackets {inner : List Char} : inner ≠ [] → ModifierText values ('[' :: inner ++ [']']) (bracketValue inner)

theorem modifierValue?_eq_some_iff : modifierValue? raw values = some text ↔ ModifierText values raw text := by
  constructor
  · intro read
    unfold modifierValue? at read
    split at read
    · obtain ⟨inner, closed, given⟩ := Option.bind_eq_some_iff.mp read
      obtain rfl := Text.unclose?_eq_some_iff.mp closed
      split at given
      · cases given
      · cases given
        exact .brackets (by simpa using ‹¬inner.isEmpty = true›)
    · rename_i bare
      obtain ⟨value, found, rfl⟩ := Option.map_eq_some_iff.mp read
      refine .key (fun opened => ?_) found
      obtain ⟨rest, rfl⟩ := List.head?_eq_some_iff.mp opened
      exact bare rest rfl
  · rintro (⟨bare, found⟩ | nonempty)
    · unfold modifierValue?
      split
      · exact absurd rfl bare
      · rw [found, Option.map_some]
    · simp [modifierValue?, Text.unclose?_eq_some_iff.mpr rfl, nonempty]

/-- The value of a use is what a modifier of its rule makes of a base value: a colour without alpha channel gets one, or
a line height is put beside the text. -/
inductive TakesModifier (v : Vocabulary) (raw : List Char) (base : Value) (use : RuleUse) : Prop
  | alpha {values : Category} {text : String} {color : Color} : use.rule.traits.modifier = some (.alpha values) →
      ModifierText values raw text → Color.parse? base.primary = some color → color.alpha = none →
      use.value = some (.plain (color.withAlpha text).text) → TakesModifier v raw base use
  | lineHeight {text : String} : use.rule.traits.modifier = some .lineHeight → ModifierText v.lineHeights raw text →
      use.value = some (.pair base.primary text) → TakesModifier v raw base use

theorem modify?_eq_some_iff {base : Value} (given : use.value = some value) :
    modify? v.lineHeights use.rule base raw = some value ↔ v.TakesModifier raw base use := by
  constructor
  · intro read
    obtain ⟨modifier, known, read⟩ := Option.bind_eq_some_iff.mp read
    cases modifier with
    | lineHeight =>
      obtain ⟨text, said, read⟩ := Option.bind_eq_some_iff.mp read
      cases read
      exact .lineHeight known (modifierValue?_eq_some_iff.mp said) given
    | alpha values =>
      obtain ⟨text, said, read⟩ := Option.bind_eq_some_iff.mp read
      obtain ⟨color, parsed, read⟩ := Option.bind_eq_some_iff.mp read
      split at read
      · cases read
      · cases read
        have bare : color.alpha = none := by simpa using ‹¬color.alpha.isSome = true›
        exact .alpha known (modifierValue?_eq_some_iff.mp said) parsed bare given
  · rintro (⟨known, said, parsed, plain, made⟩ | ⟨known, said, made⟩)
    · obtain rfl := Option.some.inj (given.symm.trans made)
      simp [modify?, known, modifierValue?_eq_some_iff.mpr said, parsed, plain]
    · obtain rfl := Option.some.inj (given.symm.trans made)
      simp [modify?, known, modifierValue?_eq_some_iff.mpr said]

/-! ### In front of a modifier -/

/-- A text with a modifier: what stands in front of the modifier, what that holds in brackets if it ends in them, and
the modifier. It stands behind the first slash, or with brackets behind the first slash that follows a closing one. -/
inductive Modified : List Char → List Char → Option (List Char) → List Char → Prop
  | name {name raw : List Char} : '/' ∉ name → ¬['-', '['] <:+: name ++ '/' :: raw →
      Modified (name ++ '/' :: raw) name none raw
  | brackets {stem inner raw : List Char} : ¬['-', '['] <:+: stem ++ ['-'] → ¬[']', '/'] <:+: inner ++ [']'] →
      Modified (stem ++ '-' :: '[' :: (inner ++ ']' :: '/' :: raw)) (stem ++ '-' :: '[' :: (inner ++ [']']))
        (some inner) raw

/-- The use of a rule with a modifier. -/
def modifyUse? (v : Vocabulary) (raw : List Char) (use : RuleUse) : Option RuleUse := do
  let value ← modify? v.lineHeights use.rule (← use.value) raw
  return { use with value := some value }

theorem modifyUse?_eq_some_iff {bare : RuleUse} : v.modifyUse? raw bare = some use ↔
    ∃ value, bare = { use with value := some value } ∧ v.TakesModifier raw value use := by
  constructor
  · intro read
    obtain ⟨base, given, read⟩ := Option.bind_eq_some_iff.mp read
    obtain ⟨value, changed, made⟩ := Option.bind_eq_some_iff.mp read
    obtain rfl := Option.some.inj made
    refine ⟨base, ?_, (modify?_eq_some_iff rfl).mp changed⟩
    rw [← given]
  · rintro ⟨base, rfl, takes⟩
    obtain ⟨value, given⟩ : ∃ value, use.value = some value := by
      cases takes with
      | alpha _ _ _ _ made => exact ⟨_, made⟩
      | lineHeight _ _ made => exact ⟨_, made⟩
    have changed := (modify?_eq_some_iff given).mpr takes
    unfold modifyUse?
    simp only [changed, Option.bind_eq_bind, Option.bind_some, Option.pure_def]
    rw [← given]

/-! ### The two forms -/

theorem readRule?_brackets (unlisted : v.entries.get? (String.ofList (stem ++ '-' :: '[' :: body)) = none)
    (first : ¬['-', '['] <:+: stem ++ ['-']) :
    v.readRule? (stem ++ '-' :: '[' :: body) = v.readBrackets? stem body := by
  have cut : Text.cut? ['-', '['] (stem ++ '-' :: '[' :: body) = some (stem, body) :=
    (Text.cut?_eq_some_iff (by decide)).mpr ⟨by simp, first⟩
  rw [readRule?, unlisted, cut]

theorem readBrackets?_closed (first : ¬[']', '/'] <:+: inner ++ [']']) : v.readBrackets? stem (inner ++ [']']) =
    if inner = [] then none
    else ((v.entries.families (String.ofList stem)).find? (·.accepts inner)).map fun family =>
      ⟨family.rule, family.direction, family.order, some (.plain (bracketValue inner))⟩ := by
  have cut : cutBrackets? (inner ++ [']']) = some (inner, none) := by
    rw [cutBrackets?, Text.cut?_eq_none_iff.mpr first, Text.unclose?_eq_some_iff.mpr rfl]
    rfl
  simp only [readBrackets?, cut, Option.bind_eq_bind, Option.bind_some, List.isEmpty_iff]
  rw [Option.map_eq_bind]
  rfl

theorem readBrackets?_modifier (first : ¬[']', '/'] <:+: inner ++ [']']) :
    v.readBrackets? stem (inner ++ ']' :: '/' :: raw) =
      (v.readBrackets? stem (inner ++ [']'])).bind (v.modifyUse? raw) := by
  have cut : Text.cut? [']', '/'] (inner ++ ']' :: '/' :: raw) = some (inner, raw) :=
    (Text.cut?_eq_some_iff (by decide)).mpr ⟨by simp, first⟩
  have cut : cutBrackets? (inner ++ ']' :: '/' :: raw) = some (inner, some raw) := by
    rw [cutBrackets?, cut]
  rw [readBrackets?_closed first, readBrackets?, cut]
  simp only [Option.bind_eq_bind, Option.bind_some, List.isEmpty_iff]
  split
  · rfl
  · cases (v.entries.families (String.ofList stem)).find? (·.accepts inner) <;> rfl

theorem readRule?_name (closed : '/' ∉ name) (bare : ¬['-', '['] <:+: name ++ '/' :: raw)
    (unlisted : v.entries.get? (String.ofList (name ++ '/' :: raw)) = none) :
    v.readRule? (name ++ '/' :: raw) = (v.readRule? name).bind (v.modifyUse? raw) := by
  have slash : ¬['/'] <:+: name := fun inside => closed ((List.singleton_infix_iff '/' name).mp inside)
  have cut : Text.cut? ['/'] (name ++ '/' :: raw) = some (name, raw) :=
    (Text.cut?_eq_some_iff (by decide)).mpr ⟨by simp, by simpa using slash⟩
  have plain : ¬['-', '['] <:+: name := fun inside => bare (inside.trans (List.prefix_append _ _).isInfix)
  have read : v.readRule? (name ++ '/' :: raw) = v.readModified? name raw := by
    rw [readRule?, unlisted, Text.cut?_eq_none_iff.mpr bare, cut]
    rfl
  rw [read, readModified?, readRule?]
  cases v.entries.get? (String.ofList name) with
  | none =>
    rw [Text.cut?_eq_none_iff.mpr plain, Text.cut?_eq_none_iff.mpr slash]
    rfl
  | some entry => rfl

theorem takesModifier_of_brackets (unlisted :
      v.entries.get? (String.ofList (stem ++ '-' :: '[' :: (inner ++ ']' :: '/' :: raw))) = none)
    (first : ¬['-', '['] <:+: stem ++ ['-']) (last : ¬[']', '/'] <:+: inner ++ [']'])
    (read : v.readRule? (stem ++ '-' :: '[' :: (inner ++ ']' :: '/' :: raw)) = some use) :
    v.TakesModifier raw (.plain (bracketValue inner)) use := by
  rw [readRule?_brackets unlisted first, readBrackets?_modifier last, readBrackets?_closed last] at read
  obtain ⟨bare, closed, changed⟩ := Option.bind_eq_some_iff.mp read
  obtain ⟨value, rfl, takes⟩ := modifyUse?_eq_some_iff.mp changed
  split at closed
  · cases closed
  · obtain ⟨family, -, same⟩ := Option.map_eq_some_iff.mp closed
    obtain rfl : Value.plain (bracketValue inner) = value := Option.some.inj (congrArg RuleUse.value same)
    exact takes

theorem readRule?_modified (modified : Modified cs base content raw)
    (unlisted : v.entries.get? (String.ofList cs) = none)
    (apart : content = none ∨ v.entries.get? (String.ofList base) = none) :
    v.readRule? cs = (v.readRule? base).bind (v.modifyUse? raw) := by
  cases modified with
  | name closed bare => exact readRule?_name closed bare unlisted
  | brackets first last =>
    have unlisted' := apart.resolve_left (Option.some_ne_none _)
    rw [readRule?_brackets unlisted first, readRule?_brackets unlisted' first, readBrackets?_modifier last]

/-- What is read and is no class name has a modifier, or ends in brackets without one. -/
theorem modified_or_closed (unlisted : v.entries.get? (String.ofList cs) = none) (read : v.readRule? cs = some use) :
    (∃ base content raw, Modified cs base content raw) ∨
      ∃ stem inner, cs = stem ++ '-' :: '[' :: (inner ++ [']']) ∧ ¬[']', '/'] <:+: inner ++ [']'] := by
  rw [readRule?, unlisted] at read
  dsimp only at read
  split at read
  · rename_i stem body outer
    obtain ⟨rfl, first⟩ := (Text.cut?_eq_some_iff (by decide)).mp outer
    obtain ⟨⟨inner, modifier⟩, cut, -⟩ := Option.bind_eq_some_iff.mp read
    unfold cutBrackets? at cut
    split at cut
    · rename_i raw slash
      cases cut
      obtain ⟨rfl, last⟩ := (Text.cut?_eq_some_iff (by decide)).mp slash
      refine .inl ⟨stem ++ '-' :: '[' :: (inner ++ [']']), inner, raw, ?_⟩
      simpa using @Modified.brackets stem inner raw first last
    · rename_i slashless
      obtain ⟨content, closed, -⟩ := Option.map_eq_some_iff.mp cut
      obtain rfl := Text.unclose?_eq_some_iff.mp closed
      exact .inr ⟨stem, content, by simp, Text.cut?_eq_none_iff.mp slashless⟩
  · rename_i bare
    obtain ⟨⟨name, raw⟩, slash, -⟩ := Option.bind_eq_some_iff.mp read
    obtain ⟨rfl, first⟩ := (Text.cut?_eq_some_iff (by decide)).mp slash
    have closed : '/' ∉ name := by simpa [List.singleton_infix_iff] using first
    refine .inl ⟨name, none, raw, ?_⟩
    simpa using Modified.name closed (by simpa using Text.cut?_eq_none_iff.mp bare)

/-- What is read and is no class name has a modifier, or ends in brackets without one. A text with a modifier is read
just when the part in front of the modifier is read as a use of the same rule, with the same direction and at the same
place in the declaration order, and the rule takes the modifier: an alpha channel goes onto a colour that has none, and
a line height beside the text of the value. When that part ends in brackets and is a class name itself, the modifier
goes onto what is in the brackets. -/
theorem readRule?_unlisted (unlisted : v.entries.get? (String.ofList cs) = none) :
    (∀ use, v.readRule? cs = some use → (∃ base content raw, Modified cs base content raw) ∨
      ∃ stem inner, cs = stem ++ '-' :: '[' :: (inner ++ [']']) ∧ ¬[']', '/'] <:+: inner ++ [']']) ∧
    ∀ base content raw, Modified cs base content raw →
      (content = none ∨ v.entries.get? (String.ofList base) = none → ∀ use, v.readRule? cs = some use ↔
        ∃ value, v.readRule? base = some { use with value := some value } ∧ v.TakesModifier raw value use) ∧
      ∀ inner ∈ content, ∀ use, v.readRule? cs = some use →
        v.TakesModifier raw (.plain (bracketValue inner)) use := by
  refine ⟨fun use => modified_or_closed unlisted, fun base content raw modified => ⟨fun apart use => ?_, ?_⟩⟩
  · rw [readRule?_modified modified unlisted apart, Option.bind_eq_some_iff]
    simp only [modifyUse?_eq_some_iff]
    constructor
    · rintro ⟨_, read, value, rfl, takes⟩
      exact ⟨value, read, takes⟩
    · rintro ⟨value, read, takes⟩
      exact ⟨_, read, value, rfl, takes⟩
  · intro inner inside use read
    cases modified with
    | name => cases inside
    | brackets first last =>
      cases inside
      exact takesModifier_of_brackets unlisted first last read

/-! ### A colour with an alpha channel -/

def inkRule : Rule :=
  .keyed "ink" (.ofTexts [("sky", "#0ea5e9")]) (fun value => [⟨"color", value.primary⟩])
    { brackets := .any, modifier := some (.alpha (.ofTexts [("50", "0.5")])) }

def inkVocabulary : Vocabulary :=
  ⟨⟨∅, ∅⟩, (EntryIndex.progress [inkRule]).index, ∅⟩

/-- An alpha channel by its key onto a colour by its name, and one in brackets onto a colour in brackets. -/
theorem readRule?_unlisted_of_ink :
    inkVocabulary.entries.get? (String.ofList "ink-sky/50".toList) = none ∧
    inkVocabulary.readRule? "ink-sky/50".toList = some ⟨inkRule, "", 0, some (.plain "rgb(14 165 233 / 0.5)")⟩ ∧
    inkVocabulary.readRule? "ink-[#fff]/[.25]".toList =
      some ⟨inkRule, "", 1, some (.plain "rgb(255 255 255 / .25)")⟩ := by
  have unlisted : inkVocabulary.entries.get? (String.ofList "ink-sky/50".toList) = none := rfl
  have unlisted' : inkVocabulary.entries.get? (String.ofList "ink-[#fff]/[.25]".toList) = none := rfl
  have named : Modified "ink-sky/50".toList "ink-sky".toList none "50".toList :=
    @Modified.name "ink-sky".toList "50".toList (by decide) (by decide)
  have bracketed : Modified "ink-[#fff]/[.25]".toList "ink-[#fff]".toList (some "#fff".toList) "[.25]".toList :=
    @Modified.brackets "ink".toList "#fff".toList "[.25]".toList (by decide) (by decide)
  have sky : Color.parse? "#0ea5e9" = some ⟨.rgb, "14", "165", "233", none⟩ := by decide
  have white : Color.parse? "#fff" = some ⟨.rgb, "255", "255", "255", none⟩ := by decide
  have half : ModifierText (.ofTexts [("50", "0.5")]) "50".toList "0.5" :=
    @ModifierText.key _ _ (.plain "0.5") (by decide) rfl
  have quarter : ModifierText (.ofTexts [("50", "0.5")]) "[.25]".toList ".25" :=
    @ModifierText.brackets _ ".25".toList (by decide)
  obtain ⟨-, forms⟩ := readRule?_unlisted unlisted
  obtain ⟨-, forms'⟩ := readRule?_unlisted unlisted'
  refine ⟨unlisted, ?_, ?_⟩
  · exact ((forms _ _ _ named).1 (.inl rfl) _).mpr ⟨.plain "#0ea5e9", rfl, .alpha rfl half sky rfl rfl⟩
  · exact ((forms' _ _ _ bracketed).1 (.inr rfl) _).mpr ⟨.plain "#fff", rfl, .alpha rfl quarter white rfl rfl⟩

end Vocabulary

end UtilityCss
