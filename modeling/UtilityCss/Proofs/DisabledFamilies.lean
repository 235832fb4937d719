import Mathlib.Data.List.Forall2
import UtilityCss.Proofs.FewerRules
import UtilityCss.Proofs.OwnRules

/-!
# Families that are switched off

A family that is switched off takes its rules from the rule list, and an opacity family takes the alpha modifier
from the rules of its colour besides. No other rule changes, so what is left of the list reads tokens as before,
but for those with such a modifier.
-/

namespace UtilityCss

namespace Rule

variable {rule : Rule}

theorem Remains.trans {first second third : Rule} (h : first.Remains second) (g : second.Remains third) :
    first.Remains third := by
  refine ⟨h.name.trans g.name, h.listings.trans g.listings, h.values.trans g.values, ?_⟩
  rcases h.traits with same | bare
  · rw [same]
    exact g.traits
  · rcases g.traits with same | bare'
    · rw [bare, same]
      exact .inr rfl
    · rw [bare, bare']
      exact .inr rfl

theorem remains_keyed (stem : String) (values : Category) (traits : Traits)
    (declare declare' : Value → List Declaration) :
    (keyed stem values declare' traits).Remains (keyed stem values declare traits) :=
  ⟨rfl, rfl, rfl, .inl rfl⟩

theorem remains_directed (stem : String) (directions : List String) (values : Category) (traits : Traits)
    (declare declare' : String → String → List Declaration) :
    (directed stem directions values declare' traits).Remains (directed stem directions values declare traits) :=
  ⟨rfl, rfl, rfl, .inl rfl⟩

theorem remains_withModifier (bare : rule.traits.modifier = none) (modifier : Modifier) :
    rule.Remains (rule.withModifier modifier) := by
  have traits : ∀ {traits : Traits}, traits.modifier = none →
      traits = { { traits with modifier := some modifier } with modifier := none } := by
    intro traits none
    rw [← none]
  cases rule with
  | shortcut name utilities => exact remains_refl _
  | _ => exact ⟨rfl, rfl, rfl, .inr (traits bare)⟩

theorem modifier_withModifier (plain : rule.shortcut? = none) (modifier : Modifier) :
    (rule.withModifier modifier).traits.modifier = some modifier := by
  cases rule with
  | shortcut name utilities => cases plain
  | _ => rfl

/-- What is left of a rule with alpha modifiers takes none any more. -/
structure LosesAlpha (rule left : Rule) : Prop where
  remains : left.Remains rule
  alpha : ∃ values, rule.traits.modifier = some (.alpha values)
  bare : left.traits.modifier = none

end Rule

namespace Catalog
open Change

variable {theme : Theme} {flags flags' : FamilyFlags}

/-! ### Families under other flags -/

/-- The families of colours with the families of their opacities. -/
def opacityFamilies : List (String × String) :=
  [("divideColor", "divideOpacity"), ("borderColor", "borderOpacity"), ("backgroundColor", "backgroundOpacity"),
    ("textColor", "textOpacity"), ("placeholderColor", "placeholderOpacity"), ("ringColor", "ringOpacity")]

/-- The family of a colour, whose opacity family is on at first and off afterwards. -/
def LosesOpacity (flags flags' : FamilyFlags) (family : Family) : Prop :=
  ∃ opacity, (family.name, opacity) ∈ opacityFamilies ∧ flags.enabled opacity = true ∧
    flags'.enabled opacity = false

/-- A family and the same under other flags. -/
structure Switched (flags flags' : FamilyFlags) (old new : Family) : Prop where
  name : new.name = old.name
  rules : new.rules = old.rules ∨
    LosesOpacity flags flags' old ∧ List.Forall₂ Rule.LosesAlpha old.rules new.rules

theorem switched_refl (family : Family) : Switched flags flags' family family :=
  ⟨rfl, .inl rfl⟩

theorem Switched.remains {old new : Family} (switched : Switched flags flags' old new) :
    List.Forall₂ (fun rule left => left.Remains rule) old.rules new.rules := by
  rcases switched.rules with same | ⟨-, lost⟩
  · rw [same]
    exact List.forall₂_same.mpr fun rule _ => rule.remains_refl
  · exact lost.imp fun _ _ loses => loses.remains

theorem switched_alphaIf {colour opacity : String} {rule : Bool → Rule} {values : Category}
    (listed : (colour, opacity) ∈ opacityFamilies)
    (fewer : flags'.enabled opacity = true → flags.enabled opacity = true)
    (alike : (rule false).Remains (rule true)) (bare : ∀ wanted, (rule wanted).traits.modifier = none)
    (plain : (rule true).shortcut? = none) :
    Switched flags flags' ⟨colour, [alphaIf (flags.enabled opacity) values (rule (flags.enabled opacity))]⟩
      ⟨colour, [alphaIf (flags'.enabled opacity) values (rule (flags'.enabled opacity))]⟩ := by
  refine ⟨rfl, ?_⟩
  -- Only an opacity family that is switched off changes the rule.
  cases now : flags'.enabled opacity with
  | true =>
    rw [fewer now]
    exact .inl rfl
  | false =>
    cases was : flags.enabled opacity with
    | false => exact .inl rfl
    | true =>
      have loses : (alphaIf true values (rule true)).LosesAlpha (alphaIf false values (rule false)) :=
        ⟨alike.trans (Rule.remains_withModifier (bare true) _), ⟨values, Rule.modifier_withModifier plain _⟩,
          bare false⟩
      exact .inr ⟨⟨opacity, listed, was, now⟩, .cons loses .nil⟩

section Switched
variable (t : String → Category) (fewer : ∀ name, flags'.enabled name = true → flags.enabled name = true)
include fewer

-- In each list a family of colours needs its own step. All other families do not read the flags, and are found
-- to be the same without unfolding their rules.

theorem arrangement_switched : List.Forall₂ (Switched flags flags')
    (arrangement t (flags.enabled "divideOpacity")) (arrangement t (flags'.enabled "divideOpacity")) := by
  have divide := @switched_alphaIf flags flags' "divideColor" "divideOpacity"
    (fun wanted => ((alphaColor "divide" (t "divideColor") "--tw-divide-opacity" "border-color"
      wanted).withSelectorChange laterChildren).withBrackets .colorOnly)
    (t "divideOpacity") (by simp [opacityFamilies]) (fewer _) (Rule.remains_keyed ..) (fun _ => rfl) rfl
  unfold arrangement
  repeat first | exact .nil | with_reducible refine .cons (switched_refl _) ?_ | refine .cons divide ?_

theorem surface_switched : List.Forall₂ (Switched flags flags')
    (surface t (flags.enabled "borderOpacity") (flags.enabled "backgroundOpacity"))
    (surface t (flags'.enabled "borderOpacity") (flags'.enabled "backgroundOpacity")) := by
  have border := @switched_alphaIf flags flags' "borderColor" "borderOpacity"
    (fun wanted => (Rule.directed "border" sideDirections (t "borderColor") fun direction value =>
      Color.declarations value "--tw-border-opacity" wanted
        ((sides direction).map fun side => "border" ++ side ++ "-color")).withFilterDefault.withBrackets
      .colorOnly)
    (t "borderOpacity") (by simp [opacityFamilies]) (fewer _) (Rule.remains_directed ..) (fun _ => rfl) rfl
  have background := @switched_alphaIf flags flags' "backgroundColor" "backgroundOpacity"
    (fun wanted => (alphaColor "bg" (t "backgroundColor") "--tw-bg-opacity" "background-color"
      wanted).withBrackets .colorOnly) (t "backgroundOpacity") (by simp [opacityFamilies]) (fewer _)
    (Rule.remains_keyed ..) (fun _ => rfl) rfl
  unfold surface borderColors
  repeat first
    | exact .nil
    | with_reducible refine .cons (switched_refl _) ?_
    | refine .cons border ?_
    | refine .cons background ?_

theorem typography_switched : List.Forall₂ (Switched flags flags')
    (typography t (flags.enabled "textOpacity") (flags.enabled "placeholderOpacity"))
    (typography t (flags'.enabled "textOpacity") (flags'.enabled "placeholderOpacity")) := by
  have text := @switched_alphaIf flags flags' "textColor" "textOpacity"
    (fun wanted => (alphaColor "text" (t "textColor") "--tw-text-opacity" "color" wanted).withBrackets .colorOnly)
    (t "textOpacity") (by simp [opacityFamilies]) (fewer _) (Rule.remains_keyed ..) (fun _ => rfl) rfl
  have placeholder := @switched_alphaIf flags flags' "placeholderColor" "placeholderOpacity"
    (fun wanted => (alphaColor "placeholder" (t "placeholderColor") "--tw-placeholder-opacity" "color"
      wanted).withSelectorChange placeholderText) (t "placeholderOpacity") (by simp [opacityFamilies]) (fewer _)
    (Rule.remains_keyed ..) (fun _ => rfl) rfl
  unfold typography
  repeat first
    | exact .nil
    | with_reducible refine .cons (switched_refl _) ?_
    | refine .cons text ?_
    | refine .cons placeholder ?_

theorem effects_switched : List.Forall₂ (Switched flags flags')
    (effects t (flags.enabled "ringOpacity")) (effects t (flags'.enabled "ringOpacity")) := by
  have ring := @switched_alphaIf flags flags' "ringColor" "ringOpacity"
    (fun wanted => (alphaColor "ring" (t "ringColor") "--tw-ring-opacity" "--tw-ring-color"
      wanted).withFilterDefault.withBrackets .colorOnly) (t "ringOpacity") (by simp [opacityFamilies]) (fewer _)
    (Rule.remains_keyed ..) (fun _ => rfl) rfl
  unfold effects
  repeat first | exact .nil | with_reducible refine .cons (switched_refl _) ?_ | refine .cons ring ?_

theorem families_switched (theme : Theme) :
    List.Forall₂ (Switched flags flags') (families theme flags) (families theme flags') := by
  have same : ∀ families : List Family, List.Forall₂ (Switched flags flags') families families :=
    fun _ => List.forall₂_same.mpr fun _ _ => switched_refl _
  have front := List.rel_append (List.rel_append (same (layout theme.category)) (same (motion theme.category)))
    (arrangement_switched theme.category fewer)
  have middle := List.rel_append front (surface_switched theme.category fewer)
  exact List.rel_append (List.rel_append middle (typography_switched theme.category fewer))
    (effects_switched theme.category fewer)

end Switched

/-! ### Rule lists under other flags -/

/-- Rules with what is left of them. -/
def paired (rules left : List Rule) : List Change :=
  rules.zipWith (fun rule left => ⟨rule, some left⟩) left

/-- What other flags make of the rules of a family that is on: the family goes as a whole, or something is left of
each of its rules. -/
def familyChanges (flags flags' : FamilyFlags) (old new : Family) : List Change :=
  if flags.enabled old.name then
    if flags'.enabled old.name then paired old.rules new.rules else old.rules.map (⟨·, none⟩)
  else []

/-- What other flags make of a rule list: shortcuts and user rules stay. -/
def changes (theme : Theme) (flags flags' : FamilyFlags) (userRules : List Rule) (shortcuts : Table String) :
    List Change :=
  let kept (rules : List Rule) := paired rules rules
  kept (EntryIndex.shortcutRules shortcuts.toList) ++ (kept (userRules.filter (·.traits.injectFirst)) ++
    ((families theme flags).zipWith (familyChanges flags flags') (families theme flags')).flatten ++
    kept (userRules.filter (!·.traits.injectFirst)))

theorem before_append (front back : List Change) : before (front ++ back) = before front ++ before back :=
  List.map_append

theorem after_append (front back : List Change) : after (front ++ back) = after front ++ after back :=
  List.filterMap_append

theorem paired_sides {R : Rule → Rule → Prop} {rules left : List Rule} (related : List.Forall₂ R rules left) :
    before (paired rules left) = rules ∧ after (paired rules left) = left ∧
      ∀ change ∈ paired rules left, ∃ rule, change.left = some rule ∧ R change.rule rule := by
  induction related with
  | nil => exact ⟨rfl, rfl, fun _ member => nomatch member⟩
  | cons first _ ih =>
    obtain ⟨before, after, each⟩ := ih
    refine ⟨congrArg _ before, congrArg _ after, List.forall_mem_cons.mpr ⟨⟨_, rfl, first⟩, each⟩⟩

theorem paired_self (rules : List Rule) :
    before (paired rules rules) = rules ∧ after (paired rules rules) = rules ∧
      ∀ change ∈ paired rules rules, change.left = some change.rule := by
  have same : List.Forall₂ Eq rules rules := List.forall₂_refl rules
  obtain ⟨was, now, each⟩ := paired_sides same
  refine ⟨was, now, fun change member => ?_⟩
  obtain ⟨left, stays, rfl⟩ := each change member
  exact stays

variable {old new : Family}

theorem before_familyChanges (switched : Switched flags flags' old new) :
    before (familyChanges flags flags' old new) = if flags.enabled old.name then old.rules else [] := by
  unfold familyChanges
  split
  · split
    · exact (paired_sides switched.remains).1
    · simp [before, Function.comp_def]
  · rfl

theorem after_familyChanges (switched : Switched flags flags' old new)
    (fewer : flags'.enabled old.name = true → flags.enabled old.name = true) :
    after (familyChanges flags flags' old new) = if flags'.enabled new.name then new.rules else [] := by
  unfold familyChanges
  rw [switched.name]
  split
  · split
    · exact (paired_sides switched.remains).2.1
    · simp [after]
  · rename_i off
    rw [if_neg fun on => off (fewer on)]
    rfl

theorem families_sides {olds news : List Family} (switched : List.Forall₂ (Switched flags flags') olds news)
    (fewer : ∀ name, flags'.enabled name = true → flags.enabled name = true) :
    let changes := (olds.zipWith (familyChanges flags flags') news).flatten
    before changes = (olds.filter (flags.enabled ·.name)).flatMap (·.rules) ∧
      after changes = (news.filter (flags'.enabled ·.name)).flatMap (·.rules) := by
  induction switched with
  | nil => exact ⟨rfl, rfl⟩
  | cons first _ ih =>
    obtain ⟨was, now⟩ := ih
    rw [List.zipWith_cons_cons, List.flatten_cons]
    refine ⟨?_, ?_⟩
    · rw [before_append, was, before_familyChanges first, List.filter_cons]
      split <;> simp
    · rw [after_append, now, after_familyChanges first (fewer _), List.filter_cons]
      split <;> simp

theorem changes_sides {userRules rules rules' : List Rule} {shortcuts : Table String}
    (fewer : ∀ name, flags'.enabled name = true → flags.enabled name = true)
    (ruled : Catalog.rules theme flags userRules shortcuts = .ok rules)
    (ruled' : Catalog.rules theme flags' userRules shortcuts = .ok rules') :
    before (changes theme flags flags' userRules shortcuts) = rules ∧
      after (changes theme flags flags' userRules shortcuts) = rules' := by
  obtain ⟨was, now⟩ := families_sides (families_switched fewer theme) fewer
  -- Shortcuts and user rules are the same on both sides, so only the families are left to compare.
  rw [(rules_eq_ok ruled).1, (rules_eq_ok ruled').1, others, others]
  simp only [changes, before_append, after_append, was, now, paired_self, and_self]

/-! ### What becomes of a rule -/

/-- What becomes of a rule under other flags: it stays the same, it goes with its family, or it stays without the
alpha modifier of its family. -/
inductive Outcome (theme : Theme) (flags flags' : FamilyFlags) (change : Change) : Prop
  | same (stays : change.left = some change.rule)
  | off (family : Family) (listed : family ∈ families theme flags) (inside : change.rule ∈ family.rules)
      (off : flags'.enabled family.name = false) (gone : change.left = none)
  | alpha (family : Family) (listed : family ∈ families theme flags) (inside : change.rule ∈ family.rules)
      (dimmed : LosesOpacity flags flags' family) (left : Rule) (stays : change.left = some left)
      (loses : change.rule.LosesAlpha left)

theorem Outcome.remains {change : Change} (outcome : Outcome theme flags flags' change) : change.Remains := by
  intro left stays
  cases outcome with
  | same same =>
    cases same.symm.trans stays
    exact Rule.remains_refl _
  | off family listed inside off gone => cases gone.symm.trans stays
  | alpha family listed inside dimmed other same loses =>
    cases same.symm.trans stays
    exact loses.remains

theorem outcome_family (switched : Switched flags flags' old new) (listed : old ∈ families theme flags)
    {change : Change} (member : change ∈ familyChanges flags flags' old new) :
    Outcome theme flags flags' change := by
  have inside : change.rule ∈ old.rules := by
    have source := before_familyChanges switched
    have known := List.mem_map_of_mem (f := (·.rule)) member
    rw [← before, source] at known
    split at known
    · exact known
    · cases known
  unfold familyChanges at member
  split at member
  · split at member
    · rcases switched.rules with same | ⟨dimmed, lost⟩
      · rw [same] at member
        exact .same ((paired_self _).2.2 change member)
      · obtain ⟨left, stays, loses⟩ := (paired_sides lost).2.2 change member
        exact .alpha old listed inside dimmed left stays loses
    · rename_i off
      obtain ⟨_, -, rfl⟩ := List.mem_map.mp member
      exact .off old listed inside (Bool.eq_false_iff.mpr off) rfl
  · cases member

theorem outcome_changes {userRules : List Rule} {shortcuts : Table String}
    (fewer : ∀ name, flags'.enabled name = true → flags.enabled name = true) {change : Change}
    (member : change ∈ changes theme flags flags' userRules shortcuts) : Outcome theme flags flags' change := by
  have kept : ∀ rules : List Rule, change ∈ paired rules rules → Outcome theme flags flags' change :=
    fun rules member => .same ((paired_self rules).2.2 change member)
  have families : ∀ {olds news : List Family}, List.Forall₂ (Switched flags flags') olds news →
      (∀ family ∈ olds, family ∈ families theme flags) →
      change ∈ (olds.zipWith (familyChanges flags flags') news).flatten → Outcome theme flags flags' change := by
    intro olds news switched
    induction switched with
    | nil => exact fun _ member => nomatch member
    | cons first _ ih =>
      intro listed member
      obtain ⟨here, later⟩ := List.forall_mem_cons.mp listed
      rw [List.zipWith_cons_cons, List.flatten_cons, List.mem_append] at member
      rcases member with member | member
      · exact outcome_family first here member
      · exact ih later member
  simp only [changes, List.mem_append] at member
  rcases member with shortcut | (injected | builtIn) | user
  · exact kept _ shortcut
  · exact kept _ injected
  · exact families (families_switched fewer theme) (fun _ listed => listed) builtIn
  · exact kept _ user

/-! ### A colour and its opacity -/

/-- A theme of one colour and one opacity. -/
def ink : Theme where
  categories := .ofList [("textColor", .ofList [("black", .plain "#000")]),
    ("textOpacity", .ofList [("50", .plain "0.5")])]
  screens := ∅
  container := {}

/-- Only the colours of text are on, with their opacities or without. -/
def inkFlags (opacity : Bool) : FamilyFlags :=
  (allOff.insert "textColor" true).insert "textOpacity" opacity

def inkColour (alpha : Bool) : Rule :=
  alphaIf alpha (ink.category "textOpacity")
    ((alphaColor "text" (ink.category "textColor") "--tw-text-opacity" "color" alpha).withBrackets .colorOnly)

def inkOpacity : Rule :=
  property "text-opacity" (ink.category "textOpacity") "--tw-text-opacity"

def inkRules (opacity : Bool) : List Rule :=
  inkColour opacity :: if opacity then [inkOpacity] else []

def inkVocabulary (opacity : Bool) : Vocabulary :=
  ⟨.ofTheme ink, (EntryIndex.progress (inkRules opacity)).index, ink.category "lineHeight"⟩

/-- Whether a family is one of the colours and the opacities of text, and on. -/
def isInk (opacity : Bool) (name : String) : Bool :=
  name = "textColor" || opacity && name = "textOpacity"

theorem enabled_ink {opacity : Bool} {name : String} (known : name ∈ familyNames) :
    (inkFlags opacity).enabled name = isInk opacity name := by
  simp only [FamilyFlags.enabled, inkFlags, isInk, Std.TreeMap.getElem?_insert,
    Std.LawfulEqCmp.compare_eq_iff_eq, getElem?_allOff, if_pos known]
  by_cases textOpacity : "textOpacity" = name
  · subst textOpacity
    simp
  · by_cases textColor : "textColor" = name
    · subst textColor
      simp
    · simp [textOpacity, textColor, Ne.symm textOpacity, Ne.symm textColor]

theorem inkFlags_fewer (name : String) (on : (inkFlags false).enabled name = true) :
    (inkFlags true).enabled name = true := by
  simp only [FamilyFlags.enabled, inkFlags, Std.TreeMap.getElem?_insert] at on ⊢
  split
  · rfl
  · rename_i other
    rwa [if_neg other] at on

theorem inkFlags_known (opacity : Bool) : ∀ name ∈ inkFlags opacity, name ∈ familyNames := by
  intro name member
  simp only [inkFlags, Std.TreeMap.mem_insert, Std.LawfulEqCmp.compare_eq_iff_eq] at member
  rcases member with rfl | rfl | member
  · decide
  · decide
  · exact allOff_known name member

set_option maxRecDepth 4096 in
theorem families_ink (flags : FamilyFlags) : ((families ink flags).drop 123).take 2 =
    [⟨"textColor", [inkColour (flags.enabled "textOpacity")]⟩, ⟨"textOpacity", [inkOpacity]⟩] := rfl

theorem rules_ink (opacity : Bool) : Catalog.rules ink (inkFlags opacity) [] ∅ = .ok (inkRules opacity) := by
  have on : ∀ family ∈ families ink (inkFlags opacity),
      (inkFlags opacity).enabled family.name = isInk opacity family.name := by
    intro family member
    refine enabled_ink ?_
    rw [← map_name_families ink (inkFlags opacity)]
    exact List.mem_map_of_mem member
  have off : (familyNames.take 123 ++ familyNames.drop (123 + 2)).all (!isInk opacity ·) = true := by
    cases opacity <;> decide
  have opacityOn : (inkFlags opacity).enabled "textOpacity" = opacity :=
    (enabled_ink (by decide)).trans (by simp [isInk])
  rw [rules_of_checks (inkFlags_known opacity) rfl rfl, others, List.filter_congr on, filter_families 123 2 off,
    families_ink, opacityOn]
  cases opacity <;> rfl

theorem build_ink (opacity : Bool) :
    EntryIndex.build (inkRules opacity) = .ok ((inkVocabulary opacity).entries, []) := by
  cases opacity <;> rfl

theorem read?_ink (opacity : Bool) {answer : Option Value}
    (modified : Vocabulary.modify? (ink.category "lineHeight") (inkColour opacity) (.plain "#000") ['5', '0'] = answer) :
    (inkVocabulary opacity).read? "text-black/50" = answer.map fun value =>
      ⟨"text-black/50", [], false, .rule ⟨inkColour opacity, "", 0, some value⟩⟩ := by
  have plain : TokenParts.ofToken "text-black/50".toList = ⟨[], false, "text-black/50".toList⟩ :=
    TokenParts.ofToken_uncut (by decide) (by decide)
  have unknown : (inkVocabulary opacity).entries.get? "text-black/50" = none := by cases opacity <;> rfl
  have known : (inkVocabulary opacity).entries.get? "text-black" =
      some ⟨inkColour opacity, "black", "", false, 0⟩ := by cases opacity <;> rfl
  have uncut : Text.cut? ['-', '['] "text-black/50".toList = none := by decide
  have cut : Text.cut? ['/'] "text-black/50".toList = some ("text-black".toList, ['5', '0']) := by decide
  have value : (⟨inkColour opacity, "black", "", false, 0⟩ : Entry).value? = some (.plain "#000") := by
    cases opacity <;> rfl
  have body : (inkVocabulary opacity).readBody? "text-black/50".toList =
      ((inkVocabulary opacity).readRule? "text-black/50".toList).map .rule := rfl
  have heights : (inkVocabulary opacity).lineHeights = ink.category "lineHeight" := rfl
  simp only [Vocabulary.read?, plain, body, Vocabulary.readRule?, String.ofList_toList, unknown, uncut, cut, heights,
    Vocabulary.readModified?, known, value, modified, List.mapM_nil, Option.pure_def, Option.bind_eq_bind,
    Option.bind_some]
  cases answer <;> rfl

/-! ### Reading under other flags -/

/-- Taking rules from a rule list keeps what tokens of the other rules stand for, and the order of these rules. So
does switching families off, but for the modifiers that an opacity family takes from the rule of its colour. -/
theorem readings_of_fewer_rules :
    (∀ (changes : List Change) (v : Vocabulary) (warnings : List Warning),
      (∀ change ∈ changes, change.IsDeletion) →
      EntryIndex.build (before changes) = .ok (v.entries, warnings) →
      ∃ index notices, EntryIndex.build (after changes) = .ok (index, notices) ∧
        (∀ token u use, v.read? token = some u → u.body = .rule use →
          ∃ change ∈ changes, change.rule = use.rule ∧ change.left = leftAt changes use.order ∧
            (change.left.isSome → ({ v with entries := index } : Vocabulary).read? token =
              some { u with body := .rule { use with order := newPlace changes use.order } })) ∧
        ∀ m n, (leftAt changes m).isSome → (leftAt changes n).isSome →
          (newPlace changes m < newPlace changes n ↔ m < n)) ∧
    ∀ (theme : Theme) (flags flags' : FamilyFlags) (userRules rules rules' : List Rule) (shortcuts : Table String)
      (v : Vocabulary) (warnings : List Warning),
      (∀ name, flags'.enabled name = true → flags.enabled name = true) →
      Catalog.rules theme flags userRules shortcuts = .ok rules →
      Catalog.rules theme flags' userRules shortcuts = .ok rules' →
      EntryIndex.build rules = .ok (v.entries, warnings) →
      let changes := changes theme flags flags' userRules shortcuts
      before changes = rules ∧ after changes = rules' ∧
        (∀ change ∈ changes, Outcome theme flags flags' change) ∧
        ∃ index notices, EntryIndex.build rules' = .ok (index, notices) ∧
          ReadsOn changes v { v with entries := index } := by
  refine ⟨fun changes v warnings deletions built => ?_,
    fun theme flags flags' userRules rules rules' shortcuts v warnings fewer ruled ruled' built => ?_⟩
  · obtain ⟨index, notices, done, reads⟩ :=
      readsOn_of_build (fun change member => remains_of_isDeletion (deletions change member)) built
    refine ⟨index, notices, done, fun token u use read ruled => ?_, reads.order⟩
    obtain ⟨change, member, same, place⟩ := reads.source token u use read ruled
    refine ⟨change, member, same, place.symm, fun stays => ?_⟩
    obtain ⟨left, stays⟩ := Option.isSome_iff_exists.mp stays
    obtain rfl := (deletions change member left stays).trans same
    exact reads.same token u use _ read ruled (place.trans stays) (.inr rfl)
  · obtain ⟨was, now⟩ := changes_sides fewer ruled ruled'
    have outcomes : ∀ change ∈ changes theme flags flags' userRules shortcuts, Outcome theme flags flags' change :=
      fun change member => outcome_changes fewer member
    rw [← was] at built
    obtain ⟨index, notices, done, reads⟩ :=
      readsOn_of_build (fun change member => (outcomes change member).remains) built
    rw [now] at done
    exact ⟨was, now, outcomes, index, notices, done, reads⟩

/-- The second rule moves to the front when the first one is taken away, and the opacities of text can go. -/
theorem readings_of_own_and_ink :
    (∃ index notices, EntryIndex.build [flushRule] = .ok (index, notices) ∧
      (⟨.ofTheme ink, index, ∅⟩ : Vocabulary).read? "flush" =
        some ⟨"flush", [], false, .rule ⟨flushRule, "", 0, none⟩⟩) ∧
    ∃ index notices, EntryIndex.build (inkRules false) = .ok (index, notices) ∧
      ReadsOn (changes ink (inkFlags true) (inkFlags false) [] ∅) (inkVocabulary true)
        { inkVocabulary true with entries := index } := by
  constructor
  · obtain ⟨index, notices, done, reads, -⟩ := readings_of_fewer_rules.1
      [⟨spunRule, none⟩, ⟨flushRule, some flushRule⟩] ⟨.ofTheme ink, ownIndex, ∅⟩ [] (by simp [IsDeletion]) rfl
    obtain ⟨change, -, -, place, kept⟩ := reads "flush" flush _ (Vocabulary.read?_flush rfl) rfl
    exact ⟨index, notices, done, kept (by rw [place]; rfl)⟩
  · obtain ⟨-, -, -, done⟩ := readings_of_fewer_rules.2 ink (inkFlags true) (inkFlags false) [] (inkRules true)
      (inkRules false) ∅ (inkVocabulary true) [] inkFlags_fewer (rules_ink true) (rules_ink false) (build_ink true)
    exact done

/-- The opacities of text are switched off and its colours are not, and a token of the colours is not read any
more. -/
theorem text_without_opacity : ∃ use family,
    Catalog.rules ink (inkFlags true) [] ∅ = .ok (inkRules true) ∧
    Catalog.rules ink (inkFlags false) [] ∅ = .ok (inkRules false) ∧
    EntryIndex.build (inkRules true) = .ok ((inkVocabulary true).entries, []) ∧
    EntryIndex.build (inkRules false) = .ok ((inkVocabulary false).entries, []) ∧
    (inkVocabulary true).read? "text-black/50" = some ⟨"text-black/50", [], false, .rule use⟩ ∧
    family ∈ families ink (inkFlags true) ∧ use.rule ∈ family.rules ∧
    (inkFlags false).enabled family.name = true ∧
    (inkVocabulary false).read? "text-black/50" = none := by
  have on : (inkFlags true).enabled "textOpacity" = true := (enabled_ink (by decide)).trans (by simp [isInk])
  have part := families_ink (inkFlags true)
  rw [on] at part
  have listed : (⟨"textColor", [inkColour true]⟩ : Family) ∈ families ink (inkFlags true) :=
    List.mem_of_mem_drop (List.mem_of_mem_take (part ▸ List.mem_cons_self))
  have modified : Vocabulary.modify? (ink.category "lineHeight") (inkColour true) (.plain "#000") ['5', '0'] =
      some (.plain "rgb(0 0 0 / 0.5)") := by decide
  refine ⟨⟨inkColour true, "", 0, some (.plain "rgb(0 0 0 / 0.5)")⟩, _, rules_ink true, rules_ink false,
    build_ink true, build_ink false, read?_ink true modified, listed, List.mem_cons_self, ?_, read?_ink false rfl⟩
  exact (enabled_ink (by decide)).trans (by simp [isInk])

end Catalog

end UtilityCss
