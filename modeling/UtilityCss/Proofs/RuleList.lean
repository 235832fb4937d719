import UtilityCss.Catalog
import UtilityCss.Proofs.Readings

/-!
# Rule lists

A rule list starts with its shortcuts, and nothing behind them is a shortcut. With every built-in family
switched off, it holds what the settings define and nothing else.
-/

namespace UtilityCss

namespace Catalog

/-! ### Shortcuts -/

/-- What stands behind the shortcuts. -/
def others (theme : Theme) (flags : FamilyFlags) (userRules : List Rule) : List Rule :=
  userRules.filter (·.traits.injectFirst) ++
    ((families theme flags).filter fun family => flags.enabled family.name).flatMap (·.rules) ++
    userRules.filter (!·.traits.injectFirst)

/-- Whether a family has no shortcut among its rules. -/
def isPlain (family : Family) : Bool :=
  family.rules.all fun rule => rule.shortcut?.isNone

section Plain
set_option maxRecDepth 8192

theorem layout_plain (t : String → Category) : (layout t).all isPlain = true := rfl

theorem motion_plain (t : String → Category) : (motion t).all isPlain = true := rfl

theorem arrangement_plain (t : String → Category) (a : Bool) : (arrangement t a).all isPlain = true := by
  cases a <;> rfl

theorem surface_plain (t : String → Category) (a b : Bool) : (surface t a b).all isPlain = true := by
  cases a <;> cases b <;> rfl

theorem typography_plain (t : String → Category) (a b : Bool) : (typography t a b).all isPlain = true := by
  cases a <;> cases b <;> rfl

theorem effects_plain (t : String → Category) (a : Bool) : (effects t a).all isPlain = true := by
  cases a <;> rfl

end Plain

theorem families_plain (theme : Theme) (flags : FamilyFlags) : (families theme flags).all isPlain = true := by
  simp only [families, List.all_append, layout_plain, motion_plain, arrangement_plain, surface_plain,
    typography_plain, effects_plain, Bool.and_self]

theorem userRule_plain {rule : Rule} (checked : checkUserRule rule = .ok ()) : rule.shortcut? = none := by
  cases rule with
  | shortcut name utilities =>
    unfold checkUserRule at checked
    split at checked <;> cases checked
  | _ => rfl

/-- A rule list is its shortcuts and other rules behind them. -/
theorem rules_eq_ok {theme : Theme} {flags : FamilyFlags} {userRules rules : List Rule}
    {shortcuts : Table String} (ruled : Catalog.rules theme flags userRules shortcuts = .ok rules) :
    rules = EntryIndex.shortcutRules shortcuts.toList ++ others theme flags userRules ∧
      ∀ rule ∈ others theme flags userRules, rule.shortcut? = none := by
  obtain ⟨_, flagged, ruled⟩ := bind_eq_ok ruled
  obtain ⟨_, checked, ruled⟩ := bind_eq_ok ruled
  obtain ⟨_, defined, ruled⟩ := bind_eq_ok ruled
  refine ⟨?_, fun rule member => ?_⟩
  · rw [← Except.ok.inj ruled, others, EntryIndex.shortcutRules, List.append_assoc, List.append_assoc,
      List.append_assoc]
  · have user : ∀ x ∈ userRules, x.shortcut? = none := fun x hx => userRule_plain (eq_ok_of_forM checked x hx)
    rcases List.mem_append.mp member with front | back
    · rcases List.mem_append.mp front with injected | builtIn
      · exact user rule (List.mem_filter.mp injected).1
      · obtain ⟨family, enabled, inside⟩ := List.mem_flatMap.mp builtIn
        have plain := List.all_eq_true.mp (families_plain theme flags) family (List.mem_filter.mp enabled).1
        exact Option.isNone_iff_eq_none.mp (List.all_eq_true.mp plain rule inside)
    · exact user rule (List.mem_filter.mp back).1

/-! ### Families that are off -/

/-- The names of the built-in families, which depend on neither theme nor flags. -/
def familyNames : List String :=
  (families ⟨∅, ∅, {}⟩ ∅).map (·.name)

set_option maxRecDepth 4096 in
theorem map_name_families (theme : Theme) (flags : FamilyFlags) :
    (families theme flags).map (·.name) = familyNames := rfl

theorem checkFlags_eq_ok {families : List Family} {flags : FamilyFlags}
    (known : ∀ name ∈ flags, name ∈ families.map (·.name)) : checkFlags families flags = .ok () := by
  have none : flags.keys.find? (fun name => !families.any (·.name = name)) = none := by
    rw [List.find?_eq_none]
    intro name member
    obtain ⟨family, here, same⟩ := List.mem_map.mp (known name (Std.TreeMap.mem_keys.mp member))
    simp only [Bool.not_eq_true', Bool.not_eq_false, List.any_eq_true, decide_eq_true_eq]
    exact ⟨family, here, same⟩
  unfold checkFlags
  rw [none]

/-- Flags that name families only and definitions that pass their checks give a rule list. -/
theorem rules_of_checks {theme : Theme} {flags : FamilyFlags} {userRules : List Rule} {shortcuts : Table String}
    (known : ∀ name ∈ flags, name ∈ familyNames) (checked : userRules.forM checkUserRule = .ok ())
    (defined : (shortcuts.toList.forM fun (name, utilities) => checkShortcut name utilities) = .ok ()) :
    rules theme flags userRules shortcuts =
      .ok (EntryIndex.shortcutRules shortcuts.toList ++ others theme flags userRules) := by
  have flagged : checkFlags (families theme flags) flags = .ok () := by
    apply checkFlags_eq_ok
    rw [map_name_families]
    exact known
  simp only [rules, flagged, checked, defined, bind, Except.bind, others, EntryIndex.shortcutRules,
    List.append_assoc]
  rfl

/-- When the flags name families only and switch all of them off, a rule list holds the shortcuts and the
user rules. -/
theorem rules_eq_of_off {theme : Theme} {flags : FamilyFlags} {userRules : List Rule}
    {shortcuts : Table String} (known : ∀ name ∈ flags, name ∈ familyNames)
    (off : ∀ name ∈ familyNames, flags.enabled name = false)
    (checked : userRules.forM checkUserRule = .ok ())
    (defined : (shortcuts.toList.forM fun (name, utilities) => checkShortcut name utilities) = .ok ()) :
    rules theme flags userRules shortcuts =
      .ok (shortcuts.toList.map (fun (name, utilities) => .shortcut name utilities) ++
        userRules.filter (·.traits.injectFirst) ++ userRules.filter (!·.traits.injectFirst)) := by
  have none : ((families theme flags).filter fun family => flags.enabled family.name) = [] := by
    rw [List.filter_eq_nil_iff]
    intro family member
    have named : family.name ∈ familyNames := by
      rw [← map_name_families theme flags]
      exact List.mem_map_of_mem member
    rw [off _ named]
    exact Bool.false_ne_true
  simp only [rules_of_checks known checked defined, others, none, List.flatMap_nil, List.append_nil,
    List.append_assoc]
  rfl

/-- The families that are on are among a part of all families, if all others are off. -/
theorem filter_families {theme : Theme} {flags : FamilyFlags} {on : String → Bool} (start count : Nat)
    (off : (familyNames.take start ++ familyNames.drop (start + count)).all (!on ·) = true) :
    (families theme flags).filter (on ·.name) =
      (((families theme flags).drop start).take count).filter (on ·.name) := by
  have none : ∀ part : List Family, (part.map (·.name)).all (!on ·) = true → part.filter (on ·.name) = [] := by
    intro part quiet
    simpa [List.filter_eq_nil_iff] using quiet
  rw [List.all_append, Bool.and_eq_true, ← map_name_families theme flags, ← List.map_take, ← List.map_drop] at off
  have parts : families theme flags = (families theme flags).take start ++
      (((families theme flags).drop start).take count ++ (families theme flags).drop (start + count)) := by
    rw [← List.drop_drop, List.take_append_drop, List.take_append_drop]
  refine (congrArg (List.filter (on ·.name)) parts).trans ?_
  rw [List.filter_append, List.filter_append, none _ off.1, none _ off.2, List.nil_append, List.append_nil]

/-- Every built-in family switched off. -/
def allOff : FamilyFlags :=
  familyNames.foldl (fun flags name => flags.insert name false) ∅

theorem getElem?_foldl_insert (names : List String) (flags : FamilyFlags) (name : String) :
    (names.foldl (fun flags name => flags.insert name false) flags)[name]? =
      if name ∈ names then some false else flags[name]? := by
  induction names generalizing flags with
  | nil => simp
  | cons first names ih =>
    rw [List.foldl_cons, ih]
    by_cases later : name ∈ names
    · simp [later]
    · by_cases same : first = name
      · simp [later, same]
      · have other : compare first name ≠ .eq := fun e => same (Std.LawfulEqCmp.compare_eq_iff_eq.mp e)
        simp [later, Std.TreeMap.getElem?_insert, other, Ne.symm same]

theorem getElem?_allOff (name : String) :
    allOff[name]? = if name ∈ familyNames then some false else none := by
  rw [allOff, getElem?_foldl_insert]
  simp

theorem allOff_known : ∀ name ∈ allOff, name ∈ familyNames := by
  intro name member
  have flagged : allOff[name]?.isSome = true := by
    rw [Std.TreeMap.isSome_getElem?_eq_contains, Std.TreeMap.contains_iff_mem]
    exact member
  rw [getElem?_allOff] at flagged
  by_cases named : name ∈ familyNames
  · exact named
  · rw [if_neg named] at flagged
    exact absurd flagged Bool.false_ne_true

theorem allOff_off : ∀ name ∈ familyNames, allOff.enabled name = false := by
  intro name named
  rw [FamilyFlags.enabled, getElem?_allOff, if_pos named]
  rfl

end Catalog

end UtilityCss
