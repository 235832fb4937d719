import UtilityCss.Proofs.ScreenNames

/-!
# Where the values of a theme come from

A category holds what the configuration adds to it, and under any other key what the configuration has in its place or
else what the base theme or a derivation has there. Derivations read the screens and the categories that stand on their
own, never each other: what is said about a derived category shows nowhere else, `resolved_categories`.
-/

namespace UtilityCss

namespace Table

variable {β γ : Type} {name : String}

theorem get?_extend (t u : Table β) (key : String) : (t.extend u).get? key = (u.get? key).or (t.get? key) := by
  unfold extend
  by_cases listed : key ∈ u.toList.map (·.1)
  · obtain ⟨value, member, found⟩ := exists_get?_insertAll listed
    rw [found, mem_toList_iff.mp member]
    rfl
  · rw [get?_insertAll_of_notMem listed]
    rw [map_fst_toList, mem_keys_iff, Bool.not_eq_true, Option.isSome_eq_false_iff,
      Option.isNone_iff_eq_none] at listed
    rw [listed]
    rfl

section Made
variable {R : String → γ → β → Prop} {parts : List (String × γ)} {made : List (String × β)}

theorem map_fst_of_forall₂
    (each : List.Forall₂ (fun part pair => pair.1 = part.1 ∧ R part.1 part.2 pair.2) parts made) :
    made.map (·.1) = parts.map (·.1) := by
  induction each with
  | nil => rfl
  | cons first _ ih => rw [List.map_cons, List.map_cons, first.1, ih]

/-- Of two lists that correspond, the last parts with a name correspond as well, and these are the ones that count. -/
theorem exists_get?_of_forall₂
    (each : List.Forall₂ (fun part pair => pair.1 = part.1 ∧ R part.1 part.2 pair.2) parts made)
    (listed : name ∈ parts.map (·.1)) :
    ∃ x y, R name x y ∧ (∀ t : Table γ, (t.insertAll parts).get? name = some x) ∧
      ∀ t : Table β, (t.insertAll made).get? name = some y := by
  induction each with
  | nil => exact absurd listed List.not_mem_nil
  | @cons part pair parts made first rest ih =>
    by_cases later : name ∈ parts.map (·.1)
    · obtain ⟨x, y, related, found, given⟩ := ih later
      exact ⟨x, y, related, fun t => found _, fun t => given _⟩
    · obtain rfl := (List.mem_cons.mp listed).resolve_right later
      have unmade : part.1 ∉ made.map (·.1) := by rwa [map_fst_of_forall₂ rest]
      refine ⟨part.2, pair.2, first.2, fun t => ?_, fun t => ?_⟩
      · rw [insertAll_cons, get?_insertAll_of_notMem later, get?_insert, if_pos rfl]
      · rw [insertAll_cons, get?_insertAll_of_notMem unmade, get?_insert, if_pos first.1]

end Made

end Table

namespace Theme

variable {config config' : ThemeConfig} {theme theme' : Theme} {plain : Table Category} {name c : String}

/-! ### Categories that stand on their own -/

/-- The rule that counts for a derived category: a later one of its name takes the place of an earlier one. -/
def derivation? (config : ThemeConfig) (name : String) : Option Derivation :=
  (Table.ofList (derivations config)).get? name

theorem derivation?_eq_none_iff : derivation? config name = none ↔ name ∉ (derivations config).map (·.1) := by
  rw [derivation?, ← Table.mem_keys_ofList_iff, Table.mem_keys_iff, Bool.not_eq_true, Option.isSome_eq_false_iff,
    Option.isNone_iff_eq_none]

theorem isPlain_iff : isPlain config name = true ↔ name ≠ "screens" ∧ derivation? config name = none := by
  rw [isPlain, Bool.and_eq_true, decide_eq_true_iff, Bool.not_eq_true', List.any_eq_false, derivation?_eq_none_iff]
  refine and_congr_right fun _ => ?_
  simp only [List.mem_map, not_exists, not_and, decide_eq_true_iff]

/-- What items make of a category that was there before. Items of a category that does not stand on its own are left
for later. -/
def merged (config : ThemeConfig) (make : Option Category → Category → Category) (items? : Option CategoryItems)
    (old : Option Category) (name : String) : Except ConfigError (Option Category) :=
  match items? with
  | some items => if isPlain config name then (items.category name).map (some ∘ make old) else .ok old
  | none => .ok old

section Steps
variable {make : Option Category → Category → Category}
  {step : Table Category → String × CategoryItems → Except ConfigError (Table Category)}
  {t next start final : Table Category} {part : String × CategoryItems}

/-- Each step merges the items under one name. -/
def Merges (config : ThemeConfig) (make : Option Category → Category → Category)
    (step : Table Category → String × CategoryItems → Except ConfigError (Table Category)) : Prop :=
  ∀ t part, step t part = if isPlain config part.1 then do
    return t.insert part.1 (make (t.get? part.1) (← part.2.category part.1)) else .ok t

theorem merged_of_step (merges : Merges config make step) (one : step t part = .ok next) :
    merged config make (some part.2) (t.get? part.1) part.1 = .ok (next.get? part.1) ∧
      ∀ other, part.1 ≠ other → next.get? other = t.get? other := by
  rw [merges] at one
  unfold merged
  dsimp only
  split at one
  · obtain ⟨values, read, made⟩ := bind_eq_ok one
    obtain rfl := Except.ok.inj made
    refine ⟨?_, fun other apart => by rw [Table.get?_insert, if_neg apart]⟩
    rw [if_pos ‹_›, read, Table.get?_insert, if_pos rfl]
    rfl
  · obtain rfl := Except.ok.inj one
    exact ⟨if_neg ‹_›, fun _ _ => rfl⟩

theorem merged_of_foldlM (merges : Merges config make step) {parts : List (String × CategoryItems)}
    (distinct : (parts.map (·.1)).Nodup) (done : parts.foldlM step start = .ok final) (name : String) :
    (name ∉ parts.map (·.1) → final.get? name = start.get? name) ∧
      ∀ items, (name, items) ∈ parts →
        merged config make (some items) (start.get? name) name = .ok (final.get? name) := by
  induction parts generalizing start with
  | nil =>
    obtain rfl := Except.ok.inj done
    exact ⟨fun _ => rfl, fun _ member => absurd member List.not_mem_nil⟩
  | cons part parts ih =>
    rw [List.foldlM_cons] at done
    obtain ⟨next, one, done⟩ := bind_eq_ok done
    rw [List.map_cons, List.nodup_cons] at distinct
    obtain ⟨rest, listed⟩ := ih distinct.2 done
    obtain ⟨here, others⟩ := merged_of_step merges one
    constructor
    · intro unlisted
      rw [List.map_cons, List.mem_cons, not_or] at unlisted
      rw [rest unlisted.2, others name (Ne.symm unlisted.1)]
    · intro items member
      rcases List.mem_cons.mp member with same | later
      · subst same
        rw [rest distinct.1]
        exact here
      · have apart : part.1 ≠ name := fun same => distinct.1 (same ▸ List.mem_map_of_mem (f := (·.1)) later)
        rw [← others name apart]
        exact listed items later

theorem merged_of_table (merges : Merges config make step) {parts : Table CategoryItems}
    (done : parts.toList.foldlM step start = .ok final) (name : String) :
    merged config make (parts.get? name) (start.get? name) name = .ok (final.get? name) := by
  have names := parts.map_fst_toList
  obtain ⟨unlisted, listed⟩ := merged_of_foldlM merges (by rw [names]; exact parts.nodup_keys) done name
  cases known : parts.get? name with
  | some items => exact listed items (Table.mem_toList_iff.mpr known)
  | none =>
    refine congrArg Except.ok (unlisted ?_).symm
    rw [names, Table.mem_keys_iff, known]
    exact Bool.false_ne_true

end Steps

def extended (old : Option Category) (added : Category) : Category :=
  (old.getD ∅).extend added

theorem merged_of_resolvePlain (done : resolvePlain config = .ok plain) (name : String) :
    ∃ own, merged config (fun _ values => values) (config.overrides.get? name) (Base.plain.get? name) name = .ok own ∧
      merged config extended (config.additions.get? name) own name = .ok (plain.get? name) := by
  obtain ⟨overridden, replaced, added⟩ := bind_eq_ok done
  have replaces : Merges config (fun _ values => values) (overrideCategory config) := fun _ _ => rfl
  have adds : Merges config extended (addToCategory config) := fun _ _ => rfl
  exact ⟨_, merged_of_table replaces replaced name, merged_of_table adds added name⟩

theorem merged_of_not_isPlain {make : Option Category → Category → Category} {items? : Option CategoryItems}
    {old : Option Category} (derived : ¬isPlain config name = true) :
    merged config make items? old name = .ok old := by
  unfold merged
  split
  · exact if_neg derived
  · rfl

/-! ### Derived categories -/

/-- What a theme was resolved from. -/
theorem resolve_cases (resolved : resolve config = .ok theme) :
    ∃ plain, resolvePlain config = .ok plain ∧ resolveScreens config = .ok theme.screens ∧
      theme.container = config.container.getD {} ∧
      (∀ name derivation, derivation? config name = some derivation → ∃ values,
        resolveDerived config ⟨plain.get?, theme.screens⟩ name derivation = .ok values ∧
          theme.categories.get? name = some values) ∧
      ∀ name, derivation? config name = none → theme.categories.get? name = plain.get? name := by
  obtain ⟨screens, screened, done⟩ := bind_eq_ok resolved
  obtain ⟨plain, alone, done⟩ := bind_eq_ok done
  obtain ⟨derived, each, done⟩ := bind_eq_ok done
  obtain rfl := Except.ok.inj done
  have related : List.Forall₂ (fun part pair => pair.1 = part.1 ∧
      resolveDerived config ⟨plain.get?, screens⟩ part.1 part.2 = .ok pair.2) (derivations config) derived := by
    refine forall₂_of_mapM_eq_ok (fun part _ pair made => ?_) each
    obtain ⟨values, given, made⟩ := bind_eq_ok made
    obtain rfl := Except.ok.inj made
    exact ⟨rfl, given⟩
  refine ⟨plain, alone, screened, rfl, fun name derivation rule => ?_, fun name free => ?_⟩
  · have listed : name ∈ (derivations config).map (·.1) := by
      by_contra unlisted
      rw [derivation?_eq_none_iff.mpr unlisted] at rule
      cases rule
    obtain ⟨counts, values, given, found, shown⟩ := @Table.exists_get?_of_forall₂ _ _ _
      (fun name derivation values => resolveDerived config ⟨plain.get?, screens⟩ name derivation = .ok values) _ _
      related listed
    obtain rfl := Option.some.inj ((found _).symm.trans rule)
    exact ⟨values, given, shown plain⟩
  · have names := @Table.map_fst_of_forall₂ _ _
      (fun name derivation values => resolveDerived config ⟨plain.get?, screens⟩ name derivation = .ok values) _ _
      related
    exact Table.get?_insertAll_of_notMem (by rwa [names, ← derivation?_eq_none_iff])

/-- What the derivations of a configuration read when it resolves to this theme: the categories that stand on their
own, by name, and the screens. A derived category that takes the place of one of the base theme hides it from rules and
not from derivations. -/
def view (config : ThemeConfig) (theme : Theme) : ThemeView :=
  ⟨fun name => if isPlain config name then theme.categories.get? name else Base.plain.get? name, theme.screens⟩

theorem view_eq (alone : resolvePlain config = .ok plain)
    (free : ∀ name, derivation? config name = none → theme.categories.get? name = plain.get? name) :
    (⟨plain.get?, theme.screens⟩ : ThemeView) = view config theme := by
  have each : ∀ name, plain.get? name = (view config theme).category? name := by
    intro name
    unfold view
    dsimp only
    split
    · rw [free name (isPlain_iff.mp ‹_›).2]
    · obtain ⟨own, replaced, added⟩ := merged_of_resolvePlain alone name
      rw [merged_of_not_isPlain ‹_›] at replaced added
      rw [← Except.ok.inj added, Except.ok.inj replaced]
  rw [funext each]
  rfl

/-! ### Configurations that differ in one category -/

/-- Two configurations differ in what they have in place of the category `c` and in what they add to it, and in nothing
else. -/
structure SameBut (c : String) (config config' : ThemeConfig) : Prop where
  container : config.container = config'.container
  derived : config.derived = config'.derived
  overrides : ∀ name, name ≠ c → config.overrides.get? name = config'.overrides.get? name
  additions : ∀ name, name ≠ c → config.additions.get? name = config'.additions.get? name

theorem resolveScreens_congr (same : SameBut c config config') (apart : c ≠ "screens") :
    resolveScreens config = resolveScreens config' := by
  unfold resolveScreens
  rw [same.overrides _ apart.symm, same.additions _ apart.symm]

theorem derivation?_congr (same : SameBut c config config') (name : String) :
    derivation? config name = derivation? config' name := by
  unfold derivation? derivations
  rw [same.derived]

theorem isPlain_congr (same : SameBut c config config') (name : String) :
    isPlain config name = isPlain config' name := by
  unfold isPlain derivations
  rw [same.derived]

theorem plain_congr (same : SameBut c config config') (derived : ¬isPlain config c = true) {plain' : Table Category}
    (done : resolvePlain config = .ok plain) (done' : resolvePlain config' = .ok plain') (name : String) :
    plain.get? name = plain'.get? name := by
  obtain ⟨own, replaced, added⟩ := merged_of_resolvePlain done name
  obtain ⟨own', replaced', added'⟩ := merged_of_resolvePlain done' name
  have settled : ∀ (make : Option Category → Category → Category) (items? : Option CategoryItems) old,
      merged config make items? old name = merged config' make items? old name := by
    intro make items? old
    unfold merged
    rw [isPlain_congr same]
  by_cases here : name = c
  · subst here
    rw [merged_of_not_isPlain derived] at replaced added
    rw [← settled, merged_of_not_isPlain derived] at replaced' added'
    obtain rfl := Except.ok.inj (replaced.symm.trans replaced')
    exact Except.ok.inj (added.symm.trans added')
  · rw [settled, same.overrides name here] at replaced
    rw [settled, same.additions name here] at added
    obtain rfl := Except.ok.inj (replaced.symm.trans replaced')
    exact Except.ok.inj (added.symm.trans added')

theorem agree_of_sameBut (same : SameBut c config config') (derived : (derivation? config c).isSome = true)
    (apart : c ≠ "screens") (resolved : resolve config = .ok theme) (resolved' : resolve config' = .ok theme') :
    (∀ name, name ≠ c → theme.categories.get? name = theme'.categories.get? name) ∧
      theme.screens = theme'.screens ∧ theme.container = theme'.container := by
  obtain ⟨plain, alone, screened, container, ruled, free⟩ := resolve_cases resolved
  obtain ⟨plain', alone', screened', container', ruled', free'⟩ := resolve_cases resolved'
  have screens : theme.screens = theme'.screens := by
    rw [resolveScreens_congr same apart] at screened
    exact Except.ok.inj (screened.symm.trans screened')
  have notPlain : ¬isPlain config c = true := by
    rw [isPlain_iff]
    rintro ⟨-, none⟩
    rw [none] at derived
    cases derived
  have sources := plain_congr same notPlain alone alone'
  refine ⟨fun name other => ?_, screens, by rw [container, container', same.container]⟩
  cases rule : derivation? config name with
  | none =>
    have rule' := rule
    rw [derivation?_congr same] at rule'
    rw [free name rule, free' name rule', sources]
  | some derivation =>
    have rule' := rule
    rw [derivation?_congr same] at rule'
    obtain ⟨values, given, found⟩ := ruled name derivation rule
    obtain ⟨values', given', found'⟩ := ruled' name derivation rule'
    have both : resolveDerived config ⟨plain.get?, theme.screens⟩ name derivation =
        resolveDerived config' ⟨plain'.get?, theme'.screens⟩ name derivation := by
      unfold resolveDerived
      rw [funext sources, screens, same.overrides name other, same.additions name other]
    obtain rfl := Except.ok.inj (given.symm.trans (both.trans given'))
    rw [found, found']

/-! ### The layers of a category -/

/-- What stands in a category below what is added to it: what the configuration has in its place, or else what its
derivation computes, or else what the base theme has. -/
inductive Underlies (config : ThemeConfig) (view : ThemeView) (name : String) : Category → Prop
  | replaced {items : CategoryItems} {values : Category} :
      config.overrides.get? name = some items → items.category name = .ok values → Underlies config view name values
  | computed {derivation : Derivation} {values : Category} : config.overrides.get? name = none →
      derivation? config name = some derivation → derivation view = .ok values → Underlies config view name values
  | base : config.overrides.get? name = none → derivation? config name = none →
      Underlies config view name ((Base.plain.get? name).getD ∅)

/-- What the configuration adds to a category. -/
inductive Adds (config : ThemeConfig) (name : String) : Category → Prop
  | none : config.additions.get? name = none → Adds config name ∅
  | some {items : CategoryItems} {values : Category} :
      config.additions.get? name = some items → items.category name = .ok values → Adds config name values

theorem layers_of_merged {view : ThemeView} (isPlain : isPlain config name = true) {own known : Option Category}
    (replaced :
      merged config (fun _ values => values) (config.overrides.get? name) (Base.plain.get? name) name = .ok own)
    (added : merged config extended (config.additions.get? name) own name = .ok known) :
    ∃ source addition, Underlies config view name source ∧ Adds config name addition ∧
      known.getD ∅ = source.extend addition := by
  have source : Underlies config view name (own.getD ∅) := by
    unfold merged at replaced
    split at replaced
    · rename_i items given
      rw [if_pos isPlain] at replaced
      obtain ⟨values, read, rfl⟩ := map_eq_ok replaced
      exact .replaced given read
    · rename_i none
      obtain rfl := Except.ok.inj replaced
      exact .base none (isPlain_iff.mp isPlain).2
  unfold merged at added
  split at added
  · rename_i items given
    rw [if_pos isPlain] at added
    obtain ⟨values, read, rfl⟩ := map_eq_ok added
    exact ⟨_, values, source, .some given read, rfl⟩
  · rename_i none
    obtain rfl := Except.ok.inj added
    exact ⟨_, ∅, source, .none none, rfl⟩

theorem layers_of_resolveDerived {view : ThemeView} {derivation : Derivation} {values : Category}
    (rule : derivation? config name = some derivation)
    (given : resolveDerived config view name derivation = .ok values) :
    ∃ source addition, Underlies config view name source ∧ Adds config name addition ∧
      values = source.extend addition := by
  have above : ∀ source, Underlies config view name source →
      (match config.additions.get? name with
        | some items => (items.category name).map source.extend
        | none => .ok source) = .ok values →
      ∃ source addition, Underlies config view name source ∧ Adds config name addition ∧
        values = source.extend addition := by
    intro source below given
    split at given
    · obtain ⟨added, read, same⟩ := map_eq_ok given
      exact ⟨source, added, below, .some ‹_› read, same.symm⟩
    · exact ⟨source, ∅, below, .none ‹_›, (Except.ok.inj given).symm⟩
  unfold resolveDerived at given
  dsimp only at given
  split at given
  · obtain ⟨source, own, given⟩ := bind_eq_ok given
    exact above source (.replaced ‹_› own) given
  · obtain ⟨source, own, given⟩ := bind_eq_ok given
    exact above source (.computed ‹_› rule own) given

/-- When a configuration resolves, another one that differs in one derived category only, and resolves too, gives the
same theme but for that category. In every category but the screens, a key that is added has the added value, and any
other key has what replaces the category, or else what it is derived to be from the categories that stand on their own
and the screens, or else what the base theme has. -/
theorem resolved_categories (resolved : resolve config = .ok theme) :
    (∀ c config' theme', c ≠ "screens" → (derivation? config c).isSome = true → SameBut c config config' →
      resolve config' = .ok theme' →
        (∀ name, name ≠ c → theme.categories.get? name = theme'.categories.get? name) ∧
          theme.screens = theme'.screens ∧ theme.container = theme'.container) ∧
    ∀ name, name ≠ "screens" → ∃ source addition, Underlies config (view config theme) name source ∧
      Adds config name addition ∧ theme.category name = source.extend addition ∧
        ∀ key, (theme.category name).get? key = (addition.get? key).or (source.get? key) := by
  refine ⟨fun c config' theme' apart derived same resolved' => ?_, fun name apart => ?_⟩
  · exact agree_of_sameBut same derived apart resolved resolved'
  obtain ⟨plain, alone, -, -, ruled, free⟩ := resolve_cases resolved
  have layers : ∃ source addition, Underlies config (view config theme) name source ∧ Adds config name addition ∧
      theme.category name = source.extend addition := by
    unfold category
    cases rule : derivation? config name with
    | none =>
      obtain ⟨own, replaced, added⟩ := merged_of_resolvePlain alone name
      rw [free name rule]
      exact layers_of_merged (isPlain_iff.mpr ⟨apart, rule⟩) replaced added
    | some derivation =>
      obtain ⟨values, given, found⟩ := ruled name derivation rule
      rw [view_eq alone free] at given
      rw [found]
      exact layers_of_resolveDerived rule given
  obtain ⟨source, addition, below, above, same⟩ := layers
  refine ⟨source, addition, below, above, same, fun key => ?_⟩
  rw [same, Table.get?_extend]

/-! ### A padding of one's own -/

/-- A configuration with its own padding, and with one value more. -/
def padded : ThemeConfig :=
  { overrides := .ofList [("padding", .ofList [("4", .text "4px")])]
    additions := .ofList [("padding", .ofList [("huge", .text "20rem")])] }

theorem get?_padding_of_ne {items : CategoryItems} (apart : name ≠ "padding") :
    (Table.ofList [("padding", items)]).get? name = none := by
  rw [Table.ofList, Table.insertAll_cons, Table.insertAll_nil, Table.get?_insert, if_neg apart.symm]
  exact Table.get?_empty name

theorem resolve_padded : ∃ theme, resolve padded = .ok theme := by
  have screened : resolveScreens padded = .ok Base.screens := rfl
  have alone : resolvePlain padded = .ok Base.plain := rfl
  refine exists_resolve screened alone fun name derivation member => ?_
  by_cases here : name = "padding"
  · subst here
    exact ⟨_, rfl⟩
  · rw [resolveDerived_of_none (get?_padding_of_ne here) (get?_padding_of_ne here)]
    have listed : (name, derivation) ∈ Base.derived := member
    exact Base.exists_derived (fun name source =>
      ThemeView.exists_category (Base.mem_keys_of_source source) Base.screens) _ listed

theorem resolved_categories_of_padded : ∃ theme theme', resolve {} = .ok theme ∧ resolve padded = .ok theme' ∧
    theme.categories.get? "margin" = theme'.categories.get? "margin" ∧
    (theme'.category "padding").get? "huge" = some (.plain "20rem") ∧
    (theme'.category "padding").get? "4" = some (.plain "4px") := by
  obtain ⟨theme, resolved⟩ := resolve_base
  obtain ⟨theme', resolved'⟩ := resolve_padded
  have derived : (derivation? {} "padding").isSome = true :=
    Table.mem_keys_iff.mp (Table.mem_keys_ofList_iff.mpr (by decide))
  have same : SameBut "padding" {} padded := by
    refine ⟨rfl, rfl, fun name apart => ?_, fun name apart => ?_⟩
    · exact (Table.get?_empty name).trans (get?_padding_of_ne apart).symm
    · exact (Table.get?_empty name).trans (get?_padding_of_ne apart).symm
  obtain ⟨others, -⟩ := (resolved_categories resolved).1 "padding" padded theme' (by decide) derived same resolved'
  obtain ⟨source, addition, below, above, -, values⟩ :=
    (resolved_categories resolved').2 "padding" (by decide)
  have added : addition = .ofList [("huge", .plain "20rem")] := by
    cases above with
    | none none => cases none
    | some given read =>
      cases given
      exact (Except.ok.inj read).symm
  have own : source = .ofList [("4", .plain "4px")] := by
    cases below with
    | replaced given read =>
      cases given
      exact (Except.ok.inj read).symm
    | computed none => cases none
    | base none => cases none
  refine ⟨theme, theme', resolved, resolved', others "margin" (by decide), ?_, ?_⟩
  · rw [values, added]
    rfl
  · rw [values, added, own]
    rfl

end Theme

end UtilityCss
