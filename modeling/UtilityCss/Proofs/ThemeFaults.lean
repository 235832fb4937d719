import UtilityCss.Proofs.ThemeSources

/-!
# Faults of a configuration

A configuration that derives nothing is refused for an entry that it holds, and for nothing else: a screen without the
shape of one, a list of no values, or a shadow without a value or a colour. Whether the category of the entry stands on
its own or is derived makes no difference, and the base theme can be derived from whatever the configuration has in the
place of its categories: `resolve_fails`.
-/

namespace UtilityCss

/-! ### Entries -/

namespace ThemeItem

variable {item : ThemeItem} {category key name : String} {cause : ConfigError}

/-- The entry is a width, or it is a record that has a bound and nothing else. -/
def IsScreen : ThemeItem → Prop
  | text _ => True
  | record bounds => bounds.keys ≠ [] ∧ ∀ key ∈ bounds.keys, key = "min" ∨ key = "max"
  | _ => False

/-- The record lacks a part of a shadow. -/
def LacksShadow (fields : Table String) : Prop :=
  fields.get? "value" = none ∨ fields.get? "defaultColor" = none

theorem isScreen_record {bounds : Table String} :
    (!bounds.isEmpty && bounds.keys.all fun key => key = "min" || key = "max") = true ↔ (record bounds).IsScreen := by
  rw [Bool.and_eq_true, List.all_eq_true]
  refine and_congr ?_ (forall₂_congr fun key _ => ?_)
  · simp [Table.isEmpty, Table.keys]
  · rw [Bool.or_eq_true, decide_eq_true_iff, decide_eq_true_iff]

theorem screen_eq_error_iff : item.screen name = .error cause ↔ ¬item.IsScreen ∧ cause = .screenShape name := by
  have refused : (.error (.screenShape name) : Except ConfigError Screen) = .error cause ↔ cause = .screenShape name :=
    ⟨fun same => (Except.error.inj same).symm, fun same => congrArg _ same.symm⟩
  cases item with
  | text min => exact ⟨nofun, fun fault => absurd trivial fault.1⟩
  | pair first second => exact refused.trans (and_iff_right id).symm
  | list items => exact refused.trans (and_iff_right id).symm
  | record bounds =>
    rw [screen, ← isScreen_record]
    split
    · rename_i shaped
      exact ⟨nofun, fun fault => absurd shaped fault.1⟩
    · rename_i misshapen
      exact refused.trans (and_iff_right misshapen).symm

theorem values_eq_error (failed : item.values category key = .error cause) :
    item = .list [] ∧ cause = .emptyList category key ∨
      category = "boxShadow" ∧ (∃ fields, item = .record fields ∧ LacksShadow fields) ∧
        cause = .shadowRecord category key := by
  unfold values at failed
  split at failed
  · cases failed
  · cases failed
  · exact .inl ⟨rfl, (Except.error.inj failed).symm⟩
  · cases failed
  · rename_i fields
    split at failed
    · rename_i shadow
      split at failed
      · cases failed
      · rename_i lacking
        refine .inr ⟨shadow, ⟨fields, rfl, ?_⟩, (Except.error.inj failed).symm⟩
        by_contra whole
        obtain ⟨value, color⟩ := not_or.mp whole
        obtain ⟨value, given⟩ := Option.ne_none_iff_exists'.mp value
        obtain ⟨color, given'⟩ := Option.ne_none_iff_exists'.mp color
        exact lacking value color given given'
    · cases failed

theorem values_of_lacksShadow {fields : Table String} (lacking : LacksShadow fields) :
    (record fields).values "boxShadow" key = .error (.shadowRecord "boxShadow" key) := by
  rw [values, if_pos rfl]
  split
  · rename_i value color given given'
    rcases lacking with none | none
    · rw [given] at none
      cases none
    · rw [given'] at none
      cases none
  · rfl

end ThemeItem

/-! ### Categories -/

namespace CategoryItems

variable {items : CategoryItems} {name key : String} {item : ThemeItem} {cause : ConfigError}

theorem category_eq_error (failed : items.category name = .error cause) :
    ∃ key item, items.get? key = some item ∧ item.values name key = .error cause := by
  rcases bind_eq_error failed with failed | ⟨parts, -, done⟩
  · obtain ⟨⟨key, item⟩, member, failed⟩ := exists_of_mapM_eq_error failed
    exact ⟨key, item, Table.mem_toList_iff.mp member, failed⟩
  · cases done

theorem exists_values_of_category {values : Category} (done : items.category name = .ok values)
    (held : items.get? key = some item) : ∃ own, item.values name key = .ok own := by
  obtain ⟨parts, read, -⟩ := bind_eq_ok done
  exact exists_mapM_ok_iff.mp ⟨parts, read⟩ (key, item) (Table.mem_toList_iff.mpr held)

theorem screens_eq_error (failed : items.screens = .error cause) :
    ∃ name item, items.get? name = some item ∧ item.screen name = .error cause := by
  rcases bind_eq_error failed with failed | ⟨parts, -, done⟩
  · obtain ⟨⟨name, item⟩, member, failed⟩ := exists_of_mapM_eq_error failed
    rcases bind_eq_error failed with failed | ⟨screen, -, done⟩
    · exact ⟨name, item, Table.mem_toList_iff.mp member, failed⟩
    · cases done
  · cases done

theorem exists_screen_of_screens {screens : Screens} (done : items.screens = .ok screens)
    (held : items.get? name = some item) : ∃ screen, item.screen name = .ok screen := by
  obtain ⟨parts, read, -⟩ := bind_eq_ok done
  obtain ⟨pair, one⟩ := exists_mapM_ok_iff.mp ⟨parts, read⟩ (name, item) (Table.mem_toList_iff.mpr held)
  obtain ⟨screen, own, -⟩ := bind_eq_ok one
  exact ⟨screen, own⟩

end CategoryItems

namespace Theme

variable {config : ThemeConfig} {theme : Theme} {name : String} {items : CategoryItems} {cause : ConfigError}
  {plain : Table Category}

/-- The configuration has the items in place of a category, or adds them to it. -/
def Writes (config : ThemeConfig) (name : String) (items : CategoryItems) : Prop :=
  config.overrides.get? name = some items ∨ config.additions.get? name = some items

/-- An entry of a configuration is faulty, and the error names it. -/
inductive Fault (config : ThemeConfig) : ConfigError → Prop
  | screen {items : CategoryItems} {name : String} {item : ThemeItem} : Writes config "screens" items →
      items.get? name = some item → ¬item.IsScreen → Fault config (.screenShape name)
  | emptyList {category : String} {items : CategoryItems} {key : String} : category ≠ "screens" →
      Writes config category items → items.get? key = some (.list []) → Fault config (.emptyList category key)
  | shadow {items : CategoryItems} {key : String} {fields : Table String} : Writes config "boxShadow" items →
      items.get? key = some (.record fields) → ThemeItem.LacksShadow fields →
        Fault config (.shadowRecord "boxShadow" key)

/-! ### Replaced and extended tables -/

section Layers
variable {β : Type} {read : CategoryItems → Except ConfigError (Table β)} {start : Except ConfigError (Table β)}
  {table : Table β}

/-- What a configuration has in place of a table or else what stands there, and what the configuration adds. -/
def layered (config : ThemeConfig) (name : String) (read : CategoryItems → Except ConfigError (Table β))
    (start : Except ConfigError (Table β)) : Except ConfigError (Table β) := do
  let below ← ((config.overrides.get? name).map read).getD start
  ((config.additions.get? name).map fun items => (read items).map below.extend).getD (.ok below)

theorem resolveScreens_eq (config : ThemeConfig) :
    resolveScreens config = layered config "screens" CategoryItems.screens (.ok Base.screens) := by
  unfold resolveScreens layered
  cases config.overrides.get? "screens" <;> cases config.additions.get? "screens" <;> rfl

theorem resolveDerived_eq (config : ThemeConfig) (view : ThemeView) (name : String) (derivation : Derivation) :
    resolveDerived config view name derivation =
      layered config name (fun items => items.category name) (derivation view) := by
  unfold resolveDerived layered
  cases config.overrides.get? name <;> cases config.additions.get? name <;> rfl

theorem layered_eq_error (failed : layered config name read start = .error cause) :
    start = .error cause ∨ ∃ items, Writes config name items ∧ read items = .error cause := by
  rcases bind_eq_error failed with failed | ⟨below, -, failed⟩
  · cases written : config.overrides.get? name with
    | none =>
      rw [written] at failed
      exact .inl failed
    | some items =>
      rw [written] at failed
      exact .inr ⟨items, .inl written, failed⟩
  · cases written : config.additions.get? name with
    | none =>
      rw [written] at failed
      cases failed
    | some items =>
      rw [written] at failed
      exact .inr ⟨items, .inr written, map_eq_error.mp failed⟩

theorem exists_of_layered (done : layered config name read start = .ok table) (written : Writes config name items) :
    ∃ part, read items = .ok part := by
  obtain ⟨below, own, done⟩ := bind_eq_ok done
  rcases written with written | written
  · rw [written] at own
    exact ⟨below, own⟩
  · rw [written] at done
    obtain ⟨part, read, -⟩ := map_eq_ok done
    exact ⟨part, read⟩

end Layers

/-! ### Refusals -/

theorem fault_of_screens (written : Writes config "screens" items) (failed : items.screens = .error cause) :
    Fault config cause := by
  obtain ⟨name, item, held, failed⟩ := CategoryItems.screens_eq_error failed
  obtain ⟨misshapen, rfl⟩ := ThemeItem.screen_eq_error_iff.mp failed
  exact .screen written held misshapen

theorem fault_of_category (apart : name ≠ "screens") (written : Writes config name items)
    (failed : items.category name = .error cause) : Fault config cause := by
  obtain ⟨key, item, held, failed⟩ := CategoryItems.category_eq_error failed
  rcases ThemeItem.values_eq_error failed with ⟨rfl, rfl⟩ | ⟨rfl, ⟨fields, rfl, lacking⟩, rfl⟩
  · exact .emptyList apart written held
  · exact .shadow written held lacking

theorem fault_of_resolveScreens (failed : resolveScreens config = .error cause) : Fault config cause := by
  rw [resolveScreens_eq] at failed
  rcases layered_eq_error failed with missing | ⟨items, written, failed⟩
  · cases missing
  · exact fault_of_screens written failed

/-- A category that stands on its own is refused where it is merged. -/
theorem exists_of_merges {make : Option Category → Category → Category} {parts : Table CategoryItems}
    {step : Table Category → String × CategoryItems → Except ConfigError (Table Category)} {start : Table Category}
    (merges : Merges config make step) (failed : parts.toList.foldlM step start = .error cause) :
    ∃ name items, name ≠ "screens" ∧ parts.get? name = some items ∧ items.category name = .error cause := by
  obtain ⟨⟨name, items⟩, member, t, failed⟩ := exists_of_foldlM_eq_error failed
  rw [merges] at failed
  split at failed
  · rename_i alone
    rcases bind_eq_error failed with failed | ⟨values, -, done⟩
    · exact ⟨name, items, (isPlain_iff.mp alone).1, Table.mem_toList_iff.mp member, failed⟩
    · cases done
  · cases failed

theorem fault_of_resolvePlain (failed : resolvePlain config = .error cause) : Fault config cause := by
  have replaces : Merges config (fun _ values => values) (overrideCategory config) := fun _ _ => rfl
  have adds : Merges config extended (addToCategory config) := fun _ _ => rfl
  rcases bind_eq_error failed with failed | ⟨overridden, -, failed⟩
  · obtain ⟨name, items, apart, written, failed⟩ := exists_of_merges replaces failed
    exact fault_of_category apart (.inl written) failed
  · obtain ⟨name, items, apart, written, failed⟩ := exists_of_merges adds failed
    exact fault_of_category apart (.inr written) failed

theorem fault_of_resolveDerived {view : ThemeView} {derivation : Derivation} (apart : name ≠ "screens")
    (computed : ∃ values, derivation view = .ok values)
    (failed : resolveDerived config view name derivation = .error cause) : Fault config cause := by
  rw [resolveDerived_eq] at failed
  rcases layered_eq_error failed with missing | ⟨items, written, failed⟩
  · obtain ⟨values, done⟩ := computed
    rw [done] at missing
    cases missing
  · exact fault_of_category apart written failed

/-! ### The sources of derived categories -/

theorem isSome_of_merged {make : Option Category → Category → Category} {items? : Option CategoryItems}
    {old known : Option Category} (done : merged config make items? old name = .ok known) (some : old.isSome = true) :
    known.isSome = true := by
  unfold merged at done
  split at done
  · split at done
    · obtain ⟨values, -, rfl⟩ := map_eq_ok done
      rfl
    · obtain rfl := Except.ok.inj done
      exact some
  · obtain rfl := Except.ok.inj done
    exact some

/-- A category of the base theme is replaced or added to, but never taken away. -/
theorem mem_keys_of_resolvePlain (alone : resolvePlain config = .ok plain) (known : name ∈ Base.plain.keys) :
    name ∈ plain.keys := by
  obtain ⟨own, replaced, added⟩ := merged_of_resolvePlain alone name
  exact Table.mem_keys_iff.mpr (isSome_of_merged added (isSome_of_merged replaced (Table.mem_keys_iff.mp known)))

/-- The base theme can be derived from what a configuration makes of its categories. -/
theorem exists_derived_of_resolvePlain (alone : resolvePlain config = .ok plain) (screens : Screens) :
    ∀ part ∈ Base.derived, ∃ values, part.2 ⟨plain.get?, screens⟩ = .ok values :=
  Base.exists_derived fun _ source =>
    ThemeView.exists_category (mem_keys_of_resolvePlain alone (Base.mem_keys_of_source source)) screens

theorem ne_screens_of_derived {derivation : Derivation} (listed : (name, derivation) ∈ Base.derived) :
    name ≠ "screens" := by
  have apart : "screens" ∉ Base.derived.map (·.1) := by decide
  rintro rfl
  exact apart (List.mem_map_of_mem (f := (·.1)) listed)

/-- What a configuration that derives nothing is refused for is a fault in it. -/
theorem fault_of_resolve (underived : config.derived.toList = []) (failed : resolve config = .error cause) :
    Fault config cause := by
  rcases bind_eq_error failed with failed | ⟨screens, -, failed⟩
  · exact fault_of_resolveScreens failed
  rcases bind_eq_error failed with failed | ⟨plain, alone, failed⟩
  · exact fault_of_resolvePlain failed
  rcases bind_eq_error failed with failed | ⟨derived, -, done⟩
  · -- The derivations of the base theme find their sources, and so a derived category fails for its items only.
    obtain ⟨⟨name, derivation⟩, listed, failed⟩ := exists_of_mapM_eq_error failed
    rw [derivations, underived, List.append_nil] at listed
    rcases bind_eq_error failed with failed | ⟨values, -, done⟩
    · exact fault_of_resolveDerived (ne_screens_of_derived listed)
        (exists_derived_of_resolvePlain alone screens _ listed) failed
    · cases done
  · cases done

/-! ### Acceptance -/

theorem exists_screens_of_resolve (resolved : resolve config = .ok theme) (written : Writes config "screens" items) :
    ∃ screens, items.screens = .ok screens := by
  have screened := screens_of_resolve resolved
  rw [resolveScreens_eq] at screened
  exact exists_of_layered screened written

theorem exists_category_of_merged {make : Option Category → Category → Category} {old known : Option Category}
    (isPlain : isPlain config name = true) (done : merged config make (some items) old name = .ok known) :
    ∃ values, items.category name = .ok values := by
  unfold merged at done
  dsimp only at done
  rw [if_pos isPlain] at done
  obtain ⟨values, read, -⟩ := map_eq_ok done
  exact ⟨values, read⟩

/-- A theme that resolves has read every category of its configuration, be it where categories are merged or where they
are derived. -/
theorem exists_category_of_resolve (resolved : resolve config = .ok theme) (apart : name ≠ "screens")
    (written : Writes config name items) : ∃ values, items.category name = .ok values := by
  obtain ⟨plain, alone, -, -, ruled, -⟩ := resolve_cases resolved
  cases rule : derivation? config name with
  | some derivation =>
    obtain ⟨values, given, -⟩ := ruled name derivation rule
    rw [resolveDerived_eq] at given
    exact exists_of_layered given written
  | none =>
    obtain ⟨own, replaced, added⟩ := merged_of_resolvePlain alone name
    have isPlain := isPlain_iff.mpr ⟨apart, rule⟩
    rcases written with written | written
    · rw [written] at replaced
      exact exists_category_of_merged isPlain replaced
    · rw [written] at added
      exact exists_category_of_merged isPlain added

theorem not_fault_of_resolve (resolved : resolve config = .ok theme) : ¬Fault config cause := by
  intro fault
  cases fault with
  | screen written held misshapen =>
    obtain ⟨screens, read⟩ := exists_screens_of_resolve resolved written
    obtain ⟨screen, own⟩ := CategoryItems.exists_screen_of_screens read held
    rw [ThemeItem.screen_eq_error_iff.mpr ⟨misshapen, rfl⟩] at own
    cases own
  | emptyList apart written held =>
    obtain ⟨values, read⟩ := exists_category_of_resolve resolved apart written
    obtain ⟨own, done⟩ := CategoryItems.exists_values_of_category read held
    cases done
  | shadow written held lacking =>
    obtain ⟨values, read⟩ := exists_category_of_resolve resolved (by decide) written
    obtain ⟨own, done⟩ := CategoryItems.exists_values_of_category read held
    rw [ThemeItem.values_of_lacksShadow lacking] at done
    cases done

/-- A configuration that derives nothing fails to resolve if and only if one of its entries is faulty, and then the
error names a faulty entry. The base theme can be derived from whatever the configuration makes of the categories that
stand on their own: no error is about a category that a derivation misses. -/
theorem resolve_fails (underived : config.derived.toList = []) :
    ((∃ cause, resolve config = .error cause) ↔ ∃ cause, Fault config cause) ∧
      (∀ cause, resolve config = .error cause → Fault config cause) ∧
      (∀ plain screens, resolvePlain config = .ok plain →
        ∀ part ∈ Base.derived, ∃ values, part.2 ⟨plain.get?, screens⟩ = .ok values) ∧
      ∀ name, resolve config ≠ .error (.missingCategory name) := by
  have refused : ∀ cause, resolve config = .error cause → Fault config cause := fun _ => fault_of_resolve underived
  refine ⟨⟨fun ⟨cause, failed⟩ => ⟨cause, refused cause failed⟩, ?_⟩, refused,
    fun plain screens alone => exists_derived_of_resolvePlain alone screens, fun name failed => ?_⟩
  · rintro ⟨cause, fault⟩
    cases resolved : resolve config with
    | error other => exact ⟨other, rfl⟩
    | ok theme => exact absurd fault (not_fault_of_resolve resolved)
  · cases refused _ failed

/-- A configuration with a list of no values in a derived category. -/
def hollow : ThemeConfig :=
  { additions := .ofList [("padding", .ofList [("4", .text "4px"), ("wide", .list [])])] }

theorem resolve_fails_of_hollow : hollow.derived.toList = [] ∧ (∃ cause, resolve hollow = .error cause) ∧
    ∀ name, resolve hollow ≠ .error (.missingCategory name) := by
  have fault : Fault hollow (.emptyList "padding" "wide") := .emptyList (by decide) (.inr rfl) rfl
  obtain ⟨refused, -, -, complete⟩ := @resolve_fails hollow rfl
  exact ⟨rfl, refused.mpr ⟨_, fault⟩, complete⟩

end Theme

end UtilityCss
