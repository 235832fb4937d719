import UtilityCss.Proofs.Composing

/-!
# The base theme

A configuration resolves if its screens, its categories and everything that it derives do. The base theme derives
categories from a few others only, and has all of those.
-/

namespace UtilityCss

theorem ThemeView.exists_category {plain : Table Category} {name : String} (known : name ∈ plain.keys)
    (screens : Screens) : ∃ values, ThemeView.category ⟨plain.get?, screens⟩ name = .ok values := by
  obtain ⟨values, found⟩ := Option.isSome_iff_exists.mp (Table.mem_keys_iff.mp known)
  refine ⟨values, ?_⟩
  unfold category
  dsimp only
  rw [found]

namespace Base

/-- The categories that others are computed from. -/
def sources : List String :=
  ["colors", "spacing", "opacity", "blur", "brightness", "contrast", "grayscale", "hueRotate", "invert",
   "saturate", "sepia", "borderWidth"]

theorem mem_keys_of_source {name : String} (source : name ∈ sources) : name ∈ plain.keys := by
  -- Looking the names up in the list of pairs spares building the table.
  have listed : ∀ name ∈ sources, name ∈ categories.map (·.1) := by decide
  rw [plain, Table.mem_keys_ofList_iff]
  exact listed name source

theorem exists_derived {view : ThemeView} (given : ∀ name ∈ sources, ∃ values, view.category name = .ok values) :
    ∀ part ∈ derived, ∃ values, part.2 view = .ok values := by
  simp only [sources, List.forall_mem_cons] at given
  obtain ⟨⟨colors, readColors⟩, ⟨spacing, readSpacing⟩, ⟨opacity, readOpacity⟩, others⟩ := given
  simp [derived, accentColor, borderColor, paint, ringColor, ringOpacity, flexBasis, height, inset, margin, maxHeight,
    maxWidth, size, translate, width, readColors, readSpacing, readOpacity, others, bind, Except.bind, pure,
    Except.pure]

end Base

namespace Theme

theorem resolveDerived_of_none {config : ThemeConfig} {name : String} (kept : config.overrides.get? name = none)
    (closed : config.additions.get? name = none) (view : ThemeView) (derivation : Derivation) :
    resolveDerived config view name derivation = derivation view := by
  simp only [resolveDerived, kept, closed]
  cases derivation view <;> rfl

theorem exists_resolve {config : ThemeConfig} {screens : Screens} {plain : Table Category}
    (screened : resolveScreens config = .ok screens) (alone : resolvePlain config = .ok plain)
    (each : ∀ name derivation, (name, derivation) ∈ derivations config →
      ∃ values, resolveDerived config ⟨plain.get?, screens⟩ name derivation = .ok values) :
    ∃ theme, resolve config = .ok theme := by
  refine exists_bind_eq_ok ⟨screens, screened⟩ fun _ same => ?_
  obtain rfl := Except.ok.inj (same.symm.trans screened)
  refine exists_bind_eq_ok ⟨plain, alone⟩ fun _ same => ?_
  obtain rfl := Except.ok.inj (same.symm.trans alone)
  refine exists_bind_eq_ok (exists_mapM_ok_iff.mpr fun part member => ?_) fun derived _ => ⟨_, rfl⟩
  obtain ⟨values, done⟩ := each part.1 part.2 member
  exact exists_bind_eq_ok ⟨values, done⟩ fun values _ => ⟨(part.1, values), rfl⟩

theorem screens_of_resolve {config : ThemeConfig} {theme : Theme} (resolved : resolve config = .ok theme) :
    resolveScreens config = .ok theme.screens := by
  obtain ⟨screens, screened, done⟩ := bind_eq_ok resolved
  obtain ⟨plain, -, done⟩ := bind_eq_ok done
  obtain ⟨derived, -, done⟩ := bind_eq_ok done
  obtain rfl := Except.ok.inj done
  exact screened

/-- A configuration that derives nothing and leaves the base categories alone resolves if its screens do. -/
theorem exists_resolve_of_screens {config : ThemeConfig} {screens : Screens}
    (screened : resolveScreens config = .ok screens) (alone : resolvePlain config = .ok Base.plain)
    (underived : config.derived.toList = [])
    (kept : ∀ name ∈ Base.derived.map (·.1), config.overrides.get? name = none ∧ config.additions.get? name = none) :
    ∃ theme, resolve config = .ok theme := by
  refine exists_resolve screened alone fun name derivation member => ?_
  rw [derivations, underived, List.append_nil] at member
  obtain ⟨unchanged, closed⟩ := kept name (List.mem_map_of_mem (f := (·.1)) member)
  rw [resolveDerived_of_none unchanged closed]
  exact Base.exists_derived (fun name source =>
    ThemeView.exists_category (Base.mem_keys_of_source source) screens) _ member

/-- The base theme resolves. -/
theorem resolve_base : ∃ theme, resolve {} = .ok theme :=
  @exists_resolve_of_screens {} Base.screens rfl rfl rfl fun name _ => ⟨Table.get?_empty name, Table.get?_empty name⟩

end Theme

end UtilityCss
