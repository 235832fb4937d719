import UtilityCss.Proofs.ContainerClass
import UtilityCss.Proofs.ScreenNames

/-!
# Screens and the container class

Once the container class is used, each screen with a least width has a line for it, in the group that the cascade
has for the screen. There is such a group if the name of the screen stands for an at-rule, whichever that is:
`screens_printed` says what becomes of the variant and of the line of every screen.
-/

namespace UtilityCss

/-! ### Groups for screens -/

namespace Cascade

variable {seeds : List (CascadeGroup Unit)} {groups : List (CascadeGroup Cascade)} {ps : List Placement}
  {screens : Screens} {variants : VariantTable} {name condition : String}

/-- The groups for screens are those that the cascade started from. -/
theorem exists_group_iff (held : GroupsHold seeds groups ps) :
    (∃ g ∈ groups, g.screen = some name ∧ g.condition = condition) ↔
      ∃ s ∈ seeds, s.screen = some name ∧ s.condition = condition := by
  induction groups generalizing seeds ps with
  | nil =>
    obtain ⟨rfl, -⟩ := held
    simp
  | cons g groups ih =>
    obtain ⟨start, -, rest⟩ := held
    rw [List.exists_mem_cons_iff, ih rest]
    cases seeds with
    | nil =>
      obtain ⟨unnamed, -⟩ := start
      refine or_iff_right fun named => ?_
      cases unnamed.symm.trans named.1
    | cons s seeds =>
      obtain ⟨screen, same, -⟩ := start
      dsimp only at screen same
      rw [List.exists_mem_cons_iff, screen, same]
      rfl

theorem exists_seed_iff : (∃ s ∈ screenSeeds screens variants, s.screen = some name ∧ s.condition = condition) ↔
    name ∈ screens.keys ∧ ∃ w, (variants.get? name).bind Variant.wrapping? = some w ∧ w.condition = condition := by
  simp only [screenSeeds, List.mem_filterMap, Option.bind_eq_bind, Option.pure_def, Option.bind_eq_some_iff,
    Option.some.injEq]
  constructor
  · rintro ⟨_, ⟨other, listed, variant, found, w, wraps, rfl⟩, named, same⟩
    obtain rfl := Option.some.inj named
    exact ⟨listed, w, ⟨variant, found, wraps⟩, same⟩
  · rintro ⟨listed, w, ⟨variant, found, wraps⟩, same⟩
    exact ⟨_, ⟨name, listed, variant, found, w, wraps, rfl⟩, rfl, same⟩

end Cascade

/-! ### Lines for screens -/

namespace Printer

variable {p : Printer} {used : Bool} {c : Cascade} {g : CascadeGroup Cascade} {condition line : String}

/-- The condition around the line of a screen: that of its group, or in front of it if the screen has a greatest
width. -/
def lineCondition (screen : Screen) (min own : String) : String :=
  if screen.max.isSome then "@media (min-width: " ++ min ++ ")" else own

/-- The screen that a group has a line for. -/
theorem screen_eq_some_iff {name : String} {screen : Screen} :
    (if used = true then g.screen.bind fun name => (p.theme.screens.get? name).map (name, ·) else none) =
        some (name, screen) ↔
      used = true ∧ g.screen = some name ∧ p.theme.screens.get? name = some screen := by
  cases used with
  | false => simp
  | true => simp [Option.bind_eq_some_iff]

/-- A group has a line if it is there for a screen with a least width and the container class is used. -/
theorem exists_line_iff : (∃ inner, .atRule condition (some line) inner ∈ (p.placedItem used g).items) ↔
    ∃ name screen min, (used = true ∧ g.screen = some name ∧ p.theme.screens.get? name = some screen) ∧
      screen.min = some min ∧ line = screenContainer p.theme.container name min ∧
      condition = lineCondition screen min g.condition := by
  simp only [← screen_eq_some_iff]
  unfold placedItem groupItems
  generalize (if used = true then g.screen.bind fun name => (p.theme.screens.get? name).map (name, ·) else none) =
    chosen
  rcases chosen with _ | ⟨name, _ | min, max⟩
  · simp
  · simp
  · cases max with
    | none => simp [lineCondition, and_comm]
    | some max => simp [lineCondition, and_comm]

theorem exists_line_of_sheet_iff : (∃ inner, .atRule condition (some line) inner ∈ p.sheet c) ↔
    ∃ g ∈ c.groups, ∃ inner,
      .atRule condition (some line) inner ∈ (p.placedItem (c.utilities.any (·.isContainer)) g).items := by
  rw [sheet, items_eq]
  constructor
  · rintro ⟨inner, member⟩
    rcases List.mem_append.mp member with own | behind
    · cases isAtRule_of_mem_itemsFor own
    · obtain ⟨g, listed, inside⟩ := mem_groupsInOrder.mp behind
      exact ⟨g, listed, inner, inside⟩
  · rintro ⟨g, listed, inner, inside⟩
    exact ⟨inner, List.mem_append_right _ (mem_groupsInOrder.mpr ⟨g, listed, inside⟩)⟩

end Printer

/-! ### Engines -/

namespace Engine
open Printer VariantTable

variable {settings : Settings} {e fresh : Engine} {blocklist : List String} {us : List Utility}
  {applied : DefaultGroups} {condition line : String}

/-- A utility of the container class is registered, and no at-rule is around it. -/
def UsesContainer (e : Engine) : Prop :=
  ∃ u, e.Holds u ∧ u.isContainer = true ∧ u.wrappings = []

theorem prepare_theme {notices : List Notice} (ready : prepare settings = .ok (fresh, notices)) :
    Theme.resolve settings.theme = .ok fresh.theme ∧ fresh.vocabulary.variants = .ofTheme fresh.theme := by
  obtain ⟨_, _, _, resolved, -, -, vocabulary, -⟩ := prepare_cases ready
  exact ⟨resolved, congrArg Vocabulary.variants vocabulary⟩

theorem usesContainer_iff (h : Registered fresh blocklist us applied e) :
    e.UsesContainer ↔ e.cascade.utilities.any (·.isContainer) = true := by
  simp only [UsesContainer, List.any_eq_true, mem_utilities_iff_of_registered h, holds_iff h]
  exact exists_congr fun u => and_assoc.symm.trans and_right_comm

theorem exists_group_iff_of_registered (h : Registered fresh blocklist us applied e) {name : String} :
    (∃ g ∈ e.cascade.groups, g.screen = some name ∧ g.condition = condition) ↔ name ∈ e.theme.screens.keys ∧
      ∃ w, (e.vocabulary.variants.get? name).bind Variant.wrapping? = some w ∧ w.condition = condition := by
  rw [h.theme, h.vocabulary, ← Cascade.exists_seed_iff]
  have held := h.cascade
  generalize e.cascade = c at held
  obtain ⟨utilities, groups⟩ := c
  exact Cascade.exists_group_iff held.2

theorem exists_line_iff_of_registered (h : Registered fresh blocklist us applied e) :
    (∃ inner, .atRule condition (some line) inner ∈ e.printer.sheet e.cascade) ↔
      e.UsesContainer ∧ ∃ name screen min w, e.theme.screens.get? name = some screen ∧ screen.min = some min ∧
        line = screenContainer e.theme.container name min ∧
        (e.vocabulary.variants.get? name).bind Variant.wrapping? = some w ∧
        condition = lineCondition screen min w.condition := by
  rw [exists_line_of_sheet_iff, usesContainer_iff h]
  simp only [exists_line_iff]
  constructor
  · rintro ⟨g, listed, name, screen, min, ⟨used, named, known⟩, bounded, same, around⟩
    obtain ⟨-, w, wraps, own⟩ := (exists_group_iff_of_registered h).mp ⟨g, listed, named, rfl⟩
    exact ⟨used, name, screen, min, w, known, bounded, same, wraps, own ▸ around⟩
  · rintro ⟨used, name, screen, min, w, known, bounded, same, wraps, around⟩
    have listed : name ∈ e.theme.screens.keys := Table.mem_keys_iff.mpr (Option.isSome_of_mem known)
    obtain ⟨g, member, named, own⟩ := (exists_group_iff_of_registered h).mpr ⟨listed, w, wraps, rfl⟩
    exact ⟨g, member, name, screen, min, ⟨used, named, known⟩, bounded, same, own ▸ around⟩

/-- A screen whose name no other variant has gets its line under its own least width. -/
theorem line_of_free (h : Registered fresh blocklist us applied e)
    (variants : e.vocabulary.variants = .ofTheme e.theme) (used : e.UsesContainer) {name min : String}
    {screen : Screen} (known : e.theme.screens.get? name = some screen) (bounded : screen.min = some min)
    (free : ¬Taken e.theme name) :
    ∃ inner, .atRule ("@media (min-width: " ++ min ++ ")") (some (screenContainer e.theme.container name min)) inner ∈
      e.printer.sheet e.cascade := by
  obtain ⟨_, max⟩ := screen
  obtain rfl := bounded
  have wraps : ∀ condition, screenCondition? ⟨some min, max⟩ = some condition →
      ∃ n, (e.vocabulary.variants.get? name).bind Variant.wrapping? = some ⟨.nth n, condition⟩ := by
    intro condition own
    obtain ⟨n, found⟩ := get?_of_free known own free
    refine ⟨n, ?_⟩
    rw [variants, found]
    rfl
  rw [exists_line_iff_of_registered h]
  cases max with
  | none =>
    obtain ⟨n, wraps⟩ := wraps _ rfl
    exact ⟨used, name, _, min, _, known, rfl, rfl, wraps, rfl⟩
  | some max =>
    obtain ⟨n, wraps⟩ := wraps _ rfl
    exact ⟨used, name, _, min, _, known, rfl, rfl, wraps, rfl⟩

/-- Every screen of a theme that resolves has a condition, and its name is read as that condition unless another
variant has the name or the name is read by its brackets. Once the container class is used, a sheet has the line of
each screen with a least width whose name stands for an at-rule, under the condition of that at-rule if the screen
has no greatest width. -/
theorem screens_printed {config : ThemeConfig} {theme : Theme} (resolved : Theme.resolve config = .ok theme) :
    (∀ name screen, theme.screens.get? name = some screen →
      ∃ condition, screenCondition? screen = some condition ∧ ReadsScreen theme name condition) ∧
    ∀ settings e, settings.theme = config → Reachable settings e →
      e.theme = theme ∧ e.vocabulary.variants = .ofTheme theme ∧
      (∀ condition line, (∃ inner, .atRule condition (some line) inner ∈ e.printer.sheet e.cascade) ↔
        e.UsesContainer ∧ ∃ name screen min w, theme.screens.get? name = some screen ∧ screen.min = some min ∧
          line = screenContainer theme.container name min ∧
          ((VariantTable.ofTheme theme).get? name).bind Variant.wrapping? = some w ∧
          condition = lineCondition screen min w.condition) ∧
      (e.UsesContainer → ∀ name screen min, theme.screens.get? name = some screen → screen.min = some min →
        ¬Taken theme name → ∃ inner, .atRule ("@media (min-width: " ++ min ++ ")")
          (some (screenContainer theme.container name min)) inner ∈ e.printer.sheet e.cascade) := by
  constructor
  · intro name screen known
    obtain ⟨condition, bounded⟩ := exists_screenCondition (Theme.isBounded_of_resolve resolved known)
    exact ⟨condition, bounded, readsScreen known bounded⟩
  · rintro settings e rfl reachable
    obtain ⟨fresh, notices, us, applied, ready, h⟩ := reachable_registered reachable
    obtain ⟨own, variants⟩ := prepare_theme ready
    obtain rfl := Except.ok.inj (own.symm.trans resolved)
    rw [← h.theme, ← h.vocabulary] at variants
    rw [← h.theme]
    refine ⟨rfl, variants, fun condition line => ?_, fun used name screen min known bounded free => ?_⟩
    · rw [← variants]
      exact exists_line_iff_of_registered h
    · exact line_of_free h variants used known bounded free

end Engine

/-! ### A screen named for another variant -/

/-- One screen, with a name that a media feature has. -/
def printScreens : CategoryItems :=
  .ofList [("print", .text "640px")]

def Settings.printScreen : Settings :=
  { Settings.containerOnly with theme := { overrides := .ofList [("screens", printScreens)] } }

def printBounds : Screen :=
  ⟨some "640px", none⟩

theorem Theme.resolve_printScreen : ∃ theme, resolve Settings.printScreen.theme = .ok theme ∧
    theme.screens = .ofList [("print", printBounds)] := by
  have screened : resolveScreens Settings.printScreen.theme = .ok (.ofList [("print", printBounds)]) := rfl
  obtain ⟨theme, resolved⟩ := exists_resolve_of_screens screened rfl rfl (by decide)
  refine ⟨theme, resolved, ?_⟩
  exact Except.ok.inj ((screens_of_resolve resolved).symm.trans screened)

theorem VariantTable.taken_print (theme : Theme) : Taken theme "print" := by
  unfold Taken later
  simp only [List.map_append, List.mem_append, map_fst_ranked]
  exact .inl (.inl (.inl (.inr (by decide))))

def plainContainer : Utility :=
  ⟨"container", [], false, .rule ⟨containerRule, "", 0, none⟩⟩

namespace Engine
open Printer VariantTable

theorem exists_printScreen : ∃ theme e, Theme.resolve Settings.printScreen.theme = .ok theme ∧
    theme.screens = .ofList [("print", printBounds)] ∧ Reachable Settings.printScreen e ∧ e.UsesContainer := by
  obtain ⟨theme, resolved, screens⟩ := Theme.resolve_printScreen
  obtain ⟨fresh, notices, ready, known⟩ := prepare_containerOnly resolved
  have read := Vocabulary.read?_of_plain (by decide) (by decide) (by decide) known
  obtain ⟨e, reachable, seen, -, same, -⟩ := exists_scanned ready rfl read List.not_mem_nil
  refine ⟨theme, e, resolved, screens, reachable, plainContainer, ?_, rfl, rfl⟩
  obtain ⟨_, _, us, applied, -, h⟩ := reachable_registered reachable
  rw [← same] at read
  exact (holds_iff h).mpr (mem_of_seen h ((seen _).mpr rfl) read)

/-- The name of the screen is read as another variant, and no line stands under the width of the screen. -/
theorem screens_printed_of_print : ∃ theme e, Theme.resolve Settings.printScreen.theme = .ok theme ∧
    theme.screens.get? "print" = some printBounds ∧ Reachable Settings.printScreen e ∧ e.UsesContainer ∧
    (∀ n, (ofTheme theme).resolve? "print".toList ≠ some (.atRule (.nth n) "@media (min-width: 640px)")) ∧
    ∀ line inner, .atRule "@media (min-width: 640px)" (some line) inner ∉ e.printer.sheet e.cascade := by
  obtain ⟨theme, e, resolved, screens, reachable, used⟩ := exists_printScreen
  have known : theme.screens.get? "print" = some printBounds := by
    rw [screens]
    rfl
  obtain ⟨names, engines⟩ := screens_printed resolved
  obtain ⟨condition, bounded, reads⟩ := names _ _ known
  obtain rfl : "@media (min-width: 640px)" = condition := Option.some.inj bounded
  have plain : IsPlain "print" := ⟨by decide, by decide⟩
  obtain ⟨variant, -, found, other⟩ := reads.taken plain (taken_print theme)
  refine ⟨theme, e, resolved, known, reachable, used, fun n same => ?_, fun line inner printed => ?_⟩
  · obtain rfl := Option.some.inj (found.symm.trans same)
    exact other _ rfl rfl
  · obtain ⟨-, -, lines, -⟩ := engines _ e rfl reachable
    obtain ⟨-, name, screen, min, w, listed, least, -, wraps, own⟩ := (lines _ _).mp ⟨inner, printed⟩
    rw [screens] at listed
    obtain ⟨rfl, rfl⟩ := Prod.mk.inj (List.mem_singleton.mp (Table.mem_of_get?_ofList listed))
    rw [resolve?_of_isPlain _ plain] at found
    rw [found] at wraps
    exact other w wraps own.symm

end Engine

end UtilityCss
