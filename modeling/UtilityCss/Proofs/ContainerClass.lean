import UtilityCss.Proofs.DisabledFamilies
import UtilityCss.Proofs.Header
import UtilityCss.Proofs.Levels

/-!
# The container class

A utility of the container class is printed under the selector of the class and not its own, and only if no at-rule
is around it. So an at-rule with nothing in it is there for utilities of the container class only.
-/

namespace UtilityCss

/-! ### Where placements are held -/

/-- What stands under conditions, the outermost first. -/
def Placement.underAll : List String → List Placement → List Placement
  | [], ps => ps
  | condition :: conditions, ps => underAll conditions (under condition ps)

namespace Placement

variable {condition : String} {conditions : List String} {ps : List Placement} {ws : List Wrapping} {u : Utility}
  {us : List Utility}

theorem mem_bare_iff : u ∈ bare ps ↔ ([], u) ∈ ps := by
  rw [bare, List.mem_filterMap]
  constructor
  · rintro ⟨⟨_ | ⟨w, ws⟩, v⟩, member, same⟩
    · obtain rfl := Option.some.inj same
      exact member
    · cases same
  · exact fun member => ⟨_, member, rfl⟩

theorem mem_under_iff : (ws, u) ∈ under condition ps ↔ ∃ w, w.condition = condition ∧ (w :: ws, u) ∈ ps := by
  rw [under, List.mem_filterMap]
  constructor
  · rintro ⟨⟨_ | ⟨w, inner⟩, v⟩, member, inside⟩
    · cases inside
    · obtain ⟨same, inside⟩ := Option.ite_none_right_eq_some.mp inside
      cases inside
      exact ⟨w, same, member⟩
  · rintro ⟨w, same, member⟩
    exact ⟨_, member, if_pos same⟩

theorem exists_mem_underAll_iff : (∃ inner, (inner, u) ∈ underAll conditions ps) ↔
    ∃ ws, (ws, u) ∈ ps ∧ conditions <+: ws.map (·.condition) := by
  induction conditions generalizing ps with
  | nil => exact exists_congr fun ws => (and_iff_left List.nil_prefix).symm
  | cons condition conditions ih =>
    rw [underAll, ih]
    constructor
    · rintro ⟨ws, member, below⟩
      obtain ⟨w, same, member⟩ := mem_under_iff.mp member
      exact ⟨w :: ws, member, List.cons_prefix_cons.mpr ⟨same.symm, below⟩⟩
    · rintro ⟨_ | ⟨w, ws⟩, member, below⟩
      · exact absurd (List.prefix_nil.mp below) (List.cons_ne_nil _ _)
      · obtain ⟨same, below⟩ := List.cons_prefix_cons.mp below
        exact ⟨ws, mem_under_iff.mpr ⟨w, same.symm, member⟩, below⟩

theorem exists_mem_underAll_placement_iff :
    (∃ inner, (inner, u) ∈ underAll conditions (us.map Utility.placement)) ↔
      u ∈ us ∧ conditions <+: u.wrappings.map (·.condition) := by
  rw [exists_mem_underAll_iff]
  constructor
  · rintro ⟨ws, member, below⟩
    obtain ⟨v, listed, same⟩ := List.mem_map.mp member
    obtain ⟨rfl, rfl⟩ := Prod.mk.inj same
    exact ⟨listed, below⟩
  · rintro ⟨listed, below⟩
    exact ⟨_, List.mem_map_of_mem listed, below⟩

end Placement

namespace Cascade
open Placement

variable {c node : Cascade} {conditions : List String} {ps : List Placement} {seeds : List (CascadeGroup Unit)}
  {u : Utility}

theorem mem_utilities_iff (held : c.Holds seeds ps) : u ∈ c.utilities ↔ ([], u) ∈ ps := by
  obtain ⟨utilities, groups⟩ := c
  exact held.1.mem_iff.trans mem_bare_iff

theorem nodup_utilities (held : c.Holds seeds ps) (distinct : (ps.map (·.2.token)).Nodup) :
    c.utilities.Nodup := by
  obtain ⟨utilities, groups⟩ := c
  refine held.1.nodup_iff.mpr (List.Nodup.of_map (·.token) ?_)
  exact distinct.sublist (Printer.tokens_bare ps)

/-- A node that holds something holds what stands under its conditions, each time once. -/
theorem holds_of_nodeAt (held : c.Holds seeds ps) (stands : c.NodeAt conditions node)
    (inhabited : node.isEmpty = false) : ∃ seeds, node.Holds seeds (underAll conditions ps) := by
  induction stands generalizing seeds ps with
  | here => exact ⟨seeds, held⟩
  | inside listed stands ih =>
    have filled := Printer.isEmpty_eq_false_of_nodeAt stands inhabited
    exact ih (Printer.filled_group held.2 _ listed filled).2 inhabited

theorem placedInGroups_eq_nil {groups : List (CascadeGroup Cascade)}
    (vacant : ∀ g ∈ groups, g.content.isEmpty = true) : placedInGroups groups = [] := by
  induction groups with
  | nil => rfl
  | cons g groups ih =>
    rw [placedInGroups, isEmpty_iff.mp (vacant g List.mem_cons_self),
      ih fun g listed => vacant g (List.mem_cons_of_mem _ listed)]
    rfl

end Cascade

/-! ### What is printed for the container class -/

namespace Printer

variable {p : Printer} {used atRoot : Bool} {c : Cascade} {us : List Utility} {u : Utility}

theorem itemsFor_eq_nil (none : p.itemsFor atRoot us = []) : ∀ u ∈ us, u.isContainer = true := by
  intro u member
  obtain ⟨front, rest, rfl⟩ := List.append_of_mem member
  obtain ⟨before, -, same⟩ := @exists_itemsFor_append p atRoot front (u :: rest)
  have own : p.itemsFor atRoot (u :: rest) = [] := (List.append_eq_nil_iff.mp (same.symm.trans none)).2
  by_contra plain
  rw [Bool.not_eq_true] at plain
  cases sharing : (rest.head?.map p.printed).any (shares (p.printed u)) with
  | true => exact absurd ((itemsFor_shared plain sharing).symm.trans own) (List.cons_ne_nil _ _)
  | false => exact absurd ((itemsFor_block plain sharing).symm.trans own) (List.cons_ne_nil _ _)

/-- If a cascade prints nothing, it holds utilities of the container class only. -/
theorem isContainer_of_items_eq_nil (none : p.items used atRoot c = []) :
    ∀ x ∈ c.placed, x.2.isContainer = true := by
  obtain ⟨utilities, groups⟩ := c
  rw [items_eq] at none
  obtain ⟨own, behind⟩ := List.append_eq_nil_iff.mp none
  have vacant : ∀ g ∈ groups, g.content.isEmpty = true := by
    intro g listed
    by_contra inhabited
    obtain ⟨first, member⟩ := @atRule_mem_placedItem p used g (Bool.eq_false_iff.mpr inhabited)
    have printed := mem_groupsInOrder.mpr ⟨g, listed, member⟩
    exact List.ne_nil_of_mem printed behind
  intro x member
  rw [Cascade.placed, Cascade.placedInGroups_eq_nil vacant, List.append_nil] at member
  obtain ⟨u, inside, rfl⟩ := List.mem_map.mp member
  exact itemsFor_eq_nil (List.map_eq_nil_iff.mp own) u (List.mem_mergeSort.mpr inside)

/-- Outside all at-rules the container class has its block at the place of the utility. -/
theorem exists_split_of_isContainer (distinct : us.Nodup) (member : u ∈ us) (container : u.isContainer = true) :
    ∃ front behind, p.itemsFor true (inOrder us) = front ++ (u, containerBlock p.theme.container) :: behind ∧
      (∀ x ∈ front, x.1 ≠ u ∧ Rank.leWith x.1.sortKey u.sortKey = true) ∧
      ∀ x ∈ behind, x.1 ≠ u ∧ Rank.leWith u.sortKey x.1.sortKey = true := by
  have sorted : (inOrder us).Pairwise fun a b => Rank.leWith a.sortKey b.sortKey = true :=
    pairwise_mergeSort_key us
  have once : (inOrder us).Nodup := (List.mergeSort_perm us _).nodup_iff.mpr distinct
  have inside : u ∈ inOrder us := List.mem_mergeSort.mpr member
  obtain ⟨before, after, cut⟩ := List.append_of_mem inside
  rw [cut] at sorted once ⊢
  obtain ⟨front, own, same⟩ := @exists_itemsFor_append p true before (u :: after)
  rw [same, itemsFor_container container]
  refine ⟨front, p.itemsFor true after, rfl, fun x hx => ?_, fun x hx => ?_⟩
  · have earlier := own x hx
    obtain ⟨-, -, apart⟩ := List.nodup_append.mp once
    exact ⟨apart _ earlier u List.mem_cons_self,
      (List.pairwise_append.mp sorted).2.2 _ earlier u List.mem_cons_self⟩
  · have later := (exists_itemOf_of_mem_itemsFor hx).1
    have rest := (List.pairwise_append.mp sorted).2.1
    refine ⟨?_, (List.pairwise_cons.mp rest).1 _ later⟩
    rintro rfl
    exact (List.nodup_cons.mp (List.nodup_append.mp once).2.1).1 later

end Printer

/-! ### Registered tokens -/

namespace Engine
open Placement Printer

variable {settings : Settings} {fresh e : Engine} {blocklist : List String} {us : List Utility}
  {applied : DefaultGroups}

theorem mem_of_seen {token : String} {u : Utility} (h : Registered fresh blocklist us applied e)
    (seen : token ∈ e.seen) (read : e.vocabulary.read? token = some u) : u ∈ us := by
  obtain ⟨w, member, rfl⟩ := List.mem_map.mp ((h.seen token).mp seen)
  have meaning := h.meaning w member
  unfold Memo.answer? at meaning
  split at meaning
  · cases meaning
  · obtain rfl := Option.some.inj (read.symm.trans meaning)
    exact member

theorem mem_utilities_iff_of_registered {u : Utility} (h : Registered fresh blocklist us applied e) :
    u ∈ e.cascade.utilities ↔ u ∈ us ∧ u.wrappings = [] := by
  rw [Cascade.mem_utilities_iff h.cascade, List.mem_map]
  constructor
  · rintro ⟨v, member, same⟩
    obtain ⟨outside, rfl⟩ := Prod.mk.inj same
    exact ⟨member, outside⟩
  · rintro ⟨member, outside⟩
    exact ⟨u, member, Prod.ext outside rfl⟩

theorem container_of_empty_body {conditions : List String} {level : List SheetItem} {condition : String}
    (h : Registered fresh blocklist us applied e)
    (stands : SheetItem.LevelAt (e.printer.sheet e.cascade) conditions level)
    (printed : .atRule condition none [] ∈ level) :
    (∃ v ∈ us, conditions ++ [condition] <+: v.wrappings.map (·.condition)) ∧
    ∀ v ∈ us, conditions ++ [condition] <+: v.wrappings.map (·.condition) → v.isContainer = true := by
  rcases exists_node_of_levelAt stands with rfl | ⟨node, reached, rfl⟩
  · exact absurd printed List.not_mem_nil
  rcases exists_group_of_atRule printed with ⟨first, -⟩ | ⟨g, listed, rfl, none, inhabited⟩
  · exact absurd first Bool.false_ne_true
  obtain ⟨seeds, held⟩ := Cascade.holds_of_nodeAt h.cascade (Cascade.nodeAt_group reached listed) (inhabited rfl)
  constructor
  · have some : underAll (conditions ++ [g.condition]) (us.map Utility.placement) ≠ [] := by
      intro vacant
      have empty := (Cascade.isEmpty_iff_of_holds held).mpr vacant
      exact Bool.false_ne_true ((inhabited rfl).symm.trans empty)
    obtain ⟨⟨inner, v⟩, under⟩ := List.exists_mem_of_ne_nil _ some
    exact ⟨v, exists_mem_underAll_placement_iff.mp ⟨inner, under⟩⟩
  · intro v member below
    obtain ⟨inner, under⟩ := exists_mem_underAll_placement_iff.mpr ⟨member, below⟩
    -- Only utilities of the container class print nothing inside an at-rule.
    have placed := (Cascade.placed_perm held).mem_iff.mpr (List.mem_map_of_mem (f := Placement.place) under)
    exact isContainer_of_items_eq_nil none.symm _ placed

/-- A utility of the container class without at-rules is printed once, under the selector of the class and at its
place in the declaration order, whatever its variants and its mark are. With at-rules it is not printed at all. Under
an at-rule that is printed with nothing in it utilities are registered, and all of them are of the container class. -/
theorem container_class_printed (reachable : Reachable settings e) :
    e.printer.PrintsNodes e.cascade ∧
    (∀ token ∈ e.seen, ∀ u, e.vocabulary.read? token = some u → u.isContainer = true →
      (u.wrappings = [] → ∃ front behind,
        e.printer.itemsAt [] e.cascade = front ++ (u, containerBlock e.theme.container) :: behind ∧
        (∀ x ∈ front, x.1 ≠ u ∧ Rank.leWith x.1.sortKey u.sortKey = true) ∧
        ∀ x ∈ behind, x.1 ≠ u ∧ Rank.leWith u.sortKey x.1.sortKey = true) ∧
      ∀ conditions node item, e.cascade.NodeAt conditions node →
        (u, item) ∈ e.printer.itemsAt conditions node → conditions = [] ∧ u.wrappings = []) ∧
    ∀ conditions level condition, SheetItem.LevelAt (e.printer.sheet e.cascade) conditions level →
      .atRule condition none [] ∈ level →
      (∃ v, e.Holds v ∧ conditions ++ [condition] <+: v.wrappings.map (·.condition)) ∧
      ∀ v, e.Holds v → conditions ++ [condition] <+: v.wrappings.map (·.condition) → v.isContainer = true := by
  obtain ⟨fresh, notices, us, applied, -, h⟩ := reachable_registered reachable
  refine ⟨printsNodes _ _,
    fun token seen u read container => ⟨fun outside => ?_, fun conditions node item stands printed => ?_⟩,
    fun conditions level condition stands printed => ?_⟩
  · have member := (mem_utilities_iff_of_registered h).mpr ⟨mem_of_seen h seen read, outside⟩
    have distinct : ((us.map Utility.placement).map (·.2.token)).Nodup := by
      rw [List.map_map]
      exact h.distinct
    exact exists_split_of_isContainer (Cascade.nodup_utilities h.cascade distinct) member container
  · obtain ⟨listed, next, own⟩ := exists_itemOf_of_mem_itemsFor printed
    rcases itemOf_cases own with ⟨-, root, -⟩ | ⟨plain, -⟩ | ⟨plain, -⟩
    · obtain rfl := List.isEmpty_iff.mp root
      obtain rfl := Cascade.eq_of_nodeAt_nil stands
      exact ⟨rfl, ((mem_utilities_iff_of_registered h).mp (List.mem_mergeSort.mp listed)).2⟩
    · exact absurd (plain.symm.trans container) Bool.false_ne_true
    · exact absurd (plain.symm.trans container) Bool.false_ne_true
  · obtain ⟨⟨v, member, below⟩, all⟩ := container_of_empty_body h stands printed
    exact ⟨⟨v, (holds_iff h).mpr member, below⟩, fun w held => all w ((holds_iff h).mp held)⟩

/-- If a token of the container class is the only one registered, every block is that of the class. -/
theorem selector_of_block {token selector : String} {u : Utility} {conditions lines : List String}
    {level : List SheetItem} (reachable : Reachable settings e) (only : ∀ t, t ∈ e.seen ↔ t = token)
    (read : e.vocabulary.read? token = some u) (container : u.isContainer = true)
    (stands : SheetItem.LevelAt (e.printer.sheet e.cascade) conditions level)
    (printed : .block selector lines ∈ level) : selector = ".container" ∧ u.wrappings = [] := by
  obtain ⟨fresh, notices, us, applied, -, h⟩ := reachable_registered reachable
  rcases (printsNodes _ _).nodes _ _ stands with rfl | ⟨node, reached, groups, rules, rfl⟩
  · exact absurd printed List.not_mem_nil
  rcases List.mem_append.mp printed with own | behind
  · obtain ⟨⟨v, item⟩, inside, rfl⟩ := List.mem_map.mp own
    obtain ⟨listed, next, made⟩ := exists_itemOf_of_mem_itemsFor inside
    have held : v ∈ us := (holds_iff h).mp ⟨_, Cascade.mem_placed_of_nodeAt reached (List.mem_mergeSort.mp listed)⟩
    have registered : u ∈ us := mem_of_seen h ((only token).mpr rfl) read
    have named : ∀ w ∈ us, w.token = token := fun w member =>
      (only _).mp ((h.seen _).mpr (List.mem_map_of_mem member))
    obtain rfl : v = u := List.inj_on_of_nodup_map h.distinct held registered
      ((named v held).trans (named u registered).symm)
    rcases itemOf_cases made with ⟨-, root, same⟩ | ⟨plain, -⟩ | ⟨plain, -⟩
    · obtain rfl := List.isEmpty_iff.mp root
      obtain rfl := Cascade.eq_of_nodeAt_nil reached
      exact ⟨(SheetItem.block.inj same).1,
        ((mem_utilities_iff_of_registered h).mp (List.mem_mergeSort.mp listed)).2⟩
    · exact absurd (plain.symm.trans container) Bool.false_ne_true
    · exact absurd (plain.symm.trans container) Bool.false_ne_true
  · cases rules _ behind

end Engine

/-! ### An engine of the container class -/

def containerRule : Rule :=
  Rule.withContainer (.fixed "container" [])

/-- Only the container class is on. -/
def Settings.containerOnly : Settings where
  families := Catalog.allOff.insert "container" true

def containerIndex : EntryIndex :=
  (EntryIndex.progress [containerRule]).index

namespace Catalog

theorem families_container (theme : Theme) (flags : FamilyFlags) :
    ((families theme flags).drop 0).take 1 = [⟨"container", [containerRule]⟩] := rfl

theorem rules_containerOnly (theme : Theme) :
    Catalog.rules theme Settings.containerOnly.families [] ∅ = .ok [containerRule] := by
  have known : ∀ name ∈ Settings.containerOnly.families, name ∈ familyNames := by
    intro name member
    rcases Std.TreeMap.mem_insert.mp member with same | member
    · rw [← Std.LawfulEqCmp.compare_eq_iff_eq.mp same]
      exact List.mem_cons_self
    · exact allOff_known name member
  have on : ∀ family ∈ families theme Settings.containerOnly.families,
      Settings.containerOnly.families.enabled family.name = decide (family.name = "container") := by
    intro family member
    have named : family.name ∈ familyNames := by
      rw [← map_name_families theme Settings.containerOnly.families]
      exact List.mem_map_of_mem member
    simp only [FamilyFlags.enabled, Settings.containerOnly, Std.TreeMap.getElem?_insert, getElem?_allOff,
      if_pos named, Std.LawfulEqCmp.compare_eq_iff_eq]
    by_cases same : "container" = family.name
    · rw [if_pos same, ← same]
      rfl
    · rw [if_neg same, decide_eq_false (Ne.symm same)]
      rfl
  have off : (familyNames.take 0 ++ familyNames.drop (0 + 1)).all (fun name => !decide (name = "container")) =
      true := by decide
  rw [rules_of_checks known rfl rfl, others, List.filter_congr on,
    @filter_families theme _ (fun name => decide (name = "container")) 0 1 off, families_container]
  rfl

end Catalog

/-- The container class behind one variant. -/
def containerBehind (token : String) (variant : Variant) : Utility :=
  ⟨token, [variant], false, .rule ⟨containerRule, "", 0, none⟩⟩

namespace Engine
open Printer

theorem prepare_containerOnly {config : ThemeConfig} {theme : Theme} (themed : Theme.resolve config = .ok theme) :
    ∃ fresh notices, prepare { Settings.containerOnly with theme := config } = .ok (fresh, notices) ∧
      fresh.vocabulary.entries.get? "container" = some ⟨containerRule, "", "", false, 0⟩ := by
  have indexed : EntryIndex.build [containerRule] = .ok (containerIndex, []) := rfl
  obtain ⟨fresh, notices, ready, -, vocabulary, -⟩ :=
    @prepare_eq_ok { Settings.containerOnly with theme := config } _ _ _ _ _ themed
      (Catalog.rules_containerOnly theme) indexed rfl
  refine ⟨fresh, notices, ready, ?_⟩
  rw [vocabulary]
  rfl

/-- A scan of the container class behind one variant. -/
theorem exists_containerBehind {token : String} {cs : List Char} {variant : Variant}
    (parts : TokenParts.ofToken token.toList = ⟨[cs], false, "container".toList⟩)
    (resolved : ∀ variants : VariantTable, variants.resolve? cs = some variant) :
    ∃ e, Reachable Settings.containerOnly e ∧ (∀ t, t ∈ e.seen ↔ t = token) ∧
      e.vocabulary.read? token = some (containerBehind token variant) := by
  obtain ⟨theme, themed⟩ := Theme.resolve_base
  obtain ⟨fresh, notices, ready, known⟩ := prepare_containerOnly themed
  have variants : [cs].mapM fresh.vocabulary.variants.resolve? = some [variant] := by
    rw [List.mapM_cons, resolved]
    rfl
  have read := Vocabulary.read?_of_known parts variants (by decide) known
  obtain ⟨e, reachable, seen, -, same, -⟩ := exists_scanned ready rfl read List.not_mem_nil
  exact ⟨e, reachable, seen, (congrArg (·.read? token) same).trans read⟩

def hoverContainer : Utility :=
  containerBehind "[&:hover]:container" (.onSelector (.template "&:hover"))

def printContainer : Utility :=
  containerBehind "[@media_print]:container" (.atRule .last "@media print")

theorem exists_hoverContainer : ∃ e, Reachable Settings.containerOnly e ∧
    (∀ t, t ∈ e.seen ↔ t = hoverContainer.token) ∧
    e.vocabulary.read? hoverContainer.token = some hoverContainer :=
  @exists_containerBehind _ "[&:hover]".toList _ (by decide +kernel) fun _ => rfl

theorem exists_printContainer : ∃ e, Reachable Settings.containerOnly e ∧
    (∀ t, t ∈ e.seen ↔ t = printContainer.token) ∧
    e.vocabulary.read? printContainer.token = some printContainer :=
  @exists_containerBehind _ "[@media_print]".toList _ (by decide +kernel) fun _ => rfl

theorem hoverContainer_printed : ∃ e, Reachable Settings.containerOnly e ∧
    hoverContainer.isContainer = true ∧ hoverContainer.wrappings = [] ∧
    ∃ front behind, e.printer.itemsAt [] e.cascade =
      front ++ (hoverContainer, containerBlock e.theme.container) :: behind := by
  obtain ⟨e, reachable, seen, read⟩ := exists_hoverContainer
  have printed := (container_class_printed reachable).2.1 _ ((seen _).mpr rfl) _ read rfl
  obtain ⟨front, behind, same, -⟩ := printed.1 rfl
  exact ⟨e, reachable, rfl, rfl, front, behind, same⟩

/-- Behind a variant that changes the selector, the container class has no block with the selector of its token,
and behind a variant that is an at-rule no block at all. -/
theorem no_block_of_container :
    (∃ e, Reachable Settings.containerOnly e ∧ hoverContainer.token ∈ e.seen ∧
      e.vocabulary.read? hoverContainer.token = some hoverContainer ∧ hoverContainer.isContainer = true ∧
      ∀ conditions level lines, SheetItem.LevelAt (e.printer.sheet e.cascade) conditions level →
        .block hoverContainer.selector lines ∉ level) ∧
    ∃ e, Reachable Settings.containerOnly e ∧ printContainer.token ∈ e.seen ∧
      e.vocabulary.read? printContainer.token = some printContainer ∧ printContainer.isContainer = true ∧
      ∀ conditions level selector lines, SheetItem.LevelAt (e.printer.sheet e.cascade) conditions level →
        .block selector lines ∉ level := by
  constructor
  · obtain ⟨e, reachable, seen, read⟩ := exists_hoverContainer
    refine ⟨e, reachable, (seen _).mpr rfl, read, rfl, fun conditions level lines stands printed => ?_⟩
    obtain ⟨selector, -⟩ := selector_of_block reachable seen read rfl stands printed
    exact absurd selector (by decide)
  · obtain ⟨e, reachable, seen, read⟩ := exists_printContainer
    refine ⟨e, reachable, (seen _).mpr rfl, read, rfl, fun conditions level selector lines stands printed => ?_⟩
    obtain ⟨-, outside⟩ := selector_of_block reachable seen read rfl stands printed
    cases outside

end Engine

end UtilityCss
