import UtilityCss.Proofs.ArrivalOrder

/-!
# Layouts

A printed sheet is the rendering of nested blocks. `Layout` describes them without the printer: blocks of
utilities that have the same lines, and groups of layouts under conditions. `text_eq_layout` says that every
cascade prints as the rendering of a layout that holds what was inserted, in order.
-/

namespace UtilityCss

/-- Utilities that share their lines. -/
structure Block where
  utilities : List Utility
  lines : List String

inductive Layout
  | node (blocks : List Block) (groups : List (String × Layout))

namespace Layout

/-! ### Rendering -/

def selectorLines (indent : String) : List String → List String
  | [] => []
  | [selector] => [indent ++ selector ++ " \x7b"]
  | selector :: next :: rest => (indent ++ selector ++ ",") :: selectorLines indent (next :: rest)

/-- A list of selectors and the lines that they share. -/
def blockLines (indent : String) (block : Block) : List String :=
  selectorLines indent (block.utilities.map Utility.selector) ++
    (block.lines.map (indent ++ "  " ++ ·) ++ [indent ++ "\x7d"])

mutual

/-- The blocks, and behind them the groups, each two spaces further in. -/
def lines (indent : String) : Layout → List String
  | node blocks groups => blocks.flatMap (blockLines indent) ++ linesOfGroups indent groups

def linesOfGroups (indent : String) : List (String × Layout) → List String
  | [] => []
  | (condition, content) :: groups =>
    (indent ++ condition ++ " \x7b") :: (content.lines (indent ++ "  ") ++ [indent ++ "\x7d"]) ++
      linesOfGroups indent groups

end

/-! ### What a layout holds -/

mutual

/-- Every utility with the conditions that it stands under, the outermost first. -/
def placed : Layout → List (List String × Utility)
  | node blocks groups => (blocks.flatMap (·.utilities)).map ([], ·) ++ placedInGroups groups

def placedInGroups : List (String × Layout) → List (List String × Utility)
  | [] => []
  | (condition, content) :: groups =>
    content.placed.map (fun p => (condition :: p.1, p.2)) ++ placedInGroups groups

end

/-- A block prints the lines of each of its utilities, and there are some. -/
def Fits (p : Printer) (block : Block) : Prop :=
  block.utilities ≠ [] ∧ ∀ u ∈ block.utilities, p.lines u = block.lines

/-- The place of a condition: the earliest rank at which the placements ask for it, or at which it is there
from the start. -/
def conditionKey (first : String → Option Rank) (ps : List Placement) (condition : String) : Rank × String :=
  (Rank.least ((first condition).toList ++ Placement.ranks condition ps), condition)

/-- Blocks and groups are in order, and no group is opened twice or empty. `first` tells the rank of a
condition that is there from the start, and `ps` are the placements in question. -/
inductive Arranged (p : Printer) : (String → Option Rank) → List Placement → Layout → Prop
  | node {first : String → Option Rank} {ps : List Placement} {blocks : List Block}
      {groups : List (String × Layout)} :
      (∀ block ∈ blocks, Fits p block) →
      ((blocks.flatMap (·.utilities)).Pairwise fun u v => Rank.leWith u.sortKey v.sortKey = true) →
      (groups.map (·.1)).Nodup →
      (groups.Pairwise fun g h =>
        Rank.leWith (conditionKey first ps g.1) (conditionKey first ps h.1) = true) →
      (∀ g ∈ groups, g.2.placed ≠ []) →
      (∀ g ∈ groups, Arranged p (fun _ => none) (Placement.under g.1 ps) g.2) →
      Arranged p first ps (.node blocks groups)

end Layout

/-! ### The layout of a cascade -/

namespace Printer
open Cascade Placement

variable {p : Printer}

/-- Puts a utility in front of the first block. -/
def joinBlock (p : Printer) (u : Utility) : List Block → List Block
  | [] => [⟨[u], p.lines u⟩]
  | block :: blocks => ⟨u :: block.utilities, block.lines⟩ :: blocks

/-- The blocks of utilities that stand in order. -/
def blocks (p : Printer) : List Utility → List Block
  | [] => []
  | u :: rest =>
    if (rest.head?.map p.printed).any (shares (p.printed u)) then p.joinBlock u (blocks p rest)
    else ⟨[u], p.lines u⟩ :: blocks p rest

mutual

def layout (p : Printer) : Cascade → Layout
  | .node utilities groups =>
    .node (p.blocks (inOrder utilities))
      (((layoutGroups p groups).mergeSort fun g h =>
        Rank.leWith (g.rank, g.condition) (h.rank, h.condition)).map fun g => (g.condition, g.content))

/-- The layouts of the groups that hold something. -/
def layoutGroups (p : Printer) : List (CascadeGroup Cascade) → List (CascadeGroup Layout)
  | [] => []
  | ⟨screen, rank, condition, content⟩ :: groups =>
    if content.isEmpty then layoutGroups p groups
    else ⟨screen, rank, condition, layout p content⟩ :: layoutGroups p groups

end

theorem blocks_cons (u : Utility) (rest : List Utility) :
    p.blocks (u :: rest) = if (rest.head?.map p.printed).any (shares (p.printed u)) then
      p.joinBlock u (p.blocks rest) else ⟨[u], p.lines u⟩ :: p.blocks rest := rfl

theorem flatMap_joinBlock (u : Utility) (bs : List Block) :
    (p.joinBlock u bs).flatMap (·.utilities) = u :: bs.flatMap (·.utilities) := by
  cases bs <;> rfl

theorem flatMap_blocks (us : List Utility) : (p.blocks us).flatMap (·.utilities) = us := by
  induction us with
  | nil => rfl
  | cons u rest ih =>
    rw [blocks_cons]
    split
    · rw [flatMap_joinBlock, ih]
    · rw [List.flatMap_cons, ih]
      rfl

/-- The first block starts with the first utility. -/
theorem head_blocks (u : Utility) (rest : List Utility) :
    ∃ block later us, p.blocks (u :: rest) = block :: later ∧ block.utilities = u :: us := by
  rw [blocks_cons]
  split
  · cases p.blocks rest with
    | nil => exact ⟨_, _, _, rfl, rfl⟩
    | cons block later => exact ⟨_, _, _, rfl, rfl⟩
  · exact ⟨_, _, _, rfl, rfl⟩

theorem blocks_fit (us : List Utility) : ∀ block ∈ p.blocks us, Layout.Fits p block := by
  induction us with
  | nil => exact fun _ h => absurd h List.not_mem_nil
  | cons u rest ih =>
    have alone : Layout.Fits p ⟨[u], p.lines u⟩ := ⟨by simp, by simp⟩
    intro block member
    rw [blocks_cons] at member
    split at member
    · rename_i shared
      cases rest with
      | nil => exact absurd shared Bool.false_ne_true
      | cons v rest =>
        obtain ⟨first, later, us, cut, starts⟩ := head_blocks (p := p) v rest
        rw [cut] at member ih
        have same : p.lines u = first.lines := by
          have sharing : p.lines u = p.lines v := by
            simp only [List.head?_cons, Option.map_some, Option.any_some, shares, Bool.and_eq_true,
              decide_eq_true_eq] at shared
            exact shared.1.1
          have fits := (ih first List.mem_cons_self).2 v (by rw [starts]; exact List.mem_cons_self)
          exact sharing.trans fits
        rcases List.mem_cons.mp member with rfl | isLater
        · refine ⟨List.cons_ne_nil _ _, fun x hx => ?_⟩
          rcases List.mem_cons.mp hx with rfl | inFirst
          · exact same
          · exact (ih first List.mem_cons_self).2 x inFirst
        · exact ih block (List.mem_cons_of_mem _ isLater)
    · rcases List.mem_cons.mp member with rfl | isLater
      · exact alone
      · exact ih block isLater

theorem linesOfAll_append (indent : String) (xs ys : List SheetItem) :
    SheetItem.linesOfAll indent (xs ++ ys) =
      SheetItem.linesOfAll indent xs ++ SheetItem.linesOfAll indent ys := by
  induction xs with
  | nil => rfl
  | cons x xs ih =>
    rw [List.cons_append, SheetItem.linesOfAll, SheetItem.linesOfAll, ih, List.append_assoc]

theorem blockLines_single (indent : String) (u : Utility) (lines : List String) :
    Layout.blockLines indent ⟨[u], lines⟩ = SheetItem.blockLines indent u.selector lines := rfl

theorem blockLines_cons (indent : String) {block : Block} (u : Utility) (some : block.utilities ≠ []) :
    Layout.blockLines indent ⟨u :: block.utilities, block.lines⟩ =
      (indent ++ u.selector ++ ",") :: Layout.blockLines indent block := by
  obtain ⟨_ | ⟨v, rest⟩, lines⟩ := block
  · exact absurd rfl some
  · rfl

/-- Utilities that stand in order print as their blocks. -/
theorem linesOfAll_itemsInOrder {atRoot : Bool} {us : List Utility} (indent : String)
    (plain : ∀ u ∈ us, u.isContainer = false) :
    SheetItem.linesOfAll indent (p.itemsInOrder atRoot (us.map p.printed)) =
      (p.blocks us).flatMap (Layout.blockLines indent) := by
  induction us with
  | nil => rfl
  | cons u rest ih =>
    have later := ih fun v hv => plain v (List.mem_cons_of_mem _ hv)
    have own : (p.printed u).container = false := plain u List.mem_cons_self
    rw [List.map_cons, itemsInOrder, linesOfAll_append, later, List.head?_map, blocks_cons, itemOf, own,
      if_neg Bool.false_ne_true]
    split
    · rename_i shared
      cases rest with
      | nil => exact absurd shared Bool.false_ne_true
      | cons v rest =>
        obtain ⟨first, blocks, us, cut, starts⟩ := head_blocks (p := p) v rest
        have inFirst : first.utilities ≠ [] := by simp [starts]
        rw [cut, joinBlock, List.flatMap_cons, List.flatMap_cons, blockLines_cons indent u inFirst]
        rfl
    · rw [List.flatMap_cons, blockLines_single]
      simp [SheetItem.linesOfAll, SheetItem.lines, printed]

/-! ### Groups -/

theorem layoutGroups_eq (groups : List (CascadeGroup Cascade)) :
    p.layoutGroups groups = (groups.filter fun g => !g.content.isEmpty).map fun g =>
      ⟨g.screen, g.rank, g.condition, p.layout g.content⟩ := by
  induction groups with
  | nil => rfl
  | cons group groups ih =>
    obtain ⟨screen, rank, condition, content⟩ := group
    unfold layoutGroups
    cases vacant : content.isEmpty with
    | true =>
      rw [List.filter_cons_of_neg (by simp [vacant]), ih]
      rfl
    | false =>
      rw [List.filter_cons_of_pos (by simp [vacant]), ih]
      rfl

/-- The groups of a cascade that hold something, in order. -/
def filled (groups : List (CascadeGroup Cascade)) : List (CascadeGroup Cascade) :=
  (groups.mergeSort fun g h => Rank.leWith (g.rank, g.condition) (h.rank, h.condition)).filter
    fun g => !g.content.isEmpty

theorem layout_node (utilities : List Utility) (groups : List (CascadeGroup Cascade)) :
    p.layout (.node utilities groups) =
      .node (p.blocks (inOrder utilities))
        ((filled groups).map fun g => (g.condition, p.layout g.content)) := by
  rw [layout, layoutGroups_eq, mergeSort_map_key, List.map_map, filled, filter_mergeSort]
  rfl

theorem groupsInOrder_placedItems (groups : List (CascadeGroup Cascade)) :
    groupsInOrder (p.placedItems false groups) =
      (filled groups).map fun g => .atRule g.condition none (p.items false false g.content) := by
  unfold groupsInOrder filled
  rw [placedItems_eq_map, mergeSort_map_key]
  change List.flatMap _ (List.map _ (groups.mergeSort fun g h =>
    Rank.leWith (g.rank, g.condition) (h.rank, h.condition))) = _
  generalize groups.mergeSort _ = sorted
  induction sorted with
  | nil => rfl
  | cons g sorted ih =>
    rw [List.map_cons, List.flatMap_cons, ih]
    cases vacant : g.content.isEmpty <;> simp [placedItem, groupItems, vacant]

theorem mem_filled {g : CascadeGroup Cascade} {groups : List (CascadeGroup Cascade)} :
    g ∈ filled groups ↔ g ∈ groups ∧ g.content.isEmpty = false := by
  simp [filled]

theorem container_mem_placed {u : Utility} {utilities : List Utility} {groups : List (CascadeGroup Cascade)}
    (member : u ∈ utilities) : ([], u) ∈ (Cascade.node utilities groups).placed := by
  rw [Cascade.placed]
  exact List.mem_append_left _ (List.mem_map_of_mem member)

theorem mem_placed_group {g : CascadeGroup Cascade} {groups : List (CascadeGroup Cascade)}
    {x : List String × Utility} (member : g ∈ groups) (held : x ∈ g.content.placed) :
    (g.condition :: x.1, x.2) ∈ Cascade.placedInGroups groups := by
  induction groups with
  | nil => exact absurd member List.not_mem_nil
  | cons first groups ih =>
    rw [Cascade.placedInGroups]
    rcases List.mem_cons.mp member with rfl | later
    · exact List.mem_append_left _ (List.mem_map.mpr ⟨x, held, rfl⟩)
    · exact List.mem_append_right _ (ih later)

/-- A cascade without the container class prints as its layout, however far in it stands. -/
theorem linesOfAll_items {c : Cascade} {atRoot : Bool} (indent : String)
    (plain : ∀ x ∈ c.placed, x.2.isContainer = false) :
    SheetItem.linesOfAll indent (p.items false atRoot c) = (p.layout c).lines indent := by
  induction c using Cascade.induct generalizing indent atRoot with
  | node utilities groups ih =>
    have own : ∀ u ∈ inOrder utilities, u.isContainer = false := fun u hu =>
      plain _ (container_mem_placed (List.mem_mergeSort.mp hu))
    rw [items, linesOfAll_append, linesOfAll_itemsInOrder indent own, groupsInOrder_placedItems, layout_node,
      Layout.lines]
    refine congrArg (_ ++ ·) ?_
    have inside : ∀ g ∈ filled groups, ∀ indent, SheetItem.linesOfAll indent (p.items false false g.content) =
        (p.layout g.content).lines indent := by
      intro g hg indent
      have member := (mem_filled.mp hg).1
      refine ih g member indent fun x hx => ?_
      refine plain (g.condition :: x.1, x.2) ?_
      rw [Cascade.placed]
      exact List.mem_append_right _ (mem_placed_group member hx)
    generalize filled groups = sorted at inside
    clear own ih plain
    induction sorted with
    | nil => rfl
    | cons g sorted ih =>
      have later := ih fun h hh => inside h (List.mem_cons_of_mem _ hh)
      rw [List.map_cons, List.map_cons, SheetItem.linesOfAll, Layout.linesOfGroups, later, SheetItem.lines,
        inside g List.mem_cons_self]
      rfl

/-! ### What the layout holds -/

theorem placedInGroups_filter (groups : List (CascadeGroup Cascade)) :
    Cascade.placedInGroups (groups.filter fun g => !g.content.isEmpty) = Cascade.placedInGroups groups := by
  induction groups with
  | nil => rfl
  | cons g groups ih =>
    cases vacant : g.content.isEmpty with
    | false =>
      rw [List.filter_cons_of_pos (by simp [vacant]), Cascade.placedInGroups, Cascade.placedInGroups, ih]
    | true =>
      rw [List.filter_cons_of_neg (by simp [vacant]), ih, Cascade.placedInGroups,
        Cascade.isEmpty_iff.mp vacant]
      rfl

theorem placedInGroups_perm {gs hs : List (CascadeGroup Cascade)} (perm : gs.Perm hs) :
    (Cascade.placedInGroups gs).Perm (Cascade.placedInGroups hs) := by
  have flat : ∀ groups : List (CascadeGroup Cascade), Cascade.placedInGroups groups =
      groups.flatMap fun g => g.content.placed.map fun x => (g.condition :: x.1, x.2) := by
    intro groups
    induction groups with
    | nil => rfl
    | cons g groups ih => rw [Cascade.placedInGroups, ih, List.flatMap_cons]
  rw [flat, flat]
  exact perm.flatMap_right _

theorem placed_layout (c : Cascade) : (p.layout c).placed.Perm c.placed := by
  induction c using Cascade.induct with
  | node utilities groups ih =>
    rw [layout_node, Layout.placed, Cascade.placed, flatMap_blocks]
    refine ((List.mergeSort_perm utilities _).map _).append ?_
    have sorted : (Cascade.placedInGroups (filled groups)).Perm (Cascade.placedInGroups groups) := by
      rw [filled, placedInGroups_filter]
      exact placedInGroups_perm (List.mergeSort_perm groups _)
    refine List.Perm.trans ?_ sorted
    have inside : ∀ g ∈ filled groups, (p.layout g.content).placed.Perm g.content.placed :=
      fun g hg => ih g (mem_filled.mp hg).1
    generalize filled groups = chosen at inside
    clear sorted ih
    induction chosen with
    | nil => exact .refl _
    | cons g chosen ih =>
      rw [List.map_cons, Layout.placedInGroups, Cascade.placedInGroups]
      exact ((inside g List.mem_cons_self).map _).append
        (ih fun h hh => inside h (List.mem_cons_of_mem _ hh))

/-- The rank of the first seed with a condition. -/
def seedRank (seeds : List (CascadeGroup Unit)) (condition : String) : Option Rank :=
  (seeds.find? (·.condition = condition)).map (·.rank)

theorem filled_group {seeds : List (CascadeGroup Unit)} {groups : List (CascadeGroup Cascade)}
    {ps : List Placement} (h : GroupsHold seeds groups ps) :
    ∀ g ∈ groups, g.content.isEmpty = false →
      (g.rank, g.condition) = Layout.conditionKey (seedRank seeds) ps g.condition ∧
        g.content.Holds [] (under g.condition ps) := by
  induction groups generalizing seeds ps with
  | nil => exact fun _ hg => absurd hg List.not_mem_nil
  | cons first groups ih =>
    obtain ⟨screen, rank, condition, content⟩ := first
    obtain ⟨start, held, rest⟩ := h
    intro g hg inhabited
    rcases List.mem_cons.mp hg with rfl | later
    · refine ⟨Prod.ext ?_ rfl, held⟩
      cases seeds with
      | nil =>
        obtain ⟨-, -, ranked⟩ := start
        exact ranked
      | cons s seeds =>
        obtain ⟨-, same, ranked⟩ := start
        dsimp only at same ranked
        simpa [seedRank, Layout.conditionKey, same] using ranked
    · obtain ⟨key, inside⟩ := ih rest g later inhabited
      -- Everything under the first condition is in the first group, so this one has another.
      have other : g.condition ≠ condition := by
        intro same
        rw [same, under_besides_same] at inside
        rw [(isEmpty_iff_of_holds inside).mpr rfl] at inhabited
        exact absurd inhabited (by decide)
      rw [under_besides other] at inside
      refine ⟨key.trans ?_, inside⟩
      have seeded : seedRank seeds.tail g.condition = seedRank seeds g.condition := by
        cases seeds with
        | nil => rfl
        | cons s seeds =>
          have same : condition = s.condition := seed_condition start
          simp [seedRank, ← same, Ne.symm other]
      rw [Layout.conditionKey, Layout.conditionKey, ranks_besides other, seeded]

theorem nodup_filled {seeds : List (CascadeGroup Unit)} {groups : List (CascadeGroup Cascade)}
    {ps : List Placement} (h : GroupsHold seeds groups ps) :
    ((filled groups).map (·.condition)).Nodup := by
  have perm : (filled groups).Perm (groups.filter fun g => !g.content.isEmpty) :=
    (List.mergeSort_perm groups _).filter _
  rw [(perm.map _).nodup_iff]
  clear perm
  induction groups generalizing seeds ps with
  | nil => exact List.nodup_nil
  | cons first groups ih =>
    obtain ⟨screen, rank, condition, content⟩ := first
    obtain ⟨-, -, rest⟩ := h
    have later := ih rest
    rw [List.filter_cons]
    split
    · refine List.nodup_cons.mpr ⟨fun again => ?_, later⟩
      obtain ⟨g, hg, same⟩ := List.mem_map.mp again
      obtain ⟨member, inhabited⟩ := List.mem_filter.mp hg
      obtain ⟨-, inside⟩ := filled_group rest g member (by simpa using inhabited)
      dsimp only at same
      rw [same, under_besides_same] at inside
      rw [(isEmpty_iff_of_holds inside).mpr rfl] at inhabited
      exact absurd inhabited (by decide)
    · exact later

theorem layout_arranged {c : Cascade} {seeds : List (CascadeGroup Unit)} {ps : List Placement}
    (h : c.Holds seeds ps) : Layout.Arranged p (seedRank seeds) ps (p.layout c) := by
  induction c using Cascade.induct generalizing seeds ps with
  | node utilities groups ih =>
    obtain ⟨-, below⟩ := h
    have each := filled_group below
    rw [layout_node]
    refine .node (blocks_fit _) ?_ ?_ ?_ ?_ ?_
    · rw [flatMap_blocks]
      exact pairwise_mergeSort_key utilities
    · rw [List.map_map]
      exact nodup_filled below
    · rw [List.pairwise_map]
      have sorted : (filled groups).Pairwise fun g h =>
          Rank.leWith (g.rank, g.condition) (h.rank, h.condition) = true :=
        (pairwise_mergeSort_key groups).sublist List.filter_sublist
      refine sorted.imp_of_mem ?_
      intro g h hg hh le
      obtain ⟨gin, gsome⟩ := mem_filled.mp hg
      obtain ⟨hin, hsome⟩ := mem_filled.mp hh
      rwa [(each g gin gsome).1, (each h hin hsome).1] at le
    · intro g hg
      obtain ⟨source, member, rfl⟩ := List.mem_map.mp hg
      obtain ⟨-, inhabited⟩ := mem_filled.mp member
      intro vacant
      have same : (p.layout source.content).placed.Perm source.content.placed := placed_layout source.content
      rw [vacant] at same
      rw [Cascade.isEmpty_iff.mpr same.nil_eq.symm] at inhabited
      exact absurd inhabited (by decide)
    · intro g hg
      obtain ⟨source, member, rfl⟩ := List.mem_map.mp hg
      obtain ⟨inside, inhabited⟩ := mem_filled.mp member
      have held := (each source inside inhabited).2
      exact ih source inside held

/-- Utilities that are inserted into the cascade of some screens print as the rendering of a layout. It holds
each of them once, under the conditions of its variants as they are written, and everything in it is in order. -/
theorem text_eq_layout (p : Printer) (screens : Screens) (variants : VariantTable) (us : List Utility)
    (plain : ∀ u ∈ us, u.isContainer = false) (groups : DefaultGroups) (keyframes : Std.TreeSet String) :
    ∃ layout : Layout,
      p.text (us.foldl Cascade.insert (.withScreens screens variants)) groups keyframes =
        p.header groups keyframes.toList ++ textOfLines (layout.lines "") ∧
      layout.placed.Perm (us.map fun u => (u.wrappings.map (·.condition), u)) ∧
      layout.Arranged p (seedRank (screenSeeds screens variants)) (us.map Utility.placement) := by
  have held : (us.foldl Cascade.insert (.withScreens screens variants)).Holds
      (screenSeeds screens variants) (us.map Utility.placement) := by
    have arrived := insertAll_holds us (withScreens_holds screens variants)
    rw [List.append_nil] at arrived
    exact holds_perm arrived ((List.reverse_perm us).map _)
  generalize us.foldl Cascade.insert (.withScreens screens variants) = c at held
  have placed : c.placed.Perm (us.map fun u => (u.wrappings.map (·.condition), u)) := by
    have all := placed_perm held
    rwa [List.map_map] at all
  have own : ∀ x ∈ c.placed, x.2.isContainer = false := by
    intro x hx
    obtain ⟨u, member, rfl⟩ := List.mem_map.mp (placed.mem_iff.mp hx)
    exact plain u member
  have unused : c.utilities.any (·.isContainer) = false := by
    obtain ⟨utilities, below⟩ := c
    rw [List.any_eq_false]
    intro u member
    rw [own _ (container_mem_placed member)]
    exact Bool.false_ne_true
  refine ⟨p.layout c, ?_, (placed_layout c).trans placed, layout_arranged held⟩
  rw [text, sheet, unused, sheetText, linesOfAll_items "" own]

/-- Two screens with one condition. -/
def tabletTheme : Theme :=
  ⟨∅, .ofList [("md", ⟨some "768px", none⟩), ("tablet", ⟨some "768px", none⟩)], {}⟩

def tabletVariants : VariantTable :=
  ⟨.ofList [("md", .atRule (.nth 4) "@media (min-width: 768px)"),
    ("tablet", .atRule (.nth 2) "@media (min-width: 768px)")], ∅⟩

def tabletFlush : Utility :=
  { flush with token := "tablet:flush", variants := [.atRule (.nth 2) "@media (min-width: 768px)"] }

theorem tablet_text_eq_layout :
    ∃ layout : Layout,
      text ⟨tabletTheme, ∅⟩
          ([tabletFlush, spun].foldl Cascade.insert (.withScreens tabletTheme.screens tabletVariants))
          [.transform] ∅ =
        header ⟨tabletTheme, ∅⟩ [.transform] [] ++ textOfLines (layout.lines "") ∧
      layout.placed.Perm [(["@media (min-width: 768px)"], tabletFlush), ([], spun)] ∧
      layout.Arranged ⟨tabletTheme, ∅⟩ (seedRank (screenSeeds tabletTheme.screens tabletVariants))
        [([⟨.nth 2, "@media (min-width: 768px)"⟩], tabletFlush), ([], spun)] :=
  text_eq_layout ⟨tabletTheme, ∅⟩ tabletTheme.screens tabletVariants [tabletFlush, spun]
    (by simp [Utility.isContainer, Utility.traits?, Utility.rule?, tabletFlush, flush, spun, flushRule, spunRule,
      Rule.traits]) [.transform] ∅

end Printer

end UtilityCss
