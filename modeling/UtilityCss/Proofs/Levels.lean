import UtilityCss.Proofs.Layout

/-!
# Levels of a sheet

The items of a sheet stand on levels, one outside all at-rules and one in each at-rule. Every level of a printed
sheet belongs to a node of the cascade: what the node prints for its own utilities comes first, each item for one
utility, and at-rules come behind it.
-/

namespace UtilityCss

/-- One level of a list of items, with the conditions around it, the outermost first. -/
inductive SheetItem.LevelAt : List SheetItem → List String → List SheetItem → Prop
  | here {items : List SheetItem} : LevelAt items [] items
  | inside {items inner level : List SheetItem} {condition : String} {first : Option String}
      {conditions : List String} : .atRule condition first inner ∈ items → LevelAt inner conditions level →
      LevelAt items (condition :: conditions) level

def SheetItem.isAtRule : SheetItem → Bool
  | atRule _ _ _ => true
  | _ => false

/-- A node of a cascade, with the conditions that it stands under. -/
inductive Cascade.NodeAt : Cascade → List String → Cascade → Prop
  | here {c : Cascade} : NodeAt c [] c
  | inside {utilities : List Utility} {groups : List (CascadeGroup Cascade)} {g : CascadeGroup Cascade}
      {conditions : List String} {node : Cascade} : g ∈ groups → NodeAt g.content conditions node →
      NodeAt (.node utilities groups) (g.condition :: conditions) node

namespace Cascade

variable {c node : Cascade} {conditions : List String} {u : Utility}

theorem eq_of_nodeAt_nil (stands : c.NodeAt [] node) : node = c := by
  cases stands
  rfl

theorem nodeAt_group {g : CascadeGroup Cascade} (stands : c.NodeAt conditions node) (listed : g ∈ node.groups) :
    c.NodeAt (conditions ++ [g.condition]) g.content := by
  induction stands with
  | @here c =>
    obtain ⟨utilities, groups⟩ := c
    exact .inside listed .here
  | inside outer _ ih => exact .inside outer (ih listed)

theorem mem_placed_of_nodeAt (stands : c.NodeAt conditions node) (member : u ∈ node.utilities) :
    (conditions, u) ∈ c.placed := by
  induction stands with
  | @here c =>
    obtain ⟨utilities, groups⟩ := c
    exact Printer.container_mem_placed member
  | inside listed _ ih =>
    rw [placed]
    exact List.mem_append_right _ (Printer.mem_placed_group listed (ih member))

end Cascade

namespace Printer

variable {p : Printer} {used atRoot : Bool} {c node : Cascade} {conditions : List String}
  {level : List SheetItem} {u : Utility} {rest : List Utility}

/-! ### Items and their utilities -/

/-- What utilities that stand in order print, each item with the utility that it is printed for. -/
def itemsFor (p : Printer) (atRoot : Bool) : List Utility → List (Utility × SheetItem)
  | [] => []
  | u :: rest =>
    (p.itemOf atRoot (p.printed u) (rest.head?.map p.printed)).toList.map (u, ·) ++ itemsFor p atRoot rest

/-- What a node prints for its own utilities. -/
def itemsAt (p : Printer) (conditions : List String) (node : Cascade) : List (Utility × SheetItem) :=
  p.itemsFor conditions.isEmpty (inOrder node.utilities)

/-- The level holds what the node prints for its own utilities, and at-rules behind that. -/
def PrintsAt (p : Printer) (conditions : List String) (node : Cascade) (level : List SheetItem) : Prop :=
  ∃ groups, (∀ item ∈ groups, item.isAtRule = true) ∧ level = (p.itemsAt conditions node).map (·.2) ++ groups

/-- The levels of a sheet are what the nodes of its cascade print, the root and all that hold something. -/
structure PrintsNodes (p : Printer) (c : Cascade) : Prop where
  nodes : ∀ conditions level, SheetItem.LevelAt (p.sheet c) conditions level →
    level = [] ∨ ∃ node, c.NodeAt conditions node ∧ p.PrintsAt conditions node level
  levels : ∀ conditions node, c.NodeAt conditions node → conditions = [] ∨ node.isEmpty = false →
    ∃ level, SheetItem.LevelAt (p.sheet c) conditions level ∧ p.PrintsAt conditions node level

theorem itemsFor_cons (u : Utility) (rest : List Utility) :
    p.itemsFor atRoot (u :: rest) =
      (p.itemOf atRoot (p.printed u) (rest.head?.map p.printed)).toList.map (u, ·) ++
        p.itemsFor atRoot rest := rfl

theorem map_snd_itemsFor (us : List Utility) :
    (p.itemsFor atRoot us).map (·.2) = p.itemsInOrder atRoot (us.map p.printed) := by
  induction us with
  | nil => rfl
  | cons u rest ih =>
    rw [itemsFor_cons, List.map_append, ih, List.map_cons, itemsInOrder, List.head?_map, List.map_map]
    exact congrArg (· ++ _) (List.map_id' _)

/-- The item of a utility is its selector, the block of its lines, or the block of the container class. -/
theorem itemOf_cases {u : Utility} {next : Option Printed} {item : SheetItem}
    (printed : p.itemOf atRoot (p.printed u) next = some item) :
    (u.isContainer = true ∧ atRoot = true ∧ item = containerBlock p.theme.container) ∨
      (u.isContainer = false ∧ next.any (shares (p.printed u)) = true ∧ item = .shared u.selector) ∨
      (u.isContainer = false ∧ next.any (shares (p.printed u)) = false ∧ item = .block u.selector (p.lines u)) := by
  unfold itemOf at printed
  cases container : u.isContainer with
  | true =>
    have own : (p.printed u).container = true := container
    rw [if_pos own] at printed
    cases atRoot with
    | true => exact .inl ⟨rfl, rfl, (Option.some.inj printed).symm⟩
    | false => cases printed
  | false =>
    have own : ¬(p.printed u).container = true := by
      show ¬u.isContainer = true
      rw [container]
      exact Bool.false_ne_true
    rw [if_neg own] at printed
    cases sharing : next.any (shares (p.printed u)) with
    | true =>
      rw [if_pos sharing] at printed
      exact .inr (.inl ⟨rfl, rfl, (Option.some.inj printed).symm⟩)
    | false =>
      rw [if_neg (by simp [sharing])] at printed
      exact .inr (.inr ⟨rfl, rfl, (Option.some.inj printed).symm⟩)

theorem exists_itemOf_of_mem_itemsFor {us : List Utility} {x : Utility × SheetItem}
    (member : x ∈ p.itemsFor atRoot us) :
    x.1 ∈ us ∧ ∃ next, p.itemOf atRoot (p.printed x.1) next = some x.2 := by
  induction us with
  | nil => exact absurd member List.not_mem_nil
  | cons u rest ih =>
    rw [itemsFor_cons] at member
    rcases List.mem_append.mp member with own | later
    · obtain ⟨item, printed, rfl⟩ := List.mem_map.mp own
      exact ⟨List.mem_cons_self, _, Option.mem_toList.mp printed⟩
    · obtain ⟨inside, printed⟩ := ih later
      exact ⟨List.mem_cons_of_mem _ inside, printed⟩

theorem itemsFor_container (container : u.isContainer = true) :
    p.itemsFor atRoot (u :: rest) =
      (if atRoot = true then [(u, containerBlock p.theme.container)] else []) ++ p.itemsFor atRoot rest := by
  have own : (p.printed u).container = true := container
  rw [itemsFor_cons, itemOf, if_pos own]
  cases atRoot <;> rfl

theorem itemsFor_shared (plain : u.isContainer = false)
    (sharing : (rest.head?.map p.printed).any (shares (p.printed u)) = true) :
    p.itemsFor atRoot (u :: rest) = (u, .shared u.selector) :: p.itemsFor atRoot rest := by
  have own : (p.printed u).container = false := plain
  rw [itemsFor_cons, itemOf, own, if_neg Bool.false_ne_true, if_pos sharing]
  rfl

theorem itemsFor_block (plain : u.isContainer = false)
    (alone : (rest.head?.map p.printed).any (shares (p.printed u)) = false) :
    p.itemsFor atRoot (u :: rest) = (u, .block u.selector (p.lines u)) :: p.itemsFor atRoot rest := by
  have own : (p.printed u).container = false := plain
  rw [itemsFor_cons, itemOf, own, alone, if_neg Bool.false_ne_true, if_neg Bool.false_ne_true]
  rfl

/-- What is printed behind some utilities does not depend on them. -/
theorem exists_itemsFor_append (front us : List Utility) :
    ∃ before, (∀ x ∈ before, x.1 ∈ front) ∧ p.itemsFor atRoot (front ++ us) = before ++ p.itemsFor atRoot us := by
  induction front with
  | nil => exact ⟨[], fun _ member => absurd member List.not_mem_nil, rfl⟩
  | cons u front ih =>
    obtain ⟨before, inside, same⟩ := ih
    rw [List.cons_append, itemsFor_cons, same, ← List.append_assoc]
    refine ⟨_, fun x member => ?_, rfl⟩
    rcases List.mem_append.mp member with own | later
    · obtain ⟨item, -, rfl⟩ := List.mem_map.mp own
      exact List.mem_cons_self
    · exact List.mem_cons_of_mem _ (inside x later)

theorem isAtRule_of_mem_itemsFor {us : List Utility} {item : SheetItem}
    (member : item ∈ (p.itemsFor atRoot us).map (·.2)) : item.isAtRule = false := by
  obtain ⟨x, inside, rfl⟩ := List.mem_map.mp member
  obtain ⟨-, next, printed⟩ := exists_itemOf_of_mem_itemsFor inside
  rcases itemOf_cases printed with ⟨-, -, same⟩ | ⟨-, -, same⟩ | ⟨-, -, same⟩ <;> rw [same] <;> rfl

/-! ### Items of groups -/

theorem items_eq (c : Cascade) :
    p.items used atRoot c = (p.itemsFor atRoot (inOrder c.utilities)).map (·.2) ++
      groupsInOrder (c.groups.map (p.placedItem used)) := by
  obtain ⟨utilities, groups⟩ := c
  rw [items, map_snd_itemsFor, placedItems_eq_map]
  rfl

theorem mem_groupsInOrder {groups : List (CascadeGroup Cascade)} {item : SheetItem} :
    item ∈ groupsInOrder (groups.map (p.placedItem used)) ↔
      ∃ g ∈ groups, item ∈ (p.placedItem used g).items := by
  unfold groupsInOrder
  simp only [List.mem_flatMap, List.mem_mergeSort, List.mem_map, exists_exists_and_eq_and]

/-- An item of a group is its at-rule with the items of its content, or one for the container class on a screen. -/
theorem mem_placedItem {g : CascadeGroup Cascade} {item : SheetItem} (member : item ∈ (p.placedItem used g).items) :
    (∃ condition line, item = .atRule condition (some line) []) ∨
      ∃ first, item = .atRule g.condition first (p.items used false g.content) ∧
        (first = none → g.content.isEmpty = false) := by
  have inhabited : item ∈ (if g.content.isEmpty = true then []
      else [SheetItem.atRule g.condition none (p.items used false g.content)]) →
      ∃ first, item = .atRule g.condition first (p.items used false g.content) ∧
        (first = none → g.content.isEmpty = false) := by
    intro inside
    split at inside
    · exact absurd inside List.not_mem_nil
    · rename_i some
      exact ⟨none, List.mem_singleton.mp inside, fun _ => by simpa using some⟩
  unfold placedItem groupItems at member
  dsimp only at member
  split at member
  · rcases List.mem_cons.mp member with rfl | inside
    · exact .inl ⟨_, _, rfl⟩
    · exact .inr (inhabited inside)
  · exact .inr ⟨some _, List.mem_singleton.mp member, fun none => nomatch none⟩
  · exact .inr (inhabited member)

theorem atRule_mem_placedItem {g : CascadeGroup Cascade} (inhabited : g.content.isEmpty = false) :
    ∃ first, .atRule g.condition first (p.items used false g.content) ∈ (p.placedItem used g).items := by
  unfold placedItem groupItems
  rw [inhabited]
  dsimp only
  split
  · exact ⟨none, List.mem_cons_of_mem _ (List.mem_singleton_self _)⟩
  · exact ⟨some _, List.mem_singleton_self _⟩
  · exact ⟨none, List.mem_singleton_self _⟩

theorem isAtRule_of_mem_groupsInOrder {groups : List (CascadeGroup Cascade)} {item : SheetItem}
    (member : item ∈ groupsInOrder (groups.map (p.placedItem used))) : item.isAtRule = true := by
  obtain ⟨g, -, inside⟩ := mem_groupsInOrder.mp member
  rcases mem_placedItem inside with ⟨condition, line, rfl⟩ | ⟨first, rfl, -⟩ <;> rfl

theorem exists_group_of_atRule {condition : String} {first : Option String} {inner : List SheetItem}
    (member : .atRule condition first inner ∈ p.items used atRoot c) :
    (first.isSome = true ∧ inner = []) ∨
      ∃ g ∈ c.groups, condition = g.condition ∧ inner = p.items used false g.content ∧
        (first = none → g.content.isEmpty = false) := by
  rw [items_eq] at member
  rcases List.mem_append.mp member with own | behind
  · cases isAtRule_of_mem_itemsFor own
  · obtain ⟨g, listed, inside⟩ := mem_groupsInOrder.mp behind
    rcases mem_placedItem inside with ⟨_, line, same⟩ | ⟨_, same, inhabited⟩
    · cases same
      exact .inl ⟨rfl, rfl⟩
    · cases same
      exact .inr ⟨g, listed, rfl, rfl, inhabited⟩

/-! ### Levels and nodes -/

theorem levelAt_nil (h : SheetItem.LevelAt [] conditions level) : level = [] := by
  cases h with
  | here => rfl
  | inside member => exact absurd member List.not_mem_nil

theorem exists_node_of_levelAt (h : SheetItem.LevelAt (p.items used atRoot c) conditions level) :
    level = [] ∨ ∃ node, c.NodeAt conditions node ∧
      level = p.items used (atRoot && conditions.isEmpty) node := by
  -- Along the cascade and not the level: the at-rules of a node are only known by its groups.
  induction c using Cascade.induct generalizing atRoot conditions level with
  | node utilities groups ih =>
    cases h with
    | here =>
      refine .inr ⟨_, .here, ?_⟩
      rw [List.isEmpty_nil, Bool.and_true]
    | inside member deeper =>
      rcases exists_group_of_atRule member with ⟨-, rfl⟩ | ⟨g, listed, rfl, rfl, -⟩
      · exact .inl (levelAt_nil deeper)
      · refine (ih g listed deeper).imp_right fun ⟨node, stands, same⟩ => ⟨node, .inside listed stands, ?_⟩
        rw [same, Bool.false_and, List.isEmpty_cons, Bool.and_false]

theorem isEmpty_eq_false_of_nodeAt (h : c.NodeAt conditions node) (inhabited : node.isEmpty = false) :
    c.isEmpty = false := by
  induction h with
  | here => exact inhabited
  | @inside utilities groups g conditions node listed _ ih =>
    rw [← Bool.not_eq_true, Cascade.isEmpty_iff, Cascade.placed, List.append_eq_nil_iff]
    rintro ⟨-, vacant⟩
    have held : ¬g.content.placed = [] := by
      rw [← Cascade.isEmpty_iff, ih inhabited]
      exact Bool.false_ne_true
    obtain ⟨x, member⟩ := List.exists_mem_of_ne_nil _ held
    have placed := mem_placed_group listed member
    rw [vacant] at placed
    exact List.not_mem_nil placed

theorem levelAt_of_nodeAt (h : c.NodeAt conditions node) (printed : conditions = [] ∨ node.isEmpty = false) :
    SheetItem.LevelAt (p.items used atRoot c) conditions
      (p.items used (atRoot && conditions.isEmpty) node) := by
  induction h generalizing atRoot with
  | here =>
    rw [List.isEmpty_nil, Bool.and_true]
    exact .here
  | @inside utilities groups g conditions node listed stands ih =>
    have inhabited : node.isEmpty = false := printed.resolve_left (List.cons_ne_nil _ _)
    obtain ⟨first, member⟩ := @atRule_mem_placedItem p used g (isEmpty_eq_false_of_nodeAt stands inhabited)
    have inside := @ih false (.inr inhabited)
    rw [Bool.false_and] at inside
    have printed : .atRule g.condition first (p.items used false g.content) ∈
        p.items used atRoot (.node utilities groups) := by
      rw [items_eq]
      exact List.mem_append_right _ (mem_groupsInOrder.mpr ⟨g, listed, member⟩)
    rw [List.isEmpty_cons, Bool.and_false]
    exact .inside printed inside

theorem printsAt_items (conditions : List String) (node : Cascade) :
    p.PrintsAt conditions node (p.items used conditions.isEmpty node) :=
  ⟨_, fun _ member => isAtRule_of_mem_groupsInOrder member, items_eq node⟩

theorem printsNodes (p : Printer) (c : Cascade) : p.PrintsNodes c where
  nodes conditions level stands := by
    refine (exists_node_of_levelAt stands).imp_right fun ⟨node, reached, same⟩ => ⟨node, reached, ?_⟩
    rw [same, Bool.true_and]
    exact printsAt_items conditions node
  levels conditions node reached printed := by
    have stands := @levelAt_of_nodeAt p (c.utilities.any (·.isContainer)) true _ _ _ reached printed
    rw [Bool.true_and] at stands
    exact ⟨_, stands, printsAt_items conditions node⟩

end Printer

end UtilityCss
