import UtilityCss.Proofs.Levels

/-!
# Selector lists

Two neighbours in a node stand in one block when they have the same lines and no colon of their selectors has a hyphen
right behind it: `neighbours_joined_iff`. That keeps apart the pseudo selectors of vendors, which is what it is meant
for. It also keeps apart negative utilities behind variants, whose class names have an escaped colon there.
-/

namespace UtilityCss

/-! ### Colons with a hyphen behind them -/

namespace Text

/-- A colon that no backslash escapes, with a hyphen right behind it. Pseudo selectors of vendors start so. -/
def hasVendorPseudo : List Char → Bool
  | '\\' :: _ :: cs => hasVendorPseudo cs
  | c :: cs => (c = ':' && cs.head? = some '-') || hasVendorPseudo cs
  | [] => false

/-- A colon that a backslash escapes, with a hyphen right behind it. -/
def hasEscapedColon : List Char → Bool
  | '\\' :: c :: cs => (c = ':' && cs.head? = some '-') || hasEscapedColon cs
  | _ :: cs => hasEscapedColon cs
  | [] => false

theorem prefix_colon_iff {c : Char} {cs : List Char} :
    [':', '-'] <+: c :: cs ↔ (c = ':' && cs.head? = some '-') = true := by
  rw [List.cons_prefix_cons, Bool.and_eq_true, decide_eq_true_iff, decide_eq_true_iff, @eq_comm _ c]
  refine and_congr_right fun _ => ?_
  cases cs with
  | nil => simp
  | cons d cs => simp [List.cons_prefix_cons, eq_comm]

theorem infix_colon_iff (cs : List Char) :
    [':', '-'] <:+: cs ↔ hasVendorPseudo cs = true ∨ hasEscapedColon cs = true := by
  fun_induction hasVendorPseudo cs with
  | case1 c cs ih =>
    have backslash : ¬[':', '-'] <+: '\\' :: c :: cs := by simp
    rw [List.infix_cons_iff, or_iff_right backslash, List.infix_cons_iff, ih, prefix_colon_iff, hasEscapedColon,
      Bool.or_eq_true, or_left_comm]
  | case2 c cs unescaped ih =>
    have own : hasEscapedColon (c :: cs) = hasEscapedColon cs := by
      rw [hasEscapedColon]
      exact unescaped
    rw [List.infix_cons_iff, ih, prefix_colon_iff, own, Bool.or_eq_true, or_assoc]
  | case3 => simp [hasEscapedColon]

end Text

/-! ### Class names -/

theorem infix_escapeMarks {cs : List Char} (inside : [':', '-'] <:+: cs) : [':', '-'] <:+: escapeMarks cs := by
  obtain ⟨front, back, rfl⟩ := inside
  -- The colon is escaped and the hyphen is not, so they are still neighbours.
  have both : escapeMarks [':', '-'] = ['\\', ':', '-'] := by decide
  refine ⟨escapeMarks front ++ ['\\'], escapeMarks back, ?_⟩
  unfold escapeMarks at both ⊢
  rw [List.flatMap_append, List.flatMap_append, both]
  simp

theorem infix_classSelector {token : String} (inside : [':', '-'] <:+: token.toList) :
    [':', '-'] <:+: (classSelector token).toList := by
  have marks := infix_escapeMarks inside
  rw [classSelector, String.toList_ofList]
  refine List.infix_cons ?_
  unfold escapeClass
  split
  · split
    · exact List.infix_cons marks
    · exact marks
  · rename_i empty
    rw [empty] at marks
    exact marks

namespace SelectorChange

/-- The new selector holds the old one. -/
def Keeps : SelectorChange → Prop
  | template text => '&' ∈ text.toList
  | _ => True

theorem infix_exchangeFirst {new cs : List Char} (member : '&' ∈ cs) : new <:+: Text.exchangeFirst '&' new cs := by
  induction cs with
  | nil => cases member
  | cons c cs ih =>
    unfold Text.exchangeFirst
    split
    · exact (List.prefix_append new cs).isInfix
    · rename_i other
      exact List.infix_cons (ih ((List.mem_cons.mp member).resolve_left fun same => other same.symm))

theorem infix_apply {change : SelectorChange} (keeps : change.Keeps) (selector : String) :
    selector.toList <:+: (change.apply selector).toList := by
  cases change with
  | suffix text =>
    rw [apply, String.toList_append]
    exact (List.prefix_append _ _).isInfix
  | ancestor text =>
    rw [apply, String.toList_append]
    exact (List.suffix_append _ _).isInfix
  | sibling text =>
    rw [apply, String.toList_append]
    exact (List.suffix_append _ _).isInfix
  | template text =>
    rw [apply, String.toList_ofList]
    exact infix_exchangeFirst keeps

theorem infix_applyAll {changes : List SelectorChange} (keep : ∀ change ∈ changes, change.Keeps) (selector : String) :
    selector.toList <:+: (applyAll changes selector).toList := by
  induction changes with
  | nil => exact List.infix_rfl
  | cons change changes ih =>
    obtain ⟨keeps, keep⟩ := List.forall_mem_cons.mp keep
    exact (ih keep).trans (infix_apply keeps _)

end SelectorChange

namespace Utility

variable {u : Utility}

/-- The class selector of the utility stands in its selector, whatever the variants and the rule change. -/
def KeepsClass (u : Utility) : Prop :=
  (∀ change ∈ u.variants.filterMap Variant.selectorChange?, change.Keeps) ∧
    ∀ change, u.selectorChange? = some change → change.Keeps

theorem infix_selector (keeps : u.KeepsClass) : (classSelector u.token).toList <:+: u.selector.toList := by
  have inner := SelectorChange.infix_applyAll keeps.1 (classSelector u.token)
  unfold selector selectorOn Variant.selector
  cases own : u.selectorChange? with
  | none => exact inner
  | some change => exact inner.trans (SelectorChange.infix_apply (keeps.2 change own) _)

end Utility

/-! ### Neighbours in blocks -/

/-- Of utilities in blocks, `u` and the `v` right behind it stand in one block. They are the ones with `before` in front
of them and `after` behind them. -/
def Block.Joins (blocks : List Block) (before : List Utility) (u v : Utility) (after : List Utility) : Prop :=
  ∃ front us vs lines back, blocks = front ++ ⟨us ++ u :: v :: vs, lines⟩ :: back ∧
    before = front.flatMap (·.utilities) ++ us ∧ after = vs ++ back.flatMap (·.utilities)

namespace Block

variable {blocks back : List Block} {block : Block} {before after us vs : List Utility} {u v w : Utility}
  {lines more : List String}

theorem alone_ne : (⟨[w], lines⟩ : Block) ≠ ⟨us ++ u :: v :: vs, more⟩ := by
  intro same
  have lengths := congrArg (fun block : Block => block.utilities.length) same
  simp only [List.length_append, List.length_cons, List.length_nil] at lengths
  omega

theorem joins_pushed_iff :
    Joins (⟨w :: block.utilities, block.lines⟩ :: back) (w :: before) u v after ↔
      Joins (block :: back) before u v after := by
  constructor
  · rintro ⟨_ | ⟨first, front⟩, us, vs, lines, behind, cut, same, rest⟩
    · obtain ⟨own, rfl⟩ := List.cons.inj cut
      subst same
      obtain ⟨utilities, blockLines⟩ := block
      cases own
      exact ⟨[], before, vs, _, _, rfl, rfl, rest⟩
    · obtain ⟨rfl, rfl⟩ := List.cons.inj cut
      exact ⟨block :: front, us, vs, lines, behind, rfl, (List.cons.inj same).2, rest⟩
  · rintro ⟨_ | ⟨first, front⟩, us, vs, lines, behind, cut, same, rest⟩
    · obtain ⟨rfl, rfl⟩ := List.cons.inj cut
      exact ⟨[], w :: us, vs, lines, _, rfl, congrArg (w :: ·) same, rest⟩
    · obtain ⟨rfl, rfl⟩ := List.cons.inj cut
      exact ⟨⟨w :: block.utilities, block.lines⟩ :: front, us, vs, lines, behind, rfl, congrArg (w :: ·) same, rest⟩

theorem joins_alone_iff : Joins (⟨[w], lines⟩ :: blocks) (w :: before) u v after ↔ Joins blocks before u v after := by
  constructor
  · rintro ⟨_ | ⟨first, front⟩, us, vs, lines, behind, cut, same, rest⟩
    · exact absurd (List.cons.inj cut).1 alone_ne
    · obtain ⟨rfl, rfl⟩ := List.cons.inj cut
      exact ⟨front, us, vs, _, behind, rfl, (List.cons.inj same).2, rest⟩
  · rintro ⟨front, us, vs, lines, behind, rfl, rfl, rest⟩
    exact ⟨_ :: front, us, vs, lines, behind, rfl, rfl, rest⟩

end Block

namespace Printer

variable {p : Printer} {before after : List Utility} {u v : Utility}

theorem joins_blocks_iff :
    Block.Joins (p.blocks (before ++ u :: v :: after)) before u v after ↔
      shares (p.printed u) (p.printed v) = true := by
  induction before with
  | nil =>
    obtain ⟨first, later, us, cut, starts⟩ := head_blocks (p := p) v after
    have all := flatMap_blocks (p := p) (v :: after)
    rw [cut, List.flatMap_cons, starts] at all
    rw [List.nil_append, blocks_cons, cut, List.head?_cons, Option.map_some, Option.any_some]
    split
    · rename_i sharing
      refine iff_of_true ⟨[], [], us, first.lines, later, ?_, rfl, (List.cons.inj all).2.symm⟩ sharing
      rw [joinBlock, starts]
      rfl
    · rename_i apart
      refine iff_of_false ?_ apart
      rintro ⟨_ | ⟨block, front⟩, us, vs, lines, back, cut, none, -⟩
      · exact absurd (List.cons.inj cut).1 Block.alone_ne
      · obtain ⟨rfl, -⟩ := List.cons.inj cut
        cases none
  | cons w before ih =>
    rw [List.cons_append, blocks_cons]
    split
    · cases cut : p.blocks (before ++ u :: v :: after) with
      | nil =>
        have all := flatMap_blocks (p := p) (before ++ u :: v :: after)
        rw [cut] at all
        exact absurd all.symm (List.append_ne_nil_of_right_ne_nil _ (List.cons_ne_nil _ _))
      | cons block back =>
        rw [← ih, cut]
        exact Block.joins_pushed_iff
    · rw [← ih]
      exact Block.joins_alone_iff

theorem isUnsafe_iff {selector : String} : isUnsafe selector = true ↔
    Text.hasVendorPseudo selector.toList = true ∨ Text.hasEscapedColon selector.toList = true := by
  rw [isUnsafe, Text.hasMark_iff_infix, Text.infix_colon_iff]

theorem shares_iff : shares (p.printed u) (p.printed v) = true ↔ p.lines u = p.lines v ∧
    ∀ w ∈ [u, v], Text.hasVendorPseudo w.selector.toList = false ∧ Text.hasEscapedColon w.selector.toList = false := by
  have safe : ∀ selector, (!isUnsafe selector) = true ↔
      Text.hasVendorPseudo selector.toList = false ∧ Text.hasEscapedColon selector.toList = false := by
    intro selector
    rw [Bool.not_eq_true', ← Bool.not_eq_true, isUnsafe_iff, not_or, Bool.not_eq_true, Bool.not_eq_true]
  rw [shares, Bool.and_eq_true, Bool.and_eq_true, decide_eq_true_iff, safe, safe, and_assoc]
  simp only [List.forall_mem_cons, List.not_mem_nil, false_imp_iff, implies_true, and_true]
  rfl

end Printer

/-! ### Blocks of nodes -/

/-- The blocks of a layout under some conditions, the outermost first. -/
inductive Layout.BlocksAt : Layout → List String → List Block → Prop
  | here {blocks : List Block} {groups : List (String × Layout)} : BlocksAt (.node blocks groups) [] blocks
  | inside {blocks own : List Block} {groups : List (String × Layout)} {condition : String} {content : Layout}
      {conditions : List String} : (condition, content) ∈ groups → BlocksAt content conditions own →
      BlocksAt (.node blocks groups) (condition :: conditions) own

namespace Printer

variable {p : Printer} {c node : Cascade} {conditions : List String} {before after : List Utility} {u v : Utility}

theorem blocksAt_layout (stands : c.NodeAt conditions node) (printed : node.isEmpty = false) :
    (p.layout c).BlocksAt conditions (p.blocks (inOrder node.utilities)) := by
  induction stands with
  | @here c =>
    obtain ⟨utilities, groups⟩ := c
    rw [layout_node]
    exact .here
  | @inside utilities groups g conditions node listed stands ih =>
    have filled := mem_filled.mpr ⟨listed, isEmpty_eq_false_of_nodeAt stands printed⟩
    rw [layout_node]
    exact .inside (List.mem_map.mpr ⟨g, filled, rfl⟩) (ih printed)

theorem isEmpty_eq_false_of_mem (member : u ∈ node.utilities) : node.isEmpty = false := by
  rw [← Bool.not_eq_true, Cascade.isEmpty_iff]
  intro none
  have placed := Cascade.mem_placed_of_nodeAt .here member
  rw [none] at placed
  cases placed

theorem sheetText_eq_layout (plain : ∀ x ∈ c.placed, x.2.isContainer = false) :
    sheetText (p.sheet c) = textOfLines ((p.layout c).lines "") := by
  have unused : c.utilities.any (·.isContainer) = false := by
    obtain ⟨utilities, groups⟩ := c
    rw [List.any_eq_false]
    intro u member
    rw [plain _ (container_mem_placed member)]
    exact Bool.false_ne_true
  rw [sheet, unused, sheetText, linesOfAll_items "" plain]

/-- Without the container class, a cascade prints its nodes block by block. Two neighbours in a node stand in one block
when they have the same lines and in neither selector a colon has a hyphen right behind it, escaped or not. So the
pseudo selectors of vendors share no block. But a class name with a hyphen right behind a colon, such as that of a
negative utility behind a variant, shares none either. -/
theorem neighbours_joined_iff (plain : ∀ x ∈ c.placed, x.2.isContainer = false) :
    sheetText (p.sheet c) = textOfLines ((p.layout c).lines "") ∧
    ∀ conditions node before u v after, c.NodeAt conditions node → inOrder node.utilities = before ++ u :: v :: after →
      ∃ blocks, (p.layout c).BlocksAt conditions blocks ∧ blocks.flatMap (·.utilities) = before ++ u :: v :: after ∧
        (Block.Joins blocks before u v after ↔ p.lines u = p.lines v ∧ ∀ w ∈ [u, v],
          Text.hasVendorPseudo w.selector.toList = false ∧ Text.hasEscapedColon w.selector.toList = false) ∧
        ∀ w ∈ [u, v], w.KeepsClass → [':', '-'] <:+: w.token.toList → ¬Block.Joins blocks before u v after := by
  refine ⟨sheetText_eq_layout plain, fun conditions node before u v after stands order => ?_⟩
  have member : u ∈ node.utilities := by
    have inside : u ∈ inOrder node.utilities := by simp [order]
    exact List.mem_mergeSort.mp inside
  have joined := (@joins_blocks_iff p before after u v).trans shares_iff
  refine ⟨_, blocksAt_layout stands (isEmpty_eq_false_of_mem member), by rw [flatMap_blocks, order], ?_, ?_⟩
  · rw [order]
    exact joined
  · intro w listed keeps hyphen together
    rw [order] at together
    obtain ⟨vendor, escaped⟩ := (joined.mp together).2 w listed
    have marked := (infix_classSelector hyphen).trans (Utility.infix_selector keeps)
    rw [Text.infix_colon_iff, vendor, escaped, or_self] at marked
    exact Bool.false_ne_true marked

/-! ### A negative margin -/

def pullRule : Rule :=
  .fixed "-m-4" [⟨"margin", "-1rem"⟩] {}

def pull : Utility :=
  ⟨"-m-4", [], false, .rule ⟨pullRule, "", 1, none⟩⟩

def hoverPull : Utility :=
  ⟨"hover:-m-4", [.onSelector (.suffix ":hover")], false, .rule ⟨pullRule, "", 1, none⟩⟩

/-- The margin and the same on hover have the same lines and no pseudo selector of a vendor, but a block each. -/
theorem neighbours_joined_of_pull : ∃ blocks,
    (layout ⟨tabletTheme, ∅⟩ (.node [pull, hoverPull] [])).BlocksAt [] blocks ∧
    blocks.flatMap (·.utilities) = [pull, hoverPull] ∧ ¬Block.Joins blocks [] pull hoverPull [] ∧
    lines ⟨tabletTheme, ∅⟩ pull = lines ⟨tabletTheme, ∅⟩ hoverPull ∧
    Text.hasVendorPseudo pull.selector.toList = false ∧ Text.hasVendorPseudo hoverPull.selector.toList = false := by
  have plain : ∀ x ∈ (Cascade.node [pull, hoverPull] []).placed, x.2.isContainer = false := by
    intro x member
    have two : x ∈ [([], pull), ([], hoverPull)] := member
    simp only [List.mem_cons, List.not_mem_nil, or_false] at two
    rcases two with rfl | rfl <;> rfl
  have order : inOrder [pull, hoverPull] = [] ++ pull :: hoverPull :: [] := List.mergeSort_of_pairwise (by decide)
  obtain ⟨-, nodes⟩ := @neighbours_joined_iff ⟨tabletTheme, ∅⟩ _ plain
  obtain ⟨blocks, stands, whole, -, apart⟩ := nodes [] _ [] pull hoverPull [] .here order
  have keeps : hoverPull.KeepsClass := by
    refine ⟨fun change member => ?_, fun change none => nomatch none⟩
    have suffix : change ∈ [SelectorChange.suffix ":hover"] := member
    obtain rfl := List.mem_singleton.mp suffix
    trivial
  refine ⟨blocks, stands, whole, apart hoverPull (by simp) keeps ⟨"hover".toList, "m-4".toList, by decide⟩, rfl, ?_, ?_⟩
  · decide
  · decide

end Printer

end UtilityCss
