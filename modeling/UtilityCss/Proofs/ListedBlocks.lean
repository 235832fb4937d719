import UtilityCss.Proofs.ArrivalOrder
import UtilityCss.Proofs.VariantPrefix

/-!
# Blocks of a listing

A listing prints a block for each entry without reading its name as a token, and a sheet prints what tokens were
read as. `listed_block_eq_sheet` says that both print the same: the block of an entry in the listing is the sheet,
but for its header, of an engine that has registered the name of the entry and nothing else.
-/

namespace UtilityCss

/-- The utility that the name of an entry stands for. -/
def Entry.utility (entry : Entry) (name : String) : Utility :=
  ⟨name, [], false, .rule ⟨entry.rule, entry.direction, entry.order, entry.value?⟩⟩

/-! ### Names as tokens -/

namespace Vocabulary

variable {v : Vocabulary} {token : String} {use : RuleUse} {entry : Entry}

/-- A name of the index that is read as a rule, without variants and mark, is read as its entry. -/
theorem read?_eq_entry (read : v.read? token = some ⟨token, [], false, .rule use⟩)
    (known : v.entries.get? token = some entry) : v.read? token = some (entry.utility token) := by
  -- The token has no variants and no mark, so its body is the whole token and the index is asked for it first.
  obtain ⟨-, body, -, -⟩ := read?_eq_some_iff.mp read
  rw [ofToken_of_read? read rfl rfl] at body
  have found := readRule?_of_readBody? body
  rw [readRule?, String.ofList_toList, known] at found
  rw [read, ← Option.some.inj found]
  rfl

end Vocabulary

/-! ### A sheet of one utility -/

namespace Printer

variable {p : Printer} {u : Utility} {groups : List (CascadeGroup Cascade)}

theorem groupsInOrder_of_empty (empty : ∀ g ∈ groups, g.content.isEmpty = true) :
    groupsInOrder (p.placedItems false groups) = [] := by
  rw [placedItems_eq_map]
  refine List.flatMap_eq_nil_iff.mpr fun placed member => ?_
  obtain ⟨g, listed, rfl⟩ := List.mem_map.mp (List.mem_mergeSort.mp member)
  rw [placedItem, empty g listed]
  rfl

theorem sheet_of_single (empty : ∀ g ∈ groups, g.content.isEmpty = true) (outside : u.isContainer = false) :
    p.sheet (.node [u] groups) = [.block u.selector (p.lines u)] := by
  have unused : (Cascade.node [u] groups).utilities.any (·.isContainer) = false := by
    rw [Cascade.utilities, List.any_cons, outside]
    rfl
  have single : inOrder [u] = [u] := List.mergeSort_singleton u
  have item : p.itemOf true (p.printed u) none = some (.block u.selector (p.lines u)) := by
    rw [itemOf, printed, outside]
    rfl
  rw [sheet, unused, items, groupsInOrder_of_empty empty, single, List.map_singleton, itemsInOrder, List.head?_nil,
    item]
  rfl

/-- The block that a listing prints for an entry. -/
def entryBlock (p : Printer) (name : String) (entry : Entry) : String :=
  blockText (Variant.selector [] entry.rule.traits.selectorChange (classSelector name)) (p.entryLines entry) ""

/-- What a listing prints for entries with their names. -/
def entriesText (p : Printer) (pairs : List (String × Entry)) : String :=
  String.join (pairs.map fun (name, entry) => sheetText [p.entryItem name entry])

theorem sheetText_block (selector : String) (lines : List String) :
    sheetText [.block selector lines] = blockText selector lines "" := by
  rw [sheetText, SheetItem.linesOfAll, SheetItem.linesOfAll, List.append_nil]
  rfl

theorem sheetText_entryItem {name : String} {entry : Entry} (outside : entry.rule.traits.container = false) :
    sheetText [p.entryItem name entry] = p.entryBlock name entry := by
  rw [entryItem, outside]
  exact sheetText_block _ _

theorem listing_of_append {entries : EntryIndex} {front back : List (String × Entry)} {name : String}
    {entry : Entry} (split : entries.toList = front ++ (name, entry) :: back)
    (outside : entry.rule.traits.container = false) :
    p.listing entries .withContent = p.entriesText front ++ p.entryBlock name entry ++ p.entriesText back := by
  have all : p.listing entries .withContent = p.entriesText entries.toList := rfl
  rw [all, split, entriesText, List.map_append, String.join_append, List.map_cons, String.join_cons,
    ← String.append_assoc, ← sheetText_entryItem outside]
  rfl

theorem blockText_utility (p : Printer) (token : String) (entry : Entry) :
    blockText (entry.utility token).selector (p.lines (entry.utility token)) "" = p.entryBlock token entry := by
  have lines : p.lines (entry.utility token) = p.entryLines entry := rfl
  rw [lines]
  rfl

end Printer

/-! ### Engines -/

namespace Engine

variable {settings : Settings} {e : Engine} {notices : List Notice} {token : String} {u : Utility}
  {use : RuleUse} {entry : Entry}

theorem fresh_of_build (built : build settings = .ok (e, notices)) (empty : settings.safelist e.theme = []) :
    Fresh settings e := by
  obtain ⟨fresh, -, start, done⟩ := build_cases built
  obtain ⟨_, registered, -⟩ := registerAll_registered (fresh_registered start) done
  rw [registered.theme] at empty
  rw [empty] at done
  obtain rfl := Except.ok.inj done
  exact start

theorem withScreens_empty (screens : Screens) (variants : VariantTable) :
    ∃ groups : List (CascadeGroup Cascade), Cascade.withScreens screens variants = .node [] groups ∧
      ∀ g ∈ groups, g.content.isEmpty = true := by
  refine ⟨_, rfl, fun g member => ?_⟩
  obtain ⟨name, -, made⟩ := List.mem_filterMap.mp member
  simp only [Option.bind_eq_bind, Option.bind_eq_some_iff] at made
  obtain ⟨_, _, _, _, made⟩ := made
  cases made
  rfl

theorem scanToken_of_fresh (fresh : Fresh settings e) (unblocked : token ∉ settings.blocklist)
    (read : e.vocabulary.read? token = some u) (bare : u.variants = []) :
    (e.scanToken token).2.printer = e.printer ∧
      ∃ groups, (e.scanToken token).2.cascade = .node [u] groups ∧ ∀ g ∈ groups, g.content.isEmpty = true := by
  have answer : (e.read token).1 = some u := by
    rw [read_fst token (fresh_registered fresh), Memo.answer?, if_neg unblocked, read]
  obtain ⟨groups, cascade, empty⟩ := withScreens_empty e.theme.screens e.vocabulary.variants
  rw [← fresh.cascade] at cascade
  have isNew : ¬e.seen.contains u.token = true := by
    rw [fresh.seen]
    simp
  have cascade' : (e.cascade.insert u) = .node [u] groups := by
    rw [cascade, Cascade.insert, Utility.wrappings, bare]
    rfl
  rw [scanToken_eq, answer]
  dsimp only
  have same : (e.read token).2.seen = e.seen := rfl
  rw [register, same, if_neg isNew]
  exact ⟨rfl, groups, cascade', empty⟩

/-- Of a built engine without safelist, the block that the listing prints for an entry is the sheet behind the
header once the name of the entry is scanned. The name has to be understood as a rule without variants and mark,
and the entry must not be the container class. -/
theorem listed_block_eq_sheet (built : build settings = .ok (e, notices)) (empty : settings.safelist e.theme = [])
    (known : e.vocabulary.entries.get? token = some entry) (unblocked : token ∉ settings.blocklist)
    (outside : entry.rule.traits.container = false)
    (read : e.vocabulary.read? token = some ⟨token, [], false, .rule use⟩) :
    ∃ front back, e.vocabulary.entries.toList = front ++ (token, entry) :: back ∧
      e.listing .withContent =
        e.printer.entriesText front ++ e.printer.entryBlock token entry ++ e.printer.entriesText back ∧
      (e.scanToken token).2.sheet =
        e.printer.header (e.scanToken token).2.groups (e.scanToken token).2.keyframes.toList ++
          e.printer.entryBlock token entry := by
  obtain ⟨front, back, split⟩ := List.append_of_mem (Table.mem_toList_iff.mpr known)
  have meaning := Vocabulary.read?_eq_entry read known
  have alone : (entry.utility token).isContainer = false := outside
  obtain ⟨printer, groups, cascade, hollow⟩ :=
    scanToken_of_fresh (fresh_of_build built empty) unblocked meaning rfl
  refine ⟨front, back, split, Printer.listing_of_append split outside, ?_⟩
  rw [sheet, Printer.text, printer, cascade, Printer.sheet_of_single hollow alone, Printer.sheetText_block,
    Printer.blockText_utility]

/-! ### A negative entry -/

/-- A keyed rule with negated names and a selector of its own. -/
def gapRule : Rule :=
  .keyed "gap" (.ofTexts [("4", "1rem")]) (fun value => [⟨"gap", value.primary⟩])
    { negative := true, selectorChange := some (.suffix " > *") }

/-- A rule for one name, and a rule that takes this name for a negated value. -/
def gapRules : List Rule :=
  [.fixed "-gap-4" [⟨"gap", "0"⟩], gapRule]

def gapSettings : Settings where
  families := Catalog.allOff
  rules := fun _ => gapRules

theorem prepare_gap : ∃ fresh notices, prepare gapSettings = .ok (fresh, notices) ∧
    fresh.vocabulary.entries = (EntryIndex.progress gapRules).index := by
  obtain ⟨theme, resolved⟩ := Theme.resolve_base
  have ruled : Catalog.rules theme Catalog.allOff gapRules ∅ = .ok gapRules :=
    Catalog.rules_eq_of_off Catalog.allOff_known Catalog.allOff_off rfl rfl
  have indexed : EntryIndex.build gapRules =
      .ok ((EntryIndex.progress gapRules).index, [.collisions ["-gap-4"]]) := rfl
  obtain ⟨fresh, notices, ready, -, vocabulary, -⟩ :=
    @prepare_eq_ok gapSettings _ _ _ _ _ resolved ruled indexed rfl
  exact ⟨fresh, notices, ready, by rw [vocabulary]⟩

theorem listed_block_eq_sheet_of_negative :
    ∃ e notices front back, build gapSettings = .ok (e, notices) ∧
      e.listing .withContent = e.printer.entriesText front ++ ".-gap-4 > * \x7b\n  gap: -1rem;\n\x7d\n" ++
        e.printer.entriesText back ∧
      (e.scanToken "-gap-4").2.sheet =
        e.printer.header (e.scanToken "-gap-4").2.groups (e.scanToken "-gap-4").2.keyframes.toList ++
          ".-gap-4 > * \x7b\n  gap: -1rem;\n\x7d\n" := by
  obtain ⟨fresh, notices, ready, entries⟩ := prepare_gap
  obtain ⟨e, built⟩ := build_isOk ready (by simp [gapSettings])
  obtain ⟨_, _, again, start, -⟩ := build_registered built
  obtain ⟨rfl, -⟩ := Prod.mk.inj (Except.ok.inj (ready.symm.trans again))
  have known : e.vocabulary.entries.get? "-gap-4" = some ⟨gapRule, "4", "", true, 1⟩ := by
    rw [start.vocabulary, entries]
    rfl
  have read := Vocabulary.read?_of_plain (by decide) (by decide) (by decide) known
  obtain ⟨front, back, -, listed, sheet⟩ :=
    listed_block_eq_sheet built rfl known List.not_mem_nil rfl read
  have block : e.printer.entryBlock "-gap-4" ⟨gapRule, "4", "", true, 1⟩ =
      ".-gap-4 > * \x7b\n  gap: -1rem;\n\x7d\n" := rfl
  rw [block] at listed sheet
  exact ⟨e, notices, front, back, built, listed, sheet⟩

end Engine

end UtilityCss
