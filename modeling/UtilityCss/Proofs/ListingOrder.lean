import UtilityCss.Proofs.ContainerClass
import UtilityCss.Proofs.IndexContents
import UtilityCss.Proofs.ListedBlocks

/-!
# The order of a listing

A listing goes through the names of an index as they were first listed, and a sheet through the utilities as their
entries were last listed. `listing_order` says where each order comes from: the two of them are the same as long as
no name is listed again, and two entries trade places exactly if the one listed first is the one listed again last.
-/

namespace UtilityCss

/-! ### Sorted lists -/

/-- Two elements of a sorted list stand in it as the order has them. -/
theorem pair_sublist_iff {α : Type} {r : α → α → Prop} {xs : List α} {x y : α} (sorted : xs.Pairwise r)
    (first : x ∈ xs) (second : y ∈ xs) (apart : x ≠ y) (oneWay : r x y → ¬r y x) :
    [x, y].Sublist xs ↔ r x y := by
  refine ⟨List.pairwise_iff_forall_sublist.mp sorted, fun before => ?_⟩
  obtain ⟨front, back, rfl⟩ := List.append_of_mem first
  have later : y ∈ back := by
    rcases List.mem_append.mp second with earlier | rest
    · have after := (List.pairwise_append.mp sorted).2.2 y earlier x List.mem_cons_self
      exact absurd after (oneWay before)
    · exact (List.mem_cons.mp rest).resolve_left (Ne.symm apart)
  exact List.sublist_append_of_sublist_right ((List.singleton_sublist.mpr later).cons_cons x)

/-! ### Where a name is first listed -/

namespace EntryIndex

/-- Whether a listing is for a class name. -/
def names (name : String) (item : Rule × Listing) : Bool :=
  match item.2 with
  | .named other _ _ _ => other = name
  | .brackets _ _ _ => false

/-- The place of the first listing for a class name. -/
def firstIn (items : List (Rule × Listing)) (name : String) : Nat :=
  items.findIdx (names name)

/-- The place in the declaration order where a class name is first listed. -/
def firstPlace (rules : List Rule) (name : String) : Nat :=
  firstIn (listings rules) name

/-- The place in the declaration order where a class name is last listed. -/
def IsLastPlace (rules : List Rule) (name : String) (place : Nat) : Prop :=
  (∃ item, (listings rules)[place]? = some item ∧ names name item = true) ∧
    ∀ other item, (listings rules)[other]? = some item → names name item = true → other ≤ place

variable {rules : List Rule} {index : EntryIndex} {front : List (Rule × Listing)} {item : Rule × Listing}
  {name : String}

theorem firstIn_append (listed : firstIn front name < front.length) (items : List (Rule × Listing)) :
    firstIn (front ++ items) name = firstIn front name := by
  rw [firstIn, List.findIdx_append]
  exact if_pos listed

theorem firstIn_concat (unlisted : ¬firstIn front name < front.length) (named : names name item = true) :
    firstIn (front ++ [item]) name = front.length := by
  rw [firstIn, List.findIdx_append, if_neg (show ¬front.findIdx (names name) < _ from unlisted),
    List.findIdx_singleton, if_pos named, Nat.zero_add]

theorem firstIn_lt_concat_iff : firstIn (front ++ [item]) name < (front ++ [item]).length ↔
    firstIn front name < front.length ∨ names name item = true := by
  simp only [firstIn, List.findIdx_lt_length, List.mem_append, List.mem_singleton, or_and_right, exists_or,
    exists_eq_left]

theorem firstIn_le {place : Nat} (here : front[place]? = some item) (named : names name item = true) :
    firstIn front name ≤ place := by
  obtain ⟨inside, rfl⟩ := List.getElem?_eq_some_iff.mp here
  by_contra before
  have other : names name front[place] = false := List.not_of_lt_findIdx (Nat.lt_of_not_le before)
  exact Bool.false_ne_true (other.symm.trans named)

/-! ### The order of the names -/

/-- An index under way has the names listed so far, in the order of their first listings. As long as none of them
was known before, each entry has the place of the first listing. -/
structure InOrder (front : List (Rule × Listing)) (progress : Progress) : Prop where
  known : ∀ name, name ∈ progress.index.entries.keys ↔ firstIn front name < front.length
  ascending : progress.index.entries.keys.Pairwise (firstIn front · < firstIn front ·)
  fresh : progress.collisions = #[] → ∀ name entry, progress.index.get? name = some entry →
    entry.order = firstIn front name

theorem inOrder_empty : InOrder [] ⟨empty, #[]⟩ where
  known name := by
    show name ∈ (∅ : Table Entry).keys ↔ _
    rw [Table.keys_empty]
    exact iff_of_false List.not_mem_nil (Nat.not_lt_zero _)
  ascending := List.Pairwise.nil
  fresh _ name entry known := by
    have none : empty.get? name = none := Table.get?_empty name
    rw [none] at known
    cases known

/-- Known names keep their places. -/
theorem InOrder.ascending_concat {progress : Progress} (h : InOrder front progress) (item : Rule × Listing) :
    progress.index.entries.keys.Pairwise (firstIn (front ++ [item]) · < firstIn (front ++ [item]) ·) :=
  h.ascending.imp_of_mem fun first second less => by
    rwa [firstIn_append ((h.known _).mp first), firstIn_append ((h.known _).mp second)]

theorem step_named (progress : Progress) (rule : Rule) (name key direction : String) (negative : Bool) (place : Nat) :
    progress.step ((rule, .named name key direction negative), place) =
      ⟨progress.index.add rule (.named name key direction negative) place,
        if name ∈ progress.index.entries.keys then progress.collisions.push name else progress.collisions⟩ := by
  unfold Progress.step knownName?
  dsimp only
  by_cases known : name ∈ progress.index.entries.keys
  · rw [if_pos (Table.contains_iff_mem_keys.mpr known), if_pos known]
  · rw [if_neg (mt Table.contains_iff_mem_keys.mp known), if_neg known]

/-- A name that is known keeps its place and collides, and a new one comes last. -/
theorem InOrder.step {progress : Progress} (h : InOrder front progress) (item : Rule × Listing) :
    InOrder (front ++ [item]) (progress.step (item, front.length)) := by
  obtain ⟨rule, listing⟩ := item
  cases listing with
  | brackets stem direction colorOnly =>
    -- The names and their entries stay, only the list in front gets longer.
    refine ⟨fun name => ?_, h.ascending_concat _, fun none name entry found => ?_⟩
    · rw [firstIn_lt_concat_iff]
      exact (h.known name).trans (or_iff_left Bool.false_ne_true).symm
    · have member := Table.mem_keys_iff.mpr (Option.isSome_of_mem found)
      rw [firstIn_append ((h.known name).mp member)]
      exact h.fresh none name entry found
  | named name key direction negative =>
    have itself : ∀ other, names other (rule, .named name key direction negative) = true ↔ name = other :=
      fun other => decide_eq_true_iff
    have keys : (progress.index.add rule (.named name key direction negative) front.length).entries.keys =
        if name ∈ progress.index.entries.keys then progress.index.entries.keys
        else progress.index.entries.keys ++ [name] := Table.keys_insert _ _ _
    rw [step_named]
    by_cases listed : name ∈ progress.index.entries.keys
    -- The entry is replaced under its name, so `fresh` has nothing to say any more.
    · rw [if_pos listed] at keys ⊢
      refine ⟨fun other => ?_, ?_, fun none => absurd none Array.push_ne_empty⟩
      · rw [keys, firstIn_lt_concat_iff, itself, h.known, or_iff_left_of_imp]
        rintro rfl
        exact (h.known name).mp listed
      · rw [keys]
        exact h.ascending_concat _
    · rw [if_neg listed] at keys ⊢
      have last : firstIn (front ++ [(rule, .named name key direction negative)]) name = front.length :=
        firstIn_concat (mt (h.known name).mpr listed) ((itself name).mpr rfl)
      refine ⟨fun other => ?_, ?_, fun none other entry found => ?_⟩
      · rw [keys, List.mem_append, List.mem_singleton, firstIn_lt_concat_iff, itself, h.known, @eq_comm _ other]
      · rw [keys, List.pairwise_append]
        refine ⟨h.ascending_concat _, List.pairwise_singleton _ _, fun other member new same => ?_⟩
        obtain rfl := List.mem_singleton.mp same
        rw [last, firstIn_append ((h.known other).mp member)]
        exact (h.known other).mp member
      · rw [get?_add_named] at found
        split at found
        · rename_i same
          obtain rfl := Option.some.inj found
          rw [← same, last]
        · have member := Table.mem_keys_iff.mpr (Option.isSome_of_mem found)
          rw [firstIn_append ((h.known other).mp member)]
          exact h.fresh none other entry found

theorem InOrder.run {progress : Progress} (h : InOrder front progress) (items : List (Rule × Listing)) :
    InOrder (front ++ items) ((items.zipIdx front.length).foldl Progress.step progress) := by
  induction items generalizing front progress with
  | nil =>
    rw [List.append_nil]
    exact h
  | cons item items ih =>
    rw [List.zipIdx_cons, List.foldl_cons, List.append_cons]
    have next := ih (h.step item)
    rwa [List.length_append] at next

theorem inOrder_progress (rules : List Rule) : InOrder (listings rules) (progress rules) :=
  inOrder_empty.run (listings rules)

theorem firstPlace_le {entry : Entry} (known : (progress rules).index.get? name = some entry) :
    firstPlace rules name ≤ entry.order :=
  firstIn_le (getElem?_of_indexed (.entry known)) (decide_eq_true rfl)

theorem isLastPlace_order {entry : Entry} (known : (progress rules).index.get? name = some entry) :
    IsLastPlace rules name entry.order := by
  refine ⟨⟨_, getElem?_of_indexed (.entry known), decide_eq_true rfl⟩, fun other item here named => ?_⟩
  obtain ⟨rule, listing⟩ := item
  cases listing with
  | named listed key direction negative =>
    obtain rfl : listed = name := decide_eq_true_iff.mp named
    obtain ⟨i, adds⟩ := getElem?_listings_iff.mp here
    exact (get?_eq_some_iff_last.mp known).2 i other rule key direction negative adds
  | brackets stem direction colorOnly => cases named

/-- Different names stand for entries with different places. -/
theorem order_ne {a b : String} {x y : Entry} (apart : a ≠ b) (first : (progress rules).index.get? a = some x)
    (second : (progress rules).index.get? b = some y) : x.order ≠ y.order := by
  intro same
  have here := getElem?_of_indexed (.entry first)
  rw [same, getElem?_of_indexed (.entry second)] at here
  exact apart (Listing.named.inj (Prod.mk.inj (Option.some.inj here)).2).1.symm

theorem collisions_eq_empty {warnings : List Warning} (built : build rules = .ok (index, warnings))
    (none : ∀ names, .collisions names ∉ warnings) : (progress rules).collisions = #[] := by
  obtain ⟨stems, -, same⟩ := bind_eq_ok built
  obtain ⟨-, rfl⟩ := Prod.mk.inj (Except.ok.inj same)
  by_contra some
  refine none (progress rules).collisions.toList (List.mem_append_left _ ?_)
  rw [if_neg (mt Array.isEmpty_iff.mp some)]
  exact List.mem_singleton_self _

theorem pairwise_toList (rules : List Rule) :
    (progress rules).index.toList.Pairwise fun x y => firstPlace rules x.1 < firstPlace rules y.1 := by
  rw [← List.pairwise_map (f := Prod.fst) (R := fun a b => firstPlace rules a < firstPlace rules b), toList,
    Table.map_fst_toList]
  exact (inOrder_progress rules).ascending

/-- The entries stand in declaration order if those that are listed first come first in it. -/
theorem pairwise_order_iff (rules : List Rule) :
    ((progress rules).index.toList.Pairwise fun x y => x.2.order < y.2.order) ↔
      ∀ a b x y, (progress rules).index.get? a = some x → (progress rules).index.get? b = some y →
        firstPlace rules a < firstPlace rules b → x.order < y.order := by
  constructor
  · intro sorted a b x y first second before
    have apart : (a, x) ≠ (b, y) := by
      rintro same
      obtain rfl := (Prod.mk.inj same).1
      exact Nat.lt_irrefl _ before
    have stands := (pair_sublist_iff (pairwise_toList rules) (Table.mem_toList_iff.mpr first)
      (Table.mem_toList_iff.mpr second) apart fun less => Nat.lt_asymm less).mpr before
    exact List.pairwise_iff_forall_sublist.mp sorted stands
  · intro agree
    refine (pairwise_toList rules).imp_of_mem fun {x y} first second before => ?_
    exact agree x.1 y.1 x.2 y.2 (Table.mem_toList_iff.mp first) (Table.mem_toList_iff.mp second) before

end EntryIndex

/-! ### The order of a sheet -/

namespace Printer

variable {p : Printer}

/-- Outside all at-rules every utility has an item. -/
theorem map_fst_itemsFor (us : List Utility) : (p.itemsFor true us).map (·.1) = us := by
  induction us with
  | nil => rfl
  | cons u rest ih =>
    cases container : u.isContainer with
    | true =>
      rw [itemsFor_container container, if_pos rfl]
      exact congrArg (u :: ·) ih
    | false =>
      cases sharing : (rest.head?.map p.printed).any (shares (p.printed u)) with
      | true =>
        rw [itemsFor_shared container sharing]
        exact congrArg (u :: ·) ih
      | false =>
        rw [itemsFor_block container sharing]
        exact congrArg (u :: ·) ih

theorem map_fst_itemsAt_root (c : Cascade) : (p.itemsAt [] c).map (·.1) = inOrder c.utilities :=
  map_fst_itemsFor _

/-- Two entries with different places are printed in declaration order. -/
theorem pair_sublist_inOrder_iff {us : List Utility} {a b : String} {x y : Entry} (first : x.utility a ∈ us)
    (second : y.utility b ∈ us) (apart : x.order ≠ y.order) :
    [x.utility a, y.utility b].Sublist (inOrder us) ↔ x.order < y.order := by
  have sorted : (inOrder us).Pairwise fun u w => Rank.leWith u.sortKey w.sortKey = true := pairwise_mergeSort_key us
  have key : ∀ {x y : Entry} {a b : String}, x.order ≠ y.order →
      (Rank.leWith (x.utility a).sortKey (y.utility b).sortKey = true ↔ x.order < y.order) := by
    intro x y a b apart
    show Rank.leWith (.nth x.order, a) (.nth y.order, b) = true ↔ _
    rw [Rank.leWith, if_neg (mt Rank.nth.inj apart)]
    show decide (x.order ≤ y.order) = true ↔ _
    rw [decide_eq_true_iff]
    omega
  rw [pair_sublist_iff sorted (List.mem_mergeSort.mpr first) (List.mem_mergeSort.mpr second), key apart]
  · rintro same
    have rank : (x.utility a).rank = (y.utility b).rank := congrArg Utility.rank same
    exact apart (Rank.nth.inj rank)
  · rw [key apart, key (Ne.symm apart)]
    exact Nat.lt_asymm

end Printer

/-! ### Engines -/

namespace Engine

/-- The name of an entry has been scanned and read as a rule, without variants and mark. -/
structure Shows (e : Engine) (name : String) (entry : Entry) : Prop where
  known : e.vocabulary.entries.get? name = some entry
  seen : name ∈ e.seen
  read : ∃ use, e.vocabulary.read? name = some ⟨name, [], false, .rule use⟩

variable {settings : Settings} {e : Engine} {name : String} {entry : Entry}

theorem mem_utilities_of_shows (reachable : Reachable settings e) (held : e.Shows name entry) :
    entry.utility name ∈ e.cascade.utilities := by
  obtain ⟨fresh, notices, us, applied, -, h⟩ := reachable_registered reachable
  obtain ⟨use, read⟩ := held.read
  have meaning := Vocabulary.read?_eq_entry read held.known
  exact (mem_utilities_iff_of_registered h).mpr ⟨mem_of_seen h held.seen meaning, rfl⟩

theorem shows_of_safelist {fresh : Engine} {notices : List Notice} (ready : prepare settings = .ok (fresh, notices))
    (built : build settings = .ok (e, notices)) : e.vocabulary = fresh.vocabulary ∧
      ∀ {name entry use}, fresh.vocabulary.entries.get? name = some entry → name ∈ settings.safelist fresh.theme →
        fresh.vocabulary.read? name = some ⟨name, [], false, .rule use⟩ → e.Shows name entry := by
  obtain ⟨_, us, again, registered, seen⟩ := build_registered built
  obtain ⟨rfl, -⟩ := Prod.mk.inj (Except.ok.inj (ready.symm.trans again))
  refine ⟨registered.vocabulary, fun {name entry use} known listed read => ?_⟩
  rw [← registered.vocabulary] at known read
  exact ⟨known, (seen name).mpr listed, use, read⟩

end Engine

namespace EntryIndex

variable {rules : List Rule} {index : EntryIndex}

/-- The index goes through its entries by the places where their names were first listed, while each of them has the
place where its name was last listed. The places are the same if no name collides; otherwise the index is in
declaration order if the entries listed first also come first in it. A listing goes through the index, and the sheet of
an engine through the entries in declaration order. -/
theorem listing_order {warnings : List Warning} (built : build rules = .ok (index, warnings)) :
    index.toList.Pairwise (fun x y => firstPlace rules x.1 < firstPlace rules y.1) ∧
    (∀ name entry, index.get? name = some entry →
      IsLastPlace rules name entry.order ∧ firstPlace rules name ≤ entry.order ∧
        ((∀ names, .collisions names ∉ warnings) → entry.order = firstPlace rules name)) ∧
    (index.toList.Pairwise (fun x y => x.2.order < y.2.order) ↔
      ∀ a b x y, index.get? a = some x → index.get? b = some y →
        firstPlace rules a < firstPlace rules b → x.order < y.order) ∧
    ∀ settings e, Engine.Reachable settings e → e.vocabulary.entries = index →
      e.listing .withContent = e.printer.entriesText index.toList ∧
      e.printer.PrintsAt [] e.cascade (e.printer.sheet e.cascade) ∧
      ∀ a b x y, e.Shows a x → e.Shows b y → a ≠ b →
        ([(a, x), (b, y)].Sublist index.toList ↔ firstPlace rules a < firstPlace rules b) ∧
        ([x.utility a, y.utility b].Sublist ((e.printer.itemsAt [] e.cascade).map (·.1)) ↔ x.order < y.order) := by
  have collide := collisions_eq_empty built
  obtain rfl := eq_progress_of_build built
  refine ⟨pairwise_toList rules, fun name entry known => ⟨isLastPlace_order known, firstPlace_le known, fun none => ?_⟩,
    pairwise_order_iff rules, fun settings e reachable own => ⟨?_, Printer.printsAt_items [] e.cascade,
      fun a b x y first second apart => ⟨?_, ?_⟩⟩⟩
  · exact (inOrder_progress rules).fresh (collide none) name entry known
  · rw [← own]
    rfl
  · have known := first.known
    have known' := second.known
    rw [own] at known known'
    refine pair_sublist_iff (pairwise_toList rules) (Table.mem_toList_iff.mpr known) (Table.mem_toList_iff.mpr known')
      (fun same => apart (Prod.mk.inj same).1) fun less => Nat.lt_asymm less
  · have known := first.known
    have known' := second.known
    rw [own] at known known'
    rw [Printer.map_fst_itemsAt_root]
    exact Printer.pair_sublist_inOrder_iff (Engine.mem_utilities_of_shows reachable first)
      (Engine.mem_utilities_of_shows reachable second) (order_ne apart known known')

end EntryIndex

/-! ### A name that is listed again -/

def turnedRule : Rule :=
  .fixed "spun" [⟨"rotate", "45deg"⟩]

/-- The last rule takes the name of the first one. -/
def turnedRules : List Rule :=
  [spunRule, flushRule, turnedRule]

def Settings.turned : Settings where
  families := Catalog.allOff
  rules := fun _ => turnedRules
  safelist := fun _ => ["spun", "flush"]

def turnedEntry : Entry :=
  ⟨turnedRule, "", "", false, 2⟩

def flushEntry : Entry :=
  ⟨flushRule, "", "", false, 1⟩

namespace Engine

theorem exists_turned : ∃ e, Reachable Settings.turned e ∧
    e.vocabulary.entries = (EntryIndex.progress turnedRules).index ∧
    e.Shows "spun" turnedEntry ∧ e.Shows "flush" flushEntry := by
  obtain ⟨theme, resolved⟩ := Theme.resolve_base
  have ruled : Catalog.rules theme Catalog.allOff turnedRules ∅ = .ok turnedRules :=
    Catalog.rules_eq_of_off Catalog.allOff_known Catalog.allOff_off rfl rfl
  have indexed : EntryIndex.build turnedRules =
      .ok ((EntryIndex.progress turnedRules).index, [.collisions ["spun"]]) := rfl
  obtain ⟨fresh, notices, ready, -, vocabulary, -⟩ :=
    @prepare_eq_ok Settings.turned _ _ _ _ _ resolved ruled indexed rfl
  have spun : fresh.vocabulary.entries.get? "spun" = some turnedEntry := by
    rw [vocabulary]
    rfl
  have flush : fresh.vocabulary.entries.get? "flush" = some flushEntry := by
    rw [vocabulary]
    rfl
  have readSpun := Vocabulary.read?_of_plain (by decide) (by decide) (by decide) spun
  have readFlush := Vocabulary.read?_of_plain (by decide) (by decide) (by decide) flush
  have accepted : ∀ t ∈ ["spun", "flush"], fresh.Accepts [] t := by
    simp [Accepts, Memo.answer?, readSpun, readFlush]
  obtain ⟨e, built⟩ := build_isOk ready accepted
  obtain ⟨own, stands⟩ := shows_of_safelist ready built
  refine ⟨e, .built built, ?_, stands spun (by simp [Settings.turned]) readSpun,
    stands flush (by simp [Settings.turned]) readFlush⟩
  rw [own, vocabulary]

end Engine

/-- The listing has `spun` in front of `flush`, and the sheet behind it. -/
theorem EntryIndex.listing_order_of_turned : ∃ index e, build turnedRules = .ok (index, [.collisions ["spun"]]) ∧
    Engine.Reachable Settings.turned e ∧ e.vocabulary.entries = index ∧
    e.listing .withContent = e.printer.entriesText index.toList ∧
    [("spun", turnedEntry), ("flush", flushEntry)].Sublist index.toList ∧
    [flushEntry.utility "flush", turnedEntry.utility "spun"].Sublist
      ((e.printer.itemsAt [] e.cascade).map (·.1)) := by
  obtain ⟨e, reachable, own, spun, flush⟩ := Engine.exists_turned
  have built : build turnedRules = .ok ((progress turnedRules).index, [.collisions ["spun"]]) := rfl
  obtain ⟨-, -, -, engine⟩ := listing_order built
  obtain ⟨listed, -, pairs⟩ := engine _ e reachable own
  exact ⟨_, e, built, reachable, own, listed, (pairs _ _ _ _ spun flush (by decide)).1.mpr (by decide),
    (pairs _ _ _ _ flush spun (by decide)).2.mpr (by decide)⟩

end UtilityCss
