import UtilityCss.Proofs.FewerRules

/-!
# What an index holds

The index of a rule list holds what the rules add, each in its place: a name stands for the last entry added under
it, and a stem for the families added on it, at most two and those for colours in front. `Rule.Lists` says what a
rule adds, and `build_contents` what becomes of it.
-/

namespace UtilityCss

/-! ### What one rule adds -/

/-- The name that a key gives on a stem. -/
def Traits.NamesKey (traits : Traits) (stem key name : String) : Prop :=
  key = "DEFAULT" ∧ traits.filterDefault = false ∧ name = stem ∨ key ≠ "DEFAULT" ∧ name = stem ++ "-" ++ key

/-- A plain text that starts like a number above zero. -/
def Value.IsPositive (value : Value) : Prop :=
  ∃ text, value = .plain text ∧
    ((∃ c rest, text.toList = c :: rest ∧ '1' ≤ c ∧ c ≤ '9') ∨ ['0', '.'] <+: text.toList)

theorem Value.allowsNegative_iff {value : Value} : value.allowsNegative = true ↔ value.IsPositive := by
  cases value with
  | plain text =>
    simp only [allowsNegative, IsPositive, Value.plain.injEq, exists_eq_left']
    split
    · rename_i rest cut
      simp [cut]
    · rename_i c rest other cut
      simp only [cut, List.cons.injEq, Bool.and_eq_true, decide_eq_true_eq]
      constructor
      · rintro ⟨low, high⟩
        exact .inl ⟨c, rest, ⟨rfl, rfl⟩, low, high⟩
      · rintro (⟨_, _, ⟨rfl, rfl⟩, both⟩ | ⟨rest', same⟩)
        · exact both
        · cases same
          exact (other rest' rfl rfl).elim
    · rename_i cut
      simp [cut]
  | pair => simp [allowsNegative, IsPositive]
  | list => simp [allowsNegative, IsPositive]
  | shadow => simp [allowsNegative, IsPositive]

namespace Rule

/-- The stems of a rule with keys, each with the direction that it stands for. -/
def stems : Rule → List (String × String)
  | keyed stem _ _ _ => [(stem, "")]
  | directed stem directions _ _ traits =>
    (if traits.mandatory then [] else [(stem, "all")]) ++
      directions.map fun direction => (stem ++ (if traits.omitHyphen then "" else "-") ++ direction, direction)
  | _ => []

/-- What a rule adds to the vocabulary: a rule without keys its name, and a rule with keys, on each of its stems, a
name for each key, one for each positive value if it has negated values, and the stem if it takes brackets. -/
inductive Lists : Rule → Listing → Prop
  | fixed {name : String} {declarations : List Declaration} {traits : Traits} :
      Lists (.fixed name declarations traits) (.named name "" "" false)
  | shortcut {name utilities : String} : Lists (.shortcut name utilities) (.named name "" "" false)
  | key {rule : Rule} {values : Category} {stem direction key name : String} {value : Value} :
      rule.values? = some values → (stem, direction) ∈ rule.stems → values.get? key = some value →
      rule.traits.NamesKey stem key name → Lists rule (.named name key direction false)
  | negated {rule : Rule} {values : Category} {stem direction key name : String} {value : Value} :
      rule.values? = some values → (stem, direction) ∈ rule.stems → rule.traits.negative = true →
      values.get? key = some value → value.IsPositive → rule.traits.NamesKey ("-" ++ stem) key name →
      Lists rule (.named name key direction true)
  | brackets {rule : Rule} {stem direction : String} :
      (stem, direction) ∈ rule.stems → rule.traits.brackets ≠ .refused →
      Lists rule (.brackets stem direction (rule.traits.brackets = .colorOnly))

variable {rule : Rule} {traits : Traits} {values : Category} {stem direction key name : String}
  {listing : Listing}

theorem keyName?_eq_some_iff : keyName? traits stem key = some name ↔ traits.NamesKey stem key name := by
  unfold keyName? Traits.NamesKey
  by_cases default : key = "DEFAULT"
  · cases filtered : traits.filterDefault <;> simp [default, @eq_comm _ name]
  · simp [default, @eq_comm _ name]

theorem mem_negativeListings_iff : listing ∈ negativeListings traits stem direction values ↔
    ∃ key value name, traits.negative = true ∧ values.get? key = some value ∧ value.IsPositive ∧
      traits.NamesKey ("-" ++ stem) key name ∧ listing = .named name key direction true := by
  unfold negativeListings
  cases negative : traits.negative with
  | false => simp
  | true =>
    rw [if_pos rfl, List.mem_filterMap]
    constructor
    · rintro ⟨⟨key, value⟩, member, made⟩
      dsimp only at made
      split at made
      · rename_i positive
        obtain ⟨name, named, rfl⟩ := Option.map_eq_some_iff.mp made
        exact ⟨key, value, name, rfl, Table.mem_toList_iff.mp member, Value.allowsNegative_iff.mp positive,
          keyName?_eq_some_iff.mp named, rfl⟩
      · cases made
    · rintro ⟨key, value, name, -, known, positive, named, rfl⟩
      refine ⟨(key, value), Table.mem_toList_iff.mpr known, ?_⟩
      simp only [Value.allowsNegative_iff.mpr positive, if_true, keyName?_eq_some_iff.mpr named, Option.map_some]

theorem mem_keyListings_iff : listing ∈ keyListings traits stem direction values ↔
    ∃ key value name, values.get? key = some value ∧ traits.NamesKey stem key name ∧
      listing = .named name key direction false := by
  simp only [keyListings, List.mem_filterMap, Option.map_eq_some_iff, keyName?_eq_some_iff, Table.mem_keys_iff,
    Option.isSome_iff_exists]
  constructor
  · rintro ⟨key, ⟨value, known⟩, name, named, rfl⟩
    exact ⟨key, value, name, known, named, rfl⟩
  · rintro ⟨key, value, name, known, named, rfl⟩
    exact ⟨key, ⟨value, known⟩, name, named, rfl⟩

theorem mem_bracketListings_iff : listing ∈ bracketListings traits stem direction ↔
    traits.brackets ≠ .refused ∧ listing = .brackets stem direction (traits.brackets = .colorOnly) := by
  unfold bracketListings
  cases traits.brackets <;> simp

/-- The listings of a rule with keys stem by stem. -/
theorem listings_eq_flatMap (keyed : rule.values? = some values) : rule.listings =
    rule.stems.flatMap fun stem => stemListings rule.traits stem.1 stem.2 values := by
  cases rule with
  | fixed => cases keyed
  | shortcut => cases keyed
  | keyed stem _ declare traits =>
    cases keyed
    exact (List.append_nil _).symm
  | directed stem directions _ declare traits =>
    cases keyed
    rw [stems, List.flatMap_append, List.flatMap_map, listings]
    refine congrArg (· ++ _) ?_
    cases traits.mandatory with
    | true => simp
    | false => simp [Rule.traits]

theorem mem_listings_iff : listing ∈ rule.listings ↔ rule.Lists listing := by
  cases keyed : rule.values? with
  | none =>
    cases rule with
    | fixed name declarations traits =>
      refine List.mem_singleton.trans ⟨?_, fun lists => ?_⟩
      · rintro rfl
        exact .fixed
      · cases lists with
        | fixed => rfl
        | key keyed' => cases keyed'
        | negated keyed' => cases keyed'
        | brackets stem => cases stem
    | shortcut name utilities =>
      refine List.mem_singleton.trans ⟨?_, fun lists => ?_⟩
      · rintro rfl
        exact .shortcut
      · cases lists with
        | shortcut => rfl
        | key keyed' => cases keyed'
        | negated keyed' => cases keyed'
        | brackets stem => cases stem
    | keyed => cases keyed
    | directed => cases keyed
  | some values =>
    rw [listings_eq_flatMap keyed, List.mem_flatMap]
    simp only [stemListings, List.mem_append, mem_negativeListings_iff, mem_keyListings_iff, mem_bracketListings_iff]
    constructor
    · rintro ⟨⟨stem, direction⟩, member, (⟨key, value, name, negative, known, positive, named, rfl⟩ |
        ⟨key, value, name, known, named, rfl⟩) | ⟨taken, rfl⟩⟩
      · exact .negated keyed member negative known positive named
      · exact .key keyed member known named
      · exact .brackets member taken
    · intro lists
      cases lists with
      | fixed => cases keyed
      | shortcut => cases keyed
      | key keyed' member known named =>
        obtain rfl := Option.some.inj (keyed.symm.trans keyed')
        exact ⟨_, member, .inl (.inr ⟨_, _, _, known, named, rfl⟩)⟩
      | negated keyed' member negative known positive named =>
        obtain rfl := Option.some.inj (keyed.symm.trans keyed')
        exact ⟨_, member, .inl (.inl ⟨_, _, _, negative, known, positive, named, rfl⟩)⟩
      | brackets member taken => exact ⟨_, member, .inr ⟨taken, rfl⟩⟩

theorem eq_of_namesKey {other : String} (own : traits.NamesKey stem key name)
    (again : traits.NamesKey other key name) : stem = other := by
  rcases own with ⟨default, -, rfl⟩ | ⟨keyed, rfl⟩
  · rcases again with ⟨-, -, same⟩ | ⟨keyed, -⟩
    · exact same
    · exact absurd default keyed
  · rcases again with ⟨default, -⟩ | ⟨-, same⟩
    · exact absurd default keyed
    · simpa using same

theorem mem_stemListings_iff : listing ∈ stemListings traits stem direction values ↔
    listing ∈ negativeListings traits stem direction values ∨ listing ∈ keyListings traits stem direction values ∨
      listing ∈ bracketListings traits stem direction := by
  rw [stemListings, List.mem_append, List.mem_append, or_assoc]

/-- On one stem every listing is there once. -/
theorem nodup_stemListings : (stemListings traits stem direction values).Nodup := by
  have keys : (values.toList.map (·.1)).Nodup := by
    rw [Table.map_fst_toList]
    exact values.nodup_keys
  rw [stemListings, List.nodup_append, List.nodup_append]
  refine ⟨⟨?_, ?_, ?_⟩, ?_, ?_⟩
  · unfold negativeListings
    split
    · have keyed : ∀ {pair : String × Value} {listing : Listing},
          (if pair.2.allowsNegative then
            (keyName? traits ("-" ++ stem) pair.1).map (.named · pair.1 direction true) else none) = some listing →
          ∃ name, listing = .named name pair.1 direction true := by
        intro pair listing made
        split at made
        · obtain ⟨name, -, rfl⟩ := Option.map_eq_some_iff.mp made
          exact ⟨name, rfl⟩
        · cases made
      refine List.pairwise_filterMap.mpr ((List.pairwise_map.mp keys).imp fun apart first made second made' => ?_)
      obtain ⟨_, rfl⟩ := keyed made
      obtain ⟨_, rfl⟩ := keyed made'
      simp [apart]
    · exact List.nodup_nil
  · refine List.pairwise_filterMap.mpr (values.nodup_keys.imp fun apart first made second made' => ?_)
    obtain ⟨_, -, rfl⟩ := Option.map_eq_some_iff.mp made
    obtain ⟨_, -, rfl⟩ := Option.map_eq_some_iff.mp made'
    simp [apart]
  · intro first negated second plain
    obtain ⟨_, _, _, -, -, -, -, rfl⟩ := mem_negativeListings_iff.mp negated
    obtain ⟨_, _, _, -, -, rfl⟩ := mem_keyListings_iff.mp plain
    simp
  · unfold bracketListings
    cases traits.brackets <;> simp
  · intro first named second bracketed
    obtain ⟨-, rfl⟩ := mem_bracketListings_iff.mp bracketed
    rcases List.mem_append.mp named with negated | plain
    · obtain ⟨_, _, _, -, -, -, -, rfl⟩ := mem_negativeListings_iff.mp negated
      simp
    · obtain ⟨_, _, _, -, -, rfl⟩ := mem_keyListings_iff.mp plain
      simp

theorem eq_of_mem_stemListings {stem' direction' : String} (own : listing ∈ stemListings traits stem direction values)
    (again : listing ∈ stemListings traits stem' direction' values) : stem = stem' ∧ direction = direction' := by
  rw [mem_stemListings_iff, mem_negativeListings_iff, mem_keyListings_iff, mem_bracketListings_iff] at own again
  rcases own with ⟨_, _, _, -, -, -, named, rfl⟩ | ⟨_, _, _, -, named, rfl⟩ | ⟨-, rfl⟩
  · rcases again with ⟨_, _, _, -, -, -, named', same⟩ | ⟨_, _, _, -, -, same⟩ | ⟨-, same⟩
    · cases same
      have stems := eq_of_namesKey named named'
      simpa using stems
    · cases same
    · cases same
  · rcases again with ⟨_, _, _, -, -, -, -, same⟩ | ⟨_, _, _, -, named', same⟩ | ⟨-, same⟩
    · cases same
    · cases same
      exact ⟨eq_of_namesKey named named', rfl⟩
    · cases same
  · rcases again with ⟨_, _, _, -, -, -, -, same⟩ | ⟨_, _, _, -, -, same⟩ | ⟨-, same⟩
    · cases same
    · cases same
    · cases same
      exact ⟨rfl, rfl⟩

/-- A rule adds nothing twice, if none of its stems stands there twice for one direction. -/
theorem nodup_listings (distinct : rule.stems.Nodup) : rule.listings.Nodup := by
  cases keyed : rule.values? with
  | none =>
    cases rule with
    | fixed => exact List.pairwise_singleton _ _
    | shortcut => exact List.pairwise_singleton _ _
    | keyed => cases keyed
    | directed => cases keyed
  | some values =>
    rw [listings_eq_flatMap keyed, List.Nodup, List.pairwise_flatMap]
    refine ⟨fun stem _ => nodup_stemListings, distinct.imp fun apart first own second again same => apart ?_⟩
    subst same
    exact Prod.ext_iff.mpr (eq_of_mem_stemListings own again)

end Rule

/-- The listing that an entry comes from, under its name. -/
def Entry.listing (entry : Entry) (name : String) : Listing :=
  .named name entry.key entry.direction entry.negative

/-- The listing that a family comes from, on its stem. -/
def BracketFamily.listing (family : BracketFamily) (stem : String) : Listing :=
  .brackets stem family.direction family.colorOnly

namespace EntryIndex

variable {rules : List Rule} {index : EntryIndex} {name stem : String}

/-! ### Places in the declaration order -/

/-- The rule with the number `i` adds the listing, at a place of the declaration order. -/
def Adds (rules : List Rule) (i place : Nat) (rule : Rule) (listing : Listing) : Prop :=
  rules[i]? = some rule ∧ ∃ j, rule.listings[j]? = some listing ∧ place = (listings (rules.take i)).length + j

theorem listings_cons (rule : Rule) (rules : List Rule) :
    listings (rule :: rules) = rule.listings.map (rule, ·) ++ listings rules := List.flatMap_cons

/-- What stands at a place is added by one of the rules. -/
theorem getElem?_listings_iff {place : Nat} {rule : Rule} {listing : Listing} :
    (listings rules)[place]? = some (rule, listing) ↔ ∃ i, Adds rules i place rule listing := by
  induction rules generalizing place with
  | nil => simp [listings, Adds]
  | cons first rules ih =>
    rw [listings_cons, List.getElem?_append, List.length_map]
    split
    · rename_i inside
      rw [List.getElem?_map, Option.map_eq_some_iff]
      constructor
      · rintro ⟨_, here, same⟩
        cases same
        exact ⟨0, rfl, place, here, (Nat.zero_add _).symm⟩
      · rintro ⟨i, ruled, j, here, same⟩
        cases i with
        | zero =>
          obtain rfl := Option.some.inj ruled
          obtain rfl : place = j := by simpa [listings] using same
          exact ⟨listing, here, rfl⟩
        | succ i =>
          rw [List.take_succ_cons, listings_cons, List.length_append, List.length_map] at same
          omega
    · rename_i outside
      rw [ih]
      constructor
      · rintro ⟨i, ruled, j, here, same⟩
        refine ⟨i + 1, ruled, j, here, ?_⟩
        rw [List.take_succ_cons, listings_cons, List.length_append, List.length_map]
        omega
      · rintro ⟨i, ruled, j, here, same⟩
        cases i with
        | zero =>
          obtain rfl := Option.some.inj ruled
          obtain rfl : place = j := by simpa [listings] using same
          exact absurd (List.getElem?_eq_some_iff.mp here).1 outside
        | succ i =>
          refine ⟨i, ruled, j, here, ?_⟩
          rw [List.take_succ_cons, listings_cons, List.length_append, List.length_map] at same
          omega

theorem length_listings_le {i k : Nat} (before : i ≤ k) :
    (listings (rules.take i)).length ≤ (listings (rules.take k)).length := by
  have split : rules.take k = rules.take i ++ (rules.take k).drop i := by
    have cut := (List.take_append_drop i (rules.take k)).symm
    rwa [List.take_take, Nat.min_eq_left before] at cut
  rw [split]
  simp only [listings, List.flatMap_append, List.length_append]
  exact Nat.le_add_right _ _

/-- Everything that an earlier rule adds has an earlier place. -/
theorem lt_of_adds {i k m n : Nat} {rule rule' : Rule} {listing listing' : Listing}
    (first : Adds rules i m rule listing) (second : Adds rules k n rule' listing') (before : i < k) : m < n := by
  obtain ⟨ruled, j, here, rfl⟩ := first
  obtain ⟨-, j', -, rfl⟩ := second
  have within : j < rule.listings.length := (List.getElem?_eq_some_iff.mp here).1
  have next : (listings (rules.take (i + 1))).length = (listings (rules.take i)).length + rule.listings.length := by
    rw [List.take_add_one, ruled, Option.toList_some, listings, List.flatMap_append, List.length_append]
    simp [listings]
  have later := @length_listings_le rules (i + 1) k before
  omega

/-! ### Names and stems -/

def entryFor? (name : String) : (Rule × Listing) × Nat → Option Entry
  | ((rule, .named other key direction negative), place) =>
    if other = name then some ⟨rule, key, direction, negative, place⟩ else none
  | ((_, .brackets _ _ _), _) => none

def familyFor? (stem : String) : (Rule × Listing) × Nat → Option BracketFamily
  | ((rule, .brackets other direction colorOnly), place) =>
    if other = stem then some ⟨rule, direction, colorOnly, place⟩ else none
  | ((_, .named _ _ _ _), _) => none

theorem entryFor?_eq_some_iff {item : (Rule × Listing) × Nat} {entry : Entry} :
    entryFor? name item = some entry ↔ item = ((entry.rule, entry.listing name), entry.order) := by
  obtain ⟨⟨rule, listing⟩, place⟩ := item
  obtain ⟨rule', key', direction', negative', place'⟩ := entry
  cases listing with
  | named other key direction negative =>
    by_cases same : other = name
    · simp [entryFor?, Entry.listing, same, and_assoc]
    · simp [entryFor?, Entry.listing, same]
  | brackets => simp [entryFor?, Entry.listing]

theorem familyFor?_eq_some_iff {item : (Rule × Listing) × Nat} {family : BracketFamily} :
    familyFor? stem item = some family ↔ item = ((family.rule, family.listing stem), family.order) := by
  obtain ⟨⟨rule, listing⟩, place⟩ := item
  obtain ⟨rule', direction', colorOnly', place'⟩ := family
  cases listing with
  | named => simp [familyFor?, BracketFamily.listing]
  | brackets other direction colorOnly =>
    by_cases same : other = stem
    · simp [familyFor?, BracketFamily.listing, same, and_assoc]
    · simp [familyFor?, BracketFamily.listing, same]

theorem get?_add (index : EntryIndex) (item : (Rule × Listing) × Nat) :
    (index.add item.1.1 item.1.2 item.2).get? name = (entryFor? name item).or (index.get? name) := by
  obtain ⟨⟨rule, listing⟩, place⟩ := item
  cases listing with
  | named other key direction negative =>
    rw [get?_add_named, entryFor?]
    split <;> rfl
  | brackets => rfl

theorem families_add (index : EntryIndex) (item : (Rule × Listing) × Nat) :
    (index.add item.1.1 item.1.2 item.2).families stem =
      ((familyFor? stem item).map (addFamily (index.families stem))).getD (index.families stem) := by
  obtain ⟨⟨rule, listing⟩, place⟩ := item
  cases listing with
  | named => rfl
  | brackets other direction colorOnly =>
    rw [families_add_brackets, familyFor?]
    split
    · rename_i same
      rw [same]
      rfl
    · rfl

/-- The last entry for a name counts. -/
theorem get?_foldl (items : List ((Rule × Listing) × Nat)) (state : Progress) :
    (items.foldl Progress.step state).index.get? name =
      ((items.filterMap (entryFor? name)).getLast?).or (state.index.get? name) := by
  induction items generalizing state with
  | nil => rfl
  | cons item items ih =>
    rw [List.foldl_cons, ih, index_step, get?_add]
    cases made : entryFor? name item with
    | none => rw [List.filterMap_cons_none made, Option.none_or]
    | some entry =>
      rw [List.filterMap_cons_some made, List.getLast?_cons]
      cases (items.filterMap (entryFor? name)).getLast? <;> rfl

/-- Families for colours come in front of those that are there, and others behind them. -/
theorem families_foldl (items : List ((Rule × Listing) × Nat)) (state : Progress) :
    (items.foldl Progress.step state).index.families stem =
      ((items.filterMap (familyFor? stem)).filter (·.colorOnly)).reverse ++ state.index.families stem ++
        (items.filterMap (familyFor? stem)).filter (!·.colorOnly) := by
  induction items generalizing state with
  | nil => simp
  | cons item items ih =>
    rw [List.foldl_cons, ih, index_step, families_add]
    cases made : familyFor? stem item with
    | none =>
      rw [List.filterMap_cons_none made]
      rfl
    | some family =>
      rw [List.filterMap_cons_some made, Option.map_some, Option.getD_some]
      cases colour : family.colorOnly <;> simp [addFamily, colour]

/-! ### Contents -/

/-- Something that is in the index, with its place, its rule and its listing. -/
inductive Indexed (index : EntryIndex) : Nat → Rule → Listing → Prop
  | entry {name : String} {entry : Entry} : index.get? name = some entry →
      Indexed index entry.order entry.rule (entry.listing name)
  | family {stem : String} {family : BracketFamily} : family ∈ index.families stem →
      Indexed index family.order family.rule (family.listing stem)

/-- The index of a rule list. Everything in it was added by a rule in its place, and no two things share a place. A
name stands for the last entry added under it, and a stem for all families added on it. -/
structure Contents (rules : List Rule) (index : EntryIndex) : Prop where
  listed : ∀ rule ∈ rules, (∀ listing, listing ∈ rule.listings ↔ rule.Lists listing) ∧
    (rule.stems.Nodup → rule.listings.Nodup)
  added : ∀ place rule listing, index.Indexed place rule listing → ∃ i, Adds rules i place rule listing
  distinct : ∀ place rule listing rule' listing', index.Indexed place rule listing →
    index.Indexed place rule' listing' → rule = rule' ∧ listing = listing'
  inOrder : ∀ i k m n rule rule' listing listing', Adds rules i m rule listing → Adds rules k n rule' listing' →
    i < k → m < n
  entries : ∀ name entry, index.get? name = some entry ↔
    (∃ i, Adds rules i entry.order entry.rule (entry.listing name)) ∧
      ∀ i place rule key direction negative, Adds rules i place rule (.named name key direction negative) →
        place ≤ entry.order
  unknown : ∀ name, index.get? name = none ↔
    ∀ i place rule key direction negative, ¬Adds rules i place rule (.named name key direction negative)
  plain : ∀ name entry, index.get? name = some entry → entry.negative = false →
    entry.value? = entry.rule.values?.bind (·.get? entry.key)
  negated : ∀ name entry, index.get? name = some entry → entry.negative = true →
    ∃ values text, entry.rule.values? = some values ∧ values.get? entry.key = some (.plain text) ∧
      entry.value? = some (.plain ("-" ++ text))
  families : ∀ stem family, family ∈ index.families stem ↔
    ∃ i, Adds rules i family.order family.rule (family.listing stem)
  once : ∀ stem, ((index.families stem).map (·.order)).Nodup
  coloursFirst : ∀ stem, (index.families stem).Pairwise fun f g => g.colorOnly = true → f.colorOnly = true
  atMostTwo : ∀ stem, (index.families stem).length ≤ 2

/-- The entries that a rule list adds under a name, in declaration order. -/
def entriesOf (rules : List Rule) (name : String) : List Entry :=
  (listings rules).zipIdx.filterMap (entryFor? name)

/-- The families that a rule list adds on a stem, in declaration order. -/
def familiesOf (rules : List Rule) (stem : String) : List BracketFamily :=
  (listings rules).zipIdx.filterMap (familyFor? stem)

theorem get?_progress (rules : List Rule) (name : String) :
    (progress rules).index.get? name = (entriesOf rules name).getLast? := by
  have start : (⟨empty, #[]⟩ : Progress).index.get? name = none := Table.get?_empty name
  rw [progress, get?_foldl, start, Option.or_none, entriesOf]

theorem families_progress (rules : List Rule) (stem : String) :
    (progress rules).index.families stem =
      ((familiesOf rules stem).filter (·.colorOnly)).reverse ++ (familiesOf rules stem).filter (!·.colorOnly) := by
  have start : (⟨empty, #[]⟩ : Progress).index.families stem = [] := by simp [families, empty]
  rw [progress, families_foldl, start, List.append_nil, familiesOf]

theorem mem_entriesOf_iff {entry : Entry} :
    entry ∈ entriesOf rules name ↔ ∃ i, Adds rules i entry.order entry.rule (entry.listing name) := by
  simp only [entriesOf, List.mem_filterMap, entryFor?_eq_some_iff, exists_eq_right, List.mem_zipIdx_iff_getElem?]
  exact getElem?_listings_iff

theorem mem_familiesOf_iff {family : BracketFamily} :
    family ∈ familiesOf rules stem ↔ ∃ i, Adds rules i family.order family.rule (family.listing stem) := by
  simp only [familiesOf, List.mem_filterMap, familyFor?_eq_some_iff, exists_eq_right, List.mem_zipIdx_iff_getElem?]
  exact getElem?_listings_iff

/-- What is picked out of numbered items keeps their order. -/
theorem pairwise_filterMap_zipIdx {α β : Type} {f : α × Nat → Option β} {place : β → Nat}
    (own : ∀ item b, f item = some b → place b = item.2) (items : List α) :
    (items.zipIdx.filterMap f).Pairwise (place · < place ·) := by
  have numbered : (items.zipIdx.map (·.2)).Pairwise (· < ·) := by
    rw [List.zipIdx_map_snd]
    exact List.pairwise_lt_range' 1
  refine List.pairwise_filterMap.mpr ((List.pairwise_map.mp numbered).imp fun less b made b' made' => ?_)
  rwa [own _ b made, own _ b' made']

theorem pairwise_entriesOf (rules : List Rule) (name : String) :
    (entriesOf rules name).Pairwise (·.order < ·.order) := by
  refine pairwise_filterMap_zipIdx (fun item entry made => ?_) (listings rules)
  rw [entryFor?_eq_some_iff.mp made]

theorem pairwise_familiesOf (rules : List Rule) (stem : String) :
    (familiesOf rules stem).Pairwise (·.order < ·.order) := by
  refine pairwise_filterMap_zipIdx (fun item family made => ?_) (listings rules)
  rw [familyFor?_eq_some_iff.mp made]

/-- The last of ascending elements is the greatest one. -/
theorem getLast?_eq_some_iff_greatest {α : Type} {place : α → Nat} {xs : List α} {x : α}
    (ascending : xs.Pairwise (place · < place ·)) :
    xs.getLast? = some x ↔ x ∈ xs ∧ ∀ y ∈ xs, place y ≤ place x := by
  rcases xs.eq_nil_or_concat with rfl | ⟨front, z, rfl⟩
  · simp
  · rw [List.concat_eq_append] at ascending ⊢
    have below := (List.pairwise_append.mp ascending).2.2
    rw [List.getLast?_concat, Option.some.injEq]
    constructor
    · rintro rfl
      refine ⟨by simp, fun y member => ?_⟩
      rcases List.mem_append.mp member with earlier | same
      · exact Nat.le_of_lt (below y earlier z (List.mem_singleton_self z))
      · exact Nat.le_of_eq (congrArg place (List.mem_singleton.mp same))
    · rintro ⟨member, greatest⟩
      rcases List.mem_append.mp member with earlier | same
      · have less := below x earlier z (List.mem_singleton_self z)
        have most := greatest z (by simp)
        omega
      · exact (List.mem_singleton.mp same).symm

theorem perm_families_progress (rules : List Rule) (stem : String) :
    ((progress rules).index.families stem).Perm (familiesOf rules stem) := by
  rw [families_progress]
  exact ((List.reverse_perm _).append_right _).trans (List.filter_append_perm BracketFamily.colorOnly _)

theorem getElem?_of_indexed {place : Nat} {rule : Rule} {listing : Listing}
    (indexed : (progress rules).index.Indexed place rule listing) :
    (listings rules)[place]? = some (rule, listing) := by
  rw [getElem?_listings_iff]
  cases indexed with
  | entry known =>
    rw [get?_progress] at known
    exact mem_entriesOf_iff.mp (List.mem_of_getLast? known)
  | family member => exact mem_familiesOf_iff.mp ((perm_families_progress rules _).mem_iff.mp member)

theorem get?_eq_some_iff_last {entry : Entry} : (progress rules).index.get? name = some entry ↔
    (∃ i, Adds rules i entry.order entry.rule (entry.listing name)) ∧
      ∀ i place rule key direction negative, Adds rules i place rule (.named name key direction negative) →
        place ≤ entry.order := by
  rw [get?_progress, getLast?_eq_some_iff_greatest (pairwise_entriesOf rules name), mem_entriesOf_iff]
  refine and_congr_right fun _ => ⟨fun greatest i place rule key direction negative adds => ?_,
    fun last other member => ?_⟩
  · exact greatest ⟨rule, key, direction, negative, place⟩ (mem_entriesOf_iff.mpr ⟨i, adds⟩)
  · obtain ⟨i, adds⟩ := mem_entriesOf_iff.mp member
    exact last i _ _ _ _ _ adds

theorem get?_eq_none_iff_unlisted : (progress rules).index.get? name = none ↔
    ∀ i place rule key direction negative, ¬Adds rules i place rule (.named name key direction negative) := by
  rw [get?_progress, List.getLast?_eq_none_iff, List.eq_nil_iff_forall_not_mem]
  constructor
  · intro none i place rule key direction negative adds
    exact none ⟨rule, key, direction, negative, place⟩ (mem_entriesOf_iff.mpr ⟨i, adds⟩)
  · intro none entry member
    obtain ⟨i, adds⟩ := mem_entriesOf_iff.mp member
    exact none i _ _ _ _ _ adds

/-- The value behind an entry with a negated name is a plain text. -/
theorem value?_of_negative {entry : Entry} (lists : entry.rule.Lists (entry.listing name))
    (negative : entry.negative = true) :
    ∃ values text, entry.rule.values? = some values ∧ values.get? entry.key = some (.plain text) ∧
      entry.value? = some (.plain ("-" ++ text)) := by
  obtain ⟨rule, key, direction, _, order⟩ := entry
  cases negative
  cases lists with
  | negated keyed _ _ known positive _ =>
    obtain ⟨text, rfl, -⟩ := positive
    refine ⟨_, text, keyed, known, ?_⟩
    simp only [Entry.value?, keyed, known, Option.bind_eq_bind, Option.bind_some, if_true, Value.primary]
    rfl

theorem value?_of_not_negative {entry : Entry} (plain : entry.negative = false) :
    entry.value? = entry.rule.values?.bind (·.get? entry.key) := by
  unfold Entry.value?
  cases entry.rule.values? with
  | none => rfl
  | some values => cases known : values.get? entry.key <;> simp [plain, known]

theorem lists_of_adds {i place : Nat} {rule : Rule} {listing : Listing} (adds : Adds rules i place rule listing) :
    rule.Lists listing := by
  obtain ⟨-, _, here, -⟩ := adds
  exact Rule.mem_listings_iff.mp (List.mem_of_getElem? here)

/-- A built index holds what the rules add, each in its place, the last entry for each name, and for each stem its
families, those for colours in front and two at most. -/
theorem build_contents {warnings : List Warning} (built : build rules = .ok (index, warnings)) :
    index.Contents rules := by
  have fits := build_isOk_iff.mp ⟨_, built⟩
  obtain rfl := eq_progress_of_build built
  exact {
    listed := fun _ _ => ⟨fun _ => Rule.mem_listings_iff, Rule.nodup_listings⟩
    added := fun _ _ _ indexed => getElem?_listings_iff.mp (getElem?_of_indexed indexed)
    distinct := fun _ _ _ _ _ first second => by
      have same := (getElem?_of_indexed first).symm.trans (getElem?_of_indexed second)
      exact Prod.mk.inj (Option.some.inj same)
    inOrder := fun _ _ _ _ _ _ _ _ => lt_of_adds
    entries := fun _ _ => get?_eq_some_iff_last
    unknown := fun _ => get?_eq_none_iff_unlisted
    plain := fun _ _ _ => value?_of_not_negative
    negated := fun _ _ known => by
      obtain ⟨⟨_, adds⟩, -⟩ := get?_eq_some_iff_last.mp known
      exact value?_of_negative (lists_of_adds adds)
    families := fun stem family => ((perm_families_progress rules stem).mem_iff).trans mem_familiesOf_iff
    once := fun stem => by
      have distinct : ((familiesOf rules stem).map (·.order)).Nodup :=
        List.pairwise_map.mpr ((pairwise_familiesOf rules stem).imp Nat.ne_of_lt)
      exact ((perm_families_progress rules stem).map _).nodup_iff.mpr distinct
    coloursFirst := fun stem => by
      rw [families_progress, List.pairwise_append]
      refine ⟨List.pairwise_of_forall_mem_list ?_, List.pairwise_of_forall_mem_list ?_, ?_⟩
      all_goals simp +contextual
    atMostTwo := fits }

/-! ### A name that is taken -/

/-- A rule for one name, a rule with keys that takes this name for a negated value, and a rule for colours on its
stem. -/
def stackRules : List Rule :=
  [.fixed "-stack-4" [⟨"gap", "0"⟩],
    .keyed "stack" (.ofTexts [("4", "1rem"), ("auto", "auto")]) (fun value => [⟨"gap", value.primary⟩])
      { negative := true },
    .keyed "stack" (.ofTexts [("DEFAULT", "red")]) (fun value => [⟨"color", value.primary⟩])
      { brackets := .colorOnly }]

theorem build_contents_of_taken :
    build stackRules = .ok ((progress stackRules).index, [.collisions ["-stack-4"]]) ∧
      (progress stackRules).index.Contents stackRules :=
  have built : build stackRules = .ok ((progress stackRules).index, [.collisions ["-stack-4"]]) := rfl
  ⟨built, build_contents built⟩

end EntryIndex

end UtilityCss
