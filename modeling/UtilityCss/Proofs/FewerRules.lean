import UtilityCss.Proofs.Readings

/-!
# Rules that are taken away

Taking rules from a rule list uncovers names that they had taken from others, and moves the places behind them
forward. The names and the families of the rules that are left stay where they were, so the tokens of these rules
are read as before: `read?_of_follows`. Which rules are taken away is marked at each rule of the list, since a list
may hold a rule twice; `Change.sublist_iff` says that the marks reach every list with fewer rules.
-/

namespace UtilityCss

/-- What is left of a rule: the same but for its declarations, and maybe without its modifier. -/
structure Rule.Remains (left rule : Rule) : Prop where
  name : left.name = rule.name
  listings : left.listings = rule.listings
  values : left.values? = rule.values?
  traits : left.traits = rule.traits ∨ left.traits = { rule.traits with modifier := none }

theorem Rule.remains_refl (rule : Rule) : rule.Remains rule :=
  ⟨rfl, rfl, rfl, .inl rfl⟩

/-- A rule and what is left of it, nothing if it is taken away. -/
structure Change where
  rule : Rule
  left : Option Rule

namespace Change

def before (changes : List Change) : List Rule :=
  changes.map (·.rule)

def after (changes : List Change) : List Rule :=
  changes.filterMap (·.left)

/-- The rule is taken away or stays as it is. -/
def IsDeletion (change : Change) : Prop :=
  ∀ left, change.left = some left → left = change.rule

/-- The rule is taken away or stays but for its declarations and its modifier. -/
def Remains (change : Change) : Prop :=
  ∀ left, change.left = some left → left.Remains change.rule

/-- The listings before the changes in declaration order, each with the change of its rule. -/
def listings (changes : List Change) : List (Change × Listing) :=
  changes.flatMap fun change => change.rule.listings.map (change, ·)

/-- What is left of the rule whose listing has a place in the declaration order. -/
def leftAt (changes : List Change) (place : Nat) : Option Rule :=
  (listings changes)[place]?.bind (·.1.left)

/-- The place of a listing among those that are left. -/
def newPlace (changes : List Change) (place : Nat) : Nat :=
  ((listings changes).take place).countP (·.1.left.isSome)

variable {changes : List Change}

/-! ### Listings -/

theorem remains_of_isDeletion {change : Change} (deletion : change.IsDeletion) : change.Remains := by
  intro left stays
  rw [deletion left stays]
  exact change.rule.remains_refl

/-- Every way to take rules from a list is a list of such changes. -/
theorem sublist_iff {rules left : List Rule} : left.Sublist rules ↔
    ∃ changes : List Change, (∀ change ∈ changes, change.IsDeletion) ∧ before changes = rules ∧
      after changes = left := by
  constructor
  · intro sublist
    induction sublist with
    | slnil => exact ⟨[], by simp, rfl, rfl⟩
    | cons rule _ ih =>
      obtain ⟨changes, deletions, rfl, rfl⟩ := ih
      have gone : IsDeletion ⟨rule, none⟩ := fun _ stays => by cases stays
      exact ⟨⟨rule, none⟩ :: changes, List.forall_mem_cons.mpr ⟨gone, deletions⟩, rfl, rfl⟩
    | cons_cons rule _ ih =>
      obtain ⟨changes, deletions, rfl, rfl⟩ := ih
      have kept : IsDeletion ⟨rule, some rule⟩ := fun _ stays => (Option.some.inj stays).symm
      exact ⟨⟨rule, some rule⟩ :: changes, List.forall_mem_cons.mpr ⟨kept, deletions⟩, rfl, rfl⟩
  · rintro ⟨changes, deletions, rfl, rfl⟩
    induction changes with
    | nil => exact .slnil
    | cons change changes ih =>
      obtain ⟨first, later⟩ := List.forall_mem_cons.mp deletions
      cases stays : change.left with
      | none =>
        rw [after, List.filterMap_cons_none stays]
        exact (ih later).cons _
      | some left =>
        rw [after, List.filterMap_cons_some stays, first left stays]
        exact (ih later).cons_cons _

theorem listings_before (changes : List Change) :
    EntryIndex.listings (before changes) = (listings changes).map fun item => (item.1.rule, item.2) := by
  rw [EntryIndex.listings, before, listings, List.flatMap_map, List.map_flatMap]
  simp only [List.map_map]
  rfl

theorem listings_after (remains : ∀ change ∈ changes, change.Remains) :
    EntryIndex.listings (after changes) =
      (listings changes).filterMap fun item => item.1.left.map (·, item.2) := by
  induction changes with
  | nil => rfl
  | cons change changes ih =>
    obtain ⟨first, later⟩ := List.forall_mem_cons.mp remains
    have rest := ih later
    have both : listings (change :: changes) = change.rule.listings.map (change, ·) ++ listings changes :=
      List.flatMap_cons
    rw [both, List.filterMap_append, List.filterMap_map, ← rest]
    cases stays : change.left with
    | none =>
      have none : change.rule.listings.filterMap ((fun item : Change × Listing => item.1.left.map (·, item.2)) ∘
          (change, ·)) = [] := List.filterMap_eq_nil_iff.mpr fun _ _ => by simp [stays]
      rw [none, List.nil_append, after, List.filterMap_cons_none stays]
      rfl
    | some left =>
      have all : change.rule.listings.filterMap ((fun item : Change × Listing => item.1.left.map (·, item.2)) ∘
          (change, ·)) = left.listings.map (left, ·) := by
        rw [(first left stays).listings, ← List.filterMap_eq_map]
        refine congrArg (List.filterMap · _) (funext fun _ => ?_)
        simp [stays]
      rw [all, after, List.filterMap_cons_some stays]
      exact List.flatMap_cons

theorem newPlace_lt {m n : Nat} (stays : (leftAt changes m).isSome = true) (before : m < n) :
    newPlace changes m < newPlace changes n := by
  obtain ⟨left, stays⟩ := Option.isSome_iff_exists.mp stays
  obtain ⟨item, here, stays⟩ := Option.bind_eq_some_iff.mp stays
  -- The listing at `m` is counted in front of `n` and not in front of `m`.
  have counted : ((listings changes).take (m + 1)).countP (·.1.left.isSome) = newPlace changes m + 1 := by
    rw [List.take_add_one, here, List.countP_append, Option.toList_some, List.countP_singleton, stays]
    rfl
  have within : (listings changes).take (m + 1) <+: (listings changes).take n :=
    List.take_prefix_take_left before
  have most := within.sublist.countP_le (p := (·.1.left.isSome))
  rw [counted] at most
  exact most

theorem newPlace_lt_iff {m n : Nat} (first : (leftAt changes m).isSome = true)
    (second : (leftAt changes n).isSome = true) : newPlace changes m < newPlace changes n ↔ m < n := by
  refine ⟨fun less => ?_, newPlace_lt first⟩
  rcases Nat.lt_trichotomy m n with before | rfl | behind
  · exact before
  · exact absurd less (Nat.lt_irrefl _)
  · exact absurd less (Nat.lt_asymm (newPlace_lt second behind))

/-- Numbering what is left: each item has for its number how many are left in front of it. -/
theorem zipIdx_filterMap {α β : Type} {f : α → Option β} {place : Nat → Nat} (items : List α) (start : Nat)
    (places : ∀ i ≤ items.length, place (start + i) = place start + (items.take i).countP fun x => (f x).isSome) :
    (items.filterMap f).zipIdx (place start) =
      (items.zipIdx start).filterMap fun item => (f item.1).map (·, place item.2) := by
  induction items generalizing start with
  | nil => rfl
  | cons x items ih =>
    have later : ∀ i ≤ items.length, place (start + 1 + i) =
        place (start + 1) + (items.take i).countP fun x => (f x).isSome := by
      intro i fits
      have here := places (i + 1) (Nat.succ_le_succ fits)
      have one := places 1 (Nat.succ_le_succ (Nat.zero_le _))
      rw [List.take_succ_cons, List.countP_cons] at here one
      rw [List.take_zero, List.countP_nil] at one
      rw [Nat.add_assoc, Nat.add_comm 1 i, here, one]
      omega
    have one := places 1 (Nat.succ_le_succ (Nat.zero_le _))
    rw [List.take_succ_cons, List.countP_cons, List.take_zero, List.countP_nil, Nat.zero_add] at one
    rw [List.zipIdx_cons]
    cases image : f x with
    | none =>
      rw [image] at one
      rw [List.filterMap_cons_none image, List.filterMap_cons_none (by rw [image]; rfl), ← ih (start + 1) later,
        one]
      rfl
    | some y =>
      rw [image] at one
      rw [List.filterMap_cons_some image, List.zipIdx_cons, List.filterMap_cons_some (by rw [image]; rfl),
        ← ih (start + 1) later, one]
      rfl

end Change

namespace EntryIndex

/-! ### Indices with fewer entries -/

/-- What is left of a family. -/
def leftFamily? (left : Nat → Option Rule) (place : Nat → Nat) (family : BracketFamily) : Option BracketFamily :=
  (left family.order).map fun rule => { family with rule := rule, order := place family.order }

/-- The second index has the entries and the families of the first that are left, in new places, and no name that
the first one has not. -/
structure Follows (left : Nat → Option Rule) (place : Nat → Nat) (I J : EntryIndex) : Prop where
  unknown : ∀ name, I.get? name = none → J.get? name = none
  entries : ∀ name entry rule, I.get? name = some entry → left entry.order = some rule →
    J.get? name = some { entry with rule := rule, order := place entry.order }
  families : ∀ stem, J.families stem = (I.families stem).filterMap (leftFamily? left place)

variable {left : Nat → Option Rule} {place : Nat → Nat} {I J : EntryIndex} {rule rule' : Rule} {n : Nat}

theorem filterMap_addFamily {f : BracketFamily → Option BracketFamily} {families : List BracketFamily}
    {family moved : BracketFamily} (stays : f family = some moved) (alike : moved.colorOnly = family.colorOnly) :
    (addFamily families family).filterMap f = addFamily (families.filterMap f) moved := by
  unfold addFamily
  rw [alike]
  split
  · rw [List.filterMap_cons_some stays]
  · rw [List.filterMap_append, List.filterMap_cons_some stays, List.filterMap_nil]

theorem filterMap_addFamily_none {f : BracketFamily → Option BracketFamily} {families : List BracketFamily}
    {family : BracketFamily} (gone : f family = none) :
    (addFamily families family).filterMap f = families.filterMap f := by
  unfold addFamily
  split
  · rw [List.filterMap_cons_none gone]
  · rw [List.filterMap_append, List.filterMap_cons_none gone, List.filterMap_nil, List.append_nil]

theorem add_follows (listing : Listing) (h : Follows left place I J) (stays : left n = some rule') :
    Follows left place (I.add rule listing n) (J.add rule' listing (place n)) := by
  cases listing with
  | named name key direction negative =>
    refine ⟨fun other unknown => ?_, fun other entry kept known stays' => ?_, h.families⟩
    · rw [get?_add_named] at unknown ⊢
      split at unknown
      · cases unknown
      · rename_i apart
        rw [if_neg apart]
        exact h.unknown other unknown
    · rw [get?_add_named] at known ⊢
      split at known
      · rename_i same
        cases known
        obtain rfl := Option.some.inj (stays.symm.trans stays')
        rw [if_pos same]
      · rename_i apart
        rw [if_neg apart]
        exact h.entries other entry kept known stays'
  | brackets stem direction colorOnly =>
    refine ⟨h.unknown, h.entries, fun other => ?_⟩
    rw [families_add_brackets, families_add_brackets]
    split
    · have moved : leftFamily? left place ⟨rule, direction, colorOnly, n⟩ =
          some ⟨rule', direction, colorOnly, place n⟩ := by
        rw [leftFamily?, stays]
        rfl
      rw [filterMap_addFamily moved rfl, ← h.families]
    · exact h.families other

theorem add_follows_of_gone (listing : Listing) (h : Follows left place I J) (gone : left n = none) :
    Follows left place (I.add rule listing n) J := by
  cases listing with
  | named name key direction negative =>
    refine ⟨fun other unknown => ?_, fun other entry kept known stays => ?_, h.families⟩
    · rw [get?_add_named] at unknown
      split at unknown
      · cases unknown
      · exact h.unknown other unknown
    · rw [get?_add_named] at known
      split at known
      · cases known
        cases gone.symm.trans stays
      · exact h.entries other entry kept known stays
  | brackets stem direction colorOnly =>
    refine ⟨h.unknown, h.entries, fun other => ?_⟩
    rw [families_add_brackets]
    split
    · rename_i same
      have none : leftFamily? left place ⟨rule, direction, colorOnly, n⟩ = none := by
        rw [leftFamily?, gone]
        rfl
      rw [filterMap_addFamily_none none, same]
      exact h.families other
    · exact h.families other

theorem foldl_follows {items : List ((Change × Listing) × Nat)}
    (numbered : ∀ item ∈ items, left item.2 = item.1.1.left) {P Q : Progress}
    (h : Follows left place P.index Q.index) :
    Follows left place
      ((items.map fun item => ((item.1.1.rule, item.1.2), item.2)).foldl Progress.step P).index
      ((items.filterMap fun item => item.1.1.left.map fun rule => ((rule, item.1.2), place item.2)).foldl
        Progress.step Q).index := by
  induction items generalizing P Q with
  | nil => exact h
  | cons item items ih =>
    obtain ⟨first, later⟩ := List.forall_mem_cons.mp numbered
    rw [List.map_cons, List.foldl_cons]
    cases stays : item.1.1.left with
    | none =>
      rw [List.filterMap_cons_none (by rw [stays]; rfl)]
      -- The listing is gone: only the first index takes a step.
      refine ih later ?_
      rw [index_step]
      exact add_follows_of_gone item.1.2 h (first.trans stays)
    | some rule =>
      rw [List.filterMap_cons_some (by rw [stays]; rfl), List.foldl_cons]
      refine ih later ?_
      rw [index_step, index_step]
      exact add_follows item.1.2 h (first.trans stays)

open Change in
theorem progress_follows {changes : List Change} (remains : ∀ change ∈ changes, change.Remains) :
    Follows (leftAt changes) (newPlace changes) (progress (before changes)).index
      (progress (after changes)).index := by
  have numbered : ∀ item ∈ (Change.listings changes).zipIdx, leftAt changes item.2 = item.1.1.left := by
    intro item member
    rw [leftAt, List.mem_zipIdx_iff_getElem?.mp member]
    rfl
  have places : ∀ i ≤ (Change.listings changes).length, newPlace changes (0 + i) = newPlace changes 0 +
      ((Change.listings changes).take i).countP fun item => (item.1.left.map (·, item.2)).isSome := by
    intro i _
    rw [Nat.zero_add, newPlace, newPlace, List.take_zero, List.countP_nil, Nat.zero_add]
    simp only [Option.isSome_map]
  have start : Follows (leftAt changes) (newPlace changes) empty empty :=
    ⟨fun _ unknown => unknown, fun name _ _ known => (by cases (Table.get?_empty name).symm.trans known),
      fun _ => by simp [families, empty]⟩
  have run := foldl_follows numbered (P := ⟨empty, #[]⟩) (Q := ⟨empty, #[]⟩) start
  have first : (EntryIndex.listings (before changes)).zipIdx =
      (Change.listings changes).zipIdx.map fun item => ((item.1.1.rule, item.1.2), item.2) := by
    rw [listings_before, List.zipIdx_map]
    rfl
  have second : (EntryIndex.listings (after changes)).zipIdx = (Change.listings changes).zipIdx.filterMap
      fun item => item.1.1.left.map fun rule => ((rule, item.1.2), newPlace changes item.2) := by
    rw [listings_after remains]
    refine (zipIdx_filterMap _ 0 places).trans (congrArg (List.filterMap · _) (funext fun item => ?_))
    rw [Option.map_map]
    rfl
  rw [progress, progress, first, second]
  exact run

/-! ### Building -/

theorem checkStem_isOk_iff {stem : String} {families : List BracketFamily} :
    (∃ warnings, checkStem stem families = .ok warnings) ↔ families.length ≤ 2 := by
  unfold checkStem
  split
  · exact iff_of_true ⟨_, rfl⟩ (Nat.le_refl 2)
  · split
    · rename_i crowded
      exact iff_of_false (fun ⟨_, done⟩ => nomatch done) (Nat.not_le_of_lt crowded)
    · rename_i fits
      exact iff_of_true ⟨_, rfl⟩ (Nat.not_lt.mp fits)

/-- An index is built when no stem is crowded. -/
theorem build_isOk_iff {rules : List Rule} : (∃ built, build rules = .ok built) ↔
    ∀ stem, ((progress rules).index.families stem).length ≤ 2 := by
  have checked : (∃ built, build rules = .ok built) ↔
      ∃ stems, (progress rules).index.brackets.toList.mapM (Function.uncurry checkStem) = .ok stems := by
    constructor
    · rintro ⟨_, done⟩
      obtain ⟨stems, checked, -⟩ := bind_eq_ok done
      exact ⟨stems, checked⟩
    · rintro ⟨stems, checked⟩
      have run : build rules = ((progress rules).index.brackets.toList.mapM (Function.uncurry checkStem)).bind
          fun stems => .ok ((progress rules).index, (if (progress rules).collisions.isEmpty then []
            else [.collisions (progress rules).collisions.toList]) ++ stems.flatten) := rfl
      rw [run, checked]
      exact ⟨_, rfl⟩
  rw [checked, exists_mapM_ok_iff]
  constructor
  · intro each stem
    unfold families
    cases known : (progress rules).index.brackets[stem]? with
    | none => exact Nat.zero_le _
    | some listed =>
      have member := Std.TreeMap.mem_toList_iff_getElem?_eq_some.mpr known
      exact checkStem_isOk_iff.mp (each (stem, listed) member)
  · rintro fits ⟨stem, listed⟩ member
    have known := Std.TreeMap.mem_toList_iff_getElem?_eq_some.mp member
    have here := fits stem
    rw [families, known] at here
    exact checkStem_isOk_iff.mpr here

end EntryIndex

/-! ### Reading with fewer rules -/

/-- The use of what is left of the rule, in its new place. -/
def RuleUse.left (use : RuleUse) (rule : Rule) (place : Nat) : RuleUse :=
  ⟨rule, use.direction, place, use.value⟩

/-- A use stays as it was, or it is lost since it has a modifier and the rule takes none any more. -/
structure RuleUse.Kept (use : RuleUse) (rule : Rule) (place : Nat) (modifier : Option (List Char))
    (answer : Option RuleUse) : Prop where
  same : modifier = none ∨ rule.traits.modifier = use.rule.traits.modifier → answer = some (use.left rule place)
  lost : modifier ≠ none → rule.traits.modifier ≠ use.rule.traits.modifier → answer = none

namespace Vocabulary
open Text

/-- What stands behind the slash of a class name that is not in the index as it stands. -/
def modifier? (v : Vocabulary) (cs : List Char) : Option (List Char) :=
  match v.entries.get? (String.ofList cs) with
  | some _ => none
  | none =>
    match cut? ['-', '['] cs with
    | some (_, body) => (cutBrackets? body).bind (·.2)
    | none => (cut? ['/'] cs).map (·.2)

/-- The body of a token, without its variants and its marks. -/
def bodyOf (token : String) : List Char :=
  (TokenParts.ofToken token.toList).body

variable {v w : Vocabulary} {left : Nat → Option Rule} {place : Nat → Nat} {use : RuleUse} {rule : Rule}

theorem modify?_of_remains {heights : Category} {rule' : Rule} {base value : Value} {raw : List Char}
    (remains : rule'.Remains rule) (read : modify? heights rule base raw = some value) :
    (rule'.traits.modifier = rule.traits.modifier → modify? heights rule' base raw = some value) ∧
      (rule'.traits.modifier ≠ rule.traits.modifier → modify? heights rule' base raw = none) := by
  refine ⟨fun same => ?_, fun differ => ?_⟩
  · rw [← read, modify?, modify?, same]
  · rcases remains.traits with same | bare
    · rw [same] at differ
      exact absurd rfl differ
    · rw [modify?, bare]
      rfl

theorem value?_of_remains {entry : Entry} {order : Nat} (remains : rule.Remains entry.rule) :
    ({ entry with rule := rule, order := order } : Entry).value? = entry.value? := by
  unfold Entry.value?
  rw [remains.values]

theorem find?_leftFamily {families : List BracketFamily} {family : BracketFamily} {raw : List Char}
    (found : families.find? (·.accepts raw) = some family) (stays : left family.order = some rule) :
    (families.filterMap (EntryIndex.leftFamily? left place)).find? (·.accepts raw) =
      some { family with rule := rule, order := place family.order } := by
  have alike : ∀ {first moved}, EntryIndex.leftFamily? left place first = some moved →
      moved.accepts raw = first.accepts raw := by
    intro first moved image
    obtain ⟨_, -, rfl⟩ := Option.map_eq_some_iff.mp image
    rfl
  -- A family in front of the one that is found does not take the value, so it does not matter if it is gone.
  induction families with
  | nil => cases found
  | cons first families ih =>
    by_cases takes : first.accepts raw = true
    · rw [List.find?_cons, takes] at found
      obtain rfl := Option.some.inj found
      have image : EntryIndex.leftFamily? left place first =
          some { first with rule := rule, order := place first.order } := by
        rw [EntryIndex.leftFamily?, stays]
        rfl
      rw [List.filterMap_cons_some image, List.find?_cons, (alike image).trans takes]
    · rw [List.find?_cons, Bool.eq_false_iff.mpr takes] at found
      cases image : EntryIndex.leftFamily? left place first with
      | none =>
        rw [List.filterMap_cons_none image]
        exact ih found
      | some moved =>
        rw [List.filterMap_cons_some image, List.find?_cons, (alike image).trans (Bool.eq_false_iff.mpr takes)]
        exact ih found

theorem readBody?_eq_of_rule {cs : List Char} (read : v.readBody? cs = some (.rule use)) :
    w.readBody? cs = (w.readRule? cs).map .rule := by
  unfold readBody? at read ⊢
  split at read
  · simp only [readProperty?, Option.bind_eq_bind, Option.bind_eq_some_iff] at read
    obtain ⟨_, -, ⟨_, _⟩, -, read⟩ := read
    split at read <;> cases read
  · rfl

section Follows
variable (follows : EntryIndex.Follows left place v.entries w.entries)
  (remains : v.entries.Made fun rule order => ∀ rule', left order = some rule' → rule'.Remains rule)
  (heights : v.lineHeights = w.lineHeights)
include follows remains heights

theorem readBrackets?_of_follows {stem body : List Char} (read : v.readBrackets? stem body = some use)
    (stays : left use.order = some rule) :
    use.Kept rule (place use.order) ((cutBrackets? body).bind (·.2)) (w.readBrackets? stem body) := by
  simp only [readBrackets?, Option.bind_eq_bind, Option.bind_eq_some_iff] at read
  obtain ⟨⟨raw, modifier⟩, cut, read⟩ := read
  split at read
  · cases read
  rename_i filled
  obtain ⟨family, found, read⟩ := Option.bind_eq_some_iff.mp read
  have source := remains.families _ family (List.mem_of_find?_eq_some found)
  unfold readBrackets?
  rw [cut, follows.families, ← heights]
  simp only [Option.bind_eq_bind, Option.bind_some, filled]
  cases modifier with
  | none =>
    cases read
    rw [find?_leftFamily found stays]
    exact ⟨fun _ => rfl, fun some => absurd rfl some⟩
  | some modifier =>
    obtain ⟨value, modified, made⟩ := Option.bind_eq_some_iff.mp read
    cases made
    rw [find?_leftFamily found stays]
    obtain ⟨same, lost⟩ := modify?_of_remains (source rule stays) modified
    refine ⟨fun kept => ?_, fun _ differ => ?_⟩
    · have equal := kept.resolve_left (by simp)
      simp only [Option.bind_some, same equal]
      rfl
    · simp only [Option.bind_some, lost differ]
      rfl

theorem readModified?_of_follows {name modifier : List Char} (read : v.readModified? name modifier = some use)
    (stays : left use.order = some rule) :
    use.Kept rule (place use.order) (some modifier) (w.readModified? name modifier) := by
  simp only [readModified?, Option.bind_eq_bind, Option.bind_eq_some_iff] at read
  obtain ⟨entry, known, base, valued, value, modified, made⟩ := read
  cases made
  have source := remains.entries _ entry known rule stays
  obtain ⟨same, lost⟩ := modify?_of_remains source modified
  unfold readModified?
  rw [follows.entries _ entry rule known stays, ← heights]
  simp only [Option.bind_eq_bind, Option.bind_some, value?_of_remains source, valued]
  refine ⟨fun kept => ?_, fun _ differ => ?_⟩
  · rw [same (kept.resolve_left (by simp))]
    rfl
  · rw [lost differ]
    rfl

theorem readRule?_of_follows {cs : List Char} (read : v.readRule? cs = some use)
    (stays : left use.order = some rule) :
    use.Kept rule (place use.order) (v.modifier? cs) (w.readRule? cs) := by
  unfold readRule? at read
  split at read
  · rename_i entry known
    cases read
    have unmodified : v.modifier? cs = none := by rw [modifier?, known]
    rw [unmodified]
    refine ⟨fun _ => ?_, fun some => absurd rfl some⟩
    rw [readRule?, follows.entries _ entry rule known stays]
    dsimp only
    rw [value?_of_remains (remains.entries _ entry known rule stays)]
    rfl
  · -- A name that the first index does not know is new to the second one too, so no entry takes the token.
    rename_i unknown
    split at read
    · rename_i stem body cut
      have modified : v.modifier? cs = (cutBrackets? body).bind (·.2) := by rw [modifier?, unknown, cut]
      have again : w.readRule? cs = w.readBrackets? stem body := by
        rw [readRule?, follows.unknown _ unknown, cut]
      rw [modified, again]
      exact readBrackets?_of_follows follows remains heights read stays
    · rename_i uncut
      obtain ⟨⟨name, modifier⟩, cut, read⟩ := Option.bind_eq_some_iff.mp read
      have modified : v.modifier? cs = some modifier := by
        rw [modifier?, unknown, uncut, cut]
        rfl
      have again : w.readRule? cs = w.readModified? name modifier := by
        rw [readRule?, follows.unknown _ unknown, uncut, cut]
        rfl
      rw [modified, again]
      exact readModified?_of_follows follows remains heights read stays

/-- A token that stands for a rule that is left stands for it as before, or it has a modifier that the rule does
not take any more, and stands for nothing. -/
theorem read?_of_follows (variants : v.variants = w.variants) {token : String} {u : Utility}
    (read : v.read? token = some u) (ruled : u.body = .rule use) (stays : left use.order = some rule) :
    (v.modifier? (bodyOf token) = none ∨ rule.traits.modifier = use.rule.traits.modifier →
      w.read? token = some { u with body := .rule (use.left rule (place use.order)) }) ∧
    (v.modifier? (bodyOf token) ≠ none → rule.traits.modifier ≠ use.rule.traits.modifier →
      w.read? token = none) := by
  simp only [read?, Option.bind_eq_bind, Option.bind_eq_some_iff] at read
  obtain ⟨resolved, known, body, understood, made⟩ := read
  cases made
  cases ruled
  obtain ⟨same, lost⟩ := readRule?_of_follows follows remains heights (readRule?_of_readBody? understood) stays
  simp only [read?, Option.bind_eq_bind, ← variants, known, Option.bind_some, readBody?_eq_of_rule understood]
  refine ⟨fun kept => ?_, fun modified differ => ?_⟩
  · rw [same kept]
    rfl
  · rw [lost modified differ]
    rfl

end Follows

end Vocabulary

/-! ### Rule lists with fewer rules -/

namespace Change
open Vocabulary

variable {changes : List Change}

theorem exists_change_of_listing {rule : Rule} {listing : Listing} {order : Nat}
    (listed : (EntryIndex.listings (before changes))[order]? = some (rule, listing)) :
    ∃ change ∈ changes, change.rule = rule ∧ leftAt changes order = change.left := by
  rw [listings_before, List.getElem?_map, Option.map_eq_some_iff] at listed
  obtain ⟨⟨change, other⟩, here, same⟩ := listed
  cases same
  obtain ⟨_, member, paired⟩ := List.mem_flatMap.mp (List.mem_of_getElem? here)
  obtain ⟨_, -, same⟩ := List.mem_map.mp paired
  cases same
  exact ⟨change, member, rfl, by rw [leftAt, here]; rfl⟩

/-- What one vocabulary reads as rules, with what another one with fewer rules makes of it. -/
structure ReadsOn (changes : List Change) (v w : Vocabulary) : Prop where
  source : ∀ token u use, v.read? token = some u → u.body = .rule use →
    ∃ change ∈ changes, change.rule = use.rule ∧ leftAt changes use.order = change.left
  same : ∀ token u use rule, v.read? token = some u → u.body = .rule use → leftAt changes use.order = some rule →
    v.modifier? (bodyOf token) = none ∨ rule.traits.modifier = use.rule.traits.modifier →
    w.read? token = some { u with body := .rule (use.left rule (newPlace changes use.order)) }
  lost : ∀ token u use rule, v.read? token = some u → u.body = .rule use → leftAt changes use.order = some rule →
    v.modifier? (bodyOf token) ≠ none → rule.traits.modifier ≠ use.rule.traits.modifier → w.read? token = none
  order : ∀ m n, (leftAt changes m).isSome → (leftAt changes n).isSome →
    (newPlace changes m < newPlace changes n ↔ m < n)

/-- A rule list that an index can be built from stays one, and what its vocabulary reads stays too. -/
theorem readsOn_of_build {v : Vocabulary} {warnings : List Warning} (remains : ∀ change ∈ changes, change.Remains)
    (built : EntryIndex.build (before changes) = .ok (v.entries, warnings)) :
    ∃ index notices, EntryIndex.build (after changes) = .ok (index, notices) ∧
      ReadsOn changes v { v with entries := index } := by
  have follows := EntryIndex.progress_follows remains
  obtain ⟨⟨index, notices⟩, done⟩ := EntryIndex.build_isOk_iff.mpr fun stem => by
    have fits := EntryIndex.build_isOk_iff.mp ⟨_, built⟩ stem
    rw [follows.families]
    exact Nat.le_trans (List.length_filterMap_le ..) fits
  rw [← EntryIndex.eq_progress_of_build built, ← EntryIndex.eq_progress_of_build done] at follows
  have placed := EntryIndex.progress_made (before changes)
  rw [← EntryIndex.eq_progress_of_build built] at placed
  have known : ∀ {rule order}, (∃ listing, (EntryIndex.listings (before changes))[order]? = some (rule, listing)) →
      ∀ rule', leftAt changes order = some rule' → rule'.Remains rule := by
    rintro rule order ⟨listing, listed⟩ rule' stays
    obtain ⟨change, member, rfl, left⟩ := exists_change_of_listing listed
    exact remains change member rule' (left.symm.trans stays)
  have made : v.entries.Made fun rule order => ∀ rule', leftAt changes order = some rule' → rule'.Remains rule :=
    ⟨fun name entry here => known (placed.entries name entry here),
      fun stem family here => known (placed.families stem family here)⟩
  refine ⟨index, notices, done, ?_, ?_, ?_, fun m n => newPlace_lt_iff⟩
  · intro token u use read ruled
    obtain ⟨listing, listed⟩ := made_of_read? placed read ruled
    exact exists_change_of_listing listed
  · intro token u use rule read ruled stays
    exact (read?_of_follows (w := { v with entries := index }) follows made rfl rfl read ruled stays).1
  · intro token u use rule read ruled stays
    exact (read?_of_follows (w := { v with entries := index }) follows made rfl rfl read ruled stays).2

end Change

end UtilityCss
