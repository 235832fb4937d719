import UtilityCss.Proofs.Composing
import UtilityCss.Shortcuts

/-!
# Readings

A vocabulary reads tokens as uses of the rules that its index was built from. Two indices of the same rules
with the shortcuts in another order read every token alike, up to places in the declaration order.
-/

namespace UtilityCss

def Entry.unordered (entry : Entry) : Entry :=
  { entry with order := 0 }

def BracketFamily.unordered (family : BracketFamily) : BracketFamily :=
  { family with order := 0 }

/-- Two indices differ in places in the declaration order only. -/
structure EntryIndex.Agree (I J : EntryIndex) : Prop where
  entries : ∀ name, (I.get? name).map Entry.unordered = (J.get? name).map Entry.unordered
  families : ∀ stem, (I.families stem).map BracketFamily.unordered =
    (J.families stem).map BracketFamily.unordered

namespace EntryIndex

/-! ### Adding a listing -/

theorem get?_add_named (index : EntryIndex) (rule : Rule) (name key direction : String) (negative : Bool)
    (order : Nat) (other : String) :
    (index.add rule (.named name key direction negative) order).get? other =
      if name = other then some ⟨rule, key, direction, negative, order⟩ else index.get? other :=
  Table.get?_insert ..

theorem families_add_brackets (index : EntryIndex) (rule : Rule) (stem direction : String)
    (colorOnly : Bool) (order : Nat) (other : String) :
    (index.add rule (.brackets stem direction colorOnly) order).families other =
      if stem = other then addFamily (index.families stem) ⟨rule, direction, colorOnly, order⟩
      else index.families other := by
  simp only [add, families, Std.TreeMap.getElem?_insert, Std.LawfulEqCmp.compare_eq_iff_eq]
  split <;> rfl

theorem index_step (progress : Progress) (item : (Rule × Listing) × Nat) :
    (progress.step item).index = progress.index.add item.1.1 item.1.2 item.2 := by
  unfold Progress.step
  split <;> rfl

theorem eq_progress_of_build {rules : List Rule} {index : EntryIndex} {warnings : List Warning}
    (built : build rules = .ok (index, warnings)) : index = (progress rules).index := by
  obtain ⟨_, checked, made⟩ := bind_eq_ok built
  exact (Prod.mk.inj (Except.ok.inj made)).1.symm

/-! ### Where rules come from -/

/-- Every entry and every family has its rule and its place in the declaration order from somewhere. -/
structure Made (made : Rule → Nat → Prop) (index : EntryIndex) : Prop where
  entries : ∀ name entry, index.get? name = some entry → made entry.rule entry.order
  families : ∀ stem, ∀ family ∈ index.families stem, made family.rule family.order

/-- Every entry and every family has its rule from a list. -/
structure From (rules : List Rule) (index : EntryIndex) : Prop where
  entries : ∀ name entry, index.get? name = some entry → entry.rule ∈ rules
  families : ∀ stem, ∀ family ∈ index.families stem, family.rule ∈ rules

theorem mem_addFamily {families : List BracketFamily} {family added : BracketFamily} :
    family ∈ addFamily families added ↔ family = added ∨ family ∈ families := by
  unfold addFamily
  split
  · exact List.mem_cons
  · rw [List.mem_append, List.mem_singleton, or_comm]

theorem add_made {made : Rule → Nat → Prop} {index : EntryIndex} {rule : Rule} {order : Nat} (listing : Listing)
    (h : Made made index) (here : made rule order) : Made made (index.add rule listing order) := by
  cases listing with
  | named name key direction negative =>
    refine ⟨fun other entry known => ?_, h.families⟩
    rw [get?_add_named] at known
    split at known
    · cases known
      exact here
    · exact h.entries other entry known
  | brackets stem direction colorOnly =>
    refine ⟨h.entries, fun other family known => ?_⟩
    rw [families_add_brackets] at known
    split at known
    · rcases mem_addFamily.mp known with rfl | old
      · exact here
      · exact h.families stem family old
    · exact h.families other family known

theorem empty_made (made : Rule → Nat → Prop) : Made made empty := by
  refine ⟨fun name entry known => ?_, fun stem family known => ?_⟩
  · cases (Table.get?_empty name).symm.trans known
  · simp [empty, families] at known

/-- The place of an entry is the place of its listing. -/
theorem progress_made (rules : List Rule) :
    Made (fun rule order => ∃ listing, (listings rules)[order]? = some (rule, listing)) (progress rules).index := by
  have folded : ∀ (items : List ((Rule × Listing) × Nat)) (state : Progress) (made : Rule → Nat → Prop),
      (∀ item ∈ items, made item.1.1 item.2) → Made made state.index →
      Made made (items.foldl Progress.step state).index := by
    intro items
    induction items with
    | nil => exact fun _ _ _ h => h
    | cons item items ih =>
      intro state made members h
      refine ih _ _ (fun i hi => members i (List.mem_cons_of_mem _ hi)) ?_
      rw [index_step]
      exact add_made item.1.2 h (members item List.mem_cons_self)
  refine folded _ _ _ (fun item member => ?_) (empty_made _)
  exact ⟨item.1.2, List.mem_zipIdx_iff_getElem?.mp member⟩

theorem rule_mem_of_listing {rules : List Rule} {rule : Rule} {listing : Listing}
    (member : (rule, listing) ∈ listings rules) : rule ∈ rules := by
  obtain ⟨_, known, paired⟩ := List.mem_flatMap.mp member
  obtain ⟨_, -, same⟩ := List.mem_map.mp paired
  cases same
  exact known

theorem progress_from (rules : List Rule) : From rules (progress rules).index := by
  obtain ⟨entries, families⟩ := progress_made rules
  refine ⟨fun name entry known => ?_, fun stem family known => ?_⟩
  · obtain ⟨listing, place⟩ := entries name entry known
    exact rule_mem_of_listing (List.mem_of_getElem? place)
  · obtain ⟨listing, place⟩ := families stem family known
    exact rule_mem_of_listing (List.mem_of_getElem? place)

end EntryIndex

namespace Vocabulary
open Text

variable {v w : Vocabulary} {rules : List Rule} {made : Rule → Nat → Prop}

/-! ### Rules that are read -/

theorem made_of_readBrackets? (h : v.entries.Made made) {stem body : List Char} {use : RuleUse}
    (read : v.readBrackets? stem body = some use) : made use.rule use.order := by
  simp only [readBrackets?, Option.bind_eq_bind, Option.bind_eq_some_iff] at read
  obtain ⟨⟨raw, modifier⟩, -, read⟩ := read
  split at read
  · cases read
  · obtain ⟨family, found, read⟩ := Option.bind_eq_some_iff.mp read
    have member := List.mem_of_find?_eq_some found
    cases modifier with
    | none =>
      cases read
      exact h.families _ family member
    | some modifier =>
      obtain ⟨value, -, made⟩ := Option.bind_eq_some_iff.mp read
      cases made
      exact h.families _ family member

theorem made_of_readRule? (h : v.entries.Made made) {cs : List Char} {use : RuleUse}
    (read : v.readRule? cs = some use) : made use.rule use.order := by
  unfold readRule? at read
  split at read
  · rename_i entry known
    cases read
    exact h.entries _ entry known
  · split at read
    · exact made_of_readBrackets? h read
    · simp only [readModified?, Option.bind_eq_bind, Option.bind_eq_some_iff] at read
      obtain ⟨_, -, entry, known, _, -, value, -, made⟩ := read
      cases made
      exact h.entries _ entry known

/-- What is read as a rule does not stand in brackets. -/
theorem readRule?_of_readBody? {cs : List Char} {use : RuleUse} (read : v.readBody? cs = some (.rule use)) :
    v.readRule? cs = some use := by
  unfold readBody? at read
  split at read
  · simp only [readProperty?, Option.bind_eq_bind, Option.bind_eq_some_iff] at read
    obtain ⟨_, -, ⟨_, _⟩, -, read⟩ := read
    split at read <;> cases read
  · obtain ⟨_, found, same⟩ := Option.map_eq_some_iff.mp read
    cases same
    exact found

theorem made_of_read? (h : v.entries.Made made) {token : String} {u : Utility} {use : RuleUse}
    (read : v.read? token = some u) (ruled : u.body = .rule use) : made use.rule use.order := by
  simp only [read?, Option.bind_eq_bind, Option.bind_eq_some_iff] at read
  obtain ⟨variants, -, body, understood, same⟩ := read
  cases same
  cases ruled
  exact made_of_readRule? h (readRule?_of_readBody? understood)

/-- A token that stands for a rule stands for one of the list. -/
theorem rule_mem_of_read? (h : v.entries.From rules) {token : String} {u : Utility} {rule : Rule}
    (read : v.read? token = some u) (used : u.rule? = some rule) : rule ∈ rules := by
  have listed : v.entries.Made fun rule _ => rule ∈ rules := ⟨h.entries, h.families⟩
  obtain ⟨_, _, _, body⟩ := u
  cases body with
  | property name value => cases used
  | rule use =>
    cases used
    exact made_of_read? listed read rfl

/-! ### Indices that agree -/

theorem readBrackets?_unordered (agree : v.entries.Agree w.entries) (heights : v.lineHeights = w.lineHeights)
    (stem body : List Char) :
    (v.readBrackets? stem body).map RuleUse.unordered = (w.readBrackets? stem body).map RuleUse.unordered := by
  have chosen : ∀ raw, ((v.entries.families (String.ofList stem)).find? (·.accepts raw)).map
      BracketFamily.unordered =
        ((w.entries.families (String.ofList stem)).find? (·.accepts raw)).map BracketFamily.unordered := by
    intro raw
    have pulled : ∀ fs : List BracketFamily, (fs.find? (·.accepts raw)).map BracketFamily.unordered =
        (fs.map BracketFamily.unordered).find? (·.accepts raw) := by
      intro fs
      rw [List.find?_map]
      rfl
    rw [pulled, pulled, agree.families]
  unfold readBrackets?
  cases cutBrackets? body with
  | none => rfl
  | some parts =>
    obtain ⟨raw, modifier⟩ := parts
    have family := chosen raw
    simp only [Option.bind_eq_bind, Option.bind_some, heights]
    split
    · rfl
    · cases mine : (v.entries.families (String.ofList stem)).find? (·.accepts raw) with
      | none =>
        rw [mine, Option.map_none, eq_comm, Option.map_eq_none_iff] at family
        rw [family]
      | some f =>
        rw [mine, Option.map_some, eq_comm, Option.map_eq_some_iff] at family
        obtain ⟨g, theirs, same⟩ := family
        obtain ⟨rule, direction, colorOnly, order⟩ := f
        obtain ⟨rule', direction', colorOnly', order'⟩ := g
        cases same
        rw [theirs, Option.bind_some, Option.bind_some]
        cases modifier with
        | none => rfl
        | some modifier =>
          dsimp only
          cases modify? w.lineHeights rule (.plain (bracketValue raw)) modifier <;> rfl

theorem entry_agree {I J : EntryIndex} (agree : I.Agree J) (name : String) :
    (I.get? name = none ∧ J.get? name = none) ∨ ∃ entry order, I.get? name = some entry ∧
      J.get? name = some { entry with order := order } := by
  have same := agree.entries name
  cases mine : I.get? name with
  | none =>
    rw [mine, Option.map_none, eq_comm, Option.map_eq_none_iff] at same
    exact .inl ⟨rfl, same⟩
  | some entry =>
    rw [mine, Option.map_some, eq_comm, Option.map_eq_some_iff] at same
    obtain ⟨other, theirs, same⟩ := same
    refine .inr ⟨entry, other.order, rfl, ?_⟩
    rw [theirs]
    obtain ⟨rule, key, direction, negative, order⟩ := entry
    obtain ⟨rule', key', direction', negative', order'⟩ := other
    cases same
    rfl

theorem readRule?_unordered (agree : v.entries.Agree w.entries) (heights : v.lineHeights = w.lineHeights)
    (cs : List Char) : (v.readRule? cs).map RuleUse.unordered = (w.readRule? cs).map RuleUse.unordered := by
  unfold readRule?
  rcases entry_agree agree (String.ofList cs) with ⟨mine, theirs⟩ | ⟨entry, order, mine, theirs⟩
  · rw [mine, theirs]
    cases cut? ['-', '['] cs with
    | some parts => exact readBrackets?_unordered agree heights parts.1 parts.2
    | none =>
      cases cut? ['/'] cs with
      | none => rfl
      | some parts =>
        obtain ⟨name, modifier⟩ := parts
        simp only [Option.bind_eq_bind, Option.bind_some, readModified?, heights]
        rcases entry_agree agree (String.ofList name) with ⟨mine, theirs⟩ | ⟨entry, order, mine, theirs⟩
        · rw [mine, theirs]
        · rw [mine, theirs]
          have values : ({ entry with order := order } : Entry).value? = entry.value? := rfl
          rw [Option.bind_some, Option.bind_some, values]
          cases entry.value? with
          | none => rfl
          | some base =>
            rw [Option.bind_some, Option.bind_some]
            cases modify? w.lineHeights entry.rule base modifier <;> rfl
  · rw [mine, theirs]
    rfl

/-- Two vocabularies whose indices agree read every token alike. -/
theorem read?_unordered (agree : v.entries.Agree w.entries) (variants : v.variants = w.variants)
    (heights : v.lineHeights = w.lineHeights) (token : String) :
    (v.read? token).map Utility.unordered = (w.read? token).map Utility.unordered := by
  have bodies : ∀ cs, (v.readBody? cs).map UtilityBody.unordered = (w.readBody? cs).map UtilityBody.unordered := by
    intro cs
    unfold readBody?
    split
    · rfl
    · have same := congrArg (Option.map UtilityBody.rule) (readRule?_unordered agree heights cs)
      rw [Option.map_map, Option.map_map] at same ⊢
      exact same
  unfold read?
  simp only [Option.bind_eq_bind, variants]
  cases (TokenParts.ofToken token.toList).variants.mapM w.variants.resolve? with
  | none => rfl
  | some resolved =>
    have same := congrArg (Option.map fun body : UtilityBody =>
      (⟨token, resolved, (TokenParts.ofToken token.toList).important, body⟩ : Utility))
        (bodies (TokenParts.ofToken token.toList).body)
    rw [Option.map_map, Option.map_map] at same
    rw [Option.bind_some, Option.bind_some]
    cases mine : v.readBody? (TokenParts.ofToken token.toList).body <;>
      cases theirs : w.readBody? (TokenParts.ofToken token.toList).body <;>
      rw [mine, theirs] at same <;> exact same

end Vocabulary

/-! ### Shortcuts in another order -/

namespace EntryIndex

theorem add_agree {I J : EntryIndex} (agree : I.Agree J) (rule : Rule) (listing : Listing) (m n : Nat) :
    (I.add rule listing m).Agree (J.add rule listing n) := by
  cases listing with
  | named name key direction negative =>
    refine ⟨fun other => ?_, agree.families⟩
    rw [get?_add_named, get?_add_named]
    split
    · rfl
    · exact agree.entries other
  | brackets stem direction colorOnly =>
    refine ⟨agree.entries, fun other => ?_⟩
    rw [families_add_brackets, families_add_brackets]
    split
    · have same := agree.families stem
      cases colorOnly with
      | true => simp [addFamily, BracketFamily.unordered, same]
      | false => simp [addFamily, BracketFamily.unordered, same]
    · exact agree.families other

theorem foldl_agree (items : List (Rule × Listing)) {P Q : Progress} (agree : P.index.Agree Q.index)
    (m n : Nat) : ((items.zipIdx m).foldl Progress.step P).index.Agree
      ((items.zipIdx n).foldl Progress.step Q).index := by
  induction items generalizing P Q m n with
  | nil => exact agree
  | cons item items ih =>
    rw [List.zipIdx_cons, List.zipIdx_cons, List.foldl_cons, List.foldl_cons]
    refine ih ?_ (m + 1) (n + 1)
    rw [index_step, index_step]
    exact add_agree agree item.1 item.2 m n

/-- The rules of shortcuts. -/
def shortcutRules (pairs : List (String × String)) : List Rule :=
  pairs.map fun (name, utilities) => .shortcut name utilities

def shortcutEntry (name utilities : String) : Entry :=
  ⟨.shortcut name utilities, "", "", false, 0⟩

theorem foldl_shortcuts {pairs : List (String × String)} (distinct : (pairs.map (·.1)).Nodup) (P : Progress)
    (start : Nat) :
    let done := (((listings (shortcutRules pairs)).zipIdx start).foldl Progress.step P).index
    (∀ name utilities, (name, utilities) ∈ pairs →
      (done.get? name).map Entry.unordered = some (shortcutEntry name utilities)) ∧
    (∀ name, name ∉ pairs.map (·.1) → done.get? name = P.index.get? name) ∧
    done.brackets = P.index.brackets := by
  induction pairs generalizing P start with
  | nil => exact ⟨fun _ _ h => absurd h List.not_mem_nil, fun _ _ => rfl, rfl⟩
  | cons pair pairs ih =>
    obtain ⟨name, utilities⟩ := pair
    obtain ⟨isNew, later⟩ := List.nodup_cons.mp distinct
    have step : (P.step ((.shortcut name utilities, .named name "" "" false), start)).index =
        P.index.add (.shortcut name utilities) (.named name "" "" false) start := index_step ..
    obtain ⟨listed, others, brackets⟩ :=
      ih later (P.step ((.shortcut name utilities, .named name "" "" false), start)) (start + 1)
    rw [step] at brackets
    refine ⟨fun other text member => ?_, fun other absent => ?_, brackets⟩
    · rcases List.mem_cons.mp member with same | inside
      · cases same
        refine (congrArg (Option.map Entry.unordered) (others name isNew)).trans ?_
        rw [step, get?_add_named, if_pos rfl]
        rfl
      · exact listed other text inside
    · rw [List.map_cons, List.mem_cons, not_or] at absent
      obtain ⟨apart, outside⟩ := absent
      refine (others other outside).trans ?_
      rw [step, get?_add_named, if_neg (Ne.symm apart)]

/-- The same shortcuts in another order in front of the same rules. -/
theorem progress_agree {S T : Table String} (same : ∀ name, S.get? name = T.get? name) (others : List Rule) :
    (progress (shortcutRules S.toList ++ others)).index.Agree
      (progress (shortcutRules T.toList ++ others)).index := by
  have cut : ∀ U : Table String, progress (shortcutRules U.toList ++ others) =
      ((listings others).zipIdx (listings (shortcutRules U.toList)).length).foldl Progress.step
        (((listings (shortcutRules U.toList)).zipIdx 0).foldl Progress.step ⟨empty, #[]⟩) := by
    intro U
    rw [progress, listings, List.flatMap_append, List.zipIdx_append, List.foldl_append, Nat.zero_add]
    rfl
  rw [cut, cut]
  refine foldl_agree (listings others) ?_ _ _
  have known : ∀ U : Table String, (U.toList.map (·.1)).Nodup := by
    intro U
    rw [Table.map_fst_toList]
    exact U.nodup_keys
  obtain ⟨slisted, sothers, sbrackets⟩ := foldl_shortcuts (known S) ⟨empty, #[]⟩ 0
  obtain ⟨tlisted, tothers, tbrackets⟩ := foldl_shortcuts (known T) ⟨empty, #[]⟩ 0
  refine ⟨fun name => ?_, fun stem => ?_⟩
  · cases defined : S.get? name with
    | some utilities =>
      rw [slisted name utilities (Table.mem_toList_iff.mpr defined),
        tlisted name utilities (Table.mem_toList_iff.mpr ((same name).symm.trans defined))]
    | none =>
      have absent : ∀ U : Table String, U.get? name = none → name ∉ U.toList.map (·.1) := by
        intro U undefined member
        rw [Table.map_fst_toList, Table.mem_keys_iff, undefined] at member
        cases member
      rw [sothers name (absent S defined), tothers name (absent T ((same name).symm.trans defined))]
  · rw [families, families, sbrackets, tbrackets]

end EntryIndex

end UtilityCss
