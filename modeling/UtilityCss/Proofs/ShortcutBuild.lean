import UtilityCss.Proofs.OwnRules
import UtilityCss.Proofs.ShortcutGraph

/-!
# Building shortcuts

The definitions of a rule list are the shortcuts of its configuration, and its vocabulary reads no others. So
the graph decides whether they can be built, and their order does not matter. Building them is a run of an
expansion that nothing bounds but the path, and every such run comes to an end.
-/

namespace UtilityCss.Shortcuts
open UtilityCss.Composition

variable {v w : Vocabulary} {defs : Table String}

/-! ### Definitions of a rule list -/

theorem insertAll_of_nodup {pairs : List (String × String)} (distinct : (pairs.map (·.1)).Nodup)
    (table : Table String) (isNew : ∀ name ∈ pairs.map (·.1), name ∉ table.keys) :
    (∀ pair ∈ pairs, (table.insertAll pairs).get? pair.1 = some pair.2) ∧
    (∀ name, name ∉ pairs.map (·.1) → (table.insertAll pairs).get? name = table.get? name) ∧
    (table.insertAll pairs).keys = table.keys ++ pairs.map (·.1) := by
  induction pairs generalizing table with
  | nil => exact ⟨fun _ member => absurd member List.not_mem_nil, fun _ _ => rfl, (List.append_nil _).symm⟩
  | cons pair pairs ih =>
    obtain ⟨apart, later⟩ := List.nodup_cons.mp distinct
    have keys : (table.insert pair.1 pair.2).keys = table.keys ++ [pair.1] := by
      rw [Table.keys_insert, if_neg (isNew pair.1 List.mem_cons_self)]
    have isNew' : ∀ name ∈ pairs.map (·.1), name ∉ (table.insert pair.1 pair.2).keys := by
      intro name member known
      rw [keys, List.mem_append, List.mem_singleton] at known
      rcases known with old | rfl
      · exact isNew name (List.mem_cons_of_mem _ member) old
      · exact apart member
    obtain ⟨listed, outside, order⟩ := ih later (table.insert pair.1 pair.2) isNew'
    rw [Table.insertAll_cons]
    refine ⟨fun other member => ?_, fun name absent => ?_, ?_⟩
    · rcases List.mem_cons.mp member with rfl | inside
      · rw [outside other.1 apart, Table.get?_insert, if_pos rfl]
      · exact listed other inside
    · rw [List.map_cons, List.mem_cons, not_or] at absent
      rw [outside name absent.2, Table.get?_insert, if_neg (Ne.symm absent.1)]
    · rw [order, keys, List.map_cons, List.append_assoc, List.singleton_append]

/-- The definitions in a rule list are the shortcuts of the configuration, in their order. -/
theorem definitions_eq {theme : Theme} {flags : FamilyFlags} {userRules rules : List Rule}
    {shortcuts : Table String} (ruled : Catalog.rules theme flags userRules shortcuts = .ok rules) :
    (definitions rules).get? = shortcuts.get? ∧ (definitions rules).keys = shortcuts.keys := by
  obtain ⟨rfl, plain⟩ := Catalog.rules_eq_ok ruled
  have cut : definitions (EntryIndex.shortcutRules shortcuts.toList ++ Catalog.others theme flags userRules) =
      .ofList shortcuts.toList := by
    unfold definitions
    refine congrArg Table.ofList ?_
    rw [List.filterMap_append, EntryIndex.shortcutRules, List.filterMap_map]
    refine Eq.trans (congrArg₂ HAppend.hAppend List.filterMap_some ?_) (List.append_nil shortcuts.toList)
    rw [List.filterMap_eq_nil_iff]
    intro rule member
    have isPlain := plain rule member
    cases rule with
    | shortcut name utilities => cases isPlain
    | _ => rfl
  have distinct : (shortcuts.toList.map (·.1)).Nodup := by
    rw [Table.map_fst_toList]
    exact shortcuts.nodup_keys
  have isNew : ∀ name ∈ shortcuts.toList.map (·.1), name ∉ (Table.empty : Table String).keys :=
    fun _ _ => List.not_mem_nil
  obtain ⟨listed, outside, order⟩ := insertAll_of_nodup distinct .empty isNew
  rw [cut]
  refine ⟨funext fun name => ?_, ?_⟩
  · cases defined : shortcuts.get? name with
    | some utilities => exact listed (name, utilities) (Table.mem_toList_iff.mpr defined)
    | none =>
      refine (outside name fun member => ?_).trans (Table.get?_empty name)
      rw [Table.map_fst_toList, Table.mem_keys_iff, defined] at member
      cases member
  · refine order.trans ?_
    rw [Table.map_fst_toList]
    rfl

/-- A vocabulary reads no shortcuts besides those of the rule list that it was built from. -/
theorem closed_of_build {theme : Theme} {flags : FamilyFlags} {userRules rules : List Rule}
    {shortcuts : Table String} {warnings : List Warning}
    (ruled : Catalog.rules theme flags userRules shortcuts = .ok rules)
    (indexed : EntryIndex.build rules = .ok (v.entries, warnings)) : Closed v shortcuts.get? := by
  have source : v.entries.From rules := by
    rw [EntryIndex.eq_progress_of_build indexed]
    exact EntryIndex.progress_from rules
  intro token name named
  obtain ⟨u, read, shortcut⟩ := Option.bind_eq_some_iff.mp named
  obtain ⟨rule, used, stands⟩ := Option.bind_eq_some_iff.mp shortcut
  have member := Vocabulary.rule_mem_of_read? source read used
  cases rule with
  | shortcut name' utilities =>
    cases stands
    obtain ⟨rfl, plain⟩ := Catalog.rules_eq_ok ruled
    rcases List.mem_append.mp member with listed | other
    · obtain ⟨pair, known, same⟩ := List.mem_map.mp listed
      cases same
      rw [Table.mem_toList_iff.mp known]
      rfl
    · cases plain _ other
  | _ => cases stands

/-- The same shortcuts in another order are read alike. -/
theorem alike_of_build {theme : Theme} {flags : FamilyFlags} {userRules rules rules' : List Rule}
    {shortcuts shortcuts' : Table String} {warnings warnings' : List Warning}
    (same : ∀ name, shortcuts.get? name = shortcuts'.get? name)
    (ruled : Catalog.rules theme flags userRules shortcuts = .ok rules)
    (ruled' : Catalog.rules theme flags userRules shortcuts' = .ok rules')
    (indexed : EntryIndex.build rules = .ok (v.entries, warnings))
    (indexed' : EntryIndex.build rules' = .ok (w.entries, warnings'))
    (variants : v.variants = w.variants) (heights : v.lineHeights = w.lineHeights) : Alike v w := by
  obtain ⟨rfl, -⟩ := Catalog.rules_eq_ok ruled
  obtain ⟨rfl, -⟩ := Catalog.rules_eq_ok ruled'
  refine Vocabulary.read?_unordered ?_ variants heights
  rw [EntryIndex.eq_progress_of_build indexed, EntryIndex.eq_progress_of_build indexed']
  exact EntryIndex.progress_agree same _

/-! ### Runs that end -/

mutual

/-- A run of the expansion of a name that comes to an end. `path` holds the names that are under way; nothing
else bounds the run. -/
inductive Expands (v : Vocabulary) (find : String → Option String) :
    List String → ShortcutTable → String → Except ConfigError ShortcutTable → Prop
  | known {path : List String} {table : ShortcutTable} {name : String} :
      table.contains name = true → Expands v find path table name (.ok table)
  | undefined {path : List String} {table : ShortcutTable} {name : String} :
      ¬table.contains name = true → find name = none → Expands v find path table name (.ok table)
  | cycle {path : List String} {table : ShortcutTable} {name utilities : String} :
      ¬table.contains name = true → find name = some utilities → name ∈ path →
      Expands v find path table name (.error (.shortcutCycle path name utilities))
  | failed {path : List String} {table : ShortcutTable} {name utilities : String} {cause : ConfigError} :
      ¬table.contains name = true → find name = some utilities → name ∉ path →
      ExpandsAll v find (path ++ [name]) table (Text.stringWords utilities) (.error cause) →
      Expands v find path table name (.error cause)
  | composed {path : List String} {table middle : ShortcutTable} {name utilities : String} :
      ¬table.contains name = true → find name = some utilities → name ∉ path →
      ExpandsAll v find (path ++ [name]) table (Text.stringWords utilities) (.ok middle) →
      Expands v find path table name ((expansion v middle name utilities).map (middle.insert name ·))

/-- A run over the tokens of a definition that comes to an end. -/
inductive ExpandsAll (v : Vocabulary) (find : String → Option String) :
    List String → ShortcutTable → List String → Except ConfigError ShortcutTable → Prop
  | done {path : List String} {table : ShortcutTable} : ExpandsAll v find path table [] (.ok table)
  | plain {path tokens : List String} {table : ShortcutTable} {token : String}
      {result : Except ConfigError ShortcutTable} :
      reference? v token = none → ExpandsAll v find path table tokens result →
      ExpandsAll v find path table (token :: tokens) result
  | failed {path tokens : List String} {table : ShortcutTable} {token name : String} {cause : ConfigError} :
      reference? v token = some name → Expands v find path table name (.error cause) →
      ExpandsAll v find path table (token :: tokens) (.error cause)
  | next {path tokens : List String} {table middle : ShortcutTable} {token name : String}
      {result : Except ConfigError ShortcutTable} :
      reference? v token = some name → Expands v find path table name (.ok middle) →
      ExpandsAll v find path middle tokens result →
      ExpandsAll v find path table (token :: tokens) result

end

/-- A run over some names, from a table on, that comes to an end. -/
inductive Builds (v : Vocabulary) (find : String → Option String) :
    ShortcutTable → List String → Except ConfigError ShortcutTable → Prop
  | done {table : ShortcutTable} : Builds v find table [] (.ok table)
  | failed {table : ShortcutTable} {name : String} {names : List String} {cause : ConfigError} :
      Expands v find [] table name (.error cause) → Builds v find table (name :: names) (.error cause)
  | next {table middle : ShortcutTable} {name : String} {names : List String}
      {result : Except ConfigError ShortcutTable} :
      Expands v find [] table name (.ok middle) → Builds v find middle names result →
      Builds v find table (name :: names) result

/-- While the unvisited names are the defined ones that are not on the path, expanding has a run. -/
theorem expand_runs_both :
    (∀ path unvisited table name, unvisited.Nodup →
      (∀ x, (defs.get? x).isSome = true → (x ∈ unvisited ↔ x ∉ path)) →
      Expands v defs.get? path table name (expand v defs path unvisited table name)) ∧
    (∀ path unvisited table tokens, unvisited.Nodup →
      (∀ x, (defs.get? x).isSome = true → (x ∈ unvisited ↔ x ∉ path)) →
      ExpandsAll v defs.get? path table tokens (expandAll v defs path unvisited table tokens)) := by
  apply expand.mutual_induct v defs
  · intro path unvisited table name known _ _
    rw [expand_known known]
    exact .known known
  · intro path unvisited table name absent undefined _ _
    rw [expand_undefined absent undefined]
    exact .undefined absent undefined
  · intro path unvisited table name absent utilities defined fresh inner distinct outside
    have offPath : name ∉ path := (outside name (by rw [defined]; rfl)).mp fresh
    have run := inner (distinct.erase name) fun x known => by
      rw [distinct.mem_erase_iff, outside x known, List.mem_append, List.mem_singleton, not_or, and_comm]
    rw [expand_fresh absent defined fresh]
    cases expanded : expandAll v defs (path ++ [name]) (unvisited.erase name) table
        (Text.stringWords utilities) with
    | error cause =>
      rw [expanded] at run
      exact .failed absent defined offPath run
    | ok middle =>
      rw [expanded] at run
      exact .composed absent defined offPath run
  · intro path unvisited table name absent utilities defined visited _ outside
    have onPath : name ∈ path := Decidable.byContradiction fun offPath =>
      visited ((outside name (by rw [defined]; rfl)).mpr offPath)
    rw [expand_cycle absent defined visited]
    exact .cycle absent defined onPath
  · intro path unvisited table _ _
    rw [expandAll_nil]
    exact .done
  · intro path unvisited table token tokens plain later distinct outside
    rw [expandAll_plain plain]
    exact .plain plain (later distinct outside)
  · intro path unvisited table token tokens name named first later distinct outside
    have run := first distinct outside
    rw [expandAll_reference named]
    cases expanded : expand v defs path unvisited table name with
    | error cause =>
      rw [expanded] at run
      exact .failed named run
    | ok middle =>
      rw [expanded] at run
      exact .next named run (later middle distinct outside)

theorem foldlM_builds (names : List String) (table : ShortcutTable) :
    Builds v defs.get? table names (names.foldlM (expand v defs [] defs.keys) table) := by
  induction names generalizing table with
  | nil => exact .done
  | cons name names ih =>
    have outside : ∀ x, (defs.get? x).isSome = true → (x ∈ defs.keys ↔ x ∉ ([] : List String)) :=
      fun x defined => iff_of_true (Table.mem_keys_iff.mpr defined) List.not_mem_nil
    have run : Expands v defs.get? [] table name _ :=
      expand_runs_both.1 [] defs.keys table name defs.nodup_keys outside
    rw [List.foldlM_cons]
    cases expanded : expand v defs [] defs.keys table name with
    | error cause =>
      rw [expanded] at run
      exact .failed run
    | ok middle =>
      rw [expanded] at run
      exact .next run (ih middle)

/-- The shortcuts of a rule list are expanded in a run that ends. It succeeds when the graph is acyclic and
every definition composes, each expansion is what its definition composes to against the finished table, and
another order of the definitions has the same outcome. -/
theorem build_expanded {theme : Theme} {flags : FamilyFlags} {userRules rules : List Rule}
    {shortcuts : Table String} {warnings : List Warning}
    (ruled : Catalog.rules theme flags userRules shortcuts = .ok rules)
    (indexed : EntryIndex.build rules = .ok (v.entries, warnings)) :
    Builds v shortcuts.get? ∅ shortcuts.keys (build rules v) ∧
    ((∃ table, build rules v = .ok table) ↔ Acyclic v shortcuts.get? ∧ Composes v shortcuts.get?) ∧
    (∀ table, build rules v = .ok table → Expanded v shortcuts.get? table) ∧
    ∀ (w : Vocabulary) (rules' : List Rule) (shortcuts' : Table String) (warnings' : List Warning),
      (∀ name, shortcuts.get? name = shortcuts'.get? name) →
      Catalog.rules theme flags userRules shortcuts' = .ok rules' →
      EntryIndex.build rules' = .ok (w.entries, warnings') →
      v.variants = w.variants → v.lineHeights = w.lineHeights →
      ((∃ table, build rules v = .ok table) ↔ ∃ table, build rules' w = .ok table) ∧
      ∀ table table', build rules v = .ok table → build rules' w = .ok table' →
        ∀ name, table.get? name = table'.get? name := by
  obtain ⟨found, keys⟩ := definitions_eq ruled
  have closed := closed_of_build ruled indexed
  have succeeds : (∃ table, build rules v = .ok table) ↔
      Acyclic v shortcuts.get? ∧ Composes v shortcuts.get? := by
    rw [← found] at closed ⊢
    exact foldlM_isOk_iff closed
  have expanded : ∀ table, build rules v = .ok table → Expanded v shortcuts.get? table := by
    rw [← found]
    exact fun table done => foldlM_expanded done
  refine ⟨?_, succeeds, expanded, ?_⟩
  · rw [← found, ← keys]
    exact foldlM_builds _ _
  · intro w rules' shortcuts' warnings' same ruled' indexed' variants heights
    have alike := alike_of_build same ruled ruled' indexed indexed' variants heights
    have sameFind : shortcuts.get? = shortcuts'.get? := funext same
    obtain ⟨found', -⟩ := definitions_eq ruled'
    have closed' := closed_of_build ruled' indexed'
    have succeeds' : (∃ table, build rules' w = .ok table) ↔
        Acyclic w shortcuts'.get? ∧ Composes w shortcuts'.get? := by
      rw [← found'] at closed' ⊢
      exact foldlM_isOk_iff closed'
    refine ⟨?_, fun table table' done done' name => ?_⟩
    · rw [succeeds, succeeds', ← sameFind]
      constructor
      · rintro ⟨acyclic, composes⟩
        exact ⟨acyclic_alike alike acyclic, composes_alike alike composes⟩
      · rintro ⟨acyclic, composes⟩
        exact ⟨acyclic_alike (alike_symm alike) acyclic, composes_alike (alike_symm alike) composes⟩
    · have sound : Sound v shortcuts.get? table ∧
          ∀ name, (shortcuts.get? name).isSome = true → (table.get? name).isSome = true := by
        rw [← found]
        obtain ⟨sound, -, all⟩ := foldlM_sound empty_sound done
        exact ⟨sound, fun name defined => all name (Table.mem_keys_iff.mpr defined) defined⟩
      obtain ⟨sound, all⟩ := sound
      have expanded' : Expanded w shortcuts.get? table' := by
        rw [sameFind, ← found']
        exact foldlM_expanded done'
      exact expanded_unique alike (fun name defined => sound.grounded name (all name defined))
        (expanded table done) expanded' name

/-! ### A shortcut of a shortcut -/

def buttonShortcuts : Table String :=
  .ofList [("button", "spun base"), ("base", "flush")]

def buttonRules : List Rule :=
  [.shortcut "button" "spun base", .shortcut "base" "flush", spunRule, flushRule]

def buttonVocabulary : Vocabulary :=
  ⟨⟨∅, ∅⟩, (EntryIndex.progress buttonRules).index, ∅⟩

theorem find_button {name utilities : String} (defined : buttonShortcuts.get? name = some utilities) :
    (name = "button" ∧ utilities = "spun base") ∨ (name = "base" ∧ utilities = "flush") := by
  have known : buttonShortcuts.get? name =
      if "base" = name then some "flush" else if "button" = name then some "spun base" else none := by
    rw [buttonShortcuts, Table.ofList, Table.insertAll_cons, Table.insertAll_cons, Table.insertAll_nil,
      Table.get?_insert, Table.get?_insert]
    rfl
  rw [known] at defined
  split at defined
  · rename_i same
    exact .inr ⟨same.symm, (Option.some.inj defined).symm⟩
  · split at defined
    · rename_i same
      exact .inl ⟨same.symm, (Option.some.inj defined).symm⟩
    · cases defined

theorem read?_button {token : String} (member : token = "spun" ∨ token = "base" ∨ token = "flush") :
    ∃ u, buttonVocabulary.read? token = some u ∧ u.Composable ∧
      (u.shortcut? = none ∨ token = "base" ∧ u.shortcut? = some "base") := by
  rcases member with rfl | rfl | rfl
  · have known : buttonVocabulary.entries.get? "spun" = some ⟨spunRule, "", "", false, 2⟩ := rfl
    refine ⟨_, Vocabulary.read?_of_plain (by decide) (by decide) (by decide) known, ?_, .inl rfl⟩
    exact ⟨rfl, by decide, fun traits used => by cases used; exact ⟨rfl, rfl⟩⟩
  · have known : buttonVocabulary.entries.get? "base" =
        some ⟨.shortcut "base" "flush", "", "", false, 1⟩ := rfl
    refine ⟨_, Vocabulary.read?_of_plain (by decide) (by decide) (by decide) known, ?_, .inr ⟨rfl, rfl⟩⟩
    exact ⟨rfl, by decide, fun traits used => by cases used; exact ⟨rfl, rfl⟩⟩
  · have known : buttonVocabulary.entries.get? "flush" = some ⟨flushRule, "", "", false, 3⟩ := rfl
    refine ⟨_, Vocabulary.read?_of_plain (by decide) (by decide) (by decide) known, ?_, .inl rfl⟩
    exact ⟨rfl, by decide, fun traits used => by cases used; exact ⟨rfl, rfl⟩⟩

theorem words_button {name utilities token : String} (defined : buttonShortcuts.get? name = some utilities)
    (member : token ∈ Text.stringWords utilities) :
    (token = "spun" ∨ token = "base" ∨ token = "flush") ∧ (token = "base" → name = "button") := by
  have button : Text.stringWords "spun base" = ["spun", "base"] := by decide
  have base : Text.stringWords "flush" = ["flush"] := by decide
  rcases find_button defined with ⟨rfl, rfl⟩ | ⟨rfl, rfl⟩
  · rw [button] at member
    simp only [List.mem_cons, List.not_mem_nil, or_false] at member
    exact ⟨member.imp_right .inl, fun _ => rfl⟩
  · rw [base, List.mem_singleton] at member
    subst member
    exact ⟨.inr (.inr rfl), fun same => absurd same (by decide)⟩

theorem acyclic_button : Acyclic buttonVocabulary buttonShortcuts.get? := by
  have edge : ∀ a b, References buttonVocabulary buttonShortcuts.get? a b → a = "button" ∧ b = "base" := by
    rintro a b ⟨utilities, defined, token, member, named⟩
    obtain ⟨plain, fromButton⟩ := words_button defined member
    obtain ⟨u, read, -, shortcut⟩ := read?_button plain
    rw [reference?, read, Option.bind_some] at named
    rcases shortcut with none | ⟨isBase, some⟩
    · cases none.symm.trans named
    · exact ⟨fromButton isBase, (Option.some.inj (some.symm.trans named)).symm⟩
  intro name loop
  obtain ⟨_, first, -⟩ := Relation.TransGen.head'_iff.mp loop
  obtain ⟨_, -, last⟩ := Relation.TransGen.tail'_iff.mp loop
  have isButton := (edge _ _ first).1
  have isBase := (edge _ _ last).2
  rw [isBase] at isButton
  exact absurd isButton (by decide)

def swappedShortcuts : Table String :=
  .ofList [("base", "flush"), ("button", "spun base")]

def swappedRules : List Rule :=
  [.shortcut "base" "flush", .shortcut "button" "spun base", spunRule, flushRule]

def swappedVocabulary : Vocabulary :=
  ⟨⟨∅, ∅⟩, (EntryIndex.progress swappedRules).index, ∅⟩

/-- A shortcut is expanded alike in front of the one that it names and behind it. -/
theorem build_button_expanded : ∃ table table', build buttonRules buttonVocabulary = .ok table ∧
    build swappedRules swappedVocabulary = .ok table' ∧
    Expanded buttonVocabulary buttonShortcuts.get? table ∧ ∀ name, table.get? name = table'.get? name := by
  have ruled : Catalog.rules ⟨∅, ∅, {}⟩ Catalog.allOff ownRules buttonShortcuts = .ok buttonRules :=
    Catalog.rules_eq_of_off Catalog.allOff_known Catalog.allOff_off rfl rfl
  have ruled' : Catalog.rules ⟨∅, ∅, {}⟩ Catalog.allOff ownRules swappedShortcuts = .ok swappedRules :=
    Catalog.rules_eq_of_off Catalog.allOff_known Catalog.allOff_off rfl rfl
  have indexed : EntryIndex.build buttonRules = .ok (buttonVocabulary.entries, []) := rfl
  have indexed' : EntryIndex.build swappedRules = .ok (swappedVocabulary.entries, []) := rfl
  have same : ∀ name, buttonShortcuts.get? name = swappedShortcuts.get? name := by
    intro name
    simp only [buttonShortcuts, swappedShortcuts, Table.ofList, Table.insertAll_cons, Table.insertAll_nil,
      Table.get?_insert]
    by_cases base : "base" = name
    · subst base
      rfl
    · simp [base]
  obtain ⟨-, succeeds, expanded, reordered⟩ := build_expanded ruled indexed
  have composes : Composes buttonVocabulary buttonShortcuts.get? := by
    intro name utilities defined token member
    obtain ⟨u, read, composable, -⟩ := read?_button (words_button defined member).1
    exact ⟨u, read, composable⟩
  obtain ⟨table, done⟩ := succeeds.mpr ⟨acyclic_button, composes⟩
  obtain ⟨sameSuccess, sameTable⟩ := reordered swappedVocabulary swappedRules swappedShortcuts [] same ruled'
    indexed' rfl rfl
  obtain ⟨table', done'⟩ := sameSuccess.mp ⟨table, done⟩
  exact ⟨table, table', done, done', expanded table done, sameTable table table' done done'⟩

end UtilityCss.Shortcuts
