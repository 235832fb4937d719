import Mathlib.Logic.Relation
import UtilityCss.Proofs.Composing
import UtilityCss.Shortcuts

/-!
# The graph of shortcuts

A shortcut references the shortcuts among its tokens. The definitions expand when no shortcut leads back to
itself and every token of every definition can be composed, and the expansions then satisfy the definitions,
all of them against the finished table. That leaves one table, whatever the order of the definitions.
-/

namespace UtilityCss.Shortcuts
open UtilityCss.Composition

/-! ### The graph -/

/-- One definition names another shortcut, under any variants and important or not. `find` looks up
definitions. -/
def References (v : Vocabulary) (find : String → Option String) (a b : String) : Prop :=
  ∃ utilities, find a = some utilities ∧ ∃ token ∈ Text.stringWords utilities, reference? v token = some b

/-- No shortcut leads back to itself. -/
def Acyclic (v : Vocabulary) (find : String → Option String) : Prop :=
  ∀ name, ¬Relation.TransGen (References v find) name name

/-- Every token of every definition is a utility that can be composed. -/
def Composes (v : Vocabulary) (find : String → Option String) : Prop :=
  ∀ name utilities, find name = some utilities → ∀ token ∈ Text.stringWords utilities,
    ∃ u, v.read? token = some u ∧ u.Composable

/-- Every shortcut that can be read is defined. -/
def Closed (v : Vocabulary) (find : String → Option String) : Prop :=
  ∀ token name, reference? v token = some name → (find name).isSome = true

/-- The table has the expansion of each definition against itself, and no others. -/
def Expanded (v : Vocabulary) (find : String → Option String) (table : ShortcutTable) : Prop :=
  ∀ name,
    (find name = none → table.get? name = none) ∧
    ∀ utilities, find name = some utilities → ∃ expansion, table.get? name = some expansion ∧
      composeWith v.read? .shortcut (shortcutText name utilities) table utilities = .ok expansion

variable {v w : Vocabulary} {defs : Table String} {find : String → Option String} {table : ShortcutTable}

/-! ### Sound tables -/

/-- The expansions of a table satisfy their definitions against the table itself, and from none of them a
chain of references goes on for ever. -/
structure Sound (v : Vocabulary) (find : String → Option String) (table : ShortcutTable) : Prop where
  expanded : ∀ name expansion, table.get? name = some expansion → ∃ utilities, find name = some utilities ∧
    composeWith v.read? .shortcut (shortcutText name utilities) table utilities = .ok expansion
  grounded : ∀ name, (table.get? name).isSome = true → Acc (fun b a => References v find a b) name

theorem empty_sound : Sound v find ∅ where
  expanded name expansion known := by
    rw [Table.get?_empty] at known
    cases known
  grounded name known := by
    rw [Table.get?_empty] at known
    cases known

theorem expansion_eq_ok_iff {name utilities : String} {e : Expansion} :
    expansion v table name utilities = .ok e ↔
      composeWith v.read? .shortcut (shortcutText name utilities) table utilities = .ok e := by
  unfold expansion
  cases composeWith v.read? .shortcut (shortcutText name utilities) table utilities with
  | error cause => exact ⟨(nomatch ·), (nomatch ·)⟩
  | ok e' => exact ⟨fun h => congrArg _ (Except.ok.inj h), fun h => congrArg _ (Except.ok.inj h)⟩

theorem known_of_composed {context utilities name : String} {e : Expansion}
    (composed : composeWith v.read? .shortcut context table utilities = .ok e) {token : String}
    (member : token ∈ Text.stringWords utilities) (named : reference? v token = some name) :
    (table.get? name).isSome = true := by
  obtain ⟨u, read, -, expanded⟩ := exists_composeWith_ok_iff.mp ⟨e, composed⟩ token member
  rw [reference?, read] at named
  exact expanded name named

/-- A definition that composes against a sound table can be added to it. -/
theorem sound_insert {name utilities : String} {e : Expansion} (h : Sound v find table)
    (defined : find name = some utilities) (composed : expansion v table name utilities = .ok e) :
    Sound v find (table.insert name e) ∧ (table.insert name e).Extends table := by
  rw [expansion_eq_ok_iff] at composed
  have more : (table.insert name e).Extends table := by
    intro other e' known
    rw [Table.get?_insert]
    split
    · rename_i same
      subst same
      obtain ⟨utilities', defined', composed'⟩ := h.expanded name e' known
      cases defined.symm.trans defined'
      rw [composed] at composed'
      exact congrArg some (Except.ok.inj composed')
    · exact known
  refine ⟨⟨fun other e' known => ?_, fun other known => ?_⟩, more⟩
  · rw [Table.get?_insert] at known
    split at known
    · rename_i same
      subst same
      cases known
      exact ⟨utilities, defined, composeWith_of_extends more composed⟩
    · obtain ⟨utilities', defined', composed'⟩ := h.expanded other e' known
      exact ⟨utilities', defined', composeWith_of_extends more composed'⟩
  · rw [Table.get?_insert] at known
    split at known
    · rename_i same
      subst same
      refine Acc.intro name fun b reference => ?_
      obtain ⟨utilities', defined', token, member, named⟩ := reference
      cases defined.symm.trans defined'
      exact h.grounded b (known_of_composed composed member named)
    · exact h.grounded other known

theorem extends_refl : table.Extends table :=
  fun _ _ known => known

theorem extends_trans {a b c : ShortcutTable} (cb : c.Extends b) (ba : b.Extends a) : c.Extends a :=
  fun name e known => cb name e (ba name e known)

theorem known_of_extends {smaller : ShortcutTable} {name : String} (more : table.Extends smaller)
    (known : (smaller.get? name).isSome = true) : (table.get? name).isSome = true := by
  obtain ⟨e, he⟩ := Option.isSome_iff_exists.mp known
  rw [more name e he]
  rfl

/-! ### What expanding does -/

theorem expand_known {path unvisited : List String} {name : String} (known : table.contains name = true) :
    expand v defs path unvisited table name = .ok table := by
  unfold expand
  rw [if_pos known]

theorem expand_undefined {path unvisited : List String} {name : String} (absent : ¬table.contains name = true)
    (undefined : defs.get? name = none) : expand v defs path unvisited table name = .ok table := by
  unfold expand
  rw [if_neg absent, undefined]

theorem expand_cycle {path unvisited : List String} {name utilities : String}
    (absent : ¬table.contains name = true) (defined : defs.get? name = some utilities)
    (visited : name ∉ unvisited) :
    expand v defs path unvisited table name = .error (.shortcutCycle path name utilities) := by
  unfold expand
  rw [if_neg absent, defined]
  exact dif_neg visited

theorem expand_fresh {path unvisited : List String} {name utilities : String}
    (absent : ¬table.contains name = true) (defined : defs.get? name = some utilities)
    (fresh : name ∈ unvisited) :
    expand v defs path unvisited table name = (do
      let table ← expandAll v defs (path ++ [name]) (unvisited.erase name) table (Text.stringWords utilities)
      return table.insert name (← expansion v table name utilities)) := by
  rw [expand, if_neg absent, defined]
  exact dif_pos fresh

theorem expandAll_nil {path unvisited : List String} :
    expandAll v defs path unvisited table [] = .ok table := by
  rw [expandAll]

theorem expandAll_plain {path unvisited tokens : List String} {token : String}
    (plain : reference? v token = none) :
    expandAll v defs path unvisited table (token :: tokens) =
      expandAll v defs path unvisited table tokens := by
  rw [expandAll, plain]

theorem expandAll_reference {path unvisited tokens : List String} {token name : String}
    (named : reference? v token = some name) :
    expandAll v defs path unvisited table (token :: tokens) = (do
      expandAll v defs path unvisited (← expand v defs path unvisited table name) tokens) := by
  rw [expandAll, named]

/-- Expanding keeps a table sound and adds what it was asked for. -/
theorem expand_sound_both :
    (∀ path unvisited table name, Sound v defs.get? table → ∀ after,
      expand v defs path unvisited table name = .ok after →
        Sound v defs.get? after ∧ after.Extends table ∧
          ((defs.get? name).isSome = true → (after.get? name).isSome = true)) ∧
    (∀ path unvisited table tokens, Sound v defs.get? table → ∀ after,
      expandAll v defs path unvisited table tokens = .ok after →
        Sound v defs.get? after ∧ after.Extends table ∧
          ∀ token ∈ tokens, ∀ name, reference? v token = some name → (defs.get? name).isSome = true →
            (after.get? name).isSome = true) := by
  apply expand.mutual_induct v defs
  · intro path unvisited table name known sound after done
    rw [expand_known known] at done
    cases done
    refine ⟨sound, extends_refl, fun _ => ?_⟩
    rwa [← Table.contains_eq_isSome]
  · intro path unvisited table name absent undefined sound after done
    rw [expand_undefined absent undefined] at done
    cases done
    refine ⟨sound, extends_refl, fun defined => ?_⟩
    rw [undefined] at defined
    cases defined
  · intro path unvisited table name absent utilities defined fresh inner sound after done
    rw [expand_fresh absent defined fresh] at done
    obtain ⟨middle, expanded, done⟩ := bind_eq_ok done
    obtain ⟨e, composed, done⟩ := bind_eq_ok done
    cases done
    obtain ⟨kept, more, -⟩ := inner sound middle expanded
    obtain ⟨added, further⟩ := sound_insert kept defined composed
    refine ⟨added, extends_trans further more, fun _ => ?_⟩
    rw [Table.get?_insert, if_pos rfl]
    rfl
  · intro path unvisited table name absent utilities defined visited sound after done
    rw [expand_cycle absent defined visited] at done
    cases done
  · intro path unvisited table sound after done
    rw [expandAll_nil] at done
    cases done
    exact ⟨sound, extends_refl, fun _ member => absurd member List.not_mem_nil⟩
  · intro path unvisited table token tokens plain later sound after done
    rw [expandAll_plain plain] at done
    obtain ⟨kept, more, all⟩ := later sound after done
    refine ⟨kept, more, fun t member name named => ?_⟩
    rcases List.mem_cons.mp member with rfl | inside
    · rw [plain] at named
      cases named
    · exact all t inside name named
  · intro path unvisited table token tokens name named first later sound after done
    rw [expandAll_reference named] at done
    obtain ⟨middle, expanded, done⟩ := bind_eq_ok done
    obtain ⟨kept, more, known⟩ := first sound middle expanded
    obtain ⟨kept', more', all⟩ := later middle kept after done
    refine ⟨kept', extends_trans more' more, fun t member other called => ?_⟩
    rcases List.mem_cons.mp member with rfl | inside
    · cases named.symm.trans called
      exact fun defined => known_of_extends more' (known defined)
    · exact all t inside other called

/-- In an acyclic graph whose definitions compose, expanding succeeds: every definition on the path leads to
the one that is expanded, so that is not on the path. -/
theorem expand_isOk_both (acyclic : Acyclic v defs.get?) (composes : Composes v defs.get?)
    (closed : Closed v defs.get?) :
    (∀ path unvisited table name, Sound v defs.get? table →
      (∀ x, (defs.get? x).isSome = true → x ∉ unvisited → x ∈ path) →
      (∀ x ∈ path, Relation.TransGen (References v defs.get?) x name) →
      ∃ after, expand v defs path unvisited table name = .ok after) ∧
    (∀ path unvisited table tokens, Sound v defs.get? table →
      (∀ x, (defs.get? x).isSome = true → x ∉ unvisited → x ∈ path) →
      (∀ x ∈ path, ∀ token ∈ tokens, ∀ name, reference? v token = some name →
        Relation.TransGen (References v defs.get?) x name) →
      ∃ after, expandAll v defs path unvisited table tokens = .ok after) := by
  apply expand.mutual_induct v defs
  · intro path unvisited table name known _ _ _
    exact ⟨table, expand_known known⟩
  · intro path unvisited table name absent undefined _ _ _
    exact ⟨table, expand_undefined absent undefined⟩
  · intro path unvisited table name absent utilities defined fresh inner sound visited leads
    have visited' : ∀ x, (defs.get? x).isSome = true → x ∉ unvisited.erase name → x ∈ path ++ [name] := by
      intro x known out
      by_cases same : x = name
      · exact List.mem_append_right _ (List.mem_singleton.mpr same)
      · refine List.mem_append_left _ (visited x known fun still => out ?_)
        exact (List.mem_erase_of_ne same).mpr still
    have leads' : ∀ x ∈ path ++ [name], ∀ token ∈ Text.stringWords utilities, ∀ b,
        reference? v token = some b → Relation.TransGen (References v defs.get?) x b := by
      intro x member token inside b named
      have reference : References v defs.get? name b := ⟨utilities, defined, token, inside, named⟩
      rcases List.mem_append.mp member with before | last
      · exact (leads x before).tail reference
      · rw [List.mem_singleton.mp last]
        exact .single reference
    obtain ⟨middle, expanded⟩ := inner sound visited' leads'
    obtain ⟨-, -, all⟩ := expand_sound_both.2 _ _ _ _ sound middle expanded
    have composed : ∃ e, composeWith v.read? .shortcut (shortcutText name utilities) middle utilities = .ok e := by
      refine exists_composeWith_ok_iff.mpr fun token inside => ?_
      obtain ⟨u, read, composable⟩ := composes name utilities defined token inside
      refine ⟨u, read, composable, fun b named => ?_⟩
      have reference : reference? v token = some b := by rw [reference?, read, Option.bind_some, named]
      exact all token inside b reference (closed token b reference)
    obtain ⟨e, composed⟩ := composed
    refine ⟨middle.insert name e, ?_⟩
    rw [expand_fresh absent defined fresh, expanded]
    simp only [bind, Except.bind, expansion_eq_ok_iff.mpr composed]
    rfl
  · intro path unvisited table name absent utilities defined visited sound outside leads
    have onPath := outside name (by rw [defined]; rfl) visited
    exact absurd (leads name onPath) (acyclic name)
  · intro path unvisited table _ _ _
    exact ⟨table, expandAll_nil⟩
  · intro path unvisited table token tokens plain later sound visited leads
    rw [expandAll_plain plain]
    exact later sound visited fun x hx t ht => leads x hx t (List.mem_cons_of_mem _ ht)
  · intro path unvisited table token tokens name named first later sound visited leads
    rw [expandAll_reference named]
    obtain ⟨middle, expanded⟩ := first sound visited fun x hx =>
      leads x hx token List.mem_cons_self name named
    rw [expanded]
    have kept := (expand_sound_both.1 _ _ _ _ sound middle expanded).1
    exact later middle kept visited fun x hx t ht => leads x hx t (List.mem_cons_of_mem _ ht)

/-! ### All definitions -/

theorem foldlM_sound {unvisited names : List String} {after : ShortcutTable} (sound : Sound v defs.get? table)
    (done : names.foldlM (expand v defs [] unvisited) table = .ok after) :
    Sound v defs.get? after ∧ after.Extends table ∧
      ∀ name ∈ names, (defs.get? name).isSome = true → (after.get? name).isSome = true := by
  induction names generalizing table with
  | nil =>
    cases done
    exact ⟨sound, extends_refl, fun _ member => absurd member List.not_mem_nil⟩
  | cons name names ih =>
    rw [List.foldlM_cons] at done
    obtain ⟨middle, expanded, done⟩ := bind_eq_ok done
    obtain ⟨kept, more, known⟩ := expand_sound_both.1 _ _ _ _ sound middle expanded
    obtain ⟨kept', more', all⟩ := ih kept done
    refine ⟨kept', extends_trans more' more, fun other member => ?_⟩
    rcases List.mem_cons.mp member with rfl | inside
    · exact fun defined => known_of_extends more' (known defined)
    · exact all other inside

theorem foldlM_isOk (acyclic : Acyclic v defs.get?) (composes : Composes v defs.get?)
    (closed : Closed v defs.get?) (names : List String) (sound : Sound v defs.get? table) :
    ∃ after, names.foldlM (expand v defs [] defs.keys) table = .ok after := by
  induction names generalizing table with
  | nil => exact ⟨table, rfl⟩
  | cons name names ih =>
    have unvisited : ∀ x, (defs.get? x).isSome = true → x ∉ defs.keys → x ∈ ([] : List String) :=
      fun x defined absent => absurd (Table.mem_keys_iff.mpr defined) absent
    obtain ⟨middle, expanded⟩ := (expand_isOk_both acyclic composes closed).1 [] defs.keys table name sound
      unvisited fun _ member => absurd member List.not_mem_nil
    have kept := (expand_sound_both.1 _ _ _ _ sound middle expanded).1
    obtain ⟨after, done⟩ := ih kept
    refine ⟨after, ?_⟩
    rw [List.foldlM_cons, expanded]
    exact done

theorem acyclic_of_grounded {find : String → Option String}
    (grounded : ∀ name, (find name).isSome = true → Acc (fun b a => References v find a b) name) :
    Acyclic v find := by
  intro name loop
  have defined : (find name).isSome = true := by
    obtain ⟨b, ⟨utilities, defined, -⟩, -⟩ := Relation.TransGen.head'_iff.mp loop
    rw [defined]
    rfl
  have accessible := (grounded name defined).transGen
  induction accessible with
  | intro name _ ih => exact ih name (Relation.transGen_swap.mpr loop) loop defined

/-- The definitions expand when the graph is acyclic and all of them compose. -/
theorem foldlM_isOk_iff (closed : Closed v defs.get?) :
    (∃ after, defs.keys.foldlM (expand v defs [] defs.keys) ∅ = .ok after) ↔
      Acyclic v defs.get? ∧ Composes v defs.get? := by
  constructor
  · rintro ⟨after, done⟩
    obtain ⟨sound, -, all⟩ := foldlM_sound empty_sound done
    have known : ∀ name, (defs.get? name).isSome = true → (after.get? name).isSome = true :=
      fun name defined => all name (Table.mem_keys_iff.mpr defined) defined
    refine ⟨acyclic_of_grounded fun name defined => sound.grounded name (known name defined), ?_⟩
    intro name utilities defined token member
    obtain ⟨e, he⟩ := Option.isSome_iff_exists.mp (known name (by rw [defined]; rfl))
    obtain ⟨utilities', defined', composed⟩ := sound.expanded name e he
    cases defined.symm.trans defined'
    obtain ⟨u, read, composable, -⟩ := exists_composeWith_ok_iff.mp ⟨e, composed⟩ token member
    exact ⟨u, read, composable⟩
  · rintro ⟨acyclic, composes⟩
    exact foldlM_isOk acyclic composes closed defs.keys empty_sound

theorem foldlM_expanded {after : ShortcutTable}
    (done : defs.keys.foldlM (expand v defs [] defs.keys) ∅ = .ok after) : Expanded v defs.get? after := by
  obtain ⟨sound, -, all⟩ := foldlM_sound empty_sound done
  intro name
  constructor
  · intro undefined
    cases known : after.get? name with
    | none => rfl
    | some e =>
      obtain ⟨utilities, defined, -⟩ := sound.expanded name e known
      cases undefined.symm.trans defined
  · intro utilities defined
    have known := all name (Table.mem_keys_iff.mpr (by rw [defined]; rfl)) (by rw [defined]; rfl)
    obtain ⟨e, he⟩ := Option.isSome_iff_exists.mp known
    obtain ⟨utilities', defined', composed⟩ := sound.expanded name e he
    cases defined.symm.trans defined'
    exact ⟨e, he, composed⟩

/-! ### Readings that differ in order -/

/-- Two vocabularies read every token alike, up to places in the declaration order. -/
def Alike (v w : Vocabulary) : Prop :=
  ∀ token, (v.read? token).map Utility.unordered = (w.read? token).map Utility.unordered

theorem alike_symm (alike : Alike v w) : Alike w v :=
  fun token => (alike token).symm

theorem alike_some {token : String} {u : Utility} (alike : Alike v w) (read : v.read? token = some u) :
    ∃ u', w.read? token = some u' ∧ u'.unordered = u.unordered := by
  have same := alike token
  rw [read, Option.map_some, eq_comm, Option.map_eq_some_iff] at same
  exact same

theorem shortcut?_unordered (u : Utility) : u.unordered.shortcut? = u.shortcut? := by
  obtain ⟨token, variants, important, body⟩ := u
  cases body <;> rfl

theorem composable_unordered {u : Utility} : u.unordered.Composable ↔ u.Composable := by
  obtain ⟨token, variants, important, body⟩ := u
  cases body <;> exact ⟨fun ⟨a, b, c⟩ => ⟨a, b, c⟩, fun ⟨a, b, c⟩ => ⟨a, b, c⟩⟩

theorem reference?_alike (alike : Alike v w) (token : String) : reference? v token = reference? w token := by
  have known : ∀ x : Vocabulary, reference? x token =
      ((x.read? token).map Utility.unordered).bind Utility.shortcut? := by
    intro x
    unfold reference?
    cases x.read? token with
    | none => rfl
    | some u => exact (shortcut?_unordered u).symm
  rw [known, known, alike]

theorem acyclic_alike (alike : Alike v w) (acyclic : Acyclic v find) : Acyclic w find := by
  have same : References w find = References v find := by
    funext a b
    unfold References
    simp only [reference?_alike alike]
  unfold Acyclic
  rw [same]
  exact acyclic

theorem composes_alike (alike : Alike v w) (composes : Composes v find) : Composes w find := by
  intro name utilities defined token member
  obtain ⟨u, read, composable⟩ := composes name utilities defined token member
  obtain ⟨u', read', same⟩ := alike_some alike read
  refine ⟨u', read', composable_unordered.mp ?_⟩
  rw [same]
  exact composable_unordered.mpr composable

/-- In an acyclic graph, definitions have one table of expansions. -/
theorem expanded_unique {table' : ShortcutTable} (alike : Alike v w)
    (grounded : ∀ name, (find name).isSome = true → Acc (fun b a => References v find a b) name)
    (h : Expanded v find table) (h' : Expanded w find table') (name : String) :
    table.get? name = table'.get? name := by
  cases defined : find name with
  | none => rw [(h name).1 defined, (h' name).1 defined]
  | some utilities =>
    have accessible := grounded name (by rw [defined]; rfl)
    induction accessible generalizing utilities with
    | intro name _ ih =>
      obtain ⟨e, known, composed⟩ := (h name).2 utilities defined
      obtain ⟨e', known', composed'⟩ := (h' name).2 utilities defined
      have same : composeWith v.read? .shortcut (shortcutText name utilities) table utilities =
          composeWith w.read? .shortcut (shortcutText name utilities) table' utilities := by
        refine composeWith_congr (fun token _ => alike token) fun token member u b read named => ?_
        have reference : reference? v token = some b := by rw [reference?, read, Option.bind_some, named]
        cases definedB : find b with
        | none => rw [(h b).1 definedB, (h' b).1 definedB]
        | some text => exact ih b ⟨utilities, defined, token, member, reference⟩ text definedB
      rw [composed, composed'] at same
      rw [known, known', Except.ok.inj same]

end UtilityCss.Shortcuts
