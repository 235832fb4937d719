import UtilityCss.Proofs.Header
import UtilityCss.Proofs.Levels

/-!
# What a block declares

The block of a utility holds its declarations, and that of a shortcut the declarations of the utilities that its
definition reaches. An important mark goes onto declarations of a utility's own. A shortcut has none, so a mark on it
is lost, and what it declares is important only where the utilities that it reaches are marked.
-/

namespace UtilityCss

/-- A declaration that wins over plain ones. -/
def Declaration.IsImportant (d : Declaration) : Prop :=
  "!important".toList <:+ d.value.toList

instance (d : Declaration) : Decidable d.IsImportant :=
  inferInstanceAs (Decidable (_ <:+ _))

namespace Utility

/-- A utility leads to itself, and a shortcut to what the tokens of its definition lead to. `find` looks up
definitions. -/
inductive LeadsTo (v : Vocabulary) (find : String → Option String) : Utility → Utility → Prop
  | self {u : Utility} : LeadsTo v find u u
  | through {u w x : Utility} {name utilities token : String} : u.shortcut? = some name →
      find name = some utilities → token ∈ Text.stringWords utilities → v.read? token = some w →
      LeadsTo v find w x → LeadsTo v find u x

/-- The declaration is one of a utility that is no shortcut, and this utility leads there. -/
def Gives (v : Vocabulary) (find : String → Option String) (u : Utility) (d : Declaration) : Prop :=
  ∃ w, u.LeadsTo v find w ∧ w.shortcut? = none ∧ d ∈ w.declarations

def unmarked (u : Utility) : Utility :=
  { u with important := false }

variable {v : Vocabulary} {find : String → Option String} {u w : Utility} {d : Declaration}

theorem eq_of_leadsTo (leads : u.LeadsTo v find w) (own : u.shortcut? = none) : w = u := by
  cases leads with
  | self => rfl
  | through shortcut => cases own.symm.trans shortcut

theorem gives_iff_of_own (own : u.shortcut? = none) : u.Gives v find d ↔ d ∈ u.declarations := by
  constructor
  · rintro ⟨w, leads, -, member⟩
    rwa [eq_of_leadsTo leads own] at member
  · exact fun member => ⟨u, .self, own, member⟩

theorem gives_iff_of_shortcut {name : String} (shortcut : u.shortcut? = some name) :
    u.Gives v find d ↔ ∃ utilities, find name = some utilities ∧ ∃ token ∈ Text.stringWords utilities,
      ∃ w, v.read? token = some w ∧ w.Gives v find d := by
  constructor
  · rintro ⟨x, leads, own, member⟩
    cases leads with
    | self => cases own.symm.trans shortcut
    | through shortcut' defined word read leads =>
      cases shortcut.symm.trans shortcut'
      exact ⟨_, defined, _, word, _, read, x, leads, own, member⟩
  · rintro ⟨utilities, defined, token, word, w, read, x, leads, own, member⟩
    exact ⟨x, .through shortcut defined word read leads, own, member⟩

theorem isImportant_of_mem_declarations (marked : u.important = true) (member : d ∈ u.declarations) :
    d.IsImportant := by
  rw [declarations, if_pos marked] at member
  obtain ⟨plain, -, rfl⟩ := List.mem_map.mp member
  refine ⟨plain.value.toList ++ [' '], ?_⟩
  simp only [Declaration.important, String.toList_append, List.append_assoc]
  rfl

theorem isImportant_declarations_iff :
    (∀ d ∈ u.declarations, d.IsImportant) ↔ u.important = true ∨ ∀ d ∈ u.plainDeclarations, d.IsImportant := by
  cases marked : u.important with
  | true => exact iff_of_true (fun d => isImportant_of_mem_declarations marked) (.inl rfl)
  | false =>
    rw [declarations, marked, if_neg Bool.false_ne_true]
    exact (or_iff_right Bool.false_ne_true).symm

theorem isImportant_gives_iff : (∀ d, u.Gives v find d → d.IsImportant) ↔
    ∀ w, u.LeadsTo v find w → w.shortcut? = none →
      w.important = true ∨ ∀ d ∈ w.plainDeclarations, d.IsImportant := by
  simp only [← isImportant_declarations_iff]
  exact ⟨fun all w leads own d member => all d ⟨w, leads, own, member⟩,
    fun all d ⟨w, leads, own, member⟩ => all w leads own d member⟩

theorem gives_unmarked_iff {name : String} (shortcut : u.shortcut? = some name) :
    u.unmarked.Gives v find d ↔ u.Gives v find d := by
  have same : u.unmarked.shortcut? = some name := shortcut
  rw [gives_iff_of_shortcut shortcut, gives_iff_of_shortcut same]

end Utility

/-! ### Texts that hold declarations -/

mutual

/-- A line holds declarations: one as it stands in a block, those of other lines on one line, or those of a block on
one line. -/
inductive LineHolds : List Declaration → String → Prop
  | declaration (d : Declaration) : LineHolds [d] d.line
  | joined {ds : List Declaration} {lines : List String} : LinesHold ds lines →
      LineHolds ds (" ".intercalate lines)
  | nested {ds : List Declaration} {lines : List String} (selector : String) : LinesHold ds lines →
      LineHolds ds (Composition.nestedBlock selector lines)

/-- Lines hold the declarations of each of them, in this order. -/
inductive LinesHold : List Declaration → List String → Prop
  | nil : LinesHold [] []
  | cons {ds es : List Declaration} {line : String} {lines : List String} : LineHolds ds line →
      LinesHold es lines → LinesHold (ds ++ es) (line :: lines)

end

theorem linesHold_declarationLines (ds : List Declaration) : LinesHold ds (declarationLines ds) := by
  induction ds with
  | nil => exact .nil
  | cons d ds ih => exact .cons (.declaration d) ih

/-- A piece is these declarations, or a nested block that holds them. -/
def Piece.Has (piece : Piece) (ds : List Declaration) : Prop :=
  match piece with
  | flat own => own = ds
  | nested block => LineHolds ds block

theorem Piece.Has.line {piece : Piece} {ds : List Declaration} (h : piece.Has ds) : LineHolds ds piece.line := by
  cases piece with
  | flat own =>
    obtain rfl : own = ds := h
    exact .joined (linesHold_declarationLines own)
  | nested block => exact h

/-- The lines of an expansion hold these declarations, and so does its list of declarations, if it has one. -/
structure Expansion.Has (x : Expansion) (ds : List Declaration) : Prop where
  lines : LinesHold ds x.lines
  declarations : ∀ own, x.declarations? = some own → own = ds

section Pieces
variable {α : Type} {xs : List α} {ys : List (Piece × DefaultGroups)} {gives : α → Declaration → Prop}

theorem has_expansionOf (each : List.Forall₂ (fun x (y : Piece × DefaultGroups) =>
      ∃ ds, y.1.Has ds ∧ ∀ d, d ∈ ds ↔ gives x d) xs ys) :
    ∃ ds, (Composition.expansionOf ys).Has ds ∧ ∀ d, d ∈ ds ↔ ∃ x ∈ xs, gives x d := by
  induction each with
  | nil => exact ⟨[], ⟨.nil, fun own same => (Option.some.inj same).symm⟩, by simp⟩
  | @cons x y xs ys first _ ih =>
    obtain ⟨ds, here, given⟩ := first
    obtain ⟨es, behind, others⟩ := ih
    refine ⟨ds ++ es, ⟨.cons here.line behind.lines, fun own same => ?_⟩, fun d => ?_⟩
    · obtain ⟨piece, groups⟩ := y
      simp only [Expansion.declarations?, Composition.expansionOf, List.map_cons, List.mapM_cons] at same
      cases piece with
      | nested block => cases same
      | flat listed =>
        obtain rfl : listed = ds := here
        have later := behind.declarations
        simp only [Expansion.declarations?, Composition.expansionOf] at later
        cases rest : (ys.map (·.1)).mapM Piece.declarations? with
        | none =>
          rw [rest] at same
          cases same
        | some lists =>
          rw [rest] at same later
          rw [← later _ rfl]
          exact (Option.some.inj same).symm
    · rw [List.mem_append, given, others, List.exists_mem_cons_iff]

end Pieces

namespace Composition

variable {v : Vocabulary} {find : String → Option String} {table : ShortcutTable} {source : Source}
  {context token text : String} {u : Utility} {read : String → Option Utility}

theorem has_ownPiece (u : Utility) : (ownPiece u).Has u.declarations := by
  unfold ownPiece
  dsimp only
  split
  · rfl
  · exact .nested _ (linesHold_declarationLines _)

theorem has_shortcutPiece {x : Expansion} {ds : List Declaration} (selector : String) (h : x.Has ds) :
    (shortcutPiece selector x).Has ds := by
  unfold shortcutPiece
  split
  · rename_i own flat
    split
    · exact h.declarations own flat
    · exact .nested _ h.lines
  · split
    · exact .joined h.lines
    · exact .nested _ h.lines

/-- A piece has what its utility gives, if that holds of the expansions in the table. -/
theorem has_of_part {piece : Piece × DefaultGroups}
    (expansions : ∀ name x, u.shortcut? = some name → table.get? name = some x →
      ∃ ds, x.Has ds ∧ ∀ d, d ∈ ds ↔ u.Gives v find d)
    (done : part source context table token (some u) = .ok piece) :
    ∃ ds, piece.1.Has ds ∧ ∀ d, d ∈ ds ↔ u.Gives v find d := by
  rw [part_some] at done
  split at done
  · cases done
  cases shortcut : u.shortcut? with
  | none =>
    simp only [shortcut] at done
    rw [← Except.ok.inj done]
    exact ⟨_, has_ownPiece u, fun d => (Utility.gives_iff_of_own shortcut).symm⟩
  | some name =>
    simp only [shortcut] at done
    cases known : table.get? name with
    | none =>
      simp only [known] at done
      cases done
    | some x =>
      simp only [known] at done
      split at done
      · cases done
      · rw [← Except.ok.inj done]
        obtain ⟨ds, has, given⟩ := expansions name x shortcut known
        exact ⟨ds, has_shortcutPiece _ has, given⟩

/-- What a list of tokens composes to has what the tokens give, one piece for each. -/
theorem has_of_composeWith {x : Expansion}
    (expansions : ∀ token ∈ Text.stringWords text, ∀ u name y, read token = some u → u.shortcut? = some name →
      table.get? name = some y → ∃ ds, y.Has ds ∧ ∀ d, d ∈ ds ↔ u.Gives v find d)
    (composed : composeWith read source context table text = .ok x) :
    List.Forall₂ (fun token piece => ∃ w, read token = some w ∧
      ∃ ds, piece.Has ds ∧ ∀ d, d ∈ ds ↔ w.Gives v find d) (Text.stringWords text) x.pieces ∧
    ∃ ds, x.Has ds ∧ ∀ d, d ∈ ds ↔ ∃ token ∈ Text.stringWords text, ∃ w, read token = some w ∧
      w.Gives v find d := by
  rw [composeWith_eq] at composed
  obtain ⟨parts, parted, rfl⟩ := map_eq_ok composed
  have each : List.Forall₂ (fun token (y : Piece × DefaultGroups) => ∃ w, read token = some w ∧
      ∃ ds, y.1.Has ds ∧ ∀ d, d ∈ ds ↔ w.Gives v find d) (Text.stringWords text) parts := by
    refine forall₂_of_mapM_eq_ok (fun token word y done => ?_) parted
    cases known : read token with
    | none =>
      rw [known] at done
      cases done
    | some w =>
      rw [known] at done
      exact ⟨w, rfl, has_of_part (fun name y => expansions token word w name y known) done⟩
  refine ⟨List.forall₂_map_right_iff.mpr each, has_expansionOf (each.imp ?_)⟩
  rintro token y ⟨w, known, ds, has, given⟩
  refine ⟨ds, has, fun d => (given d).trans ⟨fun gives => ⟨w, known, gives⟩, ?_⟩⟩
  rintro ⟨w', known', gives⟩
  cases known.symm.trans known'
  exact gives

end Composition

namespace Shortcuts
open UtilityCss.Composition

variable {v : Vocabulary} {find : String → Option String} {table : ShortcutTable} {u : Utility}

theorem has_of_expanded {name : String} {x : Expansion} (expanded : Expanded v find table)
    (accessible : Acc (fun b a => References v find a b) name) (known : table.get? name = some x)
    (shortcut : u.shortcut? = some name) : ∃ ds, x.Has ds ∧ ∀ d, d ∈ ds ↔ u.Gives v find d := by
  -- The table is built in no order that an induction could follow, so it goes along the references.
  induction accessible generalizing x u with
  | intro name _ ih =>
    cases defined : find name with
    | none =>
      rw [(expanded name).1 defined] at known
      cases known
    | some utilities =>
      obtain ⟨x', known', composed⟩ := (expanded name).2 utilities defined
      cases known.symm.trans known'
      have behind : ∀ token ∈ Text.stringWords utilities, ∀ w b y, v.read? token = some w → w.shortcut? = some b →
          table.get? b = some y → ∃ ds, y.Has ds ∧ ∀ d, d ∈ ds ↔ w.Gives v find d := by
        intro token word w b y read named further
        refine ih b ⟨utilities, defined, token, word, ?_⟩ further named
        rw [reference?, read, Option.bind_some, named]
      obtain ⟨-, ds, has, given⟩ := has_of_composeWith behind composed
      refine ⟨ds, has, fun d => (given d).trans ?_⟩
      rw [Utility.gives_iff_of_shortcut shortcut]
      constructor
      · exact fun given => ⟨utilities, defined, given⟩
      · rintro ⟨utilities', defined', given⟩
        cases defined.symm.trans defined'
        exact given

end Shortcuts

namespace Engine
open UtilityCss.Composition Shortcuts

variable {settings : Settings} {fresh e : Engine} {notices : List Notice} {u : Utility}

theorem has_expansion {name : String} {x : Expansion} (ready : prepare settings = .ok (fresh, notices))
    (shortcut : u.shortcut? = some name) (known : fresh.shortcuts.get? name = some x) :
    ∃ ds, x.Has ds ∧ ∀ d, d ∈ ds ↔ u.Gives fresh.vocabulary settings.shortcuts.get? d := by
  obtain ⟨expanded, grounded⟩ := prepare_expanded ready
  have defined : (settings.shortcuts.get? name).isSome = true := by
    rw [Option.isSome_iff_ne_none]
    intro undefined
    rw [(expanded name).1 undefined] at known
    cases known
  exact has_of_expanded expanded (grounded name defined) known shortcut

theorem linesHold_lines (ready : prepare settings = .ok (fresh, notices)) (u : Utility) :
    ∃ ds, LinesHold ds (fresh.printer.lines u) ∧
      ∀ d, d ∈ ds ↔ u.Gives fresh.vocabulary settings.shortcuts.get? d := by
  unfold Printer.lines
  cases shortcut : u.shortcut? with
  | none => exact ⟨_, linesHold_declarationLines _, fun d => (Utility.gives_iff_of_own shortcut).symm⟩
  | some name =>
    change ∃ ds, LinesHold ds (((fresh.shortcuts.get? name).map Expansion.lines).getD []) ∧ _
    cases known : fresh.shortcuts.get? name with
    | some x =>
      obtain ⟨ds, has, given⟩ := has_expansion ready shortcut known
      exact ⟨ds, has.lines, given⟩
    | none =>
      refine ⟨[], .nil, fun d => iff_of_false List.not_mem_nil fun gives => ?_⟩
      obtain ⟨utilities, defined, -⟩ := (Utility.gives_iff_of_shortcut shortcut).mp gives
      obtain ⟨x, expanded, -⟩ := ((prepare_expanded ready).1 name).2 utilities defined
      cases known.symm.trans expanded

theorem pieces_of_composeWith {blocklist : List String} {us : List Utility} {applied : DefaultGroups}
    {read : String → Option Utility} {source : Source} {context text : String} {x : Expansion}
    (ready : prepare settings = .ok (fresh, notices)) (h : Registered fresh blocklist us applied e)
    (composed : composeWith read source context e.shortcuts text = .ok x) :
    List.Forall₂ (fun token piece => ∃ w, read token = some w ∧ ∃ ds, piece.Has ds ∧
      ∀ d, d ∈ ds ↔ w.Gives e.vocabulary settings.shortcuts.get? d) (Text.stringWords text) x.pieces := by
  rw [h.shortcuts] at composed
  rw [h.vocabulary]
  exact (has_of_composeWith (fun _ _ _ _ _ _ shortcut known => has_expansion ready shortcut known) composed).1

theorem forall₂_of_flat {means : String → Utility → Prop} {given : Utility → List Declaration → Prop}
    {tokens : List String} {pieces : List Piece} {lists : List (List Declaration)}
    (each : List.Forall₂ (fun token piece => ∃ w, means token w ∧ ∃ ds, Piece.Has piece ds ∧ given w ds)
      tokens pieces) (unnested : pieces.mapM Piece.declarations? = some lists) :
    List.Forall₂ (fun token ds => ∃ w, means token w ∧ given w ds) tokens lists := by
  induction each generalizing lists with
  | nil =>
    obtain rfl := Option.some.inj unnested
    exact .nil
  | @cons token piece tokens pieces first _ ih =>
    obtain ⟨w, meaning, ds, has, gives⟩ := first
    rw [List.mapM_cons, Option.bind_eq_bind, Option.bind_eq_some_iff] at unnested
    obtain ⟨own, here, unnested⟩ := unnested
    obtain ⟨rest, behind, unnested⟩ := Option.bind_eq_some_iff.mp unnested
    obtain rfl := Option.some.inj unnested
    cases piece with
    | nested block => cases here
    | flat listed =>
      obtain rfl := Option.some.inj here
      obtain rfl : listed = ds := has
      exact .cons ⟨w, meaning, gives⟩ (ih behind)

/-- Blocks and compositions have what utilities give, the block of the container class apart. -/
structure ShowsGiven (settings : Settings) (e : Engine) : Prop where
  nodes : e.printer.PrintsNodes e.cascade
  /-- A block is that of a registered utility, with its selector and its lines, or that of the container class. -/
  block : ∀ conditions node u selector lines, e.cascade.NodeAt conditions node →
    (u, .block selector lines) ∈ e.printer.itemsAt conditions node →
    e.Holds u ∧ ((u.isContainer = false ∧ selector = u.selector ∧ lines = e.printer.lines u) ∨
      (u.isContainer = true ∧ .block selector lines = Printer.containerBlock e.theme.container))
  lines : ∀ u, ∃ ds, LinesHold ds (e.printer.lines u) ∧
    ∀ d, d ∈ ds ↔ u.Gives e.vocabulary settings.shortcuts.get? d
  /-- A composition has one piece for each token. -/
  pieces : ∀ source context text x,
    composeWith (Memo.answer? settings.blocklist e.vocabulary) source context e.shortcuts text = .ok x →
    List.Forall₂ (fun token piece => ∃ w, Memo.answer? settings.blocklist e.vocabulary token = some w ∧
      ∃ ds, piece.Has ds ∧ ∀ d, d ∈ ds ↔ w.Gives e.vocabulary settings.shortcuts.get? d)
      (Text.stringWords text) x.pieces
  inline : ∀ text ds, (e.applyInline text).1 = .ok ds → ∃ parts, ds = parts.flatten ∧
    List.Forall₂ (fun token part => ∃ w, Memo.answer? settings.blocklist e.vocabulary token = some w ∧
      ∀ d, d ∈ part ↔ w.Gives e.vocabulary settings.shortcuts.get? d) (Text.stringWords text) parts

theorem block_of_mem_itemsAt {conditions lines : List String} {node : Cascade} {selector : String}
    (stands : e.cascade.NodeAt conditions node)
    (printed : (u, .block selector lines) ∈ e.printer.itemsAt conditions node) :
    e.Holds u ∧ ((u.isContainer = false ∧ selector = u.selector ∧ lines = e.printer.lines u) ∨
      (u.isContainer = true ∧ .block selector lines = Printer.containerBlock e.theme.container)) := by
  obtain ⟨listed, next, own⟩ := Printer.exists_itemOf_of_mem_itemsFor printed
  refine ⟨⟨_, Cascade.mem_placed_of_nodeAt stands (List.mem_mergeSort.mp listed)⟩, ?_⟩
  rcases Printer.itemOf_cases own with ⟨container, -, same⟩ | ⟨-, -, same⟩ | ⟨plain, -, same⟩
  · exact .inr ⟨container, same⟩
  · cases same
  · exact .inl ⟨plain, SheetItem.block.inj same⟩

/-- What is composed for a style attribute is a composition without nested pieces. -/
theorem composed_of_applyInline {blocklist : List String} {text : String} {ds : List Declaration}
    (sound : e.memo.Sound blocklist e.vocabulary) (done : (e.applyInline text).1 = .ok ds) :
    ∃ x, composeWith (Memo.answer? blocklist e.vocabulary) .inline text e.shortcuts text = .ok x ∧
      x.declarations? = some ds := by
  obtain ⟨memo, -, run⟩ := @compose_lookUp _ _ _ .inline text e.shortcuts sound text
  unfold applyInline at done
  rw [run] at done
  cases composed : composeWith (Memo.answer? blocklist e.vocabulary) .inline text e.shortcuts text with
  | error cause =>
    rw [composed] at done
    cases done
  | ok x =>
    rw [composed] at done
    dsimp only at done
    cases flat : x.declarations? with
    | none =>
      rw [flat] at done
      cases done
    | some own =>
      rw [flat] at done
      exact ⟨x, rfl, flat.trans (congrArg some (Except.ok.inj done))⟩

theorem showsGiven (reachable : Reachable settings e) : ShowsGiven settings e := by
  obtain ⟨fresh, notices, us, applied, ready, h⟩ := reachable_registered reachable
  refine ⟨Printer.printsNodes _ _, fun _ _ _ _ _ => block_of_mem_itemsAt, fun u => ?_,
    fun _ _ _ _ => pieces_of_composeWith ready h, fun text ds done => ?_⟩
  · have lines := linesHold_lines ready u
    have printer : fresh.printer = e.printer := by
      unfold printer
      rw [h.theme, h.shortcuts]
    rwa [printer, ← h.vocabulary] at lines
  · obtain ⟨x, composed, flat⟩ := composed_of_applyInline h.memo done
    obtain ⟨lists, unnested, rfl⟩ := Option.map_eq_some_iff.mp flat
    exact ⟨lists, rfl, forall₂_of_flat (pieces_of_composeWith ready h composed) unnested⟩

/-- Blocks and compositions have what utilities give, the block of the container class apart. A mark makes all of that
important, unless the utility is a shortcut: then it is as without a mark, and important if and only if each of the
utilities that it leads to is marked or important as it is. -/
theorem important_contents (reachable : Reachable settings e) :
    ShowsGiven settings e ∧ ∀ u : Utility, u.important = true →
      (u.shortcut? = none → ∀ d, u.Gives e.vocabulary settings.shortcuts.get? d → d.IsImportant) ∧
      (∀ name, u.shortcut? = some name → e.printer.lines u = e.printer.lines u.unmarked ∧
        ∀ d, u.Gives e.vocabulary settings.shortcuts.get? d ↔
          u.unmarked.Gives e.vocabulary settings.shortcuts.get? d) ∧
      ((∀ d, u.Gives e.vocabulary settings.shortcuts.get? d → d.IsImportant) ↔
        ∀ w, u.LeadsTo e.vocabulary settings.shortcuts.get? w → w.shortcut? = none →
          w.important = true ∨ ∀ d ∈ w.plainDeclarations, d.IsImportant) := by
  refine ⟨showsGiven reachable, fun u marked => ⟨fun own d gives => ?_,
    fun name shortcut => ⟨?_, fun d => (Utility.gives_unmarked_iff shortcut).symm⟩, Utility.isImportant_gives_iff⟩⟩
  · exact Utility.isImportant_of_mem_declarations marked ((Utility.gives_iff_of_own own).mp gives)
  · have same : u.unmarked.shortcut? = some name := shortcut
    simp only [Printer.lines, shortcut, same]

end Engine

/-! ### An engine with a shortcut -/

def resetShortcuts : Table String :=
  .ofList [("reset", "flush")]

def resetRules : List Rule :=
  .shortcut "reset" "flush" :: ownRules

def resetIndex : EntryIndex :=
  (EntryIndex.progress resetRules).index

/-- A shortcut of one utility, and tokens that are refused. -/
def Settings.reset (blocklist : List String) : Settings :=
  { Settings.own with shortcuts := resetShortcuts, blocklist := blocklist }

/-- The shortcut, with a mark or without. -/
def resetUtility (token : String) (important : Bool) : Utility :=
  ⟨token, [], important, .rule ⟨.shortcut "reset" "flush", "", 0, none⟩⟩

def resetFlush : Utility :=
  ⟨"flush", [], false, .rule ⟨flushRule, "", 2, none⟩⟩

namespace Vocabulary

variable {v : Vocabulary}

theorem read?_resetFlush (own : v.entries = resetIndex) : v.read? "flush" = some resetFlush := by
  have known : v.entries.get? "flush" = some ⟨flushRule, "", "", false, 2⟩ := by
    rw [own]
    rfl
  exact read?_of_plain (by decide) (by decide) (by decide) known

theorem read?_reset {token : String} {important : Bool} (own : v.entries = resetIndex)
    (cut : TokenParts.ofToken token.toList = ⟨[], important, "reset".toList⟩) :
    v.read? token = some (resetUtility token important) := by
  have known : v.entries.get? "reset" = some ⟨.shortcut "reset" "flush", "", "", false, 0⟩ := by
    rw [own]
    rfl
  exact read?_of_known cut rfl (by decide) known

end Vocabulary

namespace Shortcuts
open UtilityCss.Composition

theorem words_flush : Text.stringWords "flush" = ["flush"] := by
  decide

theorem build_reset {v : Vocabulary} (own : v.entries = resetIndex) :
    ∃ table, Shortcuts.build resetRules v = .ok table := by
  have read := Vocabulary.read?_resetFlush own
  have plain : reference? v "flush" = none := by
    rw [reference?, read]
    rfl
  have composed : ∃ x, composeWith v.read? .shortcut (shortcutText "reset" "flush") ∅ "flush" = .ok x := by
    refine exists_composeWith_ok_iff.mpr fun token word => ?_
    rw [words_flush, List.mem_singleton] at word
    subst word
    refine ⟨_, read, ⟨rfl, by decide, fun traits used => ?_⟩, fun name shortcut => ?_⟩
    · cases used
      exact ⟨rfl, rfl⟩
    · cases shortcut
  obtain ⟨x, composed⟩ := composed
  have expanded : expand v resetShortcuts [] ["reset"] ∅ "reset" = .ok (Table.insert ∅ "reset" x) := by
    have absent : ¬(∅ : ShortcutTable).contains "reset" = true := Bool.false_ne_true
    have defined : resetShortcuts.get? "reset" = some "flush" := rfl
    rw [expand_fresh absent defined (List.mem_singleton_self _), words_flush, expandAll_plain plain, expandAll_nil]
    simp only [bind, Except.bind, expansion_eq_ok_iff.mpr composed]
    rfl
  refine ⟨Table.insert ∅ "reset" x, ?_⟩
  change ["reset"].foldlM (expand v resetShortcuts [] ["reset"]) ∅ = _
  rw [List.foldlM_cons, expanded]
  rfl

end Shortcuts

namespace Engine

theorem prepare_reset (blocklist : List String) : ∃ fresh notices,
    prepare (Settings.reset blocklist) = .ok (fresh, notices) ∧ fresh.vocabulary.entries = resetIndex := by
  obtain ⟨theme, resolved⟩ := Theme.resolve_base
  have ruled : Catalog.rules theme Catalog.allOff ownRules resetShortcuts = .ok resetRules :=
    Catalog.rules_eq_of_off Catalog.allOff_known Catalog.allOff_off rfl rfl
  have indexed : EntryIndex.build resetRules = .ok (resetIndex, []) := rfl
  obtain ⟨table, built⟩ := @Shortcuts.build_reset ⟨.ofTheme theme, resetIndex, theme.category "lineHeight"⟩ rfl
  obtain ⟨fresh, notices, ready, -, vocabulary, -⟩ :=
    @prepare_eq_ok (Settings.reset blocklist) _ _ _ _ _ resolved ruled indexed built
  exact ⟨fresh, notices, ready, by rw [vocabulary]⟩

theorem exists_reset {blocklist : List String} {token : String} {important : Bool} (free : token ∉ blocklist)
    (cut : TokenParts.ofToken token.toList = ⟨[], important, "reset".toList⟩) :
    ∃ e, Reachable (Settings.reset blocklist) e ∧ token ∈ e.seen ∧
      e.vocabulary.read? token = some (resetUtility token important) ∧
      e.vocabulary.read? "flush" = some resetFlush := by
  obtain ⟨fresh, notices, ready, own⟩ := prepare_reset blocklist
  have read := Vocabulary.read?_reset own cut
  obtain ⟨e, reachable, seen, -, same, -⟩ := exists_scanned ready rfl read free
  rw [← same] at read own
  exact ⟨e, reachable, (seen token).mpr rfl, read, Vocabulary.read?_resetFlush own⟩

theorem leadsTo_resetFlush {v : Vocabulary} (read : v.read? "flush" = some resetFlush) (token : String)
    (important : Bool) : (resetUtility token important).LeadsTo v resetShortcuts.get? resetFlush := by
  have word : "flush" ∈ Text.stringWords "flush" := by
    rw [Shortcuts.words_flush]
    exact List.mem_singleton_self _
  exact .through rfl rfl word read .self

/-- The mark on a shortcut is lost. -/
theorem important_contents_of_reset : ∃ e, Reachable (Settings.reset []) e ∧ "!reset" ∈ e.seen ∧
    e.vocabulary.read? "!reset" = some (resetUtility "!reset" true) ∧
    (∃ ds, LinesHold ds (e.printer.lines (resetUtility "!reset" true)) ∧ ⟨"margin", "0"⟩ ∈ ds) ∧
    ¬∀ d, (resetUtility "!reset" true).Gives e.vocabulary resetShortcuts.get? d → d.IsImportant := by
  obtain ⟨e, reachable, seen, read, flush⟩ :=
    @exists_reset [] "!reset" true List.not_mem_nil (TokenParts.ofToken_marked _)
  obtain ⟨shows, marked⟩ := important_contents reachable
  obtain ⟨-, -, important⟩ := marked (resetUtility "!reset" true) rfl
  obtain ⟨ds, lines, given⟩ := shows.lines (resetUtility "!reset" true)
  have leads := leadsTo_resetFlush flush "!reset" true
  have gives : (resetUtility "!reset" true).Gives e.vocabulary resetShortcuts.get? ⟨"margin", "0"⟩ :=
    ⟨_, leads, rfl, List.mem_singleton_self _⟩
  refine ⟨e, reachable, seen, read, ⟨ds, lines, (given _).mpr gives⟩, fun all => ?_⟩
  rcases important.mp all _ leads rfl with marked | plain
  · cases marked
  · have ends := plain ⟨"margin", "0"⟩ (List.mem_singleton_self _)
    exact absurd ends (by decide)

end Engine

end UtilityCss
