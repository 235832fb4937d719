import UtilityCss.Proofs.BlockContents

/-!
# The blocklist

A token on the blocklist is never registered, and a list that holds it does not compose. The definitions of shortcuts
are read without regard to the blocklist, so what such a token stands for still gets into a sheet behind a shortcut.
-/

namespace UtilityCss

namespace Utility

variable {v : Vocabulary} {find : String → Option String} {u w x : Utility} {d : Declaration}

theorem leadsTo_trans (first : u.LeadsTo v find w) (later : w.LeadsTo v find x) : u.LeadsTo v find x := by
  induction first with
  | self => exact later
  | through shortcut defined word read _ ih => exact .through shortcut defined word read (ih later)

theorem gives_of_leadsTo (leads : u.LeadsTo v find w) (gives : w.Gives v find d) : u.Gives v find d := by
  obtain ⟨x, further, own, member⟩ := gives
  exact ⟨x, leadsTo_trans leads further, own, member⟩

theorem token_of_read {token : String} (read : v.read? token = some u) : u.token = token :=
  @Engine.token_of_answer [] v token u (by rwa [Memo.answer?, if_neg List.not_mem_nil])

/-- What a utility leads to is the utility itself, or a token of the definition of a shortcut that it leads to. -/
theorem listed_of_leadsTo (leads : u.LeadsTo v find w) : w = u ∨ ∃ x name utilities, u.LeadsTo v find x ∧
    x.shortcut? = some name ∧ find name = some utilities ∧ w.token ∈ Text.stringWords utilities := by
  induction leads with
  | self => exact .inl rfl
  | @through u w x name utilities token shortcut defined word read leads ih =>
    rcases ih with rfl | ⟨y, name', utilities', further, listed⟩
    · refine .inr ⟨u, name, utilities, .self, shortcut, defined, ?_⟩
      rwa [token_of_read read]
    · exact .inr ⟨y, name', utilities', .through shortcut defined word read further, listed⟩

end Utility

namespace Composition

/-- Every token of a list that composes is a utility. -/
theorem exists_read_of_composeWith {read : String → Option Utility} {source : Source} {context token text : String}
    {table : ShortcutTable} {x : Expansion} (composed : composeWith read source context table text = .ok x)
    (word : token ∈ Text.stringWords text) : ∃ u, read token = some u := by
  rw [composeWith_eq] at composed
  obtain ⟨parts, parted, -⟩ := map_eq_ok composed
  obtain ⟨piece, done⟩ := exists_mapM_ok_iff.mp ⟨parts, parted⟩ token word
  cases known : read token with
  | none =>
    rw [known] at done
    cases done
  | some u => exact ⟨u, rfl⟩

end Composition

namespace Engine
open UtilityCss.Composition Directive

variable {settings : Settings} {e : Engine} {notices : List Notice} {blocklist : List String} {b : String}

theorem answer_of_blocked {v : Vocabulary} (blocked : b ∈ blocklist) : Memo.answer? blocklist v b = none :=
  if_pos blocked

/-- The blocklist goes into the memo and nowhere else. -/
theorem prepare_blocklist (settings : Settings) (blocklist : List String) :
    prepare { settings with blocklist := blocklist } =
      (prepare settings).map fun made => ({ made.1 with memo := .ofBlocklist blocklist }, made.2) := by
  simp only [prepare, bind, Except.bind]
  cases Theme.resolve settings.theme with
  | error cause => rfl
  | ok theme =>
    dsimp only
    cases Catalog.rules theme settings.families (settings.rules theme) settings.shortcuts with
    | error cause => rfl
    | ok rules =>
      dsimp only
      cases EntryIndex.build rules with
      | error cause => rfl
      | ok indexed =>
        dsimp only
        cases Shortcuts.build rules ⟨.ofTheme theme, indexed.1, theme.category "lineHeight"⟩ <;> rfl

/-! ### Where a blocklisted token is refused -/

theorem not_mem_seen (reachable : Reachable settings e) (blocked : b ∈ settings.blocklist) : b ∉ e.seen := by
  obtain ⟨fresh, notices, us, applied, -, h⟩ := reachable_registered reachable
  intro seen
  obtain ⟨u, member, rfl⟩ := List.mem_map.mp ((h.seen b).mp seen)
  cases (answer_of_blocked blocked).symm.trans (h.meaning u member)

theorem applyInline_blocked {text : String} (reachable : Reachable settings e) (blocked : b ∈ settings.blocklist)
    (word : b ∈ Text.stringWords text) : ∃ cause, (e.applyInline text).1 = .error cause := by
  obtain ⟨fresh, notices, us, applied, -, h⟩ := reachable_registered reachable
  cases done : (e.applyInline text).1 with
  | error cause => exact ⟨cause, rfl⟩
  | ok ds =>
    obtain ⟨x, composed, -⟩ := composed_of_applyInline h.memo done
    obtain ⟨u, read⟩ := exists_read_of_composeWith composed word
    cases (answer_of_blocked blocked).symm.trans read

theorem transform_blocked {css : String} {a : Apply} (reachable : Reachable settings e)
    (blocked : b ∈ settings.blocklist) (directive : .directive a ∈ segments applyAt? css.toList)
    (word : b ∈ Text.stringWords (String.ofList a.tokens)) : ∃ failure, (e.transform css).1 = .error failure := by
  obtain ⟨fresh, notices, us, applied, -, h⟩ := reachable_registered reachable
  cases done : (e.transform css).1 with
  | error failure => exact ⟨failure, rfl⟩
  | ok transformed =>
    obtain ⟨-, x, composed⟩ := directives_compose h.memo done (hasMark_of_directive directive) a directive
    obtain ⟨u, read⟩ := exists_read_of_composeWith composed word
    cases (answer_of_blocked blocked).symm.trans read

/-- A safelist with a blocklisted token on it is refused. -/
theorem safelist_blocked (built : build settings = .ok (e, notices)) (blocked : b ∈ settings.blocklist) :
    b ∉ settings.safelist e.theme := by
  obtain ⟨fresh, us, -, h, seen⟩ := build_registered built
  rw [h.theme, ← seen]
  exact not_mem_seen (.built built) blocked

/-! ### Where it is not -/

/-- An accepted utility leads to a blocklisted token if and only if it leads to a shortcut whose definition lists
that. -/
theorem leadsTo_blocked_iff {token : String} {u : Utility} (reachable : Reachable settings e)
    (blocked : b ∈ settings.blocklist) (accepted : Memo.answer? settings.blocklist e.vocabulary token = some u) :
    (∃ w, u.LeadsTo e.vocabulary settings.shortcuts.get? w ∧ w.token = b) ↔
      ∃ w name utilities, u.LeadsTo e.vocabulary settings.shortcuts.get? w ∧ w.shortcut? = some name ∧
        settings.shortcuts.get? name = some utilities ∧ b ∈ Text.stringWords utilities := by
  obtain ⟨fresh, notices, us, applied, ready, h⟩ := reachable_registered reachable
  constructor
  · rintro ⟨w, leads, rfl⟩
    rcases Utility.listed_of_leadsTo leads with rfl | listed
    · rw [token_of_answer accepted] at blocked
      cases (answer_of_blocked blocked).symm.trans accepted
    · exact listed
  · rintro ⟨w, name, utilities, leads, shortcut, defined, word⟩
    obtain ⟨x, -, composed⟩ := ((prepare_expanded ready).1 name).2 utilities defined
    obtain ⟨y, read⟩ := exists_read_of_composeWith composed word
    rw [← h.vocabulary] at read
    exact ⟨y, Utility.leadsTo_trans leads (.through shortcut defined word read .self), Utility.token_of_read read⟩

/-- A token on the blocklist is never registered, by a scan or by the safelist, and no list that holds it composes.
But the blocklist has no part in reading the definitions of shortcuts: a token that leads to a definition with the
blocklisted one in it has all of its declarations in its block and in its compositions. -/
theorem blocklisted_tokens (blocked : b ∈ settings.blocklist) :
    (∀ e notices, build settings = .ok (e, notices) → b ∉ settings.safelist e.theme) ∧
    (∀ blocklist, prepare { settings with blocklist := blocklist } =
      (prepare settings).map fun made => ({ made.1 with memo := .ofBlocklist blocklist }, made.2)) ∧
    ∀ e, Reachable settings e →
      (b ∉ e.seen ∧ (∀ u, e.Holds u → u.token ≠ b) ∧
        (∀ (path : String) (recorded : Std.TreeSet String), e.files[path]? = some recorded → b ∉ recorded)) ∧
      (∀ text, b ∈ Text.stringWords text → ∃ cause, (e.applyInline text).1 = .error cause) ∧
      (∀ css a, .directive a ∈ segments applyAt? css.toList → b ∈ Text.stringWords (String.ofList a.tokens) →
        ∃ failure, (e.transform css).1 = .error failure) ∧
      ShowsGiven settings e ∧
      ∀ token u, Memo.answer? settings.blocklist e.vocabulary token = some u →
        ((∃ w, u.LeadsTo e.vocabulary settings.shortcuts.get? w ∧ w.token = b) ↔
          ∃ w name utilities, u.LeadsTo e.vocabulary settings.shortcuts.get? w ∧ w.shortcut? = some name ∧
            settings.shortcuts.get? name = some utilities ∧ b ∈ Text.stringWords utilities) ∧
        ∀ w d, u.LeadsTo e.vocabulary settings.shortcuts.get? w → w.token = b →
          w.Gives e.vocabulary settings.shortcuts.get? d → u.Gives e.vocabulary settings.shortcuts.get? d := by
  refine ⟨fun e notices built => safelist_blocked built blocked, prepare_blocklist settings,
    fun e reachable => ⟨?_, fun text => applyInline_blocked reachable blocked,
      fun css a => transform_blocked reachable blocked, showsGiven reachable,
      fun token u accepted => ⟨leadsTo_blocked_iff reachable blocked accepted,
        fun w d leads _ => Utility.gives_of_leadsTo leads⟩⟩⟩
  obtain ⟨fresh, notices, us, applied, -, h⟩ := reachable_registered reachable
  have unseen := not_mem_seen reachable blocked
  refine ⟨unseen, fun u held same => ?_, fun path recorded known member => unseen (h.files path recorded known b member)⟩
  rw [← same, h.seen] at unseen
  exact unseen (List.mem_map_of_mem ((holds_iff h).mp held))

/-- A utility on the blocklist is printed behind a shortcut. -/
theorem blocklisted_flush : ∃ e, Reachable (Settings.reset ["flush"]) e ∧ "flush" ∉ e.seen ∧
    (∃ cause, (e.applyInline "flush").1 = .error cause) ∧ "reset" ∈ e.seen ∧
    ∃ ds, LinesHold ds (e.printer.lines (resetUtility "reset" false)) ∧ ⟨"margin", "0"⟩ ∈ ds := by
  have blocked : "flush" ∈ (Settings.reset ["flush"]).blocklist := List.mem_singleton_self _
  obtain ⟨e, reachable, seen, read, flush⟩ :=
    @exists_reset ["flush"] "reset" false (by decide) (TokenParts.ofToken_uncut (by decide) (by decide))
  obtain ⟨-, -, rejected⟩ := blocklisted_tokens blocked
  obtain ⟨⟨unseen, -⟩, inline, -, shows, leads⟩ := rejected e reachable
  have accepted : Memo.answer? ["flush"] e.vocabulary "reset" = some (resetUtility "reset" false) := by
    rw [Memo.answer?, if_neg (by decide), read]
  have word : "flush" ∈ Text.stringWords "flush" := by
    rw [Shortcuts.words_flush]
    exact List.mem_singleton_self _
  have gives := (leads "reset" _ accepted).2 resetFlush ⟨"margin", "0"⟩ (leadsTo_resetFlush flush "reset" false) rfl
    ⟨_, .self, rfl, List.mem_singleton_self _⟩
  obtain ⟨ds, lines, given⟩ := shows.lines (resetUtility "reset" false)
  exact ⟨e, reachable, unseen, inline "flush" word, seen, ds, lines, (given _).mpr gives⟩

end Engine

end UtilityCss
