import UtilityCss.Proofs.AppliedGroups
import UtilityCss.Proofs.InlineStyles
import UtilityCss.Proofs.MemoAnswers

/-!
# What composing leaves alone

Composing for a style attribute or for written CSS goes through the memo and may bring default groups into use. No
later operation finds a trace of it anywhere else: two engines that differ in a memo and in the groups in use go on
side by side, `run_beside`. A style attribute that cannot be composed does not even bring groups into use.
-/

namespace UtilityCss

namespace Expansion

theorem exists_declarations_of_isFlat {x : Expansion} (flat : x.IsFlat) : ∃ ds, x.declarations? = some ds := by
  have each : ∀ pieces : List Piece, (∀ piece ∈ pieces, ∃ ds, piece = .flat ds) →
      ∃ dss, pieces.mapM Piece.declarations? = some dss := by
    intro pieces
    induction pieces with
    | nil => exact fun _ => ⟨[], rfl⟩
    | cons piece pieces ih =>
      intro flat
      obtain ⟨⟨ds, rfl⟩, later⟩ := List.forall_mem_cons.mp flat
      obtain ⟨dss, others⟩ := ih later
      exact ⟨ds :: dss, by simp [others, Piece.declarations?]⟩
  obtain ⟨dss, all⟩ := each x.pieces flat
  exact ⟨dss.flatten, by rw [declarations?, all]; rfl⟩

end Expansion

namespace Composition

variable {source : Source} {context token text : String} {table : ShortcutTable} {read : String → Option Utility}
  {found : Option Utility} {x : Expansion} {cause : CompositionError}

theorem isFlat_of_composeWith (done : composeWith read .inline context table text = .ok x) : x.IsFlat := by
  rw [composeWith_eq] at done
  obtain ⟨pieces, composed, rfl⟩ := map_eq_ok done
  refine expansionOf_isFlat_iff.mpr fun piece member => ?_
  obtain ⟨token, -, part⟩ := (mem_iff_of_mapM_eq_ok composed piece).mp member
  exact ((@part_inline_eq_ok_iff context context token table (read token) piece).mp part).2

theorem cause_of_part (failed : part source context table token found = .error cause) :
    cause = .unknownUtility token context ∨ ∃ hint, cause = .complexUtility token hint context := by
  cases found with
  | none =>
    cases failed
    exact .inl rfl
  | some u =>
    have complex (same : complexError source context token u = cause) :
        ∃ hint, cause = .complexUtility token hint context := ⟨_, same.symm⟩
    rw [part_some] at failed
    split at failed
    · exact .inr (complex (Except.error.inj failed))
    split at failed
    · cases failed
    split at failed
    · exact .inl (Except.error.inj failed).symm
    split at failed
    · exact .inr (complex (Except.error.inj failed))
    · cases failed

theorem cause_of_composeWith (failed : composeWith read source context table text = .error cause) :
    ∃ token ∈ Text.stringWords text,
      cause = .unknownUtility token context ∨ ∃ hint, cause = .complexUtility token hint context := by
  rw [composeWith_eq] at failed
  cases composed : (Text.stringWords text).mapM fun token => part source context table token (read token) with
  | ok pieces =>
    rw [composed] at failed
    cases failed
  | error other =>
    rw [composed] at failed
    cases failed
    obtain ⟨token, member, failed⟩ := exists_of_mapM_eq_error composed
    exact ⟨token, member, cause_of_part failed⟩

theorem message_ne_nested (h : ∃ token ∈ Text.stringWords text,
    cause = .unknownUtility token context ∨ ∃ hint, cause = .complexUtility token hint context) :
    cause.report.message ≠ "Nested utilities cannot be inlined" := by
  -- The second letter tells the other messages from the one of a nested block.
  have letter : cause.report.message.toList[1]? = some 'o' := by
    obtain ⟨token, -, rfl | ⟨hint, rfl⟩⟩ := h
    · change (("No rule matching \"" ++ token) ++ "\"").toList[1]? = some 'o'
      rw [String.append_assoc, String.toList_append, List.getElem?_append_left (by decide)]
      decide
    · change ((("Complex utils like \"" ++ token) ++ "\" are not supported.") ++ _).toList[1]? = some 'o'
      rw [String.append_assoc, String.append_assoc, String.toList_append, List.getElem?_append_left (by decide)]
      decide
  intro same
  rw [same] at letter
  have other : "Nested utilities cannot be inlined".toList[1]? = some 'e' := by decide
  cases letter.symm.trans other

end Composition

namespace Engine
open UtilityCss.Composition Directive

variable {settings : Settings} {blocklist : List String} {e d : Engine}

/-! ### Engines that differ in what composing changes -/

/-- Two engines have the same registered and recorded, and memos that answer alike. -/
structure Beside (blocklist : List String) (e d : Engine) : Prop where
  theme : e.theme = d.theme
  vocabulary : e.vocabulary = d.vocabulary
  shortcuts : e.shortcuts = d.shortcuts
  cascade : e.cascade = d.cascade
  seen : e.seen = d.seen
  keyframes : e.keyframes = d.keyframes
  files : e.files = d.files
  sound : e.memo.Sound blocklist e.vocabulary
  sound' : d.memo.Sound blocklist d.vocabulary

theorem beside_composed {memo memo' : Memo} {groups groups' : DefaultGroups} (h : Beside blocklist e d)
    (sound : memo.Sound blocklist e.vocabulary) (sound' : memo'.Sound blocklist d.vocabulary) :
    Beside blocklist { e with memo := memo, groups := groups } { d with memo := memo', groups := groups' } :=
  ⟨h.theme, h.vocabulary, h.shortcuts, h.cascade, h.seen, h.keyframes, h.files, sound, sound'⟩

/-! ### Scans -/

theorem read_beside (token : String) (h : Beside blocklist e d) :
    (e.read token).1 = (d.read token).1 ∧ Beside blocklist (e.read token).2 (d.read token).2 := by
  have answer : (e.memo.read e.vocabulary token).1 = (d.memo.read d.vocabulary token).1 := by
    rw [Memo.read_fst h.sound, Memo.read_fst h.sound', h.vocabulary]
  exact ⟨answer, { h with sound := Memo.read_sound h.sound, sound' := Memo.read_sound h.sound' }⟩

theorem register_beside (u : Utility) (h : Beside blocklist e d) :
    (e.register u).1 = (d.register u).1 ∧ Beside blocklist (e.register u).2 (d.register u).2 := by
  have same : e.seen.contains u.token = d.seen.contains u.token := by rw [h.seen]
  unfold register
  by_cases old : d.seen.contains u.token = true
  · rw [if_pos old, if_pos (same.trans old)]
    exact ⟨rfl, h⟩
  · rw [if_neg old, if_neg (by rwa [same])]
    refine ⟨rfl, { h with cascade := ?_, seen := ?_, keyframes := ?_ }⟩
    · exact congrArg (·.insert u) h.cascade
    · exact congrArg (·.insert u.token) h.seen
    · dsimp only
      rw [h.theme, h.keyframes]

theorem scanToken_beside (token : String) (h : Beside blocklist e d) :
    (e.scanToken token).1 = (d.scanToken token).1 ∧
      Beside blocklist (e.scanToken token).2 (d.scanToken token).2 := by
  obtain ⟨answer, after⟩ := read_beside token h
  rw [scanToken_eq, scanToken_eq, answer]
  cases (d.read token).1 with
  | none => exact ⟨rfl, after⟩
  | some u => exact register_beside u after

theorem scanTokens_beside (tokens : List String) (h : Beside blocklist e d) :
    (e.scanTokens tokens).1 = (d.scanTokens tokens).1 ∧
      Beside blocklist (e.scanTokens tokens).2 (d.scanTokens tokens).2 := by
  induction tokens generalizing e d with
  | nil => exact ⟨rfl, h⟩
  | cons token tokens ih =>
    obtain ⟨first, next⟩ := scanToken_beside token h
    obtain ⟨later, done⟩ := ih next
    rw [scanTokens_cons, scanTokens_cons, first, later]
    exact ⟨rfl, done⟩

theorem acceptedTokens_beside (tokens : List String) (h : Beside blocklist e d) :
    (e.acceptedTokens tokens).1 = (d.acceptedTokens tokens).1 ∧
      Beside blocklist (e.acceptedTokens tokens).2 (d.acceptedTokens tokens).2 := by
  induction tokens generalizing e d with
  | nil => exact ⟨rfl, h⟩
  | cons token tokens ih =>
    obtain ⟨answer, next⟩ := read_beside token h
    obtain ⟨later, done⟩ := ih next
    unfold acceptedTokens
    dsimp only
    rw [answer, later]
    exact ⟨rfl, done⟩

theorem scanFor_beside (scan : Scan) (h : Beside blocklist e d) :
    (e.scanFor scan).1 = (d.scanFor scan).1 ∧ Beside blocklist (e.scanFor scan).2 (d.scanFor scan).2 := by
  cases scan with
  | ofToken token => exact scanToken_beside token h
  | ofText text => exact scanTokens_beside _ h
  | ofFile walk path text =>
    obtain ⟨accepted, asked⟩ := acceptedTokens_beside (Token.extract text) h
    unfold scanFor scanFileBy
    dsimp only
    rw [accepted, asked.files]
    split
    · exact ⟨rfl, asked⟩
    · obtain ⟨found, walked⟩ := scanTokens_beside (walk.visit (d.acceptedTokens (Token.extract text)).1) asked
      refine ⟨found, { walked with files := ?_ }⟩
      dsimp only
      rw [walked.files]

/-! ### Style attributes -/

theorem applyInline_cases (sound : e.memo.Sound blocklist e.vocabulary) (text : String) :
    ∃ memo : Memo, memo.Sound blocklist e.vocabulary ∧
      ((∃ cause, composeWith (Memo.answer? blocklist e.vocabulary) .inline text e.shortcuts text = .error cause ∧
          e.applyInline text = (.error cause, { e with memo := memo })) ∨
        ∃ x ds, composeWith (Memo.answer? blocklist e.vocabulary) .inline text e.shortcuts text = .ok x ∧
          x.declarations? = some ds ∧
          e.applyInline text = (.ok ds, { e with memo := memo, groups := e.groups.add x.groups })) := by
  obtain ⟨memo, kept, run⟩ := @compose_lookUp _ _ _ .inline text e.shortcuts sound text
  refine ⟨memo, kept, ?_⟩
  unfold applyInline
  rw [run]
  cases composed : composeWith (Memo.answer? blocklist e.vocabulary) .inline text e.shortcuts text with
  | error cause => exact .inl ⟨cause, rfl, rfl⟩
  | ok x =>
    obtain ⟨ds, declared⟩ := Expansion.exists_declarations_of_isFlat (isFlat_of_composeWith composed)
    refine .inr ⟨x, ds, rfl, declared, ?_⟩
    dsimp only
    rw [declared]

theorem inline_beside (text : String) (h : Beside blocklist e d) :
    (e.applyInline text).1 = (d.applyInline text).1 ∧
      Beside blocklist (e.applyInline text).2 (d.applyInline text).2 := by
  obtain ⟨memo, kept, ours⟩ := applyInline_cases h.sound text
  obtain ⟨memo', kept', theirs⟩ := applyInline_cases h.sound' text
  -- Both compose to the same thing, so both fail or both succeed.
  have asked := congrArg₂ (fun v table => composeWith (Memo.answer? blocklist v) .inline text table text) h.vocabulary
    h.shortcuts
  obtain ⟨cause, failed, run⟩ | ⟨x, ds, composed, declared, run⟩ := ours
  · obtain ⟨cause', failed', run'⟩ | ⟨x', ds', composed', -, -⟩ := theirs
    · cases failed.symm.trans (asked.trans failed')
      rw [run, run']
      exact ⟨rfl, beside_composed h kept kept'⟩
    · cases failed.symm.trans (asked.trans composed')
  · obtain ⟨cause', failed', -⟩ | ⟨x', ds', composed', declared', run'⟩ := theirs
    · cases composed.symm.trans (asked.trans failed')
    · cases composed.symm.trans (asked.trans composed')
      cases declared.symm.trans declared'
      rw [run, run']
      exact ⟨rfl, beside_composed h kept kept'⟩

/-! ### Written CSS -/

section Directives
variable {v : Vocabulary} {shortcuts : ShortcutTable}

/-- What replaces directives does not depend on what the memo was asked before. -/
theorem applySegments_eq_of_sound (segments : List (Segment Apply)) {s s' : ApplyState}
    (sound : s.memo.Sound blocklist v) (sound' : s'.memo.Sound blocklist v) :
    ((applySegments (applyTokens v shortcuts) segments).run s).1 =
      ((applySegments (applyTokens v shortcuts) segments).run s').1 := by
  induction segments generalizing s s' with
  | nil => rfl
  | cons segment rest ih =>
    cases segment with
    | char c =>
      rw [applySegments_char, applySegments_char]
      exact congrArg (Except.map (c :: ·)) (ih sound sound')
    | directive a =>
      obtain ⟨memo, kept, run⟩ := @applyTokens_run _ _ shortcuts _ sound (String.ofList a.tokens) a.text
      obtain ⟨memo', kept', run'⟩ := @applyTokens_run _ _ shortcuts _ sound' (String.ofList a.tokens) a.text
      rw [applySegments, run_bind_eq, run_bind_eq, run, run']
      cases composeWith (Memo.answer? blocklist v) .css a.text shortcuts (String.ofList a.tokens) with
      | error cause => rfl
      | ok x =>
        dsimp only
        cases (a.replacement x.lines : Except (ApplyFailure CompositionError) String) with
        | error failure => rfl
        | ok text =>
          have later := @ih (s.applied memo x) (s'.applied memo' x) kept kept'
          exact congrArg (Except.map (text.toList ++ ·)) later

theorem replaceApply_eq_of_sound (css : String) {s s' : ApplyState} (sound : s.memo.Sound blocklist v)
    (sound' : s'.memo.Sound blocklist v) :
    ((replaceApply (applyTokens v shortcuts) css).run s).1 =
      ((replaceApply (applyTokens v shortcuts) css).run s').1 := by
  unfold replaceApply
  split
  · exact congrArg (Except.map String.ofList) (applySegments_eq_of_sound _ sound sound')
  · rfl

end Directives

theorem transform_css (e : Engine) (css : String) :
    (e.transform css).1.map (·.css) =
      ((replaceApply (applyTokens e.vocabulary e.shortcuts) css).run ⟨e.memo, e.groups, false⟩).1.bind fun applied =>
        ((replaceScreens e.vocabulary.variants applied).bind (replaceTheme e.theme)).mapError .failed := by
  rw [transform_fst]
  cases ((replaceApply (applyTokens e.vocabulary e.shortcuts) css).run ⟨e.memo, e.groups, false⟩).1 with
  | error failure => rfl
  | ok applied =>
    rw [Except.bind, Except.bind]
    cases (replaceScreens e.vocabulary.variants applied).bind (replaceTheme e.theme) <;> rfl

/-- The same text comes out. Whether it tells of groups used for the first time depends on the groups in use. -/
theorem transform_beside (css : String) (h : Beside blocklist e d) :
    (e.transform css).1.map (·.css) = (d.transform css).1.map (·.css) ∧
      Beside blocklist (e.transform css).2 (d.transform css).2 := by
  obtain ⟨kept, -⟩ := @replaceApply_updated _ _ e.shortcuts ⟨e.memo, e.groups, false⟩ h.sound css
  obtain ⟨kept', -⟩ := @replaceApply_updated _ _ d.shortcuts ⟨d.memo, d.groups, false⟩ h.sound' css
  constructor
  · have sound := h.sound
    rw [h.vocabulary] at sound
    have replaced := @replaceApply_eq_of_sound _ _ d.shortcuts css ⟨e.memo, e.groups, false⟩
      ⟨d.memo, d.groups, false⟩ sound h.sound'
    rw [transform_css, transform_css, h.vocabulary, h.shortcuts, h.theme, replaced]
  · rw [transform_snd, transform_snd]
    exact beside_composed h kept kept'

/-! ### Later operations -/

/-- Two operations answer alike. A transformation may tell of groups used for the first time, or not. -/
inductive Outcome.Alike : Outcome → Outcome → Prop
  | found (isNew : Bool) : Alike (.found isNew) (.found isNew)
  | inlined (result : Except CompositionError (List Declaration)) : Alike (.inlined result) (.inlined result)
  | transformed {result result' : Except (ApplyFailure CompositionError) Transformed} :
      result.map (·.css) = result'.map (·.css) → Alike (.transformed result) (.transformed result')

theorem next_beside (operation : Operation) (h : Beside blocklist e d) :
    (e.outcome operation).Alike (d.outcome operation) ∧
      Beside blocklist (e.next operation) (d.next operation) := by
  cases operation with
  | scan scan =>
    obtain ⟨found, after⟩ := scanFor_beside scan h
    rw [outcome, outcome, next, next, scanned_eq, scanned_eq, found]
    exact ⟨.found _, after⟩
  | inline text =>
    obtain ⟨result, after⟩ := inline_beside text h
    rw [outcome, outcome, next, next, result]
    exact ⟨.inlined _, after⟩
  | transform css =>
    obtain ⟨result, after⟩ := transform_beside css h
    exact ⟨.transformed result, after⟩

theorem run_beside (operations : List Operation) (h : Beside blocklist e d) :
    List.Forall₂ Outcome.Alike (e.outcomes operations) (d.outcomes operations) ∧
      Beside blocklist (operations.foldl next e) (operations.foldl next d) := by
  induction operations generalizing e d with
  | nil => exact ⟨.nil, h⟩
  | cons operation operations ih =>
    obtain ⟨result, after⟩ := next_beside operation h
    obtain ⟨results, done⟩ := ih after
    exact ⟨.cons result results, done⟩

/-! ### Sheets -/

/-- The text that stands in front of all else for the groups in use. -/
def groupsText (e : Engine) : String :=
  if e.groups.isEmpty then "" else textOfLines (e.printer.groupBlock e.groups) ++ "\n"

/-- The text for the animations and the utilities. -/
def registeredText (e : Engine) : String :=
  e.printer.header [] e.keyframes.toList ++ sheetText (e.printer.sheet e.cascade)

theorem sheet_eq_append (e : Engine) : e.sheet = e.groupsText ++ e.registeredText := by
  have header : ∀ names, e.printer.header e.groups names = e.groupsText ++ e.printer.header [] names := by
    intro names
    unfold Printer.header groupsText
    rw [List.isEmpty_nil, if_pos rfl, String.empty_append, String.append_assoc]
    rfl
  rw [sheet, Printer.text, header, String.append_assoc]
  rfl

theorem registeredText_eq (h : Beside blocklist e d) : e.registeredText = d.registeredText := by
  unfold registeredText printer
  rw [h.theme, h.shortcuts, h.keyframes, h.cascade]

/-! ### Calls -/

/-- A call on the engine `e` leaves the engine `called`, and nothing but a memo and more groups in use tells of it:
later operations answer alike, and sheets have the same text for animations and utilities. -/
structure LeavesRegistered (e called : Engine) : Prop where
  frame : called = { e with memo := called.memo, groups := called.groups }
  more : ∀ g ∈ e.groups, g ∈ called.groups
  later : ∀ operations : List Operation,
    List.Forall₂ Outcome.Alike (called.outcomes operations) (e.outcomes operations)
  sheets : ∀ operations : List Operation, ∃ rest,
    (operations.foldl next called).sheet = (operations.foldl next called).groupsText ++ rest ∧
    (operations.foldl next e).sheet = (operations.foldl next e).groupsText ++ rest

theorem leavesRegistered_composed {memo : Memo} {groups : DefaultGroups}
    (sound : e.memo.Sound blocklist e.vocabulary) (kept : memo.Sound blocklist e.vocabulary)
    (more : ∀ g ∈ e.groups, g ∈ groups) : e.LeavesRegistered { e with memo := memo, groups := groups } := by
  have start : Beside blocklist { e with memo := memo, groups := groups } e :=
    ⟨rfl, rfl, rfl, rfl, rfl, rfl, rfl, kept, sound⟩
  refine ⟨rfl, more, fun operations => (run_beside operations start).1, fun operations => ?_⟩
  have same := registeredText_eq (run_beside operations start).2
  refine ⟨_, sheet_eq_append _, ?_⟩
  rw [same]
  exact sheet_eq_append _

/-- Composing, for a style attribute or for written CSS, changes nothing but the memo and the groups in use, whether or
not it succeeds. A style attribute that cannot be composed leaves the whole sheet as it is, and never for the reason
that it has a nested block. -/
theorem composing_leavesRegistered (reachable : Reachable settings e) :
    (∀ text, e.LeavesRegistered (e.applyInline text).2) ∧ (∀ css, e.LeavesRegistered (e.transform css).2) ∧
    ∀ text cause, (e.applyInline text).1 = .error cause →
      (e.applyInline text).2.sheet = e.sheet ∧ cause.report.message ≠ "Nested utilities cannot be inlined" := by
  obtain ⟨fresh, _, us, applied, -, registered⟩ := reachable_registered reachable
  have sound := registered.memo
  refine ⟨fun text => ?_, fun css => ?_, fun text cause failed => ?_⟩
  · obtain ⟨memo, kept, ⟨cause, -, run⟩ | ⟨x, ds, -, -, run⟩⟩ := applyInline_cases sound text
    · rw [run]
      exact leavesRegistered_composed sound kept fun g member => member
    · rw [run]
      exact leavesRegistered_composed sound kept fun g member => DefaultGroups.mem_add.mpr (.inl member)
  · obtain ⟨kept, updated⟩ := @replaceApply_updated _ _ e.shortcuts ⟨e.memo, e.groups, false⟩ sound css
    rw [transform_snd]
    exact leavesRegistered_composed sound kept fun g member => (updated.groups g).mpr (.inl member)
  · obtain ⟨memo, -, ⟨cause', composed, run⟩ | ⟨x, ds, -, -, run⟩⟩ := applyInline_cases sound text
    · rw [run] at failed ⊢
      cases failed
      refine ⟨rfl, ?_⟩
      exact message_ne_nested (cause_of_composeWith composed)
    · rw [run] at failed
      cases failed

/-- A transformation that fails at its second directive, and a style attribute with a token that is no utility. -/
theorem composing_leavesRegistered_nope :
    ∃ e : Engine, Reachable { Settings.own with safelist := fun _ => ["flush"] } e ∧
      e.LeavesRegistered (e.applyInline "nope").2 ∧ e.LeavesRegistered (e.transform halfApplied).2 ∧
      ∃ cause, (e.applyInline "nope").1 = .error cause ∧ (e.applyInline "nope").2.sheet = e.sheet ∧
        cause.report.message ≠ "Nested utilities cannot be inlined" := by
  obtain ⟨fresh, notices, ready, own, -⟩ := prepare_own fun _ => ["flush"]
  obtain ⟨e, built⟩ := build_isOk ready fun t ht => accepts_own own (.inr (List.mem_singleton.mp ht))
  obtain ⟨_, us, again, registered, -⟩ := build_registered built
  obtain ⟨rfl, -⟩ := Prod.mk.inj (Except.ok.inj (ready.symm.trans again))
  obtain ⟨inline, transformed, failing⟩ := composing_leavesRegistered (.built built)
  refine ⟨e, .built built, inline "nope", transformed halfApplied, ?_⟩
  obtain ⟨memo, -, ⟨cause, -, run⟩ | ⟨x, ds, composed, -, -⟩⟩ := applyInline_cases registered.memo "nope"
  · have failed : (e.applyInline "nope").1 = .error cause := by rw [run]
    exact ⟨cause, failed, failing "nope" cause failed⟩
  · have words : Text.stringWords "nope" = ["nope"] := by decide
    have unknown : Memo.answer? [] e.vocabulary "nope" = none := read?_nope (by rw [registered.vocabulary, own])
    have blocklist : ({ Settings.own with safelist := fun _ => ["flush"] } : Settings).blocklist = [] := rfl
    rw [blocklist, composeWith_eq, words, List.mapM_cons, unknown] at composed
    cases composed

end Engine

end UtilityCss
