import UtilityCss.Proofs.Composing
import UtilityCss.Proofs.History

/-!
# Composing operations

Composing for style attributes and for directives looks tokens up in the memo of an engine. The memo gives
the same answers as the vocabulary and the blocklist, so the outcome depends on neither the memo nor what was
composed before. What an engine has registered survives every operation.
-/

namespace UtilityCss

/-- The state behind a directive that composes. -/
def Engine.ApplyState.applied (state : Engine.ApplyState) (memo : Memo) (e : Expansion) : Engine.ApplyState :=
  ⟨memo, state.groups.add e.groups, state.stale || e.groups.any (!state.groups.contains ·)⟩

namespace Engine
open UtilityCss.Composition

/-! ### Lists of utilities -/

theorem run_bind_eq {σ α β : Type} (x : StateM σ α) (f : α → StateM σ β) (s : σ) :
    (x >>= f).run s = (f (x.run s).1).run (x.run s).2 := rfl

section Compose
variable {blocklist : List String} {v : Vocabulary} {memo : Memo} {source : Source} {context : String}
  {shortcuts : ShortcutTable}

theorem parts_cons (token : String) (tokens : List String) :
    (parts (lookUp v) source context shortcuts (token :: tokens)).run memo =
      match part source context shortcuts token (memo.read v token).1 with
      | .error cause => (.error cause, (memo.read v token).2)
      | .ok first =>
        (((parts (lookUp v) source context shortcuts tokens).run (memo.read v token).2).1.map (first :: ·),
          ((parts (lookUp v) source context shortcuts tokens).run (memo.read v token).2).2) := by
  have looked : (lookUp v token).run memo = memo.read v token := rfl
  rw [parts, run_bind_eq, looked]
  cases part source context shortcuts token (memo.read v token).1 with
  | error cause => rfl
  | ok first =>
    dsimp only
    rw [run_bind_eq]
    cases ((parts (lookUp v) source context shortcuts tokens).run (memo.read v token).2).1 <;> rfl

/-- A memo answers as the vocabulary does, whatever it has been asked before. -/
theorem parts_lookUp (h : memo.Sound blocklist v) (tokens : List String) :
    ∃ after : Memo, after.Sound blocklist v ∧
      (parts (lookUp v) source context shortcuts tokens).run memo =
        (tokens.mapM fun token =>
          part source context shortcuts token (Memo.answer? blocklist v token), after) := by
  induction tokens generalizing memo with
  | nil => exact ⟨memo, h, rfl⟩
  | cons token tokens ih =>
    have sound := @Memo.read_sound _ _ _ token h
    have answer := @Memo.read_fst _ _ _ token h
    rw [parts_cons, List.mapM_cons, answer]
    cases part source context shortcuts token (Memo.answer? blocklist v token) with
    | error cause => exact ⟨_, sound, rfl⟩
    | ok first =>
      obtain ⟨after, sound, rest⟩ := ih sound
      refine ⟨after, sound, ?_⟩
      rw [rest]
      cases tokens.mapM fun token =>
        part source context shortcuts token (Memo.answer? blocklist v token) <;> rfl

theorem compose_lookUp (h : memo.Sound blocklist v) (text : String) :
    ∃ after : Memo, after.Sound blocklist v ∧
      (compose (lookUp v) source context shortcuts text).run memo =
        (composeWith (Memo.answer? blocklist v) source context shortcuts text, after) := by
  obtain ⟨after, sound, run⟩ := @parts_lookUp _ _ _ source context shortcuts h (Text.stringWords text)
  refine ⟨after, sound, ?_⟩
  rw [compose, StateT.run_bind, run, composeWith_eq]
  rfl

end Compose

/-! ### Directives -/

section Directives
open Directive
variable {blocklist : List String} {v : Vocabulary} {shortcuts : ShortcutTable} {state : ApplyState}

/-- What a directive composes to when tokens are read by `read`. -/
def Composed (read : String → Option Utility) (shortcuts : ShortcutTable) (a : Apply) (e : Expansion) : Prop :=
  composeWith read .css a.text shortcuts (String.ofList a.tokens) = .ok e

/-- A directive composes to an expansion that needs the group, and every directive in front of it composes
and stands behind a character of one byte. -/
inductive Applies (read : String → Option Utility) (shortcuts : ShortcutTable) (g : DefaultGroup) :
    List (Segment Apply) → Prop
  | char {c : Char} {rest : List (Segment Apply)} :
      Applies read shortcuts g rest → Applies read shortcuts g (.char c :: rest)
  | here {a : Apply} {e : Expansion} {rest : List (Segment Apply)} :
      Composed read shortcuts a e → g ∈ e.groups → Applies read shortcuts g (.directive a :: rest)
  | later {a : Apply} {e : Expansion} {rest : List (Segment Apply)} :
      Composed read shortcuts a e → a.opening.utf8Size = 1 → Applies read shortcuts g rest →
      Applies read shortcuts g (.directive a :: rest)

theorem applyTokens_run (h : state.memo.Sound blocklist v) (tokens context : String) :
    ∃ memo : Memo, memo.Sound blocklist v ∧
      (applyTokens v shortcuts tokens context).run state =
        match composeWith (Memo.answer? blocklist v) .css context shortcuts tokens with
        | .error cause => (.error cause, { state with memo := memo })
        | .ok e => (.ok e.lines, state.applied memo e) := by
  obtain ⟨memo, sound, run⟩ := @compose_lookUp _ _ _ .css context shortcuts h tokens
  refine ⟨memo, sound, ?_⟩
  unfold applyTokens
  rw [StateT.run, run]
  rfl

section Segments
variable {σ ε : Type} {apply : String → String → StateM σ (Except ε (List String))}

theorem applySegments_char (c : Char) (rest : List (Segment Apply)) (s : σ) :
    (applySegments apply (.char c :: rest)).run s =
      (((applySegments apply rest).run s).1.map (c :: ·), ((applySegments apply rest).run s).2) := rfl

theorem applySegments_failed {a : Apply} {cause : ε} {s t : σ} (rest : List (Segment Apply))
    (failed : (apply (String.ofList a.tokens) a.text).run s = (.error cause, t)) :
    (applySegments apply (.directive a :: rest)).run s = (.error (.failed cause), t) := by
  rw [applySegments, run_bind_eq, failed]
  rfl

theorem applySegments_wide {a : Apply} {lines : List String} {s t : σ} (rest : List (Segment Apply))
    (applied : (apply (String.ofList a.tokens) a.text).run s = (.ok lines, t))
    (wide : a.opening.utf8Size ≠ 1) :
    (applySegments apply (.directive a :: rest)).run s = (.error (.wideBlank a.opening), t) := by
  have refused : (a.replacement lines : Except (ApplyFailure ε) String) = .error (.wideBlank a.opening) :=
    if_neg wide
  rw [applySegments, run_bind_eq, applied]
  dsimp only
  rw [refused]
  rfl

theorem applySegments_replaced {a : Apply} {lines : List String} {s t : σ} (rest : List (Segment Apply))
    (applied : (apply (String.ofList a.tokens) a.text).run s = (.ok lines, t))
    (narrow : a.opening.utf8Size = 1) :
    ∃ text : String, (applySegments apply (.directive a :: rest)).run s =
      (((applySegments apply rest).run t).1.map (text.toList ++ ·), ((applySegments apply rest).run t).2) := by
  have replaced : ∃ text, (a.replacement lines : Except (ApplyFailure ε) String) = .ok text :=
    ⟨_, if_pos narrow⟩
  obtain ⟨text, replaced⟩ := replaced
  refine ⟨text, ?_⟩
  rw [applySegments, run_bind_eq, applied]
  dsimp only
  rw [replaced]
  rfl

end Segments

/-- What replacing directives does to the groups in use: it adds those of the directives that it reaches, and
the state is stale from the first one on that was not in use. -/
structure Updated (read : String → Option Utility) (shortcuts : ShortcutTable) (segments : List (Segment Apply))
    (before after : ApplyState) : Prop where
  groups : ∀ g, g ∈ after.groups ↔ g ∈ before.groups ∨ Applies read shortcuts g segments
  stale : after.stale = true ↔
    before.stale = true ∨ ∃ g, Applies read shortcuts g segments ∧ g ∉ before.groups

theorem applies_directive_iff {read : String → Option Utility} {g : DefaultGroup} {a : Apply} {e : Expansion}
    {rest : List (Segment Apply)} (composed : Composed read shortcuts a e) :
    Applies read shortcuts g (.directive a :: rest) ↔
      g ∈ e.groups ∨ a.opening.utf8Size = 1 ∧ Applies read shortcuts g rest := by
  constructor
  · rintro (_ | ⟨composed', member⟩ | ⟨-, narrow, later⟩)
    · cases Except.ok.inj (composed.symm.trans composed')
      exact .inl member
    · exact .inr ⟨narrow, later⟩
  · rintro (member | ⟨narrow, later⟩)
    · exact .here composed member
    · exact .later composed narrow later

theorem updated_of_none {read : String → Option Utility} {segments : List (Segment Apply)} {memo : Memo}
    (none : ∀ g, ¬Applies read shortcuts g segments) :
    Updated read shortcuts segments state { state with memo := memo } :=
  ⟨fun g => (or_iff_left (none g)).symm, (or_iff_left fun ⟨g, applies, _⟩ => none g applies).symm⟩

theorem updated_of_failed {read : String → Option Utility} {a : Apply} {cause : CompositionError}
    {rest : List (Segment Apply)} {memo : Memo}
    (failed : composeWith read .css a.text shortcuts (String.ofList a.tokens) = .error cause) :
    Updated read shortcuts (.directive a :: rest) state { state with memo := memo } := by
  have none : ∀ g, ¬Applies read shortcuts g (.directive a :: rest) := by
    rintro g (_ | ⟨composed, -⟩ | ⟨composed, -, -⟩)
    · cases failed.symm.trans composed
    · cases failed.symm.trans composed
  exact updated_of_none none

theorem any_unused_iff {used new : DefaultGroups} :
    new.any (!used.contains ·) = true ↔ ∃ g, g ∈ new ∧ g ∉ used := by
  simp

/-- A directive adds its groups, and what is behind it adds others. -/
theorem updated_of_narrow {read : String → Option Utility} {a : Apply} {e : Expansion}
    {rest : List (Segment Apply)} {memo : Memo} {after : ApplyState} (composed : Composed read shortcuts a e)
    (narrow : a.opening.utf8Size = 1)
    (behind : Updated read shortcuts rest (state.applied memo e) after) :
    Updated read shortcuts (.directive a :: rest) state after := by
  obtain ⟨groups, stale⟩ := behind
  refine ⟨fun g => ?_, ?_⟩
  · rw [groups, applies_directive_iff composed, ApplyState.applied, DefaultGroups.mem_add, or_assoc]
    simp only [narrow, true_and]
  · rw [stale, ApplyState.applied, Bool.or_eq_true, any_unused_iff, or_assoc]
    refine or_congr_right ?_
    simp only [applies_directive_iff composed, narrow, true_and, DefaultGroups.mem_add, not_or]
    constructor
    · rintro (⟨g, member, isNew⟩ | ⟨g, later, isNew, -⟩)
      · exact ⟨g, .inl member, isNew⟩
      · exact ⟨g, .inr later, isNew⟩
    · rintro ⟨g, member | later, isNew⟩
      · exact .inl ⟨g, member, isNew⟩
      · by_cases member : g ∈ e.groups
        · exact .inl ⟨g, member, isNew⟩
        · exact .inr ⟨g, later, isNew, member⟩

/-- Behind a wide blank, a directive adds its groups and is the last one that does. -/
theorem updated_of_wide {read : String → Option Utility} {a : Apply} {e : Expansion}
    {rest : List (Segment Apply)} {memo : Memo} (composed : Composed read shortcuts a e)
    (wide : a.opening.utf8Size ≠ 1) :
    Updated read shortcuts (.directive a :: rest) state (state.applied memo e) := by
  refine ⟨fun g => ?_, ?_⟩
  · rw [applies_directive_iff composed, ApplyState.applied, DefaultGroups.mem_add]
    simp only [wide, false_and, or_false]
  · rw [ApplyState.applied, Bool.or_eq_true, any_unused_iff]
    simp only [applies_directive_iff composed, wide, false_and, or_false]

/-- Replacing a directive fails and leaves the groups as they are, or composes it and stops at a wide blank,
or composes it and goes on. -/
theorem applySegments_directive (h : state.memo.Sound blocklist v) (a : Apply) (rest : List (Segment Apply)) :
    ∃ memo : Memo, memo.Sound blocklist v ∧
      ((∃ cause, composeWith (Memo.answer? blocklist v) .css a.text shortcuts (String.ofList a.tokens) =
            .error cause ∧
          (applySegments (applyTokens v shortcuts) (.directive a :: rest)).run state =
            (.error (.failed cause), { state with memo := memo })) ∨
        ∃ e, Composed (Memo.answer? blocklist v) shortcuts a e ∧
          ((a.opening.utf8Size ≠ 1 ∧
            (applySegments (applyTokens v shortcuts) (.directive a :: rest)).run state =
              (.error (.wideBlank a.opening), state.applied memo e)) ∨
          (a.opening.utf8Size = 1 ∧ ∃ text : String,
            (applySegments (applyTokens v shortcuts) (.directive a :: rest)).run state =
              (((applySegments (applyTokens v shortcuts) rest).run (state.applied memo e)).1.map
                  (text.toList ++ ·),
                ((applySegments (applyTokens v shortcuts) rest).run (state.applied memo e)).2)))) := by
  obtain ⟨memo, sound, run⟩ := @applyTokens_run _ _ shortcuts _ h (String.ofList a.tokens) a.text
  refine ⟨memo, sound, ?_⟩
  cases composed : composeWith (Memo.answer? blocklist v) .css a.text shortcuts (String.ofList a.tokens) with
  | error cause =>
    rw [composed] at run
    exact .inl ⟨cause, rfl, applySegments_failed rest run⟩
  | ok e =>
    rw [composed] at run
    refine .inr ⟨e, composed, ?_⟩
    by_cases narrow : a.opening.utf8Size = 1
    · exact .inr ⟨narrow, applySegments_replaced rest run narrow⟩
    · exact .inl ⟨narrow, applySegments_wide rest run narrow⟩

theorem applySegments_updated (h : state.memo.Sound blocklist v) (segments : List (Segment Apply)) :
    ((applySegments (applyTokens v shortcuts) segments).run state).2.memo.Sound blocklist v ∧
      Updated (Memo.answer? blocklist v) shortcuts segments state
        ((applySegments (applyTokens v shortcuts) segments).run state).2 := by
  induction segments generalizing state with
  | nil =>
    have none : ∀ g, ¬Applies (Memo.answer? blocklist v) shortcuts g [] := fun _ applies => nomatch applies
    exact ⟨h, updated_of_none none⟩
  | cons segment rest ih =>
    cases segment with
    | char c =>
      obtain ⟨sound, groups, stale⟩ := ih h
      have same : ∀ g, Applies (Memo.answer? blocklist v) shortcuts g (.char c :: rest) ↔
          Applies (Memo.answer? blocklist v) shortcuts g rest :=
        fun g => ⟨fun | .char applies => applies, .char⟩
      rw [applySegments_char]
      refine ⟨sound, fun g => ?_, ?_⟩
      · rw [groups, same]
      · rw [stale]
        simp only [same]
    | directive a =>
      obtain ⟨memo, sound, step⟩ := @applySegments_directive _ _ shortcuts _ h a rest
      rcases step with ⟨cause, failed, run⟩ | ⟨e, composed, ⟨wide, run⟩ | ⟨narrow, text, run⟩⟩
      · rw [run]
        exact ⟨sound, updated_of_failed failed⟩
      · rw [run]
        exact ⟨sound, updated_of_wide composed wide⟩
      · rw [run]
        obtain ⟨kept, updated⟩ := @ih (state.applied memo e) sound
        exact ⟨kept, updated_of_narrow composed narrow updated⟩

/-- When all directives are replaced, each of them composes and stands behind a character of one byte. -/
theorem composed_of_replaced (h : state.memo.Sound blocklist v) {segments : List (Segment Apply)}
    {text : List Char}
    (done : ((applySegments (applyTokens v shortcuts) segments).run state).1 = .ok text) :
    ∀ a, .directive a ∈ segments →
      a.opening.utf8Size = 1 ∧ ∃ e, Composed (Memo.answer? blocklist v) shortcuts a e := by
  induction segments generalizing state text with
  | nil => exact fun _ member => absurd member List.not_mem_nil
  | cons segment rest ih =>
    cases segment with
    | char c =>
      rw [applySegments_char] at done
      obtain ⟨text', later, -⟩ := map_eq_ok done
      intro a member
      rcases List.mem_cons.mp member with isChar | inside
      · cases isChar
      · exact ih h later a inside
    | directive b =>
      obtain ⟨memo, sound, step⟩ := @applySegments_directive _ _ shortcuts _ h b rest
      rcases step with ⟨cause, -, run⟩ | ⟨e, composed, ⟨-, run⟩ | ⟨narrow, text', run⟩⟩
      · rw [run] at done
        cases done
      · rw [run] at done
        cases done
      · rw [run] at done
        obtain ⟨text'', later, -⟩ := map_eq_ok done
        intro a member
        rcases List.mem_cons.mp member with same | inside
        · cases same
          exact ⟨narrow, e, composed⟩
        · exact @ih (state.applied memo e) sound _ later a inside

/-! ### Whole texts -/

theorem hasMark_cons {mark cs : List Char} (c : Char) (h : Text.hasMark mark cs = true) :
    Text.hasMark mark (c :: cs) = true :=
  Text.hasMark_iff_infix.mpr (List.infix_cons (Text.hasMark_iff_infix.mp h))

theorem hasMark_of_isPrefixOf? {mark cs rest : List Char} (h : mark.isPrefixOf? cs = some rest) :
    Text.hasMark mark cs = true := by
  rw [Text.hasMark_iff_infix, Text.eq_append_of_isPrefixOf? h]
  exact (List.prefix_append mark rest).isInfix

theorem hasMark_of_applyAt? {cs : List Char} {a : Apply × Nat} (h : applyAt? cs = some a) :
    Text.hasMark applyMark cs = true := by
  unfold applyAt? at h
  cases cs with
  | nil => cases h
  | cons opening rest =>
    dsimp only at h
    split at h
    · obtain ⟨behind, isMark, -⟩ := Option.bind_eq_some_iff.mp h
      exact hasMark_cons opening (hasMark_of_isPrefixOf? isMark)
    · cases h

/-- A text without the mark holds no directive. -/
theorem hasMark_of_directive {a : Apply} {cs : List Char} {skip : Nat}
    (h : .directive a ∈ segmentsFrom applyAt? skip cs) : Text.hasMark applyMark cs = true := by
  induction cs generalizing skip with
  | nil => cases skip <;> cases h
  | cons c cs ih =>
    cases skip with
    | succ skip => exact hasMark_cons c (ih h)
    | zero =>
      unfold segmentsFrom at h
      split at h
      · rename_i found
        exact hasMark_of_applyAt? found
      · rcases List.mem_cons.mp h with isChar | later
        · cases isChar
        · exact hasMark_cons c (ih later)

theorem exists_directive_of_applies {read : String → Option Utility} {g : DefaultGroup}
    {segments : List (Segment Apply)} (h : Applies read shortcuts g segments) : ∃ a, .directive a ∈ segments := by
  induction h with
  | char _ ih =>
    obtain ⟨a, member⟩ := ih
    exact ⟨a, List.mem_cons_of_mem _ member⟩
  | here => exact ⟨_, List.mem_cons_self⟩
  | later => exact ⟨_, List.mem_cons_self⟩

theorem replaceApply_updated (h : state.memo.Sound blocklist v) (css : String) :
    ((replaceApply (applyTokens v shortcuts) css).run state).2.memo.Sound blocklist v ∧
      Updated (Memo.answer? blocklist v) shortcuts (segments applyAt? css.toList) state
        ((replaceApply (applyTokens v shortcuts) css).run state).2 := by
  unfold replaceApply
  split
  · exact applySegments_updated h _
  · rename_i unmarked
    have none : ∀ g, ¬Applies (Memo.answer? blocklist v) shortcuts g (segments applyAt? css.toList) := by
      intro g applies
      obtain ⟨a, member⟩ := exists_directive_of_applies applies
      exact unmarked (hasMark_of_directive member)
    exact ⟨h, updated_of_none none⟩

end Directives

/-! ### Reachable engines -/

variable {settings : Settings} {fresh e : Engine} {blocklist : List String} {us : List Utility}
  {applied : DefaultGroups}

/-- What is left of the `@apply` of a text when they are replaced, as far as it goes. -/
def applyState (e : Engine) (css : String) : ApplyState :=
  ((Directive.replaceApply (applyTokens e.vocabulary e.shortcuts) css).run ⟨e.memo, e.groups, false⟩).2

theorem transform_snd (e : Engine) (css : String) :
    (e.transform css).2 = { e with memo := (e.applyState css).memo, groups := (e.applyState css).groups } := by
  unfold transform applyState
  cases (Directive.replaceApply (applyTokens e.vocabulary e.shortcuts) css).run ⟨e.memo, e.groups, false⟩ with
  | mk result state =>
    cases result with
    | error failure => rfl
    | ok css =>
      dsimp only
      split <;> rfl

theorem stale_of_transform {css : String} {done : Transformed} (h : (e.transform css).1 = .ok done) :
    done.stale = (e.applyState css).stale := by
  unfold transform at h
  unfold applyState
  cases run : (Directive.replaceApply (applyTokens e.vocabulary e.shortcuts) css).run
      ⟨e.memo, e.groups, false⟩ with
  | mk result state =>
    simp only [run] at h
    cases result with
    | error failure => cases h
    | ok css =>
      dsimp only at h
      split at h
      · cases h
      · cases h
        rfl

/-- Composing registers nothing; it may bring groups into use. -/
theorem composed_registered {memo : Memo} {groups : DefaultGroups}
    (h : Registered fresh blocklist us applied e) (sound : memo.Sound blocklist e.vocabulary)
    (more : ∀ g ∈ e.groups, g ∈ groups) :
    Registered fresh blocklist us groups { e with memo := memo, groups := groups } where
  theme := h.theme
  vocabulary := h.vocabulary
  shortcuts := h.shortcuts
  memo := sound
  cascade := h.cascade
  meaning := h.meaning
  distinct := h.distinct
  seen := h.seen
  groups g := (or_iff_left_of_imp fun needed => more g ((h.groups g).mpr (.inr needed))).symm
  keyframes := h.keyframes
  files := h.files

theorem transform_registered (css : String) (h : Registered fresh blocklist us applied e) :
    ∃ applied', Registered fresh blocklist us applied' (e.transform css).2 := by
  obtain ⟨sound, updated⟩ := @replaceApply_updated _ _ e.shortcuts ⟨e.memo, e.groups, false⟩ h.memo css
  rw [transform_snd]
  exact ⟨_, composed_registered h sound fun g member => (updated.groups g).mpr (.inl member)⟩

theorem applyInline_registered (text : String) (h : Registered fresh blocklist us applied e) :
    ∃ applied', Registered fresh blocklist us applied' (e.applyInline text).2 := by
  obtain ⟨memo, sound, run⟩ := @compose_lookUp _ _ _ .inline text e.shortcuts h.memo text
  unfold applyInline
  rw [run]
  dsimp only
  split
  · exact ⟨_, composed_registered h sound fun _ member => member⟩
  · rename_i expansion _
    have more : ∀ g ∈ e.groups, g ∈ e.groups.add expansion.groups := fun g member =>
      DefaultGroups.mem_add.mpr (.inl member)
    have done := composed_registered h sound more
    split <;> exact ⟨_, done⟩

/-- Every reachable engine came from the engine of its settings by registering utilities. -/
theorem reachable_registered (reachable : Reachable settings e) :
    ∃ fresh notices us applied, prepare settings = .ok (fresh, notices) ∧
      Registered fresh settings.blocklist us applied e := by
  induction reachable with
  | built h =>
    obtain ⟨fresh, us, ready, registered, -⟩ := build_registered h
    exact ⟨fresh, _, us, [], ready, registered⟩
  | next operation _ ih =>
    obtain ⟨fresh, notices, us, applied, ready, registered⟩ := ih
    cases operation with
    | scan scan =>
      obtain ⟨us', after, -⟩ := scanned_registered scan registered
      exact ⟨fresh, notices, us', applied, ready, after⟩
    | inline text =>
      obtain ⟨applied', after⟩ := applyInline_registered text registered
      exact ⟨fresh, notices, us, applied', ready, after⟩
    | transform css =>
      obtain ⟨applied', after⟩ := transform_registered css registered
      exact ⟨fresh, notices, us, applied', ready, after⟩

/-- Where nothing is on the safelist, one scan of a utility registers it and nothing else. -/
theorem exists_scanned {notices : List Notice} {token : String} {u : Utility}
    (ready : prepare settings = .ok (fresh, notices)) (bare : settings.safelist fresh.theme = [])
    (read : fresh.vocabulary.read? token = some u) (free : token ∉ settings.blocklist) :
    ∃ e, Reachable settings e ∧ (∀ t, t ∈ e.seen ↔ t = token) ∧ e.theme = fresh.theme ∧
      e.vocabulary = fresh.vocabulary ∧ e.shortcuts = fresh.shortcuts := by
  obtain ⟨start, built⟩ := build_isOk ready (by simp [bare])
  obtain ⟨_, us, again, registered, seen⟩ := build_registered built
  obtain ⟨rfl, -⟩ := Prod.mk.inj (Except.ok.inj (ready.symm.trans again))
  obtain ⟨us', after, now⟩ := scanToken_registered token registered
  have accepted : fresh.Accepts settings.blocklist token := by
    rw [Accepts, Memo.answer?, if_neg free, read]
    rfl
  refine ⟨_, .next (.scan (.ofToken token)) (.built built), fun t => (now t).trans ?_, after.theme, after.vocabulary,
    after.shortcuts⟩
  rw [seen, bare, and_iff_left accepted]
  exact or_iff_right List.not_mem_nil

end Engine

end UtilityCss
