import Mathlib.Data.String.Basic
import UtilityCss.Proofs.AppliedGroups
import UtilityCss.Proofs.Segments

/-!
# Character boundaries

Written CSS is sliced at offsets in bytes. Where directives are cut out of a text, every offset falls between two
characters. The first byte of an `@apply` is kept by itself, and that is a character only if its opening is ASCII: a
transformation stops at the first directive that composes behind a wider blank, `transform_wideBlank_iff`.
-/

namespace UtilityCss

namespace Directive
open Text

/-! ### Slices -/

/-- Both offsets fall between characters of the text, and the piece stands between them. -/
structure Slices (text : String) (start stop : String.Pos.Raw) (piece : List Char) : Prop where
  starts : start.IsValid text
  stops : stop.IsValid text
  extract : start.extract text stop = String.ofList piece

/-- The offset in bytes at which a piece of a text starts behind others. -/
def offset (before : List Char) : String.Pos.Raw :=
  ⟨String.utf8Len before⟩

theorem isValid_offset {text : String} {before behind : List Char} (cut : text.toList = before ++ behind) :
    (offset before).IsValid text := by
  refine String.Pos.Raw.isValid_iff_exists_append.mpr ⟨.ofList before, .ofList behind, ?_, ?_⟩
  · rw [← String.ofList_append, ← cut, String.ofList_toList]
  · rw [String.rawEndPos_ofList, offset]

theorem slices_of_append {text : String} {before piece behind : List Char}
    (cut : text.toList = before ++ piece ++ behind) :
    Slices text (offset before) (offset (before ++ piece)) piece where
  starts := isValid_offset (by rw [cut, List.append_assoc])
  stops := isValid_offset cut
  extract := by
    have extracted := String.extract_of_valid before piece behind
    rw [← cut, String.ofList_toList, ← String.utf8Len_append] at extracted
    exact extracted

section Pieces
variable {δ : Type}

/-- Whatever the text, any pieces of its cut that follow one another are a slice of it. -/
def CutsBetween (find? : List Char → Option (δ × Nat)) (written : δ → List Char) : Prop :=
  ∀ (text : String) front middle behind, segments find? text.toList = front ++ middle ++ behind →
    Slices text (offset (front.flatMap (Segment.text written)))
      (offset (front.flatMap (Segment.text written) ++ middle.flatMap (Segment.text written)))
      (middle.flatMap (Segment.text written))

theorem cutsBetween_of_finds {find? : List Char → Option (δ × Nat)} {written : δ → List Char}
    (finds : Finds find? written) : CutsBetween find? written := by
  intro text front middle behind cut
  have whole := flatMap_segments finds text.toList
  rw [cut, List.flatMap_append, List.flatMap_append] at whole
  exact slices_of_append whole.symm

end Pieces

/-! ### Calls -/

def screenWritten (name : String) : List Char :=
  screenMark ++ (name.toList ++ [')'])

def themeWritten (path : String) : List Char :=
  themeMark ++ (path.toList ++ ['"', ')'])

theorem finds_screenCall? : Finds screenCall? screenWritten := by
  intro cs name length found
  obtain ⟨rest, isMark, found⟩ := Option.bind_eq_some_iff.mp found
  dsimp only at found
  split at found
  · cases found
  · split at found
    · rename_i closed
      cases found
      rw [drop_length_takeWhile] at closed
      obtain ⟨more, left⟩ := List.head?_eq_some_iff.mp closed
      have whole := List.takeWhile_append_dropWhile (p := isScreenNameChar) (l := rest)
      rw [left] at whole
      refine ⟨?_, ⟨more, ?_⟩, List.cons_ne_nil _ _⟩
      · rw [screenWritten, List.length_append, List.length_append, String.toList_ofList, List.length_singleton,
          Nat.add_assoc]
      · rw [eq_append_of_isPrefixOf? isMark, screenWritten, String.toList_ofList, List.append_assoc, List.append_assoc,
          List.singleton_append, whole]
    · cases found

/-- What is passed over up to a character that is there ends in front of it. -/
theorem eq_takeWhile_append {close : Char} {cs : List Char}
    (passed : (cs.takeWhile (· ≠ close)).length ≠ cs.length) :
    ∃ more, cs = cs.takeWhile (· ≠ close) ++ close :: more := by
  have whole := List.takeWhile_append_dropWhile (p := (· ≠ close)) (l := cs)
  have stopped := List.head?_dropWhile_not (· ≠ close) cs
  cases left : cs.dropWhile (· ≠ close) with
  | nil =>
    rw [left, List.append_nil] at whole
    exact absurd (congrArg List.length whole) passed
  | cons d more =>
    rw [left] at whole stopped
    have same : d = close := by simpa using stopped
    rw [same] at whole
    exact ⟨more, whole.symm⟩

theorem finds_themeCall? : Finds themeCall? themeWritten := by
  intro cs path length found
  obtain ⟨rest, isMark, found⟩ := Option.bind_eq_some_iff.mp found
  dsimp only at found
  split at found
  · cases found
  · rename_i passed
    obtain ⟨more, whole⟩ := eq_takeWhile_append passed
    obtain ⟨inner, quoted, found⟩ := Option.bind_eq_some_iff.mp found
    split at found
    · cases found
    · cases found
      -- The quote in front of the parenthesis is passed over, but not part of the path.
      rw [unclose?_eq_some_iff.mp quoted] at whole ⊢
      refine ⟨?_, ⟨more, ?_⟩, List.cons_ne_nil _ _⟩
      · rw [themeWritten, List.length_append, List.length_append, String.toList_ofList, List.length_append,
          Nat.add_assoc, Nat.add_assoc]
        rfl
      · rw [eq_append_of_isPrefixOf? isMark, themeWritten, String.toList_ofList, whole]
        simp

/-! ### The first byte of a directive -/

theorem isValid_one_iff (a : Apply) : (⟨1⟩ : String.Pos.Raw).IsValid a.text ↔ a.opening.utf8Size = 1 := by
  rw [← String.ofList_toList (s := a.text), Apply.toList_text, Apply.written, String.Pos.Raw.isValid_ofList]
  constructor
  · rintro ⟨_ | count, size⟩
    · cases size
    · rw [List.take_succ_cons, String.utf8ByteSize_ofList, String.utf8Len_cons] at size
      -- Every character has a byte, so one byte is the opening alone.
      have positive := a.opening.utf8Size_pos
      dsimp only at size
      omega
  · intro narrow
    refine ⟨1, ?_⟩
    rw [List.take_succ_cons, List.take_zero, String.utf8ByteSize_ofList, String.utf8Len_cons, narrow]
    rfl

theorem slices_of_keyword {condition : String} {media : List Char}
    (keyword : mediaKeyword.isPrefixOf? condition.toList = some media) :
    Slices condition (offset mediaKeyword) (offset (mediaKeyword ++ media)) media :=
  slices_of_append (by rw [eq_append_of_isPrefixOf? keyword, List.append_nil])

end Directive

namespace Engine
open Directive

/-! ### Where a transformation stops -/

section Stops
variable {blocklist : List String} {v : Vocabulary} {shortcuts : ShortcutTable} {state : ApplyState} {blank : Char}

/-- The directive composes and its first byte is a character. -/
def Passes (read : String → Option Utility) (shortcuts : ShortcutTable) (a : Apply) : Prop :=
  a.opening.utf8Size = 1 ∧ ∃ x, Composed read shortcuts a x

/-- The directive composes, but its first byte is only a part of the blank it stands behind. -/
def StopsAt (read : String → Option Utility) (shortcuts : ShortcutTable) (blank : Char) (a : Apply) : Prop :=
  a.opening.utf8Size ≠ 1 ∧ (∃ x, Composed read shortcuts a x) ∧ a.opening = blank

theorem applySegments_wideBlank_iff (h : state.memo.Sound blocklist v) (segments : List (Segment Apply)) :
    ((applySegments (applyTokens v shortcuts) segments).run state).1 = .error (.wideBlank blank) ↔
      Reaches (Passes (Memo.answer? blocklist v) shortcuts) (StopsAt (Memo.answer? blocklist v) shortcuts blank)
        segments := by
  -- What is composed changes the state, but a sound memo keeps its answers.
  induction segments generalizing state with
  | nil => exact ⟨nofun, nofun⟩
  | cons segment rest ih =>
    cases segment with
    | char c =>
      rw [applySegments_char, map_eq_error, ih h]
      exact ⟨.char, fun | .char stops => stops⟩
    | directive a =>
      obtain ⟨memo, sound, step⟩ := @applySegments_directive _ _ shortcuts _ h a rest
      rcases step with ⟨cause, failed, run⟩ | ⟨e, composed, ⟨wide, run⟩ | ⟨narrow, text, run⟩⟩
      · rw [run]
        refine ⟨nofun, ?_⟩
        rintro (_ | ⟨-, ⟨x, composed⟩, -⟩ | ⟨⟨-, x, composed⟩, -⟩)
        · cases failed.symm.trans composed
        · cases failed.symm.trans composed
      · rw [run]
        constructor
        · intro stopped
          exact .here ⟨wide, ⟨e, composed⟩, ApplyFailure.wideBlank.inj (Except.error.inj stopped)⟩
        · rintro (_ | ⟨-, -, rfl⟩ | ⟨⟨narrow, -⟩, -⟩)
          · rfl
          · exact absurd narrow wide
      · rw [run, map_eq_error, @ih (state.applied memo e) sound]
        constructor
        · exact .later ⟨narrow, e, composed⟩
        · rintro (_ | ⟨wide, -⟩ | ⟨-, later⟩)
          · exact absurd narrow wide
          · exact later

theorem replaceApply_wideBlank_iff (h : state.memo.Sound blocklist v) (css : String) :
    ((replaceApply (applyTokens v shortcuts) css).run state).1 = .error (.wideBlank blank) ↔
      Reaches (Passes (Memo.answer? blocklist v) shortcuts) (StopsAt (Memo.answer? blocklist v) shortcuts blank)
        (segments applyAt? css.toList) := by
  unfold replaceApply
  split
  · exact map_eq_error.trans (applySegments_wideBlank_iff h _)
  · rename_i unmarked
    refine ⟨nofun, fun stops => ?_⟩
    obtain ⟨a, listed, -⟩ := stops.exists_mem
    exact absurd (hasMark_of_directive listed) unmarked

end Stops

variable {settings : Settings} {e : Engine}

/-- Only `@apply` makes a transformation stop at a blank: calls that cannot be replaced fail with an error. -/
theorem transform_fst_wideBlank_iff {css : String} {blank : Char} :
    (e.transform css).1 = .error (.wideBlank blank) ↔
      ((replaceApply (applyTokens e.vocabulary e.shortcuts) css).run ⟨e.memo, e.groups, false⟩).1 =
        .error (.wideBlank blank) := by
  unfold transform
  cases (replaceApply (applyTokens e.vocabulary e.shortcuts) css).run ⟨e.memo, e.groups, false⟩ with
  | mk result state =>
    cases result with
    | error failure =>
      exact ⟨fun same => congrArg _ (Except.error.inj same), fun same => congrArg _ (Except.error.inj same)⟩
    | ok text =>
      refine ⟨fun stopped => ?_, nofun⟩
      dsimp only at stopped
      split at stopped
      · cases stopped
      · cases stopped

theorem transform_stops_iff {blocklist : List String} {css : String} {blank : Char}
    (sound : e.memo.Sound blocklist e.vocabulary) :
    (e.transform css).1 = .error (.wideBlank blank) ↔
      Reaches (Passes (Memo.answer? blocklist e.vocabulary) e.shortcuts)
        (StopsAt (Memo.answer? blocklist e.vocabulary) e.shortcuts blank) (segments applyAt? css.toList) :=
  transform_fst_wideBlank_iff.trans
    (@replaceApply_wideBlank_iff blocklist _ e.shortcuts ⟨e.memo, e.groups, false⟩ blank sound css)

/-- A transformation stops when the first byte of a directive is to be kept and is not a character by itself: at the
first directive that composes behind a blank beyond ASCII, if each one in front of it composes. Otherwise it ends in a
text or in an error. No other slice of a text ends inside a character. -/
theorem transform_wideBlank_iff (reachable : Reachable settings e) (css : String) :
    (∀ blank, (e.transform css).1 = .error (.wideBlank blank) ↔ ∃ front a behind,
      segments applyAt? css.toList = front ++ .directive a :: behind ∧
      (∀ b, .directive b ∈ front → (⟨1⟩ : String.Pos.Raw).IsValid b.text ∧
        ∃ x, Composed (Memo.answer? settings.blocklist e.vocabulary) e.shortcuts b x) ∧
      ¬(⟨1⟩ : String.Pos.Raw).IsValid a.text ∧
      (∃ x, Composed (Memo.answer? settings.blocklist e.vocabulary) e.shortcuts a x) ∧ a.opening = blank) ∧
    (∀ a : Apply, (⟨1⟩ : String.Pos.Raw).IsValid a.text ↔ a.opening.val ≤ 127) ∧
    ((∀ a, .directive a ∈ segments applyAt? css.toList → a.opening.val ≤ 127) →
      (∃ done, (e.transform css).1 = .ok done) ∨ ∃ cause, (e.transform css).1 = .error (.failed cause)) ∧
    CutsBetween applyAt? Apply.written ∧ CutsBetween screenCall? screenWritten ∧ CutsBetween themeCall? themeWritten ∧
    ∀ condition media, mediaKeyword.isPrefixOf? condition.toList = some media →
      Slices condition (offset mediaKeyword) (offset (mediaKeyword ++ media)) media := by
  obtain ⟨fresh, _, us, applied, -, registered⟩ := reachable_registered reachable
  have stops := fun blank => @transform_stops_iff e settings.blocklist css blank registered.memo
  have ascii : ∀ a : Apply, (⟨1⟩ : String.Pos.Raw).IsValid a.text ↔ a.opening.val ≤ 127 := fun a =>
    (isValid_one_iff a).trans Char.utf8Size_eq_one_iff
  refine ⟨fun blank => ?_, ascii, fun narrow => ?_, cutsBetween_of_finds finds_applyAt?,
    cutsBetween_of_finds finds_screenCall?, cutsBetween_of_finds finds_themeCall?, fun _ _ => slices_of_keyword⟩
  · rw [stops, reaches_iff]
    simp only [Passes, StopsAt, isValid_one_iff, ne_eq]
  · cases result : (e.transform css).1 with
    | ok done => exact .inl ⟨done, rfl⟩
    | error failure =>
      cases failure with
      | failed cause => exact .inr ⟨cause, rfl⟩
      | wideBlank blank =>
        obtain ⟨a, listed, wide, -⟩ := ((stops blank).mp result).exists_mem
        exact absurd (Char.utf8Size_eq_one_iff.mpr (narrow a listed)) wide

/-! ### A blank of two bytes -/

def wideApplied : String :=
  "\u00a0@apply spun;"

def wideSpun : Apply :=
  ⟨'\u00a0', "spun".toList, ';'⟩

theorem segments_wideApplied : segments applyAt? wideApplied.toList = [.directive wideSpun] := rfl

theorem transform_wideApplied : ∃ (e : Engine) (notices : List Notice),
    build { Settings.own with safelist := fun _ => [] } = .ok (e, notices) ∧
    (e.transform wideApplied).1 = .error (.wideBlank '\u00a0') := by
  obtain ⟨fresh, notices, ready, own, -⟩ := prepare_own fun _ => []
  obtain ⟨e, built⟩ := build_isOk ready fun t ht => absurd ht List.not_mem_nil
  obtain ⟨_, us, again, registered, seen⟩ := build_registered built
  obtain ⟨rfl, -⟩ := Prod.mk.inj (Except.ok.inj (ready.symm.trans again))
  have own : e.vocabulary.entries = ownIndex := by rw [registered.vocabulary, own]
  obtain ⟨x, composed, -⟩ := composed_of_spun own e.shortcuts (rfl : wideSpun.tokens = spunApply.tokens)
  obtain ⟨stops, ascii, -⟩ := transform_wideBlank_iff (.built built) wideApplied
  refine ⟨e, notices, built, (stops _).mpr ⟨[], wideSpun, [], segments_wideApplied, by simp, ?_, ⟨x, composed⟩, rfl⟩⟩
  rw [ascii]
  decide

end Engine

end UtilityCss
