import Mathlib.Data.List.Flatten
import UtilityCss.Proofs.ArrivalOrder
import UtilityCss.Proofs.Operations

/-!
# Groups that directives bring into use

A transformation records the default groups of each `@apply` as it goes along. They show in the header of the
next sheet, whether or not the transformation succeeds: one that fails at a later directive has changed the
sheet and has no way to say so.
-/

namespace UtilityCss

/-! ### Length of a text -/

section Length
variable {α β : Type} {f : α → List β} {xs ys : List α}

/-- Each element that a sublist leaves out makes what is written for it shorter. -/
theorem length_flatMap_le_of_sublist (written : ∀ x, f x ≠ []) (sublist : xs.Sublist ys) :
    (xs.flatMap f).length + ys.length ≤ (ys.flatMap f).length + xs.length := by
  induction sublist with
  | slnil => exact Nat.le_refl _
  | cons y _ ih =>
    have := List.length_pos_iff.mpr (written y)
    simp only [List.flatMap_cons, List.length_append, List.length_cons]
    omega
  | cons_cons y _ ih =>
    simp only [List.flatMap_cons, List.length_append, List.length_cons]
    omega

theorem length_flatMap_lt_of_sublist (written : ∀ x, f x ≠ []) (sublist : xs.Sublist ys)
    (shorter : xs.length < ys.length) : (xs.flatMap f).length < (ys.flatMap f).length := by
  have bound := length_flatMap_le_of_sublist written sublist
  omega

theorem toList_textOfLines (lines : List String) :
    (textOfLines lines).toList = lines.flatMap fun line => (line ++ "\n").toList := by
  unfold textOfLines
  rw [String.toList_join, List.flatMap_map]

theorem length_textOfLines_lt {lines more : List String} (sublist : lines.Sublist more)
    (shorter : lines.length < more.length) : (textOfLines lines).length < (textOfLines more).length := by
  have written : ∀ line : String, (line ++ "\n").toList ≠ [] := by
    intro line
    rw [String.toList_append]
    exact List.append_ne_nil_of_right_ne_nil _ (List.cons_ne_nil _ _)
  rw [← String.length_toList, ← String.length_toList, toList_textOfLines, toList_textOfLines]
  exact length_flatMap_lt_of_sublist written sublist shorter

end Length

/-! ### Headers -/

namespace DefaultGroup

theorem declarations_ne_nil (theme : Theme) (g : DefaultGroup) : g.declarations theme ≠ [] := by
  cases g <;> simp [declarations, blank]

end DefaultGroup

namespace DefaultGroups

variable {used more : DefaultGroups}

theorem sorted_sublist (sub : ∀ g ∈ used, g ∈ more) : used.sorted.Sublist more.sorted := by
  have inside : used.sorted = more.sorted.filter used.contains := by
    unfold sorted
    rw [List.filter_filter]
    refine List.filter_congr fun g _ => ?_
    rw [Bool.eq_iff_iff, Bool.and_eq_true, List.contains_iff_mem, List.contains_iff_mem]
    exact (and_iff_left_of_imp (sub g)).symm
  rw [inside]
  exact List.filter_sublist

theorem length_sorted_lt {g : DefaultGroup} (sub : ∀ g ∈ used, g ∈ more) (member : g ∈ more)
    (isNew : g ∉ used) : used.sorted.length < more.sorted.length := by
  have sublist := sorted_sublist sub
  refine Nat.lt_of_le_of_ne sublist.length_le fun same => isNew ?_
  rw [← mem_sorted, sublist.eq_of_length same, mem_sorted]
  exact member

end DefaultGroups

namespace Printer

variable {p : Printer} {used more : DefaultGroups} {names : List String}

/-- The block of the groups in use. -/
def groupBlock (p : Printer) (groups : DefaultGroups) : List String :=
  SheetItem.blockLines "" "*, ::before, ::after, ::backdrop"
    (declarationLines (groups.sorted.flatMap (DefaultGroup.declarations p.theme)))

theorem length_groupBlock_lt {g : DefaultGroup} (sub : ∀ g ∈ used, g ∈ more) (member : g ∈ more)
    (isNew : g ∉ used) :
    (textOfLines (p.groupBlock used)).length < (textOfLines (p.groupBlock more)).length := by
  have sublist := DefaultGroups.sorted_sublist sub
  have fewer := DefaultGroups.length_sorted_lt sub member isNew
  have declared := length_flatMap_lt_of_sublist (DefaultGroup.declarations_ne_nil p.theme) sublist fewer
  have lines : (p.groupBlock used).Sublist (p.groupBlock more) := by
    have inner := (sublist.flatMap (DefaultGroup.declarations p.theme)).map Declaration.line
    exact ((inner.map _).append_right _).cons_cons _
  have shorter : (p.groupBlock used).length < (p.groupBlock more).length := by
    simp only [groupBlock, SheetItem.blockLines, declarationLines, List.length_cons, List.length_append,
      List.length_map]
    omega
  exact length_textOfLines_lt lines shorter

/-- A group that comes into use makes the header longer. -/
theorem length_header_lt {g : DefaultGroup} (sub : ∀ g ∈ used, g ∈ more) (member : g ∈ more)
    (isNew : g ∉ used) : (p.header used names).length < (p.header more names).length := by
  have inhabited : more.isEmpty = false := by
    rw [List.isEmpty_eq_false_iff]
    exact List.ne_nil_of_mem member
  have block := @length_groupBlock_lt p _ _ _ sub member isNew
  have split : ∀ groups : DefaultGroups, (p.header groups names).length =
      (if groups.isEmpty then 0 else (textOfLines (p.groupBlock groups)).length + 1) +
        (p.header [] names).length := by
    intro groups
    have newline : "\n".length = 1 := rfl
    have nothing : "".length = 0 := rfl
    unfold header
    simp only [String.length_append, List.isEmpty_nil, if_true, nothing, Nat.zero_add, Nat.add_assoc]
    refine congrArg (· + _) ?_
    split
    · exact nothing
    · rw [String.length_append, newline]
      rfl
  rw [split used, split more, inhabited]
  simp only [Bool.false_eq_true, if_false]
  split
  · omega
  · omega

end Printer

namespace Engine
open Directive

variable {settings : Settings} {e : Engine} {css : String}

/-- A directive of a text that is reached composes to an expansion that needs the group. -/
def BringsIntoUse (e : Engine) (blocklist : List String) (css : String) (g : DefaultGroup) : Prop :=
  Applies (Memo.answer? blocklist e.vocabulary) e.shortcuts g (segments applyAt? css.toList)

theorem sheet_ne_iff {memo : Memo} {groups : DefaultGroups} (sub : ∀ g ∈ e.groups, g ∈ groups) :
    ({ e with memo := memo, groups := groups } : Engine).sheet ≠ e.sheet ↔ ∃ g ∈ groups, g ∉ e.groups := by
  constructor
  · intro changed
    refine Classical.byContradiction fun none => changed ?_
    have same : ∀ g, g ∈ groups ↔ g ∈ e.groups := fun g =>
      ⟨fun member => Classical.byContradiction fun isNew => none ⟨g, member, isNew⟩, sub g⟩
    unfold sheet Printer.text
    rw [header_eq_of_mem same]
    rfl
  · rintro ⟨g, member, isNew⟩ same
    have longer := @Printer.length_header_lt e.printer e.groups groups e.keyframes.toList g sub member isNew
    have lengths := congrArg String.length same
    unfold sheet Printer.text at lengths
    rw [String.length_append, String.length_append] at lengths
    change (e.printer.header groups e.keyframes.toList).length + (sheetText (e.printer.sheet e.cascade)).length =
      (e.printer.header e.groups e.keyframes.toList).length + _ at lengths
    omega

theorem directives_compose {blocklist : List String} {done : Transformed}
    (sound : e.memo.Sound blocklist e.vocabulary) (h : (e.transform css).1 = .ok done)
    (marked : Text.hasMark applyMark css.toList = true) :
    ∀ a, .directive a ∈ segments applyAt? css.toList →
      a.opening.utf8Size = 1 ∧ ∃ x, Composed (Memo.answer? blocklist e.vocabulary) e.shortcuts a x := by
  have replaced : ∃ text, ((replaceApply (applyTokens e.vocabulary e.shortcuts) css).run
      ⟨e.memo, e.groups, false⟩).1 = .ok text := by
    unfold transform at h
    cases run : (replaceApply (applyTokens e.vocabulary e.shortcuts) css).run ⟨e.memo, e.groups, false⟩ with
    | mk result state =>
      simp only [run] at h
      cases result with
      | error failure => cases h
      | ok text => exact ⟨text, rfl⟩
  obtain ⟨text, replaced⟩ := replaced
  unfold replaceApply at replaced
  rw [if_pos marked] at replaced
  obtain ⟨chars, all, -⟩ := map_eq_ok replaced
  exact @composed_of_replaced _ _ e.shortcuts ⟨e.memo, e.groups, false⟩ sound _ _ all

/-- A transformation changes the sheet when a directive that it reaches brings a group into use, whether or
not it succeeds. If it succeeds it tells so; if it fails it does not, so a changed sheet is always told of
just when the transformation succeeds or brings nothing into use. -/
theorem transform_sheet_ne_iff (reachable : Reachable settings e) (css : String) :
    (∀ g, g ∈ (e.transform css).2.groups ↔ g ∈ e.groups ∨ e.BringsIntoUse settings.blocklist css g) ∧
    ((e.transform css).2.sheet ≠ e.sheet ↔
      ∃ g, e.BringsIntoUse settings.blocklist css g ∧ g ∉ e.groups) ∧
    (∀ done, (e.transform css).1 = .ok done →
      (done.stale = true ↔ (e.transform css).2.sheet ≠ e.sheet)) ∧
    (((e.transform css).2.sheet ≠ e.sheet → ∃ done, (e.transform css).1 = .ok done ∧ done.stale = true) ↔
      (∃ done, (e.transform css).1 = .ok done) ∨
        ∀ g, e.BringsIntoUse settings.blocklist css g → g ∈ e.groups) := by
  obtain ⟨fresh, _, us, applied, -, registered⟩ := reachable_registered reachable
  obtain ⟨-, groups, stale⟩ :=
    @replaceApply_updated _ _ e.shortcuts ⟨e.memo, e.groups, false⟩ registered.memo css
  have more : ∀ g ∈ e.groups, g ∈ (e.applyState css).groups := fun g member => (groups g).mpr (.inl member)
  have brought : (∃ g ∈ (e.applyState css).groups, g ∉ e.groups) ↔
      ∃ g, e.BringsIntoUse settings.blocklist css g ∧ g ∉ e.groups := by
    refine exists_congr fun g => and_congr_left fun isNew => ?_
    exact (groups g).trans (or_iff_right isNew)
  have changed : (e.transform css).2.sheet ≠ e.sheet ↔
      ∃ g, e.BringsIntoUse settings.blocklist css g ∧ g ∉ e.groups := by
    rw [transform_snd, sheet_ne_iff more, brought]
  have told : ∀ done, (e.transform css).1 = .ok done →
      (done.stale = true ↔ (e.transform css).2.sheet ≠ e.sheet) := by
    intro done succeeded
    rw [stale_of_transform succeeded, changed]
    exact stale.trans (or_iff_right Bool.false_ne_true)
  refine ⟨fun g => ?_, changed, told, ?_, ?_⟩
  · rw [transform_snd]
    exact groups g
  · intro law
    refine or_iff_not_imp_right.mpr fun some => ?_
    obtain ⟨g, unused⟩ := Classical.not_forall.mp some
    obtain ⟨brings, isNew⟩ := Classical.not_imp.mp unused
    obtain ⟨done, succeeded, -⟩ := law (changed.mpr ⟨g, brings, isNew⟩)
    exact ⟨done, succeeded⟩
  · rintro (⟨done, succeeded⟩ | inUse) differs
    · exact ⟨done, succeeded, (told done succeeded).mpr differs⟩
    · obtain ⟨g, brings, isNew⟩ := changed.mp differs
      exact absurd (inUse g brings) isNew

/-! ### A failure that changes the sheet -/

def halfApplied : String :=
  " @apply spun; @apply nope;"

def spunApply : Apply :=
  ⟨' ', "spun".toList, ';'⟩

def nopeApply : Apply :=
  ⟨' ', "nope".toList, ';'⟩

theorem segments_halfApplied :
    segments applyAt? halfApplied.toList = [.directive spunApply, .directive nopeApply] := rfl

theorem read?_nope {v : Vocabulary} (own : v.entries = ownIndex) : v.read? "nope" = none := by
  have plain : TokenParts.ofToken "nope".toList = ⟨[], false, "nope".toList⟩ :=
    TokenParts.ofToken_uncut (by decide) (by decide)
  have brackets : Text.cut? ['-', '['] "nope".toList = none := by decide
  have slash : Text.cut? ['/'] "nope".toList = none := by decide
  have unknown : ownIndex.get? "nope" = none := rfl
  have rule : v.readRule? "nope".toList = none := by
    unfold Vocabulary.readRule?
    rw [String.ofList_toList, own, unknown, brackets, slash]
    rfl
  have body : v.readBody? "nope".toList = none := by
    change (v.readRule? "nope".toList).map _ = none
    rw [rule]
    rfl
  unfold Vocabulary.read?
  simp only [plain, body, List.mapM_nil, Option.pure_def, Option.bind_eq_bind, Option.bind_some,
    Option.bind_none]

theorem composed_of_spun {v : Vocabulary} (own : v.entries = ownIndex) (shortcuts : ShortcutTable) {a : Apply}
    (tokens : a.tokens = spunApply.tokens) :
    ∃ x, Composed (Memo.answer? [] v) shortcuts a x ∧ .transform ∈ x.groups := by
  have words : Text.stringWords (String.ofList a.tokens) = ["spun"] := by
    rw [tokens]
    decide
  have read : Memo.answer? [] v "spun" = some spun := Vocabulary.read?_spun own
  have simple : Composition.isComplex .css spun = false := by decide
  refine ⟨Composition.expansionOf [(Composition.ownPiece spun, [.transform])], ?_, List.mem_singleton_self _⟩
  unfold Composed
  rw [Composition.composeWith_eq, words, List.mapM_cons, List.mapM_nil, read, Composition.part_some, simple]
  rfl

theorem composed_spun {v : Vocabulary} (own : v.entries = ownIndex) (shortcuts : ShortcutTable) :
    ∃ x, Composed (Memo.answer? [] v) shortcuts spunApply x ∧ .transform ∈ x.groups :=
  composed_of_spun own shortcuts rfl

theorem not_composed_nope {v : Vocabulary} (own : v.entries = ownIndex) (shortcuts : ShortcutTable)
    (x : Expansion) : ¬Composed (Memo.answer? [] v) shortcuts nopeApply x := by
  have words : Text.stringWords (String.ofList nopeApply.tokens) = ["nope"] := by decide
  have read : Memo.answer? [] v "nope" = none := read?_nope own
  unfold Composed
  rw [Composition.composeWith_eq, words, List.mapM_cons, read]
  exact fun composed => nomatch composed

/-- The first directive brings a group into use and the second one fails: the sheet has changed, and nothing
tells so. -/
theorem halfApplied_changes_sheet :
    ∃ (e : Engine) (notices : List Notice),
      build { Settings.own with safelist := fun _ => [] } = .ok (e, notices) ∧
      (e.transform halfApplied).2.sheet ≠ e.sheet ∧
      ∃ failure, (e.transform halfApplied).1 = .error failure := by
  obtain ⟨fresh, notices, ready, own, -⟩ := prepare_own fun _ => []
  obtain ⟨e, built⟩ := build_isOk ready fun t ht => absurd ht List.not_mem_nil
  obtain ⟨_, us, again, registered, seen⟩ := build_registered built
  obtain ⟨rfl, -⟩ := Prod.mk.inj (Except.ok.inj (ready.symm.trans again))
  have own : e.vocabulary.entries = ownIndex := by rw [registered.vocabulary, own]
  have unused : ∀ g, g ∉ e.groups := by
    intro g member
    rcases (registered.groups g).mp member with used | ⟨u, hu, -⟩
    · cases used
    · have token := (seen u.token).mp ((registered.seen u.token).mpr (List.mem_map_of_mem hu))
      cases token
  obtain ⟨-, changed, -, -⟩ := transform_sheet_ne_iff (.built built) halfApplied
  refine ⟨e, notices, built, changed.mpr ⟨.transform, ?_, unused _⟩, ?_⟩
  · obtain ⟨x, composed, member⟩ := composed_spun own e.shortcuts
    unfold BringsIntoUse
    rw [segments_halfApplied]
    exact .here composed member
  · cases result : (e.transform halfApplied).1 with
    | error failure => exact ⟨failure, rfl⟩
    | ok done =>
      have marked : Text.hasMark applyMark halfApplied.toList = true := by decide
      have all := directives_compose registered.memo result marked
      rw [segments_halfApplied] at all
      obtain ⟨-, x, composed⟩ := all nopeApply (by simp)
      exact absurd composed (not_composed_nope own e.shortcuts x)

end Engine

end UtilityCss
