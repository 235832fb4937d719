import UtilityCss.Proofs.AppliedGroups
import UtilityCss.Proofs.NeededGroups
import UtilityCss.Proofs.Segments

/-!
# The header of a sheet

The header declares the default groups and the animations in use. Whatever was done with an engine before, these
are the groups that its utilities need or that a list of tokens needed when it was composed, and the animations
that its utilities name, each of them once: `sheet_eq_header`.
-/

namespace UtilityCss

/-- The utility is of a rule with animations, and the first word of its value is the name. -/
def Utility.Animates (u : Utility) (name : String) : Prop :=
  ∃ use value, u.body = .rule use ∧ use.rule.traits.keyframes = true ∧ use.value = some value ∧
    name = String.ofList (value.primary.toList.takeWhile (· ≠ ' '))

namespace Engine
open UtilityCss.Composition Directive

/-- The utility stands in the cascade, under the conditions of its at-rules. -/
def Holds (e : Engine) (u : Utility) : Prop :=
  ∃ conditions, (conditions, u) ∈ e.cascade.placed

/-- The operation composes the list of tokens. A directive composes if each one in front of it does and stands
behind a character of one byte, whatever becomes of the whole text. -/
def Operation.Composes (read : String → Option Utility) (shortcuts : ShortcutTable) : Operation → String → Prop
  | .scan _, _ => False
  | .inline text, tokens => tokens = text ∧ ∃ x, composeWith read .inline text shortcuts text = .ok x
  | .transform css, tokens => ∃ front a behind, segments applyAt? css.toList = front ++ .directive a :: behind ∧
      (∀ b, .directive b ∈ front → b.opening.utf8Size = 1 ∧ ∃ x, Composed read shortcuts b x) ∧
      tokens = String.ofList a.tokens ∧ ∃ x, Composed read shortcuts a x

/-- The operation composes a token that needs the group. -/
def Operation.Brings (settings : Settings) (e : Engine) (g : DefaultGroup) (operation : Operation) : Prop :=
  ∃ tokens, operation.Composes (Memo.answer? settings.blocklist e.vocabulary) e.shortcuts tokens ∧
    ∃ token ∈ Text.stringWords tokens, ∃ u, Memo.answer? settings.blocklist e.vocabulary token = some u ∧
      u.Needs e.vocabulary settings.shortcuts.get? g

variable {settings : Settings} {fresh e : Engine} {blocklist : List String} {us : List Utility}
  {applied : DefaultGroups} {notices : List Notice} {g : DefaultGroup}

/-! ### What a history brings into use -/

theorem applies_iff {read : String → Option Utility} {shortcuts : ShortcutTable}
    {segments : List (Segment Apply)} :
    Applies read shortcuts g segments ↔ ∃ front a behind, segments = front ++ .directive a :: behind ∧
      (∀ b, .directive b ∈ front → b.opening.utf8Size = 1 ∧ ∃ x, Composed read shortcuts b x) ∧
      ∃ x, Composed read shortcuts a x ∧ g ∈ x.groups := by
  refine Iff.trans ⟨fun applies => ?_, fun reaches => ?_⟩ reaches_iff
  · induction applies with
    | char _ ih => exact .char ih
    | here composed member => exact .here ⟨_, composed, member⟩
    | later composed narrow _ ih => exact .later ⟨narrow, _, composed⟩ ih
  · induction reaches with
    | char _ ih => exact .char ih
    | here found =>
      obtain ⟨x, composed, member⟩ := found
      exact .here composed member
    | later passed _ ih =>
      obtain ⟨narrow, x, composed⟩ := passed
      exact .later composed narrow ih

/-- Composing adds the groups of what was composed to those in use. -/
theorem composed_registered_add {memo : Memo} {groups brought : DefaultGroups}
    (h : Registered fresh blocklist us applied e) (sound : memo.Sound blocklist e.vocabulary)
    (added : ∀ g, g ∈ groups ↔ g ∈ e.groups ∨ g ∈ brought) :
    Registered fresh blocklist us (applied ++ brought) { e with memo := memo, groups := groups } where
  theme := h.theme
  vocabulary := h.vocabulary
  shortcuts := h.shortcuts
  memo := sound
  cascade := h.cascade
  meaning := h.meaning
  distinct := h.distinct
  seen := h.seen
  groups g := by
    rw [added, h.groups, List.mem_append, or_right_comm]
  keyframes := h.keyframes
  files := h.files

section Brought
variable {text css : String} (ready : prepare settings = .ok (fresh, notices))
include ready

/-- What a list of tokens composes to has the groups that one of its tokens needs. -/
theorem mem_groups_iff_needs {read : String → Option Utility} {source : Source} {context : String} {x : Expansion}
    (composed : composeWith read source context fresh.shortcuts text = .ok x) :
    g ∈ x.groups ↔ ∃ token ∈ Text.stringWords text, ∃ u, read token = some u ∧
      u.Needs fresh.vocabulary settings.shortcuts.get? g := by
  obtain ⟨expanded, grounded⟩ := prepare_expanded ready
  rw [mem_groups_of_composeWith composed]
  simp only [Shortcuts.mem_groupsOf_iff_needs expanded grounded]

theorem brings_inline_iff : (Operation.inline text).Brings settings fresh g ↔
    ∃ x, composeWith (Memo.answer? settings.blocklist fresh.vocabulary) .inline text fresh.shortcuts text = .ok x ∧
      g ∈ x.groups := by
  constructor
  · rintro ⟨_, ⟨rfl, x, composed⟩, needed⟩
    exact ⟨x, composed, (mem_groups_iff_needs ready composed).mpr needed⟩
  · rintro ⟨x, composed, member⟩
    exact ⟨text, ⟨rfl, x, composed⟩, (mem_groups_iff_needs ready composed).mp member⟩

theorem brings_transform_iff : (Operation.transform css).Brings settings fresh g ↔
    Applies (Memo.answer? settings.blocklist fresh.vocabulary) fresh.shortcuts g
      (segments applyAt? css.toList) := by
  rw [applies_iff]
  constructor
  · rintro ⟨_, ⟨front, a, behind, text, reached, rfl, x, composed⟩, needed⟩
    exact ⟨front, a, behind, text, reached, x, composed, (mem_groups_iff_needs ready composed).mpr needed⟩
  · rintro ⟨front, a, behind, text, reached, x, composed, member⟩
    exact ⟨_, ⟨front, a, behind, text, reached, rfl, x, composed⟩, (mem_groups_iff_needs ready composed).mp member⟩

/-- An operation registers utilities and brings groups into use. -/
theorem next_registered (operation : Operation) (h : Registered fresh settings.blocklist us applied e) :
    ∃ us' brought, Registered fresh settings.blocklist us' (applied ++ brought) (e.next operation) ∧
      ∀ g, g ∈ brought ↔ operation.Brings settings fresh g := by
  cases operation with
  | scan scan =>
    obtain ⟨us', after, -⟩ := scanned_registered scan h
    refine ⟨us', [], by rw [List.append_nil]; exact after, fun g => ?_⟩
    exact iff_of_false List.not_mem_nil fun ⟨_, composes, _⟩ => composes
  | inline text =>
    obtain ⟨memo, sound, run⟩ := @compose_lookUp _ _ _ .inline text e.shortcuts h.memo text
    simp only [brings_inline_iff ready, next, ← h.vocabulary, ← h.shortcuts]
    unfold applyInline
    rw [run]
    cases composeWith (Memo.answer? settings.blocklist e.vocabulary) .inline text e.shortcuts text with
    | error cause => exact ⟨us, [], composed_registered_add h sound (by simp), by simp⟩
    | ok x =>
      have added : ∀ g, g ∈ e.groups.add x.groups ↔ g ∈ e.groups ∨ g ∈ x.groups := fun _ => DefaultGroups.mem_add
      have done := composed_registered_add h sound added
      refine ⟨us, x.groups, ?_, by simp⟩
      dsimp only
      split <;> exact done
  | transform css =>
    classical
    obtain ⟨sound, groups, -⟩ := @replaceApply_updated _ _ e.shortcuts ⟨e.memo, e.groups, false⟩ h.memo css
    simp only [brings_transform_iff ready, next, transform_snd, ← h.vocabulary, ← h.shortcuts]
    have listed : ∀ g, g ∈ DefaultGroup.all.filter (fun g => Applies (Memo.answer? settings.blocklist e.vocabulary)
        e.shortcuts g (segments applyAt? css.toList)) ↔ _ := fun g => by
      rw [List.mem_filter, and_iff_right (DefaultGroup.mem_all g), decide_eq_true_eq]
    refine ⟨us, _, composed_registered_add h sound fun g => ?_, listed⟩
    exact (groups g).trans (or_congr_right (listed g).symm)

/-- A history registers utilities and brings into use what one of its operations brings. -/
theorem history_registered (operations : List Operation) (h : Registered fresh settings.blocklist us applied e) :
    ∃ us' brought, Registered fresh settings.blocklist us' (applied ++ brought) (operations.foldl next e) ∧
      ∀ g, g ∈ brought ↔ ∃ operation ∈ operations, operation.Brings settings fresh g := by
  induction operations generalizing e us applied with
  | nil => exact ⟨us, [], by rw [List.append_nil]; exact h, by simp⟩
  | cons operation operations ih =>
    obtain ⟨us', first, after, here⟩ := next_registered ready operation h
    obtain ⟨us'', later, done, behind⟩ := ih after
    refine ⟨us'', first ++ later, by rw [← List.append_assoc]; exact done, fun g => ?_⟩
    rw [List.mem_append, here, behind, List.exists_mem_cons_iff]

end Brought

/-! ### What the header says -/

theorem holds_iff {u : Utility} (h : Registered fresh blocklist us applied e) : e.Holds u ↔ u ∈ us := by
  have placed := Cascade.placed_perm h.cascade
  unfold Holds
  simp only [placed.mem_iff, List.mem_map]
  constructor
  · rintro ⟨_, _, ⟨w, member, rfl⟩, same⟩
    cases same
    exact member
  · exact fun member => ⟨_, u.placement, ⟨u, member, rfl⟩, rfl⟩

theorem keyframesOf?_eq_some_iff {theme : Theme} {u : Utility} {name : String} :
    keyframesOf? theme u = some name ↔ u.Animates name ∧ (theme.value? "keyframes" name).isSome = true := by
  unfold keyframesOf? Utility.Animates
  constructor
  · intro named
    split at named
    · rename_i rule direction order value body
      dsimp only at named
      split at named
      · rename_i known
        cases named
        obtain ⟨animated, themed⟩ := Bool.and_eq_true_iff.mp known
        exact ⟨⟨_, value, body, animated, rfl, rfl⟩, themed⟩
      · cases named
    · cases named
  · rintro ⟨⟨⟨rule, direction, order, value⟩, _, body, animated, rfl, rfl⟩, themed⟩
    rw [body]
    dsimp only
    rw [animated, themed]
    rfl

theorem brings_congr {d : Engine} {operation : Operation} (vocabulary : e.vocabulary = d.vocabulary)
    (shortcuts : e.shortcuts = d.shortcuts) : operation.Brings settings e g ↔ operation.Brings settings d g := by
  unfold Operation.Brings
  rw [vocabulary, shortcuts]

end Engine

/-! ### The text of the header -/

namespace Printer

/-- The block of some default groups, and a rule for each of some animations. -/
def headerText (theme : Theme) (groups : List DefaultGroup) (animations : List (String × String)) : String :=
  (if groups.isEmpty then ""
    else blockText "*, ::before, ::after, ::backdrop"
      (declarationLines (groups.flatMap (DefaultGroup.declarations theme))) "" ++ "\n") ++
  String.join (animations.map fun (name, body) => "@keyframes " ++ name ++ " \x7b\n  " ++ body ++ "\n\x7d\n") ++
  (if animations.isEmpty then "" else "\n")

/-- The name of an animation with what the theme has for it. -/
def animation (theme : Theme) (name : String) : String × String :=
  (name, ((theme.value? "keyframes" name).map Value.primary).getD "")

variable {p : Printer} {used : DefaultGroups} {names : List String}

theorem header_eq_headerText (known : ∀ name ∈ names, (p.theme.value? "keyframes" name).isSome = true) :
    p.header used names = headerText p.theme used.sorted (names.map (animation p.theme)) := by
  have vacant : used.isEmpty = used.sorted.isEmpty := by
    rw [Bool.eq_iff_iff, List.isEmpty_iff, List.isEmpty_iff, List.eq_nil_iff_forall_not_mem,
      List.eq_nil_iff_forall_not_mem]
    simp only [DefaultGroups.mem_sorted]
  unfold header headerText
  rw [vacant, List.map_map, List.isEmpty_map]
  refine congrArg (fun rules => _ ++ String.join rules ++ _) (List.map_congr_left fun name member => ?_)
  obtain ⟨value, themed⟩ := Option.isSome_iff_exists.mp (known name member)
  simp only [Function.comp_apply, animation, themed, Option.map_some, Option.getD_some]

theorem mem_animations_iff {theme : Theme} {name body : String}
    (known : ∀ name ∈ names, (theme.value? "keyframes" name).isSome = true) :
    (name, body) ∈ names.map (animation theme) ↔
      name ∈ names ∧ ∃ value, theme.value? "keyframes" name = some value ∧ value.primary = body := by
  rw [List.mem_map]
  constructor
  · rintro ⟨_, member, same⟩
    cases same
    obtain ⟨value, themed⟩ := Option.isSome_iff_exists.mp (known name member)
    refine ⟨member, value, themed, ?_⟩
    rw [themed]
    rfl
  · rintro ⟨member, value, themed, rfl⟩
    refine ⟨name, member, ?_⟩
    rw [animation, themed]
    rfl

end Printer

namespace Engine

variable {settings : Settings} {start : Engine} {notices : List Notice}

/-- After any history, the header declares each group once that a registered utility needs or that some
operation brought into use, and each animation once that a registered utility names and the theme has. -/
theorem sheet_eq_header (built : build settings = .ok (start, notices)) (operations : List Operation) :
    ∃ (groups : List DefaultGroup) (animations : List (String × String)),
      groups.Nodup ∧ (animations.map (·.1)).Nodup ∧
      (∀ g, g ∈ groups ↔
        (∃ u, (operations.foldl next start).Holds u ∧ u.Needs start.vocabulary settings.shortcuts.get? g) ∨
          ∃ operation ∈ operations, operation.Brings settings start g) ∧
      (∀ name body, (name, body) ∈ animations ↔
        (∃ u, (operations.foldl next start).Holds u ∧ u.Animates name) ∧
          ∃ value, start.theme.value? "keyframes" name = some value ∧ value.primary = body) ∧
      (operations.foldl next start).sheet = Printer.headerText start.theme groups animations ++
        sheetText ((operations.foldl next start).printer.sheet (operations.foldl next start).cascade) := by
  obtain ⟨fresh, us, ready, registered, -⟩ := build_registered built
  obtain ⟨expanded, grounded⟩ := prepare_expanded ready
  obtain ⟨us, applied, done, brought⟩ := history_registered ready operations registered
  rw [List.nil_append] at done
  have theme : (operations.foldl next start).theme = start.theme := done.theme.trans registered.theme.symm
  have held : ∀ {P : Utility → Prop}, (∃ u ∈ us, P u) ↔ ∃ u, (operations.foldl next start).Holds u ∧ P u := by
    simp only [holds_iff done, implies_true]
  have known : ∀ name ∈ (operations.foldl next start).keyframes.toList,
      (start.theme.value? "keyframes" name).isSome = true := by
    intro name member
    obtain ⟨u, -, named⟩ := (done.keyframes name).mp (Std.TreeSet.mem_toList.mp member)
    rw [theme] at named
    exact (keyframesOf?_eq_some_iff.mp named).2
  refine ⟨(operations.foldl next start).groups.sorted,
    (operations.foldl next start).keyframes.toList.map (Printer.animation start.theme), ?_, ?_, fun g => ?_,
    fun name body => ?_, ?_⟩
  · exact List.Nodup.filter _ (by decide)
  · rw [List.map_map]
    have names : ((·.1) ∘ Printer.animation start.theme) = id := rfl
    rw [names, List.map_id]
    exact Std.TreeSet.distinct_toList.imp fun apart same => apart (Std.LawfulEqCmp.compare_eq_iff_eq.mpr same)
  · rw [DefaultGroups.mem_sorted, done.groups, or_comm, brought]
    refine or_congr ?_ ?_
    · simp only [done.shortcuts, Shortcuts.mem_groupsOf_iff_needs expanded grounded, registered.vocabulary]
      exact held
    · simp only [brings_congr registered.vocabulary registered.shortcuts]
  · rw [Printer.mem_animations_iff known, Std.TreeSet.mem_toList, done.keyframes, theme, ← held]
    simp only [keyframesOf?_eq_some_iff]
    constructor
    · rintro ⟨⟨u, member, animates, -⟩, themed⟩
      exact ⟨⟨u, member, animates⟩, themed⟩
    · rintro ⟨⟨u, member, animates⟩, value, themed, rest⟩
      exact ⟨⟨u, member, animates, by rw [themed]; rfl⟩, value, themed, rest⟩
  · rw [← theme] at known ⊢
    exact congrArg (· ++ _) (Printer.header_eq_headerText known)

/-- The first directive of a text brings its group into the header, although the text as a whole fails. -/
theorem sheet_eq_header_of_halfApplied :
    ∃ (e : Engine) (notices : List Notice),
      build { Settings.own with safelist := fun _ => [] } = .ok (e, notices) ∧
      ∃ groups animations, .transform ∈ groups ∧
        (e.transform halfApplied).2.sheet = Printer.headerText e.theme groups animations ++
          sheetText ((e.transform halfApplied).2.printer.sheet (e.transform halfApplied).2.cascade) := by
  obtain ⟨fresh, notices, ready, own, -⟩ := prepare_own fun _ => []
  obtain ⟨e, built⟩ := build_isOk ready fun t ht => absurd ht List.not_mem_nil
  obtain ⟨_, us, again, registered, -⟩ := build_registered built
  obtain ⟨rfl, -⟩ := Prod.mk.inj (Except.ok.inj (ready.symm.trans again))
  have own : e.vocabulary.entries = ownIndex := by rw [registered.vocabulary, own]
  obtain ⟨groups, animations, -, -, needed, -, sheet⟩ := sheet_eq_header built [.transform halfApplied]
  refine ⟨e, notices, built, groups, animations, (needed .transform).mpr (.inr ⟨_, List.mem_singleton_self _, ?_⟩),
    sheet⟩
  obtain ⟨x, composed, -⟩ := composed_spun own e.shortcuts
  have words : Text.stringWords (String.ofList spunApply.tokens) = ["spun"] := by decide
  refine ⟨_, ⟨[], spunApply, [.directive nopeApply], segments_halfApplied, by simp, rfl, x, composed⟩, "spun", ?_,
    spun, Vocabulary.read?_spun own, .own rfl rfl⟩
  rw [words]
  exact List.mem_singleton_self _

end Engine

end UtilityCss
