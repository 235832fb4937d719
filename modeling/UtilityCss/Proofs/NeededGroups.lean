import UtilityCss.Proofs.Operations
import UtilityCss.Proofs.ShortcutBuild

/-!
# Groups that a utility needs

A utility needs the default group of its rule, and a shortcut those of every utility that its definition
reaches through other shortcuts. The expansions of the shortcuts hold just these groups, and what a list of
tokens composes to holds the groups that one of its tokens needs.
-/

namespace UtilityCss

/-- The rule of a utility has a default group, or the utility is a shortcut and a token of its definition
needs the group. `find` looks up definitions. -/
inductive Utility.Needs (v : Vocabulary) (find : String → Option String) (g : DefaultGroup) : Utility → Prop
  | own {u : Utility} {traits : Traits} : u.traits? = some traits → traits.group = some g → Needs v find g u
  | reached {u w : Utility} {name utilities token : String} : u.shortcut? = some name →
      find name = some utilities → token ∈ Text.stringWords utilities → v.read? token = some w →
      Needs v find g w → Needs v find g u

namespace Composition

variable {read : String → Option Utility} {source : Source} {context token text : String}
  {table : ShortcutTable} {g : DefaultGroup}

/-! ### Lists of tokens -/

/-- A token that composes brings the groups that it would bring if it were registered. -/
theorem groups_of_part {found : Option Utility} {piece : Piece × DefaultGroups}
    (done : part source context table token found = .ok piece) :
    ∃ u, found = some u ∧ piece.2 = Engine.groupsOf table u := by
  cases found with
  | none => cases done
  | some u =>
    refine ⟨u, rfl, ?_⟩
    rw [part_some] at done
    unfold Engine.groupsOf
    split at done
    · cases done
    · cases shortcut : u.shortcut? with
      | none =>
        simp only [shortcut] at done
        rw [← Except.ok.inj done]
        exact (List.append_nil _).symm
      | some name =>
        simp only [shortcut] at done
        rw [Option.bind_some]
        cases known : table.get? name with
        | none =>
          simp only [known] at done
          cases done
        | some expansion =>
          simp only [known] at done
          split at done
          · cases done
          · rw [← Except.ok.inj done]
            rfl

theorem mem_groups_of_composeWith {x : Expansion}
    (composed : composeWith read source context table text = .ok x) :
    g ∈ x.groups ↔ ∃ token ∈ Text.stringWords text, ∃ u, read token = some u ∧ g ∈ Engine.groupsOf table u := by
  rw [composeWith_eq] at composed
  obtain ⟨pieces, parted, rfl⟩ := map_eq_ok composed
  have listed := mem_iff_of_mapM_eq_ok parted
  have brought : g ∈ (expansionOf pieces).groups ↔ ∃ piece ∈ pieces, g ∈ piece.2 := by
    rw [expansionOf, DefaultGroups.mem_add, List.mem_flatMap]
    exact or_iff_right List.not_mem_nil
  rw [brought]
  constructor
  · rintro ⟨piece, member, needed⟩
    obtain ⟨token, word, done⟩ := (listed piece).mp member
    obtain ⟨u, known, groups⟩ := groups_of_part done
    exact ⟨token, word, u, known, groups ▸ needed⟩
  · rintro ⟨token, word, u, known, needed⟩
    obtain ⟨piece, done⟩ := exists_mapM_ok_iff.mp ⟨pieces, parted⟩ token word
    obtain ⟨u', known', groups⟩ := groups_of_part done
    cases known.symm.trans known'
    exact ⟨piece, (listed piece).mpr ⟨token, word, done⟩, groups ▸ needed⟩

end Composition

namespace Shortcuts
open UtilityCss.Composition

variable {v : Vocabulary} {find : String → Option String} {table : ShortcutTable} {g : DefaultGroup} {u : Utility}

/-! ### Through shortcuts -/

theorem mem_groupsOf_iff : g ∈ Engine.groupsOf table u ↔
    (∃ traits, u.traits? = some traits ∧ traits.group = some g) ∨
      ∃ name x, u.shortcut? = some name ∧ table.get? name = some x ∧ g ∈ x.groups := by
  unfold Engine.groupsOf
  rw [List.mem_append, Option.mem_toList, Option.bind_eq_some_iff]
  refine or_congr_right ?_
  constructor
  · intro member
    cases known : u.shortcut?.bind table.get? with
    | none =>
      rw [known] at member
      cases member
    | some x =>
      rw [known] at member
      obtain ⟨name, shortcut, expansion⟩ := Option.bind_eq_some_iff.mp known
      exact ⟨name, x, shortcut, expansion, member⟩
  · rintro ⟨name, x, shortcut, expansion, member⟩
    rw [shortcut, Option.bind_some, expansion]
    exact member

/-- A group in an expansion is needed by a token of the definition. -/
theorem needs_of_mem_groups {name : String} {x : Expansion} (expanded : Expanded v find table)
    (accessible : Acc (fun b a => References v find a b) name) (known : table.get? name = some x)
    (member : g ∈ x.groups) : ∃ utilities token w, find name = some utilities ∧
      token ∈ Text.stringWords utilities ∧ v.read? token = some w ∧ w.Needs v find g := by
  induction accessible generalizing x with
  | intro name _ ih =>
    cases defined : find name with
    | none =>
      rw [(expanded name).1 defined] at known
      cases known
    | some utilities =>
      obtain ⟨x', known', composed⟩ := (expanded name).2 utilities defined
      cases known.symm.trans known'
      obtain ⟨token, word, w, read, needed⟩ := (mem_groups_of_composeWith composed).mp member
      refine ⟨utilities, token, w, rfl, word, read, ?_⟩
      rcases mem_groupsOf_iff.mp needed with ⟨traits, ruled, group⟩ | ⟨b, y, shortcut, behind, further⟩
      · exact .own ruled group
      · have reference : References v find name b :=
          ⟨utilities, defined, token, word, by rw [reference?, read, Option.bind_some, shortcut]⟩
        obtain ⟨utilities', token', w', defined', word', read', needs⟩ := ih b reference behind further
        exact .reached shortcut defined' word' read' needs

/-- The groups of a registered utility are those it needs. -/
theorem mem_groupsOf_iff_needs (expanded : Expanded v find table)
    (grounded : ∀ name, (find name).isSome = true → Acc (fun b a => References v find a b) name) :
    g ∈ Engine.groupsOf table u ↔ u.Needs v find g := by
  constructor
  · intro member
    rcases mem_groupsOf_iff.mp member with ⟨traits, ruled, group⟩ | ⟨name, x, shortcut, known, further⟩
    · exact .own ruled group
    · have defined : (find name).isSome = true := by
        rw [Option.isSome_iff_ne_none]
        intro undefined
        rw [(expanded name).1 undefined] at known
        cases known
      obtain ⟨utilities, token, w, definition, word, read, needs⟩ :=
        needs_of_mem_groups expanded (grounded name defined) known further
      exact .reached shortcut definition word read needs
  · intro needs
    induction needs with
    | own ruled group => exact mem_groupsOf_iff.mpr (.inl ⟨_, ruled, group⟩)
    | reached shortcut definition word read _ ih =>
      obtain ⟨x, known, composed⟩ := (expanded _).2 _ definition
      have member := (mem_groups_of_composeWith composed).mpr ⟨_, word, _, read, ih⟩
      exact mem_groupsOf_iff.mpr (.inr ⟨_, x, shortcut, known, member⟩)

end Shortcuts

namespace Engine
open Shortcuts

/-- The shortcuts of an engine are those of its settings, all of them expanded. -/
theorem prepare_expanded {settings : Settings} {e : Engine} {notices : List Notice}
    (h : prepare settings = .ok (e, notices)) :
    Expanded e.vocabulary settings.shortcuts.get? e.shortcuts ∧
      ∀ name, (settings.shortcuts.get? name).isSome = true →
        Acc (fun b a => References e.vocabulary settings.shortcuts.get? a b) name := by
  obtain ⟨rules, entries, warnings, -, ruled, -, -, built, -⟩ := prepare_cases h
  have expanded := foldlM_expanded built
  obtain ⟨sound, -, all⟩ := foldlM_sound empty_sound built
  rw [(definitions_eq ruled).1] at expanded sound all
  refine ⟨expanded, fun name defined => sound.grounded name (all name ?_ defined)⟩
  rw [(definitions_eq ruled).2, Table.mem_keys_iff]
  exact defined

end Engine

end UtilityCss
