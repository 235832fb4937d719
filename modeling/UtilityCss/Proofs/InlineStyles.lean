import UtilityCss.Proofs.Operations
import UtilityCss.Proofs.OwnRules

/-!
# Style attributes and directives

The same list of tokens may stand in a style attribute or behind `@apply`. A style attribute takes what a directive
takes, but for what would be a nested block: `compose_inline_eq_ok_iff`. How tokens are looked up does not matter, as
long as both get the same answers.
-/

namespace UtilityCss

namespace Expansion

/-- The expansion has declarations only. -/
def IsFlat (x : Expansion) : Prop :=
  ∀ piece ∈ x.pieces, ∃ declarations, piece = .flat declarations

end Expansion

namespace Composition

variable {source : Source} {context context' token text : String} {table : ShortcutTable} {found : Option Utility}
  {piece : Piece × DefaultGroups}

/-! ### One token -/

theorem isComplex_inline_iff {u : Utility} :
    isComplex .inline u = false ↔ isComplex .css u = false ∧ u.selectorOn "&" = "&" := by
  simp [isComplex]

theorem ownPiece_isFlat_iff {u : Utility} :
    (∃ declarations, ownPiece u = .flat declarations) ↔ u.selectorOn "&" = "&" := by
  unfold ownPiece
  dsimp only
  split <;> simp_all

theorem shortcutPiece_isFlat_iff {selector : String} {x : Expansion} :
    (∃ declarations, shortcutPiece selector x = .flat declarations) ↔
      selector = "&" ∧ x.declarations?.isSome = true := by
  unfold shortcutPiece
  split <;> split <;> simp_all

/-- What a token gives once it is read as a utility that is not complex. -/
theorem part_eq_ok_iff {u : Utility} :
    part source context table token (some u) = .ok piece ↔ isComplex source u = false ∧
      ((u.shortcut? = none ∧ piece = (ownPiece u, (u.traits?.bind (·.group)).toList)) ∨
        ∃ name x, u.shortcut? = some name ∧ table.get? name = some x ∧
          (source = .inline → x.declarations?.isSome = true) ∧
          piece = (shortcutPiece (u.selectorOn "&") x, (u.traits?.bind (·.group)).toList ++ x.groups)) := by
  rw [part_some]
  cases isComplex source u with
  | true => exact iff_of_false (fun done => nomatch done) (fun ⟨simple, _⟩ => nomatch simple)
  | false =>
    rw [if_neg Bool.false_ne_true]
    cases u.shortcut? with
    | none => simp [@eq_comm _ piece]
    | some name =>
      cases known : table.get? name with
      | none => simp [known]
      | some x => cases flat : x.declarations? <;> cases source <;> simp [known, flat, @eq_comm _ piece]

/-- A token gives in a style attribute what it gives in a directive, if that is no nested block. -/
theorem part_inline_eq_ok_iff :
    part .inline context table token found = .ok piece ↔
      part .css context' table token found = .ok piece ∧ ∃ declarations, piece.1 = .flat declarations := by
  cases found with
  | none => exact iff_of_false (fun done => nomatch done) (fun ⟨done, _⟩ => nomatch done)
  | some u =>
    rw [part_eq_ok_iff, part_eq_ok_iff, isComplex_inline_iff]
    constructor
    · rintro ⟨⟨simple, own⟩, ⟨plain, rfl⟩ | ⟨name, x, shortcut, known, flat, rfl⟩⟩
      · exact ⟨⟨simple, .inl ⟨plain, rfl⟩⟩, ownPiece_isFlat_iff.mpr own⟩
      · exact ⟨⟨simple, .inr ⟨name, x, shortcut, known, nofun, rfl⟩⟩,
          shortcutPiece_isFlat_iff.mpr ⟨own, flat rfl⟩⟩
    · rintro ⟨⟨simple, ⟨plain, rfl⟩ | ⟨name, x, shortcut, known, -, rfl⟩⟩, flat⟩
      · exact ⟨⟨simple, ownPiece_isFlat_iff.mp flat⟩, .inl ⟨plain, rfl⟩⟩
      · obtain ⟨own, declared⟩ := shortcutPiece_isFlat_iff.mp flat
        exact ⟨⟨simple, own⟩, .inr ⟨name, x, shortcut, known, fun _ => declared, rfl⟩⟩

/-! ### Lists of tokens -/

section Answers
variable {σ τ : Type} {look : String → StateM σ (Option Utility)} {look' : String → StateM τ (Option Utility)}

/-- What a look-up says to tokens that it is asked for one after the other. -/
def answers (look : String → StateM σ (Option Utility)) (tokens : List String) (s : σ) : List (Option Utility) :=
  ((tokens.mapM look).run s).1

theorem answers_cons (token : String) (tokens : List String) (s : σ) :
    answers look (token :: tokens) s =
      ((look token).run s).1 :: answers look tokens ((look token).run s).2 := by
  unfold answers
  rw [List.mapM_cons, Engine.run_bind_eq, Engine.run_bind_eq]
  rfl

/-- A memo gives the same answers before and after other questions. -/
theorem answers_lookUp {blocklist : List String} {v : Vocabulary} {memo : Memo} (sound : memo.Sound blocklist v)
    (tokens : List String) :
    answers (Engine.lookUp v) tokens memo = tokens.map (Memo.answer? blocklist v) := by
  induction tokens generalizing memo with
  | nil => rfl
  | cons token tokens ih =>
    have first : ((Engine.lookUp v token).run memo).1 = Memo.answer? blocklist v token := Memo.read_fst sound
    have later : answers (Engine.lookUp v) tokens ((Engine.lookUp v token).run memo).2 = _ :=
      ih (Memo.read_sound sound)
    rw [answers_cons, first, later, List.map_cons]

/-- The parts of a list depend on the answers to its tokens and not on how they were found. -/
theorem parts_eq_answers (source : Source) (tokens : List String) (s : σ) :
    ((parts look source context table tokens).run s).1 =
      (tokens.zip (answers look tokens s)).mapM fun asked => part source context table asked.1 asked.2 := by
  induction tokens generalizing s with
  | nil => rfl
  | cons token tokens ih =>
    rw [answers_cons, List.zip_cons_cons, List.mapM_cons, parts, Engine.run_bind_eq]
    cases part source context table token ((look token).run s).1 with
    | error cause => rfl
    | ok first =>
      dsimp only
      rw [Engine.run_bind_eq, ← ih]
      cases ((parts look source context table tokens).run ((look token).run s).2).1 <;> rfl

theorem compose_eq_answers (source : Source) (text : String) (s : σ) :
    ((compose look source context table text).run s).1 =
      (((Text.stringWords text).zip (answers look (Text.stringWords text) s)).mapM fun asked =>
        part source context table asked.1 asked.2).map expansionOf := by
  rw [compose, Engine.run_bind_eq, ← parts_eq_answers]
  rfl

theorem expansionOf_isFlat_iff {pieces : List (Piece × DefaultGroups)} :
    (expansionOf pieces).IsFlat ↔ ∀ piece ∈ pieces, ∃ declarations, piece.1 = .flat declarations := by
  unfold Expansion.IsFlat expansionOf
  exact List.forall_mem_map

theorem parts_inline_eq_ok_iff {asked : List (String × Option Utility)} {pieces : List (Piece × DefaultGroups)} :
    (asked.mapM fun asked => part .inline context table asked.1 asked.2) = .ok pieces ↔
      (asked.mapM fun asked => part .css context' table asked.1 asked.2) = .ok pieces ∧
        ∀ piece ∈ pieces, ∃ declarations, piece.1 = .flat declarations :=
  mapM_eq_ok_iff_of_iff fun _ _ => part_inline_eq_ok_iff

/-- Tokens compose for a style attribute exactly when they compose for a directive without a nested block, and to the
same expansion, if both look-ups give the same answers. -/
theorem compose_inline_eq_ok_iff {s : σ} {t : τ} {x : Expansion}
    (same : answers look (Text.stringWords text) s = answers look' (Text.stringWords text) t) :
    ((compose look .inline context table text).run s).1 = .ok x ↔
      ((compose look' .css context' table text).run t).1 = .ok x ∧ x.IsFlat := by
  rw [compose_eq_answers, compose_eq_answers, ← same]
  constructor
  · intro done
    obtain ⟨pieces, composed, rfl⟩ := map_eq_ok done
    obtain ⟨composed, flat⟩ := parts_inline_eq_ok_iff.mp composed
    rw [composed]
    exact ⟨rfl, expansionOf_isFlat_iff.mpr flat⟩
  · rintro ⟨done, flat⟩
    obtain ⟨pieces, composed, rfl⟩ := map_eq_ok done
    rw [parts_inline_eq_ok_iff.mpr ⟨composed, expansionOf_isFlat_iff.mp flat⟩]
    rfl

end Answers

/-! ### A shortcut under a selector of its own -/

/-- The two rules with a shortcut for the first one in front. -/
def riseRules : List Rule :=
  .shortcut "rise" "spun" :: ownRules

def riseVocabulary : Vocabulary :=
  ⟨⟨∅, ∅⟩, (EntryIndex.progress riseRules).index, ∅⟩

def riseTable : ShortcutTable :=
  Table.empty.insert "rise" ⟨[.flat [⟨"rotate", "12deg"⟩]], [.transform]⟩

/-- The shortcut under a variant that leaves the selector as it is. -/
def risen : Utility :=
  ⟨"[&]:rise", [.onSelector (.template "&")], false, .rule ⟨.shortcut "rise" "spun", "", 0, none⟩⟩

def riseExpansion : Expansion :=
  ⟨[.flat [⟨"rotate", "12deg"⟩], .flat [⟨"margin", "0"⟩]], [.transform]⟩

theorem read?_risen : riseVocabulary.read? "[&]:rise" = some risen :=
  @Vocabulary.read?_of_known riseVocabulary "[&]:rise" "rise" ["[&]".toList] _ _
    ⟨.shortcut "rise" "spun", "", "", false, 0⟩ (by decide +kernel) rfl (by decide) rfl

theorem read?_flush_of_rise :
    riseVocabulary.read? "flush" = some ⟨"flush", [], false, .rule ⟨flushRule, "", 2, none⟩⟩ :=
  @Vocabulary.read?_of_plain riseVocabulary "flush" ⟨flushRule, "", "", false, 2⟩ (by decide) (by decide) (by decide)
    rfl

theorem compose_inline_rise :
    answers (Engine.lookUp riseVocabulary) ["[&]:rise", "flush"] (.ofBlocklist []) =
      answers (Engine.lookUp riseVocabulary) ["[&]:rise", "flush"]
        ((Memo.ofBlocklist []).read riseVocabulary "flush").2 ∧
    ((compose (Engine.lookUp riseVocabulary) .inline "[&]:rise flush" riseTable "[&]:rise flush").run
      (.ofBlocklist [])).1 = .ok riseExpansion := by
  have sound : (Memo.ofBlocklist []).Sound [] riseVocabulary := Memo.ofBlocklist_sound
  have asked := @Memo.read_sound _ _ _ "flush" sound
  have words : Text.stringWords "[&]:rise flush" = ["[&]:rise", "flush"] := by decide +kernel
  have same : answers (Engine.lookUp riseVocabulary) ["[&]:rise", "flush"] (.ofBlocklist []) =
      answers (Engine.lookUp riseVocabulary) ["[&]:rise", "flush"]
        ((Memo.ofBlocklist []).read riseVocabulary "flush").2 := by
    rw [answers_lookUp sound, answers_lookUp asked]
  refine ⟨same, ?_⟩
  have directive : ((compose (Engine.lookUp riseVocabulary) .css "@apply [&]:rise flush;" riseTable
      "[&]:rise flush").run ((Memo.ofBlocklist []).read riseVocabulary "flush").2).1 = .ok riseExpansion := by
    rw [compose_eq_answers, words, answers_lookUp asked]
    simp only [List.map_cons, List.map_nil, Memo.answer?, List.not_mem_nil, if_false, read?_risen, read?_flush_of_rise]
    rfl
  refine (compose_inline_eq_ok_iff (by rw [words, same])).mpr ⟨directive, ?_⟩
  simp [Expansion.IsFlat, riseExpansion]

end Composition

end UtilityCss
