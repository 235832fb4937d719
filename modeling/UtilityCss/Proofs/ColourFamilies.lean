import Mathlib.Data.List.DropRight
import UtilityCss.Proofs.IndexContents

/-!
# The families of a stem

On a stem with a family for colours and one for everything, the first takes custom properties and colours. It looks at
the brackets as they are written, where underscores still stand for spaces, and no text with an underscore is a colour:
`family_of_brackets`. So a colour that needs spaces goes to the other family.
-/

namespace UtilityCss

/-! ### Characters of colours -/

namespace Color
open Text

variable {c : Char} {cs rest digits : List Char}

theorem mem_dropWhile {p : Char → Bool} (kept : p c = false) (member : c ∈ cs) : c ∈ cs.dropWhile p := by
  rw [← List.takeWhile_append_dropWhile (p := p) (l := cs)] at member
  refine (List.mem_append.mp member).resolve_left fun taken => ?_
  rw [List.mem_takeWhile_imp taken] at kept
  cases kept

theorem mem_trim (visible : isBlank c = false) (member : c ∈ cs) : c ∈ trim cs := by
  have front := List.mem_reverse.mpr (mem_dropWhile visible member)
  exact List.mem_reverse.mpr (mem_dropWhile visible front)

theorem trim_eq_self {d : Char} (first : isBlank c = false) (last : isBlank d = false) :
    trim (c :: cs ++ [d]) = c :: cs ++ [d] := by
  have front : (c :: cs ++ [d]).dropWhile isBlank = c :: cs ++ [d] := List.dropWhile_cons_of_neg (by simp [first])
  rw [trim, front, List.reverse_append, List.reverse_singleton, List.singleton_append,
    List.dropWhile_cons_of_neg (by simp [last]), List.reverse_cons, List.reverse_reverse]

/-- What a number may be written with. -/
def IsNumeral (c : Char) : Prop :=
  isDecimalDigit c = true ∨ c = '.' ∨ c = '%'

theorem percentSign_append (cs : List Char) : (percentSign cs).1 ++ (percentSign cs).2 = cs := by
  unfold percentSign
  split <;> rfl

theorem eq_of_mem_percentSign (member : c ∈ (percentSign cs).1) : c = '%' := by
  unfold percentSign at member
  split at member
  · exact List.mem_singleton.mp member
  · cases member

/-- The digits behind a decimal point at the start of a text. -/
def decimals : List Char → List Char
  | '.' :: more => more.takeWhile isDecimalDigit
  | _ => []

theorem decimals_append (some : decimals cs ≠ []) :
    '.' :: decimals cs ++ cs.drop ((decimals cs).length + 1) = cs := by
  unfold decimals at some ⊢
  split
  · rename_i more
    rw [List.drop_succ_cons, drop_length_takeWhile, List.cons_append, List.takeWhile_append_dropWhile]
  · simp at some

theorem isDecimalDigit_of_mem_decimals (member : c ∈ decimals cs) : isDecimalDigit c = true := by
  unfold decimals at member
  split at member
  · exact List.mem_takeWhile_imp member
  · cases member

theorem number?_eq (cs : List Char) : number? cs =
    if (decimals (cs.dropWhile isDecimalDigit)).isEmpty then
      if (cs.takeWhile isDecimalDigit).isEmpty then none
      else
        some (cs.takeWhile isDecimalDigit ++ (percentSign (cs.dropWhile isDecimalDigit)).1,
          (percentSign (cs.dropWhile isDecimalDigit)).2)
    else
      let decimals := decimals (cs.dropWhile isDecimalDigit)
      let sign := percentSign ((cs.dropWhile isDecimalDigit).drop (decimals.length + 1))
      some (cs.takeWhile isDecimalDigit ++ '.' :: decimals ++ sign.1, sign.2) := rfl

theorem number?_eq_some (read : number? cs = some (digits, rest)) :
    cs = digits ++ rest ∧ ∀ c ∈ digits, IsNumeral c := by
  have whole := List.takeWhile_append_dropWhile (p := isDecimalDigit) (l := cs)
  have digit : ∀ c ∈ cs.takeWhile isDecimalDigit, IsNumeral c := fun c member => .inl (List.mem_takeWhile_imp member)
  have sign : ∀ cs : List Char, ∀ c ∈ (percentSign cs).1, IsNumeral c :=
    fun _ _ member => .inr (.inr (eq_of_mem_percentSign member))
  rw [number?_eq] at read
  split at read
  · split at read
    · cases read
    · obtain ⟨rfl, rfl⟩ := Prod.mk.inj (Option.some.inj read)
      refine ⟨?_, List.forall_mem_append.mpr ⟨digit, sign _⟩⟩
      rw [List.append_assoc, percentSign_append, whole]
  · rename_i point
    obtain ⟨rfl, rfl⟩ := Prod.mk.inj (Option.some.inj read)
    have cut := decimals_append (fun none => point (List.isEmpty_iff.mpr none))
    refine ⟨?_, List.forall_mem_append.mpr ⟨List.forall_mem_append.mpr ⟨digit, ?_⟩, sign _⟩⟩
    · rw [List.append_assoc, percentSign_append, List.append_assoc, cut, whole]
    · exact List.forall_mem_cons.mpr ⟨.inr (.inl rfl), fun c member => .inl (isDecimalDigit_of_mem_decimals member)⟩

/-! ### Underscores -/

theorem not_isNumeral_underscore : ¬IsNumeral '_' := by
  unfold IsNumeral
  decide

theorem isBlank_underscore : isBlank '_' = false := by
  decide

theorem underscore_mem_of_number? (read : number? cs = some (digits, rest)) (member : '_' ∈ cs) : '_' ∈ rest := by
  obtain ⟨cut, numeral⟩ := number?_eq_some read
  rw [cut] at member
  exact (List.mem_append.mp member).resolve_left fun inside => not_isNumeral_underscore (numeral _ inside)

theorem underscore_mem_of_hue? (read : hue? cs = some (digits, rest)) (member : '_' ∈ cs) : '_' ∈ rest := by
  obtain ⟨⟨number, behind⟩, numbered, read⟩ := Option.bind_eq_some_iff.mp read
  have member := underscore_mem_of_number? numbered member
  dsimp only at read
  split at read
  · rename_i unit rest' found
    cases read
    obtain ⟨unit', listed, cut⟩ := List.exists_of_findSome?_eq_some found
    obtain ⟨_, stripped, same⟩ := Option.map_eq_some_iff.mp cut
    obtain ⟨rfl, rfl⟩ := Prod.mk.inj same
    have plain : ∀ unit ∈ hueUnits, '_' ∉ unit := by decide
    rw [eq_append_of_isPrefixOf? stripped] at member
    exact (List.mem_append.mp member).resolve_left (plain _ listed)
  · cases read
    exact member

theorem underscore_mem_of_afterSeparator? (read : afterSeparator? cs = some rest) (member : '_' ∈ cs) : '_' ∈ rest := by
  have member : '_' ∈ skipBlanks cs := mem_dropWhile isBlank_underscore member
  unfold afterSeparator? at read
  split at read
  · rename_i behind comma
    cases read
    rw [comma] at member
    exact mem_dropWhile isBlank_underscore ((List.mem_cons.mp member).resolve_left (by decide))
  · split at read
    · cases read
      exact member
    · cases read

theorem underscore_notMem_of_closing? {alpha : Option String} (read : closing? cs = some alpha) : '_' ∉ cs := by
  intro member
  have member : '_' ∈ skipBlanks cs := mem_dropWhile isBlank_underscore member
  unfold closing? at read
  split at read
  · rename_i closed
    rw [closed] at member
    exact absurd member (by decide)
  · rename_i c behind _ opened
    split at read
    · rename_i slash
      obtain ⟨⟨number, rest⟩, numbered, read⟩ := Option.bind_eq_some_iff.mp read
      rw [opened] at member
      have inside : '_' ∈ behind := (List.mem_cons.mp member).resolve_left (by rintro rfl; simp at slash)
      have member := underscore_mem_of_number? numbered (mem_dropWhile isBlank_underscore inside)
      dsimp only at read
      split at read
      · rename_i closed
        have member : '_' ∈ skipBlanks rest := mem_dropWhile isBlank_underscore member
        rw [closed] at member
        exact absurd member (by decide)
      · cases read
    · cases read
  · cases read

/-- The first channel: a number, or a hue. -/
def firstChannel? : ColorMode → List Char → Option (List Char × List Char)
  | .rgb => number?
  | .hsl => hue?

theorem arguments?_eq (mode : ColorMode) (cs : List Char) : arguments? mode cs = do
    let (first, rest) ← firstChannel? mode (skipBlanks cs)
    let (second, rest) ← number? (← afterSeparator? rest)
    let (third, rest) ← number? (← afterSeparator? rest)
    let alpha ← closing? rest
    return ⟨mode, String.ofList first, String.ofList second, String.ofList third, alpha⟩ := by
  cases mode <;> rfl

theorem underscore_mem_of_firstChannel? {mode : ColorMode} (read : firstChannel? mode cs = some (digits, rest))
    (member : '_' ∈ cs) : '_' ∈ rest := by
  cases mode with
  | rgb => exact underscore_mem_of_number? read member
  | hsl => exact underscore_mem_of_hue? read member

theorem underscore_notMem_of_arguments? {mode : ColorMode} {color : Color} (read : arguments? mode cs = some color) :
    '_' ∉ cs := by
  intro member
  rw [arguments?_eq] at read
  simp only [Option.bind_eq_bind, Option.bind_eq_some_iff] at read
  obtain ⟨_, first, _, cut, _, second, _, cut', _, third, _, closed, -⟩ := read
  have member := underscore_mem_of_firstChannel? first (mem_dropWhile isBlank_underscore member)
  have member := underscore_mem_of_number? second (underscore_mem_of_afterSeparator? cut member)
  have member := underscore_mem_of_number? third (underscore_mem_of_afterSeparator? cut' member)
  exact underscore_notMem_of_closing? closed member

theorem underscore_notMem_of_ofFunction? {color : Color} (read : ofFunction? cs = some color) : '_' ∉ cs := by
  unfold ofFunction? at read
  split at read
  case h_5 => cases read
  all_goals
    have inside := underscore_notMem_of_arguments? read
    simp [inside]

theorem underscore_notMem_of_ofHexDigits? {color : Color} (read : ofHexDigits? cs = some color) : '_' ∉ cs := by
  unfold ofHexDigits? at read
  split at read
  · rename_i digits
    intro member
    exact absurd (List.all_eq_true.mp digits _ member) (by decide)
  · cases read

theorem isLower_of_keyword : ∀ keyword ∈ keywords, ∀ c ∈ keyword.toList, c.isLower = true := by
  have lower : keywords.all (fun keyword => keyword.toList.all Char.isLower) = true := by decide +kernel
  exact fun keyword listed => List.all_eq_true.mp (List.all_eq_true.mp lower keyword listed)

/-- What is read as a colour has no underscore in it. -/
theorem underscore_notMem_of_isColor {s : String} (colour : isColor s = true) : '_' ∉ s.toList := by
  intro member
  have member := mem_trim isBlank_underscore member
  rcases Bool.or_eq_true_iff.mp colour with channels | keyword
  · obtain ⟨color, read⟩ := Option.isSome_iff_exists.mp channels
    unfold parse? at read
    split at read
    · rename_i transparent
      rw [transparent] at member
      exact absurd member (by decide)
    · rename_i digits hex
      rw [hex] at member
      exact underscore_notMem_of_ofHexDigits? read ((List.mem_cons.mp member).resolve_left (by decide))
    · exact underscore_notMem_of_ofFunction? read member
  · have listed := List.contains_iff_mem.mp keyword
    have lowered : '_' ∈ (trim s.toList).map Char.toLower := List.mem_map.mpr ⟨'_', member, by decide⟩
    rw [← String.toList_ofList (l := (trim s.toList).map Char.toLower)] at lowered
    exact absurd (isLower_of_keyword _ listed _ lowered) (by decide)

end Color

/-! ### Values in brackets -/

/-- A reference to a custom property. -/
def IsReference (value : String) : Prop :=
  ∃ name : List Char, value = "var(--" ++ String.ofList name ++ ")"

theorem isColor_of_isReference {value : String} (reference : IsReference value) : Color.isColor value = false := by
  obtain ⟨name, rfl⟩ := reference
  have text : ("var(--" ++ String.ofList name ++ ")").toList = 'v' :: ("ar(--".toList ++ name) ++ [')'] := by
    simp
  have trimmed : Text.trim ('v' :: ("ar(--".toList ++ name) ++ [')']) = 'v' :: ("ar(--".toList ++ name) ++ [')'] :=
    Color.trim_eq_self (by decide) (by decide)
  rw [← text] at trimmed
  have channels : Color.parse? ("var(--" ++ String.ofList name ++ ")") = none := by
    unfold Color.parse?
    rw [trimmed, text]
    rfl
  rw [Color.isColor, channels, Option.isSome_none, Bool.false_or, ← Bool.not_eq_true, List.contains_iff_mem]
  intro listed
  refine absurd (Color.isLower_of_keyword _ listed '(' ?_) (by decide)
  rw [trimmed, text, String.toList_ofList]
  exact List.mem_map.mpr ⟨'(', by simp, by decide⟩

namespace Vocabulary

variable {raw : List Char}

theorem isReference_bracketValue (hyphens : ['-', '-'] <+: raw) : IsReference (bracketValue raw) := by
  obtain ⟨name, rfl⟩ := hyphens
  refine ⟨name, ?_⟩
  rw [bracketValue, if_pos (List.isPrefixOf_iff_prefix.mpr (List.prefix_append _ _)), ← String.toList_inj]
  simp

theorem bracketValue_of_notMem (bare : ¬['-', '-'] <+: raw) (absent : '_' ∉ raw) :
    bracketValue raw = String.ofList raw := by
  have same : Text.exchange '_' ' ' raw = raw := by
    unfold Text.exchange
    conv => rhs; rw [← List.map_id raw]
    exact List.map_congr_left fun c member => if_neg (ne_of_mem_of_not_mem member absent)
  rw [bracketValue, if_neg (fun hyphens => bare (List.isPrefixOf_iff_prefix.mp hyphens)), same]

end Vocabulary

/-! ### Two families on a stem -/

namespace BracketFamily

variable {ink : BracketFamily} {raw : List Char}

/-- The use of a rule comes from the family. -/
def Takes (family : BracketFamily) (use : RuleUse) : Prop :=
  use.rule = family.rule ∧ use.direction = family.direction ∧ use.order = family.order

/-- A family for colours takes custom properties, and colours written without underscores. -/
theorem accepts_iff (colours : ink.colorOnly = true) : ink.accepts raw = true ↔
    ['-', '-'] <+: raw ∨ Color.isColor (Vocabulary.bracketValue raw) = true ∧ '_' ∉ raw := by
  rw [accepts, colours, Bool.not_true, Bool.false_or, Bool.or_eq_true, List.isPrefixOf_iff_prefix]
  by_cases bare : ['-', '-'] <+: raw
  · simp [bare]
  · rw [or_iff_right bare, or_iff_right bare]
    constructor
    · intro colour
      have absent := Color.underscore_notMem_of_isColor colour
      rw [String.toList_ofList] at absent
      rw [Vocabulary.bracketValue_of_notMem bare absent]
      exact ⟨colour, absent⟩
    · rintro ⟨colour, absent⟩
      rwa [Vocabulary.bracketValue_of_notMem bare absent] at colour

end BracketFamily

namespace EntryIndex

variable {rules : List Rule} {index : EntryIndex} {warnings : List Warning} {stem : String} {ink other : BracketFamily}

/-- A family for colours and another one are all that a stem has, in this order. -/
theorem families_eq_pair (built : build rules = .ok (index, warnings)) (listed : ink ∈ index.families stem)
    (colours : ink.colorOnly = true) (beside : other ∈ index.families stem) (all : other.colorOnly = false) :
    index.families stem = [ink, other] := by
  have fits := build_isOk_iff.mp ⟨_, built⟩ stem
  obtain rfl := eq_progress_of_build built
  rw [families_progress] at fits listed beside ⊢
  have inks : ink ∈ ((familiesOf rules stem).filter (·.colorOnly)).reverse :=
    (List.mem_append.mp listed).resolve_right fun wrong => by simp [colours] at wrong
  have others : other ∈ (familiesOf rules stem).filter (!·.colorOnly) :=
    (List.mem_append.mp beside).resolve_left fun wrong => by simp [all] at wrong
  have some := List.length_pos_of_mem inks
  have more := List.length_pos_of_mem others
  rw [List.length_append] at fits
  obtain ⟨x, one⟩ := List.length_eq_one_iff.mp (Nat.le_antisymm (by omega) some)
  obtain ⟨y, two⟩ := List.length_eq_one_iff.mp (Nat.le_antisymm (by omega) more)
  rw [one] at inks
  rw [two] at others
  rw [one, two, List.mem_singleton.mp inks, List.mem_singleton.mp others]
  rfl

theorem order_ne_of_pair (built : build rules = .ok (index, warnings)) (pair : index.families stem = [ink, other]) :
    ink.order ≠ other.order := by
  obtain rfl := eq_progress_of_build built
  have distinct : ((familiesOf rules stem).map (·.order)).Nodup :=
    List.pairwise_map.mpr ((pairwise_familiesOf rules stem).imp Nat.ne_of_lt)
  have distinct := ((perm_families_progress rules stem).map (·.order)).nodup_iff.mpr distinct
  rw [pair] at distinct
  simpa using distinct

end EntryIndex

namespace Vocabulary
open Text

variable {v : Vocabulary} {rules : List Rule} {warnings : List Warning} {cs stem body raw : List Char}
  {modifier : Option (List Char)} {use : RuleUse} {ink other : BracketFamily}

/-- A text is no class name, and is read as a stem with a value in brackets. -/
structure ReadsBrackets (v : Vocabulary) (cs stem raw : List Char) (modifier : Option (List Char)) (use : RuleUse) :
    Prop where
  unlisted : v.entries.get? (String.ofList cs) = none
  cut : ∃ body, cut? ['-', '['] cs = some (stem, body) ∧ cutBrackets? body = some (raw, modifier)
  read : v.readRule? cs = some use

theorem takes_of_readsBrackets (reads : v.ReadsBrackets cs stem raw modifier use) :
    ∃ family, (v.entries.families (String.ofList stem)).find? (·.accepts raw) = some family ∧ family.Takes use ∧
      (modifier = none → use.value = some (.plain (bracketValue raw))) := by
  obtain ⟨unlisted, ⟨body, outer, inner⟩, read⟩ := reads
  simp only [readRule?, unlisted, outer, readBrackets?, inner, Option.bind_eq_bind, Option.bind_some] at read
  split at read
  · cases read
  · obtain ⟨family, found, read⟩ := Option.bind_eq_some_iff.mp read
    refine ⟨family, found, ?_⟩
    cases modifier with
    | none =>
      cases read
      exact ⟨⟨rfl, rfl, rfl⟩, fun _ => rfl⟩
    | some modifier =>
      obtain ⟨value, -, made⟩ := Option.bind_eq_some_iff.mp read
      cases made
      exact ⟨⟨rfl, rfl, rfl⟩, fun unmodified => absurd unmodified (Option.some_ne_none modifier)⟩

/-- On a stem with a family for colours and one for everything, the first takes what starts as a custom property and the
colours that are written without underscores, and the other one takes the rest. So the value decides, but for two kinds
of texts: colours whose spaces are written as underscores, and references that are written out. -/
theorem family_of_brackets (built : EntryIndex.build rules = .ok (v.entries, warnings))
    (listed : ink ∈ v.entries.families (String.ofList stem)) (colours : ink.colorOnly = true)
    (beside : other ∈ v.entries.families (String.ofList stem)) (all : other.colorOnly = false)
    (reads : v.ReadsBrackets cs stem raw modifier use) :
    (modifier = none → use.value = some (.plain (bracketValue raw))) ∧
    (ink.Takes use ↔ ['-', '-'] <+: raw ∨ Color.isColor (bracketValue raw) = true ∧ '_' ∉ raw) ∧
    (other.Takes use ↔ ¬ink.Takes use) ∧
    ((ink.Takes use ↔ IsReference (bracketValue raw) ∨ Color.isColor (bracketValue raw) = true) ↔
      ['-', '-'] <+: raw ∨
        ¬IsReference (bracketValue raw) ∧ ('_' ∈ raw → Color.isColor (bracketValue raw) = false)) := by
  obtain ⟨family, found, takes, value⟩ := takes_of_readsBrackets reads
  have pair := EntryIndex.families_eq_pair built listed colours beside all
  have apart := EntryIndex.order_ne_of_pair built pair
  have not_both : ink.Takes use → ¬other.Takes use := fun mine theirs => apart (mine.2.2.symm.trans theirs.2.2)
  have chosen : (ink.Takes use ↔ ink.accepts raw = true) ∧ (other.Takes use ↔ ¬ink.Takes use) := by
    rw [pair, List.find?_cons] at found
    cases accepted : ink.accepts raw with
    | true =>
      rw [accepted] at found
      obtain rfl := Option.some.inj found
      exact ⟨iff_of_true takes rfl, iff_of_false (not_both takes) (not_not_intro takes)⟩
    | false =>
      have everything : other.accepts raw = true := by rw [BracketFamily.accepts, all]; rfl
      rw [accepted, List.find?_cons, everything] at found
      obtain rfl := Option.some.inj found
      have refused : ¬ink.Takes use := fun mine => not_both mine takes
      exact ⟨iff_of_false refused Bool.false_ne_true, iff_of_true takes refused⟩
  have exact := chosen.1.trans (BracketFamily.accepts_iff colours)
  refine ⟨value, exact, chosen.2, ?_⟩
  rw [exact]
  by_cases hyphens : ['-', '-'] <+: raw
  · exact iff_of_true (iff_of_true (.inl hyphens) (.inl (isReference_bracketValue hyphens))) (.inl hyphens)
  · rw [or_iff_right hyphens, or_iff_right hyphens]
    -- A reference that is written out is no colour, so only the value would send it to the colours.
    by_cases reference : IsReference (bracketValue raw)
    · simp [reference, isColor_of_isReference reference]
    · by_cases colour : Color.isColor (bracketValue raw) = true <;> simp [reference, colour]

/-! ### A colour with spaces -/

def tintRule : Rule :=
  .keyed "tint" ∅ (fun value => [⟨"color", value.primary⟩]) { brackets := .colorOnly }

def sizeRule : Rule :=
  .keyed "tint" ∅ (fun value => [⟨"background-size", value.primary⟩]) { brackets := .any }

def tintVocabulary : Vocabulary :=
  ⟨⟨∅, ∅⟩, (EntryIndex.progress [tintRule, sizeRule]).index, ∅⟩

def tintFamily : BracketFamily :=
  ⟨tintRule, "", true, 0⟩

def sizeFamily : BracketFamily :=
  ⟨sizeRule, "", false, 1⟩

/-- The value is a colour, and the family for everything takes it, since in the brackets it has underscores. -/
theorem family_of_spaced_colour : ∃ use,
    tintVocabulary.ReadsBrackets "tint-[rgb(1_2_3)]".toList "tint".toList "rgb(1_2_3)".toList none use ∧
      use.value = some (.plain "rgb(1 2 3)") ∧ Color.isColor "rgb(1 2 3)" = true ∧ sizeFamily.Takes use ∧
      ¬tintFamily.Takes use := by
  have built : EntryIndex.build [tintRule, sizeRule] = .ok (tintVocabulary.entries, []) := rfl
  have families : tintVocabulary.entries.families "tint" = [tintFamily, sizeFamily] := rfl
  have reads : tintVocabulary.ReadsBrackets "tint-[rgb(1_2_3)]".toList "tint".toList "rgb(1_2_3)".toList none
      ⟨sizeRule, "", 1, some (.plain "rgb(1 2 3)")⟩ :=
    ⟨rfl, ⟨"rgb(1_2_3)]".toList, by decide, by decide⟩, rfl⟩
  have value : bracketValue "rgb(1_2_3)".toList = "rgb(1 2 3)" := by decide
  have colour : Color.isColor "rgb(1 2 3)" = true := by decide
  obtain ⟨written, mine, theirs, -⟩ := @family_of_brackets tintVocabulary [tintRule, sizeRule] [] _ _ _ _ _ tintFamily
    sizeFamily built (by rw [String.ofList_toList, families]; exact List.mem_cons_self) rfl
    (by rw [String.ofList_toList, families]; exact List.mem_cons_of_mem _ List.mem_cons_self) rfl reads
  have refused : ¬tintFamily.Takes ⟨sizeRule, "", 1, some (.plain "rgb(1 2 3)")⟩ := by
    rw [mine]
    decide
  exact ⟨_, reads, by rw [written rfl, value], colour, theirs.mpr refused, refused⟩

end Vocabulary

end UtilityCss
