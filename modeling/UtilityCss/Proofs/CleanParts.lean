import UtilityCss.Proofs.ClassNames
import UtilityCss.Proofs.ColourTexts
import UtilityCss.Proofs.Modifiers
import UtilityCss.Proofs.NestedSelectors
import UtilityCss.Proofs.VariantPrefix

/-!
# Parts that are clean

What a token of a source writes into a sheet: its class name, values and modifiers in brackets, a property with its
value, and variants in brackets. No character of a token could end a block, a declaration, a string or a line, and what
is made of them has no such character either: `extracted_parts_clean`.
-/

namespace UtilityCss

/-! ### Clean texts -/

namespace Text

/-- A brace, a semicolon, a quote, or a blank other than the space, line breaks among them: what could end a block, a
declaration, a string or a line. -/
def isBreaking (c : Char) : Bool :=
  ['\x7b', '\x7d', ';', '"', Token.singleQuote].contains c || (isBlank c && c != ' ')

def IsClean (cs : List Char) : Prop :=
  ∀ c ∈ cs, isBreaking c = false

instance : DecidablePred IsClean :=
  fun cs => List.decidableBAll (isBreaking · = false) cs

variable {c old new : Char} {a b cs : List Char}

theorem isClean_append_iff : IsClean (a ++ b) ↔ IsClean a ∧ IsClean b :=
  List.forall_mem_append

theorem isClean_cons_iff : IsClean (c :: cs) ↔ isBreaking c = false ∧ IsClean cs :=
  List.forall_mem_cons

theorem IsClean.subset (clean : IsClean cs) (part : a ⊆ cs) : IsClean a :=
  fun c member => clean c (part member)

theorem isClean_exchange (clean : IsClean cs) (unbroken : isBreaking new = false) : IsClean (exchange old new cs) := by
  intro c member
  obtain ⟨d, inside, rfl⟩ := List.mem_map.mp member
  split
  · exact unbroken
  · exact clean d inside

theorem trim_subset (cs : List Char) : trim cs ⊆ cs := by
  intro c member
  have front := (List.dropWhile_sublist _).subset (List.mem_reverse.mp member)
  exact (List.dropWhile_sublist _).subset (List.mem_reverse.mp front)

theorem isClean_escapeClass (clean : IsClean cs) : IsClean (escapeClass cs) := by
  have marks : IsClean (escapeMarks cs) := by
    intro c member
    obtain ⟨d, inside, escaped⟩ := List.mem_flatMap.mp member
    have backslash : isBreaking '\\' = false := by decide
    split at escaped
    · rcases List.mem_cons.mp escaped with rfl | same
      · exact backslash
      · rw [List.mem_singleton.mp same]
        exact clean d inside
    · rw [List.mem_singleton.mp escaped]
      exact clean d inside
  unfold escapeClass
  split
  · split
    · exact isClean_cons_iff.mpr ⟨by decide, marks⟩
    · exact marks
  · exact marks

theorem isClean_bracketValue (clean : IsClean cs) : IsClean (Vocabulary.bracketValue cs).toList := by
  unfold Vocabulary.bracketValue
  split
  · simp only [String.toList_append, String.toList_ofList, isClean_append_iff]
    exact ⟨⟨by decide, clean⟩, by decide⟩
  · rw [String.toList_ofList]
    exact isClean_exchange clean (by decide)

end Text

/-! ### Tokens -/

namespace Token
open Text

theorem isClean_of_mem_extract {source token : String} (member : token ∈ extract source) : IsClean token.toList := by
  rw [← String.ofList_toList (s := token)] at member
  have unbordered := uncut_of_mem_extract member
  have usual := isUsual_of_shape (shape_of_mem_extract member)
  intro c inside
  have plain := unbordered c inside
  simp only [isBorder, Bool.or_eq_false_iff, beq_eq_false_iff_ne] at plain
  obtain ⟨⟨⟨⟨unblank, double⟩, single⟩, -⟩, closing⟩ := plain
  -- Neither the opening brace nor the semicolon is a border, but no pattern of a token takes them.
  have opening : c ≠ '\x7b' := by
    rintro rfl
    exact absurd (usual _ inside) (by decide)
  have semicolon : c ≠ ';' := by
    rintro rfl
    exact absurd (usual _ inside) (by decide)
  simp [isBreaking, unblank, double, single, closing, opening, semicolon]

end Token

namespace TokenParts
open Text

theorem ofToken_subset (cs : List Char) : (∀ p ∈ (ofToken cs).variants, p ⊆ cs) ∧ (ofToken cs).body ⊆ cs := by
  induction size : cs.length using Nat.strongRecOn generalizing cs with
  | ind n ih =>
    by_cases marked : cs.head? = some '!'
    · obtain ⟨rest, rfl⟩ := List.head?_eq_some_iff.mp marked
      rw [ofToken_marked]
      exact ⟨by simp, List.subset_cons_self _ _⟩
    · cases cut : cutVariant? 0 cs with
      | none =>
        rw [ofToken_uncut marked cut]
        exact ⟨by simp, List.Subset.refl _⟩
      | some halves =>
        obtain ⟨p, t⟩ := halves
        have whole := eq_of_cutVariant? cut
        have shorter : t.length < n := by
          rw [← size, whole, List.length_append, List.length_cons]
          omega
        obtain ⟨variants, body⟩ := ih _ shorter t rfl
        have front : p ⊆ cs := by
          rw [whole]
          exact List.subset_append_left _ _
        have behind : t ⊆ cs := by
          rw [whole]
          exact List.Subset.trans (List.subset_cons_self _ _) (List.subset_append_right _ _)
        rw [ofToken_cut marked cut]
        exact ⟨List.forall_mem_cons.mpr ⟨front, fun q member => List.Subset.trans (variants q member) behind⟩,
          List.Subset.trans body behind⟩

end TokenParts

/-! ### Variants -/

def SelectorChange.text : SelectorChange → String
  | .suffix text => text
  | .ancestor text => text
  | .sibling text => text
  | .template text => text

/-- What a variant puts into a sheet: the change of a selector, a condition, or what a feature query checks. -/
def Variant.text : Variant → String
  | .onSelector change => change.text
  | .atRule _ condition => condition
  | .supports _ check => check

namespace VariantTable
open Text

variable {theme : Theme} {cs content p : List Char} {w : Variant}

/-- A variant that is brackets alone, or a name with a value in brackets. -/
def InBrackets (p : List Char) : Prop :=
  p.head? = some '[' ∨ ['-', '['] <:+: p

theorem isClean_attribute (scope : Scope) {name : String} (named : IsClean name.toList) (clean : IsClean content) :
    IsClean (scope.change ("[" ++ name ++ "-" ++ String.ofList content ++ "]")).text.toList := by
  have state : IsClean ("[" ++ name ++ "-" ++ String.ofList content ++ "]").toList := by
    simp only [String.toList_append, String.toList_ofList, isClean_append_iff]
    exact ⟨⟨⟨⟨by decide, named⟩, by decide⟩, clean⟩, by decide⟩
  cases scope with
  | own => exact state
  | group =>
    rw [Scope.change, SelectorChange.text, String.toList_append]
    exact isClean_append_iff.mpr ⟨by decide, state⟩
  | peer =>
    rw [Scope.change, SelectorChange.text, String.toList_append]
    exact isClean_append_iff.mpr ⟨by decide, state⟩

theorem exists_dynamics_eq (theme : Theme) : ∃ least most queries : Rank, (ofTheme theme).dynamics =
    .ofList ([("min", .minWidth least), ("max", .maxWidth most), ("supports", .supports queries)] ++
      attributeBrackets "aria" ++ attributeBrackets "data") := by
  unfold ofTheme
  dsimp only
  exact ⟨_, _, _, rfl⟩

theorem isClean_dynamic {dynamic : DynamicVariant} {name : String}
    (listed : (ofTheme theme).dynamics.get? name = some dynamic) (clean : IsClean content) :
    IsClean (dynamic.resolve (String.ofList content)).text.toList := by
  have between : ∀ front back : String, IsClean front.toList → IsClean back.toList →
      IsClean (front ++ String.ofList content ++ back).toList := by
    intro front back opens closes
    simp only [String.toList_append, String.toList_ofList, isClean_append_iff]
    exact ⟨⟨opens, clean⟩, closes⟩
  obtain ⟨least, most, queries, dynamics⟩ := exists_dynamics_eq theme
  rw [dynamics] at listed
  rcases List.mem_append.mp (Table.mem_of_get?_ofList listed) with early | data
  · rcases List.mem_append.mp early with width | aria
    · simp only [List.mem_cons, Prod.mk.injEq, List.not_mem_nil, or_false] at width
      rcases width with ⟨-, rfl⟩ | ⟨-, rfl⟩ | ⟨-, rfl⟩
      · exact between "@media (min-width: " ")" (by decide) (by decide)
      · exact between "@media (max-width: " ")" (by decide) (by decide)
      · rw [DynamicVariant.resolve, Variant.text]
        split
        · rw [String.toList_ofList]
          exact clean
        · rw [String.toList_append, String.toList_ofList]
          exact isClean_append_iff.mpr ⟨clean, by decide⟩
    · obtain ⟨scope, -, same⟩ := List.mem_map.mp aria
      cases same
      exact isClean_attribute scope (by decide) clean
  · obtain ⟨scope, -, same⟩ := List.mem_map.mp data
    cases same
    exact isClean_attribute scope (by decide) clean

theorem withoutParentheses_subset (cs : List Char) : withoutParentheses cs ⊆ cs := by
  unfold withoutParentheses
  split
  · rename_i inner
    cases closed : unclose? ')' inner with
    | none => exact List.Subset.refl _
    | some content =>
      rw [unclose?_eq_some_iff.mp closed, Option.getD_some]
      exact List.Subset.trans (List.subset_append_left _ _) (List.subset_cons_self _ _)
  · exact List.Subset.refl _

theorem isClean_bracketed (read : bracketed? content = some w) (clean : IsClean content) : IsClean w.text.toList := by
  have spaced : ∀ {part : List Char}, part ⊆ content → IsClean (exchange '_' ' ' part) := fun part =>
    isClean_exchange (clean.subset part) (by decide)
  unfold bracketed? at read
  split at read
  · cases read
    rw [Variant.text, SelectorChange.text, String.toList_ofList]
    exact spaced (List.Subset.refl _)
  split at read
  · rename_i media isMedia
    have part : media ⊆ content := by
      rw [eq_append_of_isPrefixOf? isMedia]
      exact List.subset_append_right _ _
    dsimp only at read
    split at read
    · cases read
    · cases read
      have condition : IsClean (trim (exchange '_' ' ' media)) := (spaced part).subset (trim_subset _)
      simp only [Variant.text, String.toList_append, String.toList_ofList, isClean_append_iff]
      exact ⟨by decide, condition⟩
  split at read
  · rename_i check isCheck
    have part : check ⊆ content := by
      rw [eq_append_of_isPrefixOf? isCheck]
      exact List.subset_append_right _ _
    dsimp only at read
    split at read
    · cases read
    · cases read
      rw [Variant.text, String.toList_ofList]
      exact ((spaced part).subset (trim_subset _)).subset (withoutParentheses_subset _)
  · cases read

/-- What a variant in brackets puts into a sheet is clean if its own text is. -/
theorem isClean_of_resolve? (read : (ofTheme theme).resolve? p = some w) (brackets : InBrackets p)
    (clean : IsClean p) : IsClean w.text.toList := by
  unfold resolve? at read
  split at read
  · rename_i inner
    obtain ⟨content, closed, read⟩ := Option.bind_eq_some_iff.mp read
    rw [unclose?_eq_some_iff.mp closed] at clean
    exact isClean_bracketed read (isClean_append_iff.mp (isClean_cons_iff.mp clean).2).1
  · rename_i unopened
    split at read
    · rename_i name body cut
      obtain ⟨content, closed, read⟩ := Option.bind_eq_some_iff.mp read
      split at read
      · cases read
      · obtain ⟨dynamic, listed, made⟩ := Option.bind_eq_some_iff.mp read
        cases made
        rw [eq_of_cut? cut, unclose?_eq_some_iff.mp closed] at clean
        refine isClean_dynamic listed (isClean_exchange ?_ (by decide))
        exact (isClean_append_iff.mp (isClean_append_iff.mp clean).2).1
    · rename_i uncut
      rcases brackets with opened | inside
      · obtain ⟨inner, rfl⟩ := List.head?_eq_some_iff.mp opened
        exact absurd rfl (unopened inner)
      · exact absurd inside (cut?_eq_none_iff.mp uncut)

end VariantTable

/-! ### Colours -/

namespace Color
open Text

variable {number : List Char} {color : Color}

theorem isBreaking_of_isNumeral {c : Char} (numeral : IsNumeral c) : isBreaking c = false := by
  have others : ['\x7b', '\x7d', ';', '"', Token.singleQuote].all (¬IsNumeral ·) = true := by decide
  have outside : ['\x7b', '\x7d', ';', '"', Token.singleQuote].contains c = false := by
    refine Bool.eq_false_iff.mpr fun listed => ?_
    exact of_decide_eq_true (List.all_eq_true.mp others c (List.contains_iff_mem.mp listed)) numeral
  rw [isBreaking, outside, isBlank_of_isNumeral numeral]
  rfl

theorem isClean_of_isNumber (written : IsNumber number) : IsClean number := by
  have digit : ∀ {digits : List Char}, (∀ c ∈ digits, isDecimalDigit c = true) → IsClean digits :=
    fun digits c member => isBreaking_of_isNumeral (.inl (digits c member))
  have sign : ∀ {sign : List Char}, IsSign sign → IsClean sign := by
    rintro _ (rfl | rfl) <;> decide
  cases written with
  | whole _ digits signed => exact isClean_append_iff.mpr ⟨digit digits, sign signed⟩
  | point digits _ decimals signed =>
    refine isClean_append_iff.mpr ⟨isClean_append_iff.mpr ⟨digit digits, ?_⟩, sign signed⟩
    exact isClean_cons_iff.mpr ⟨by decide, digit decimals⟩

theorem isClean_of_isHue (written : IsHue number) : IsClean number := by
  cases written with
  | plain digits => exact isClean_of_isNumber digits
  | angle digits unit =>
    have units : ∀ unit ∈ hueUnits, IsClean unit := by decide
    exact isClean_append_iff.mpr ⟨isClean_of_isNumber digits, units _ unit⟩

/-- Channels are numbers, so a colour is clean if the alpha channel that is put onto it is. -/
theorem isClean_withAlpha {alpha : String} (written : color.Written) (clean : IsClean alpha.toList) :
    IsClean (color.withAlpha alpha).text.toList := by
  have first : IsClean color.first.toList := by
    have channel := written.first
    cases mode : color.mode with
    | rgb => exact isClean_of_isNumber (by rwa [mode] at channel)
    | hsl => exact isClean_of_isHue (by rwa [mode] at channel)
  have mode : IsClean (modeText color.mode).toList := by cases color.mode <;> decide
  have space : isBreaking ' ' = false := by decide
  simp only [toList_text, inner, withAlpha, closing, isClean_append_iff, isClean_cons_iff]
  exact ⟨mode, by decide, first, space, isClean_of_isNumber written.second, space, isClean_of_isNumber written.third,
    space, by decide, space, clean, by decide⟩

end Color

/-! ### Values -/

namespace Vocabulary
open Text

variable {v : Vocabulary} {cs base raw stem body name : List Char} {content : Option (List Char)} {use : RuleUse}
  {value : Value} {values : Category} {text : String}

/-- What a modifier has in brackets. -/
def inBrackets? : List Char → Option (List Char)
  | '[' :: rest => unclose? ']' rest
  | _ => none

/-- The text of the value that the vocabulary has for a class name. -/
def Lists (v : Vocabulary) (name : List Char) (text : String) : Prop :=
  ∃ entry value, v.entries.get? (String.ofList name) = some entry ∧ entry.value? = some value ∧ value.primary = text

/-- The text of the value that a category has for a key. -/
def HasKey (values : Category) (key : List Char) (text : String) : Prop :=
  ∃ value, values.get? (String.ofList key) = some value ∧ value.primary = text

/-- Where nothing stands in brackets a text is one of those listed, and else it is what stands there, and clean. -/
inductive TextFrom (listed : String → Prop) : Option (List Char) → String → Prop
  | listed {text : String} : listed text → TextFrom listed none text
  | brackets {inner : List Char} : IsClean (bracketValue inner).toList →
      TextFrom listed (some inner) (bracketValue inner)

/-- The value that a class name gives to a rule, and what the name puts into it: nothing if the vocabulary lists the
name, else what it has in brackets, in front of a modifier and in the modifier. -/
inductive ValueFrom (v : Vocabulary) (cs : List Char) (use : RuleUse) : Prop
  | listed {entry : Entry} : v.entries.get? (String.ofList cs) = some entry → use.value = entry.value? →
      ValueFrom v cs use
  | brackets {stem inner : List Char} : v.entries.get? (String.ofList cs) = none →
      cs = stem ++ '-' :: '[' :: (inner ++ [']']) → use.value = some (.plain (bracketValue inner)) →
      IsClean (bracketValue inner).toList → ValueFrom v cs use
  | lineHeight {base raw : List Char} {content : Option (List Char)} {size height : String} :
      v.entries.get? (String.ofList cs) = none → Modified cs base content raw →
      TextFrom (v.Lists base) content size → TextFrom (HasKey v.lineHeights raw) (inBrackets? raw) height →
      use.value = some (.pair size height) → ValueFrom v cs use
  | alpha {base raw : List Char} {content : Option (List Char)} {values : Category} {text alpha : String}
      {color : Color} : v.entries.get? (String.ofList cs) = none → Modified cs base content raw →
      use.rule.traits.modifier = some (.alpha values) → TextFrom (v.Lists base) content text →
      Color.parse? text = some color → TextFrom (HasKey values raw) (inBrackets? raw) alpha →
      use.value = some (.plain (color.withAlpha alpha).text) →
      (IsClean alpha.toList → IsClean (color.withAlpha alpha).text.toList) → ValueFrom v cs use

theorem textFrom_of_modifierText (said : ModifierText values raw text) (clean : IsClean raw) :
    TextFrom (HasKey values raw) (inBrackets? raw) text := by
  cases said with
  | @key _ value bare found =>
    have none : inBrackets? raw = none := by
      unfold inBrackets?
      split
      · exact absurd rfl bare
      · rfl
    rw [none]
    exact .listed ⟨value, found, rfl⟩
  | @brackets inner _ =>
    have some : inBrackets? ('[' :: inner ++ [']']) = some inner := unclose?_eq_some_iff.mpr rfl
    rw [some]
    exact .brackets (isClean_bracketValue (clean.subset (by simp)))

theorem valueFrom_of_takes (unlisted : v.entries.get? (String.ofList cs) = none)
    (modified : Modified cs base content raw) (source : TextFrom (v.Lists base) content value.primary)
    (clean : IsClean raw) (takes : v.TakesModifier raw value use) : v.ValueFrom cs use := by
  cases takes with
  | alpha known said parsed _ made =>
    exact .alpha unlisted modified known source parsed (textFrom_of_modifierText said clean) made
      (Color.isClean_withAlpha (Color.written_of_parse? parsed))
  | lineHeight _ said made =>
    exact .lineHeight unlisted modified source (textFrom_of_modifierText said clean) made

theorem valueFrom_of_brackets (unlisted : v.entries.get? (String.ofList (stem ++ '-' :: '[' :: body)) = none)
    (first : ¬['-', '['] <:+: stem ++ ['-']) (clean : IsClean body)
    (read : v.readRule? (stem ++ '-' :: '[' :: body) = some use) : v.ValueFrom (stem ++ '-' :: '[' :: body) use := by
  cases slash : cut? [']', '/'] body with
  | some halves =>
    obtain ⟨inner, raw⟩ := halves
    obtain ⟨rfl, last⟩ := (cut?_eq_some_iff (by decide)).mp slash
    have same : inner ++ [']', '/'] ++ raw = inner ++ ']' :: '/' :: raw := by simp
    rw [isClean_append_iff, isClean_append_iff] at clean
    rw [same] at unlisted read ⊢
    exact valueFrom_of_takes unlisted (.brackets first last) (.brackets (isClean_bracketValue clean.1.1)) clean.2
      (takesModifier_of_brackets unlisted first last read)
  | none =>
    have last := cut?_eq_none_iff.mp slash
    rw [readRule?_brackets unlisted first] at read
    obtain ⟨inner, rfl⟩ : ∃ inner, body = inner ++ [']'] := by
      obtain ⟨_, cut, -⟩ := Option.bind_eq_some_iff.mp read
      rw [cutBrackets?, slash] at cut
      obtain ⟨inner, closed, -⟩ := Option.map_eq_some_iff.mp cut
      exact ⟨inner, unclose?_eq_some_iff.mp closed⟩
    rw [readBrackets?_closed last] at read
    split at read
    · cases read
    · obtain ⟨family, -, rfl⟩ := Option.map_eq_some_iff.mp read
      exact .brackets unlisted rfl rfl (isClean_bracketValue (isClean_append_iff.mp clean).1)

theorem valueFrom_of_name (unlisted : v.entries.get? (String.ofList (name ++ '/' :: raw)) = none)
    (closed : '/' ∉ name) (bare : ¬['-', '['] <:+: name ++ '/' :: raw) (clean : IsClean raw)
    (read : v.readModified? name raw = some use) : v.ValueFrom (name ++ '/' :: raw) use := by
  obtain ⟨entry, known, read⟩ := Option.bind_eq_some_iff.mp read
  obtain ⟨base, given, read⟩ := Option.bind_eq_some_iff.mp read
  obtain ⟨value, changed, made⟩ := Option.bind_eq_some_iff.mp read
  cases made
  exact valueFrom_of_takes unlisted (.name closed bare) (.listed ⟨entry, base, known, given, rfl⟩) clean
    ((modify?_eq_some_iff rfl).mp changed)

theorem valueFrom_of_readRule? (read : v.readRule? cs = some use) (clean : IsClean cs) : v.ValueFrom cs use := by
  cases known : v.entries.get? (String.ofList cs) with
  | some entry =>
    rw [readRule?, known] at read
    cases read
    exact .listed known rfl
  | none =>
    cases cut : cut? ['-', '['] cs with
    | some halves =>
      obtain ⟨stem, body⟩ := halves
      obtain ⟨rfl, first⟩ := (cut?_eq_some_iff (by decide)).mp cut
      have same : stem ++ ['-', '['] ++ body = stem ++ '-' :: '[' :: body := by simp
      rw [same] at known read ⊢
      exact valueFrom_of_brackets known first (isClean_append_iff.mp clean).2 read
    | none =>
      rw [readRule?, known, cut] at read
      obtain ⟨⟨name, raw⟩, slash, modified⟩ := Option.bind_eq_some_iff.mp read
      obtain ⟨rfl, first⟩ := (cut?_eq_some_iff (by decide)).mp slash
      have same : name ++ ['/'] ++ raw = name ++ '/' :: raw := by simp
      have closed : '/' ∉ name := by simpa [List.singleton_infix_iff] using first
      have bare := cut?_eq_none_iff.mp cut
      rw [same] at known bare ⊢
      exact valueFrom_of_name known closed bare (isClean_append_iff.mp clean).2 modified

theorem isClean_of_readProperty? {property written : String}
    (read : readProperty? cs = some (.property property written)) (clean : IsClean cs) :
    IsClean property.toList ∧ IsClean written.toList := by
  obtain ⟨content, closed, read⟩ := Option.bind_eq_some_iff.mp read
  obtain ⟨⟨name, value⟩, colon, read⟩ := Option.bind_eq_some_iff.mp read
  dsimp only at read
  split at read
  · cases read
    rw [unclose?_eq_some_iff.mp closed, eq_of_cut? colon] at clean
    obtain ⟨⟨⟨name, -⟩, value⟩, -⟩ := by simpa only [isClean_append_iff] using clean
    rw [String.toList_ofList, String.toList_ofList]
    exact ⟨name, isClean_exchange value (by decide)⟩
  · cases read

theorem isClean_of_readBody? {property written : String}
    (read : v.readBody? cs = some (.property property written)) (clean : IsClean cs) :
    IsClean property.toList ∧ IsClean written.toList := by
  unfold readBody? at read
  split at read
  · exact isClean_of_readProperty? read (isClean_cons_iff.mp clean).2
  · obtain ⟨use, -, same⟩ := Option.map_eq_some_iff.mp read
    cases same

/-! ### Utilities -/

theorem resolved_of_mapM {theme : Theme} {parts : List (List Char)} {variants : List Variant}
    (resolved : parts.mapM (VariantTable.ofTheme theme).resolve? = some variants) (clean : ∀ p ∈ parts, IsClean p) :
    List.Forall₂ (fun p w => (VariantTable.ofTheme theme).resolve? p = some w ∧
      (VariantTable.InBrackets p → IsClean w.text.toList)) parts variants := by
  induction parts generalizing variants with
  | nil =>
    cases resolved
    exact .nil
  | cons p parts ih =>
    obtain ⟨first, clean⟩ := List.forall_mem_cons.mp clean
    simp only [List.mapM_cons, Option.bind_eq_bind, Option.bind_eq_some_iff, Option.pure_def] at resolved
    obtain ⟨w, read, ws, later, same⟩ := resolved
    cases same
    exact .cons ⟨read, fun brackets => VariantTable.isClean_of_resolve? read brackets first⟩ (ih later clean)

/-- Whatever the source, a utility that is read from one of its tokens has nothing from the token that could end a
block, a declaration, a string or a line: neither the class name in its selector, nor a property with its value, nor
what stands in brackets in its value and its modifier and the colour that gets an alpha channel in brackets, nor the
selector, the condition or the check of a variant in brackets. -/
theorem extracted_parts_clean {source token : String} {theme : Theme} {v : Vocabulary} {u : Utility}
    (variants : v.variants = .ofTheme theme) (extracted : token ∈ Token.extract source)
    (read : v.read? token = some u) :
    IsClean (classSelector u.token).toList ∧
    (∀ property value, u.body = .property property value → IsClean property.toList ∧ IsClean value.toList) ∧
    (∀ use, u.body = .rule use → v.ValueFrom (TokenParts.ofToken token.toList).body use) ∧
    List.Forall₂ (fun p w => v.variants.resolve? p = some w ∧
      (VariantTable.InBrackets p → IsClean w.text.toList)) (TokenParts.ofToken token.toList).variants u.variants := by
  have clean := Token.isClean_of_mem_extract extracted
  obtain ⟨within, behind⟩ := TokenParts.ofToken_subset token.toList
  obtain ⟨resolved, body, rfl, -⟩ := read?_eq_some_iff.mp read
  refine ⟨?_, fun property value isProperty => ?_, fun use isRule => ?_, ?_⟩
  · rw [classSelector, String.toList_ofList]
    exact isClean_cons_iff.mpr ⟨by decide, isClean_escapeClass clean⟩
  · rw [isProperty] at body
    exact isClean_of_readBody? body (clean.subset behind)
  · rw [isRule] at body
    exact valueFrom_of_readRule? (readRule?_of_readBody? body) (clean.subset behind)
  · rw [variants] at resolved ⊢
    exact resolved_of_mapM resolved fun p member => clean.subset (within p member)

def hoverVocabulary : Vocabulary :=
  { inkVocabulary with variants := .ofTheme Variant.blankTheme }

def hoverToken : String :=
  "aria-[a_b]:[&:hover]:!ink-[#fff]/[.25]"

/-- Two variants in brackets, a colour in brackets and its alpha channel, in a source that goes on behind the token. -/
theorem extracted_parts_clean_of_hover :
    hoverToken ∈ Token.extract ("<p class=\"" ++ hoverToken ++ "\" style=\"top: 0; \x7d\">") ∧
    ∃ u, hoverVocabulary.read? hoverToken = some u ∧ IsClean (classSelector u.token).toList ∧
      (∀ use, u.body = .rule use → hoverVocabulary.ValueFrom "ink-[#fff]/[.25]".toList use) ∧
      ∃ x y, u.variants = [x, y] ∧ IsClean x.text.toList ∧ IsClean y.text.toList := by
  have parts : TokenParts.ofToken hoverToken.toList =
      ⟨["aria-[a_b]".toList, "[&:hover]".toList], true, "ink-[#fff]/[.25]".toList⟩ := by decide +kernel
  have extracted : hoverToken ∈ Token.extract ("<p class=\"" ++ hoverToken ++ "\" style=\"top: 0; \x7d\">") := by
    decide +kernel
  have resolved : ["aria-[a_b]".toList, "[&:hover]".toList].mapM (VariantTable.ofTheme Variant.blankTheme).resolve? =
      some [.onSelector (.suffix "[aria-a b]"), .onSelector (.template "&:hover")] := by decide +kernel
  have body : hoverVocabulary.readBody? "ink-[#fff]/[.25]".toList =
      some (.rule ⟨inkRule, "", 1, some (.plain "rgb(255 255 255 / .25)")⟩) := rfl
  have read : hoverVocabulary.read? hoverToken = some ⟨hoverToken,
      [.onSelector (.suffix "[aria-a b]"), .onSelector (.template "&:hover")], true,
      .rule ⟨inkRule, "", 1, some (.plain "rgb(255 255 255 / .25)")⟩⟩ := by
    rw [read?_eq_some_iff, parts]
    exact ⟨resolved, body, rfl, rfl⟩
  obtain ⟨selector, -, value, variants⟩ := extracted_parts_clean rfl extracted read
  rw [parts] at value variants
  obtain ⟨⟨-, first⟩, ⟨-, second⟩, -⟩ := by simpa only [List.forall₂_cons] using variants
  exact ⟨extracted, _, read, selector, value, _, _, rfl, first (.inr (by decide)), second (.inl (by decide))⟩

end Vocabulary

end UtilityCss
