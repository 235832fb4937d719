import UtilityCss.Proofs.ColourFamilies
import UtilityCss.Proofs.HexColours

/-!
# The text of a colour

Whatever is read as a colour has numbers for channels, `Written`, and the text of such a colour reads back as the same
colour: `parse?_text_of_parse?`. The channels of hexadecimal digits are numbers too. An alpha pair gives a share of 255,
which is a binary fraction once it is rounded, and so has decimals.
-/

namespace UtilityCss

namespace Decimal

variable {c : Char} {b : Binary} {n whole places : Nat}

theorem isDigit_of_mem_lastDigits (member : c ∈ lastDigits n places) : c.isDigit = true := by
  induction places generalizing n with
  | zero => cases member
  | succ places ih =>
    rw [lastDigits, List.mem_append, List.mem_singleton] at member
    rcases member with front | rfl
    · exact ih front
    · rw [Nat.isDigit_digitChar, decide_eq_true_iff]
      exact Nat.mod_lt n (by decide)

namespace Binary

/-- A binary number has a decimal of as many places as it has binary places: the number itself. -/
theorem isSome_decimal?_shift (b : Binary) : (b.decimal? b.shift).isSome = true := by
  have divides : Nat.pow 2 b.shift ∣ b.mantissa * Nat.pow 10 b.shift :=
    Nat.dvd_mul_left_of_dvd ⟨5 ^ b.shift, Nat.mul_pow 2 5 b.shift⟩ b.mantissa
  have room : 0 < Nat.pow 10 b.shift := Nat.pow_pos (by decide)
  have reads : b.readsAs (b.mantissa * Nat.pow 10 b.shift / Nat.pow 2 b.shift) b.shift = true := by
    unfold readsAs
    dsimp only
    rw [Nat.div_mul_cancel divides, if_pos (Nat.le_refl _), Nat.sub_self, Nat.mul_zero, decide_eq_true room,
      Bool.true_or]
  unfold decimal?
  dsimp only
  rw [reads]
  cases b.readsAs (b.mantissa * Nat.pow 10 b.shift / Nat.pow 2 b.shift + 1) b.shift with
  | true => dsimp only; split <;> rfl
  | false => rfl

theorem exists_decimals_eq (positive : 0 < b.shift) (bounded : b.shift ≤ 1100) :
    ∃ n places, b.decimals = lastDigits n (places + 1) := by
  have found : ((List.range 1100).findSome? fun places =>
      (b.decimal? (places + 1)).map (lastDigits · (places + 1))).isSome = true := by
    refine List.findSome?_isSome_iff.mpr ⟨b.shift - 1, List.mem_range.mpr (by omega), ?_⟩
    rw [Option.isSome_map, Nat.sub_add_cancel positive]
    exact b.isSome_decimal?_shift
  obtain ⟨digits, first⟩ := Option.isSome_iff_exists.mp found
  obtain ⟨places, -, given⟩ := List.exists_of_findSome?_eq_some first
  obtain ⟨n, -, rfl⟩ := Option.map_eq_some_iff.mp given
  exact ⟨n, places, by rw [decimals, first, Option.getD_some]⟩

theorem shift_nearest (num den : Nat) : 0 < (nearest num den).shift ∧ (nearest num den).shift ≤ den.log2 + 53 := by
  unfold nearest
  dsimp only
  split <;> split <;> dsimp only <;> omega

end Binary

end Decimal

namespace Color
open Text

variable {c : Char} {cs digits number rest : List Char} {s : String} {color : Color}

/-! ### Numbers -/

/-- The percent sign behind a number, or none. -/
def IsSign (sign : List Char) : Prop :=
  sign = [] ∨ sign = ['%']

/-- How a number is written: digits or decimals, with a percent sign or without. There may be no digits in front of the
decimals. -/
inductive IsNumber : List Char → Prop
  | whole {digits sign : List Char} : digits ≠ [] → (∀ c ∈ digits, isDecimalDigit c = true) → IsSign sign →
      IsNumber (digits ++ sign)
  | point {digits decimals sign : List Char} : (∀ c ∈ digits, isDecimalDigit c = true) → decimals ≠ [] →
      (∀ c ∈ decimals, isDecimalDigit c = true) → IsSign sign → IsNumber (digits ++ '.' :: decimals ++ sign)

/-- A number, with a unit of angle or without. -/
inductive IsHue : List Char → Prop
  | plain {digits : List Char} : IsNumber digits → IsHue digits
  | angle {digits unit : List Char} : IsNumber digits → unit ∈ hueUnits → IsHue (digits ++ unit)

theorem isSign_percentSign (cs : List Char) : IsSign (percentSign cs).1 := by
  unfold percentSign
  split
  · exact .inr rfl
  · exact .inl rfl

theorem isNumber_of_number? (read : number? cs = some (number, rest)) : IsNumber number := by
  have digit : ∀ c ∈ cs.takeWhile isDecimalDigit, isDecimalDigit c = true := fun c => List.mem_takeWhile_imp
  rw [number?_eq] at read
  split at read
  · split at read
    · cases read
    · obtain ⟨rfl, -⟩ := Prod.mk.inj (Option.some.inj read)
      exact .whole (fun none => ‹¬_› (List.isEmpty_iff.mpr none)) digit (isSign_percentSign _)
  · obtain ⟨rfl, -⟩ := Prod.mk.inj (Option.some.inj read)
    exact .point digit (fun none => ‹¬_› (List.isEmpty_iff.mpr none)) (fun c => isDecimalDigit_of_mem_decimals)
      (isSign_percentSign _)

theorem isHue_of_hue? (read : hue? cs = some (number, rest)) : IsHue number := by
  obtain ⟨⟨digits, behind⟩, numbered, read⟩ := Option.bind_eq_some_iff.mp read
  have digits := isNumber_of_number? numbered
  dsimp only at read
  split at read
  · rename_i unit rest' found
    cases read
    obtain ⟨unit', listed, cut⟩ := List.exists_of_findSome?_eq_some found
    obtain ⟨_, -, same⟩ := Option.map_eq_some_iff.mp cut
    obtain ⟨rfl, rfl⟩ := Prod.mk.inj same
    exact .angle digits listed
  · cases read
    exact .plain digits

/-! ### Reading numbers back -/

/-- The text does not go on with what numbers are written with. -/
def Ends (rest : List Char) : Prop :=
  ∀ c ∈ rest.head?, ¬IsNumeral c

instance : DecidablePred IsNumeral := fun _ => inferInstanceAs (Decidable (_ ∨ _ ∨ _))

theorem ends_cons (other : ¬IsNumeral c) : Ends (c :: rest) := by
  rintro c ⟨⟩
  exact other

theorem percentSign_append_ends {sign : List Char} (signed : IsSign sign) (ends : Ends rest) :
    percentSign (sign ++ rest) = (sign, rest) := by
  rcases signed with rfl | rfl
  · cases rest with
    | nil => rfl
    | cons c rest =>
      have other : c ≠ '%' := fun percent => ends c rfl (.inr (.inr percent))
      unfold percentSign
      split
      · rename_i same
        exact absurd (List.cons.inj same).1 other
      · rfl
  · rfl

theorem cut_digits (digit : ∀ c ∈ digits, isDecimalDigit c = true) (ends : ∀ c ∈ rest.head?, isDecimalDigit c = false) :
    (digits ++ rest).takeWhile isDecimalDigit = digits ∧ (digits ++ rest).dropWhile isDecimalDigit = rest := by
  rw [List.takeWhile_append_of_pos digit, List.dropWhile_append_of_pos digit]
  cases rest with
  | nil => exact ⟨List.append_nil digits, rfl⟩
  | cons c rest =>
    have other : ¬isDecimalDigit c = true := by rw [ends c rfl]; exact Bool.false_ne_true
    rw [List.takeWhile_cons_of_neg other, List.dropWhile_cons_of_neg other]
    exact ⟨List.append_nil digits, rfl⟩

theorem head_of_sign {sign : List Char} (signed : IsSign sign) (ends : Ends rest) :
    ∀ c ∈ (sign ++ rest).head?, isDecimalDigit c = false ∧ c ≠ '.' := by
  rcases signed with rfl | rfl
  · intro c first
    have other := ends c first
    exact ⟨Bool.not_eq_true _ ▸ fun digit => other (.inl digit), fun point => other (.inr (.inl point))⟩
  · rintro c ⟨⟩
    decide

theorem decimals_eq_nil (other : ∀ c ∈ cs.head?, c ≠ '.') : decimals cs = [] := by
  unfold decimals
  split
  · exact absurd rfl (other '.' rfl)
  · rfl

theorem number?_append (written : IsNumber number) (ends : Ends rest) :
    number? (number ++ rest) = some (number, rest) := by
  rw [number?_eq]
  cases written with
  | @whole digits sign some digit signed =>
    have next := head_of_sign signed ends
    obtain ⟨front, behind⟩ := cut_digits digit fun c first => (next c first).1
    have integral := decimals_eq_nil fun c first => (next c first).2
    rw [List.append_assoc, front, behind, integral, percentSign_append_ends signed ends,
      if_pos (List.isEmpty_nil), if_neg (by simpa using some)]
  | @point digits places sign digit some fraction signed =>
    have next := head_of_sign signed ends
    have point : ∀ c ∈ ('.' :: (places ++ (sign ++ rest))).head?, isDecimalDigit c = false := by
      rintro c ⟨⟩
      decide
    obtain ⟨front, behind⟩ := cut_digits digit point
    have found : decimals ('.' :: (places ++ (sign ++ rest))) = places :=
      (cut_digits fraction fun c first => (next c first).1).1
    simp only [List.append_assoc, List.cons_append, front, behind, found]
    rw [if_neg (by simpa using some), List.drop_succ_cons, List.drop_left, percentSign_append_ends signed ends]

theorem hue?_append (written : IsHue number) : hue? (number ++ ' ' :: rest) = some (number, ' ' :: rest) := by
  cases written with
  | plain digits =>
    have space : Ends (' ' :: rest) := ends_cons (by decide)
    simp only [hue?, number?_append digits space, Option.bind_eq_bind, Option.bind_some]
    rfl
  | @angle digits unit numbered listed =>
    simp only [hueUnits, List.mem_cons, List.not_mem_nil, or_false] at listed
    have letter : Ends (unit ++ ' ' :: rest) := by
      rcases listed with rfl | rfl | rfl | rfl <;> exact ends_cons (by decide)
    simp only [hue?, List.append_assoc, number?_append numbered letter, Option.bind_eq_bind, Option.bind_some]
    rcases listed with rfl | rfl | rfl | rfl <;> rfl

/-! ### Separators -/

theorem isBlank_of_isDecimalDigit (digit : isDecimalDigit c = true) : isBlank c = false := by
  have apart : ∀ code ∈ blankCodes,
      ¬(48 ≤ code ∧ code ≤ 57) ∧ ∀ start ∈ zeroCodes, ¬(start ≤ code ∧ code < start + 10) := by decide
  rw [isBlank_eq_contains, ← Bool.not_eq_true, List.contains_iff_mem]
  intro blank
  unfold isDecimalDigit at digit
  split at digit
  · rw [Char.isDigit, Bool.and_eq_true, decide_eq_true_iff, decide_eq_true_iff] at digit
    exact (apart _ blank).1 ⟨UInt32.le_iff_toNat_le.mp digit.1, UInt32.le_iff_toNat_le.mp digit.2⟩
  · obtain ⟨start, listed, row⟩ := List.any_eq_true.mp digit
    rw [Bool.and_eq_true, decide_eq_true_iff, decide_eq_true_iff] at row
    exact (apart _ blank).2 start listed row

theorem isBlank_of_isNumeral (numeral : IsNumeral c) : isBlank c = false := by
  rcases numeral with digit | rfl | rfl
  · exact isBlank_of_isDecimalDigit digit
  · decide
  · decide

theorem exists_head_of_isNumber (written : IsNumber number) : ∃ c more, number = c :: more ∧ IsNumeral c := by
  cases written with
  | @whole digits sign some digit =>
    obtain ⟨c, more, rfl⟩ := List.exists_cons_of_ne_nil some
    exact ⟨c, _, rfl, .inl (digit c List.mem_cons_self)⟩
  | @point digits decimals sign digit =>
    cases digits with
    | nil => exact ⟨'.', _, rfl, by decide⟩
    | cons c more => exact ⟨c, _, rfl, .inl (digit c List.mem_cons_self)⟩

theorem skipBlanks_number (written : IsNumber number) (rest : List Char) :
    skipBlanks (number ++ rest) = number ++ rest := by
  obtain ⟨c, more, rfl, numeral⟩ := exists_head_of_isNumber written
  exact List.dropWhile_cons_of_neg (by rw [isBlank_of_isNumeral numeral]; exact Bool.false_ne_true)

theorem skipBlanks_hue (written : IsHue number) (rest : List Char) : skipBlanks (number ++ rest) = number ++ rest := by
  cases written with
  | plain digits => exact skipBlanks_number digits rest
  | angle digits => rw [List.append_assoc, skipBlanks_number digits]

theorem skipBlanks_space (cs : List Char) : skipBlanks (' ' :: cs) = skipBlanks cs :=
  List.dropWhile_cons_of_pos (by decide)

theorem afterSeparator?_space (written : IsNumber number) (rest : List Char) :
    afterSeparator? (' ' :: (number ++ rest)) = some (number ++ rest) := by
  unfold afterSeparator?
  rw [skipBlanks_space, skipBlanks_number written]
  obtain ⟨c, more, rfl, numeral⟩ := exists_head_of_isNumber written
  split
  · rename_i comma
    obtain rfl := (List.cons.inj comma).1
    exact absurd numeral (by decide)
  · exact if_pos (Nat.lt_succ_self _)

theorem closing?_alpha (written : IsNumber number) :
    closing? (' ' :: '/' :: ' ' :: (number ++ [')'])) = some (some (String.ofList number)) := by
  have close : Ends [')'] := ends_cons (by decide)
  show ((number? (skipBlanks (' ' :: (number ++ [')'])))).bind fun read =>
    if skipBlanks read.2 = [')'] then some (some (String.ofList read.1)) else none) = _
  rw [skipBlanks_space, skipBlanks_number written, number?_append written close]
  rfl

/-! ### The text -/

/-- The first channel of a mode: a number, or a hue. -/
def IsChannel : ColorMode → List Char → Prop
  | .rgb => IsNumber
  | .hsl => IsHue

/-- The channels are written as numbers. -/
structure Written (color : Color) : Prop where
  first : IsChannel color.mode color.first.toList
  second : IsNumber color.second.toList
  third : IsNumber color.third.toList
  alpha : ∀ alpha ∈ color.alpha, IsNumber alpha.toList

/-- What stands behind the third channel. -/
def closing : Option String → List Char
  | none => [')']
  | some alpha => ' ' :: '/' :: ' ' :: (alpha.toList ++ [')'])

/-- What stands behind the opening parenthesis. -/
def inner (color : Color) : List Char :=
  color.first.toList ++ ' ' :: (color.second.toList ++ ' ' :: (color.third.toList ++ closing color.alpha))

theorem toList_text (color : Color) : color.text.toList = (modeText color.mode).toList ++ '(' :: color.inner := by
  unfold text inner closing
  cases color.alpha <;> simp

theorem exists_inner_eq (color : Color) : ∃ front, color.inner = front ++ [')'] := by
  unfold inner closing
  cases color.alpha with
  | none => exact ⟨color.first.toList ++ ' ' :: (color.second.toList ++ ' ' :: color.third.toList), by simp⟩
  | some alpha =>
    exact ⟨color.first.toList ++ ' ' :: (color.second.toList ++ ' ' :: (color.third.toList ++
      ' ' :: '/' :: ' ' :: alpha.toList)), by simp⟩

theorem closing?_closing {alpha : Option String} (written : ∀ text ∈ alpha, IsNumber text.toList) :
    closing? (closing alpha) = some alpha := by
  cases alpha with
  | none => rfl
  | some text =>
    rw [closing, closing?_alpha (written text rfl), String.ofList_toList]

theorem ends_closing (alpha : Option String) : Ends (closing alpha) := by
  cases alpha <;> exact ends_cons (by decide)

theorem firstChannel?_append {mode : ColorMode} (written : IsChannel mode number) :
    firstChannel? mode (skipBlanks (number ++ ' ' :: rest)) = some (number, ' ' :: rest) := by
  cases mode with
  | rgb =>
    rw [skipBlanks_number written]
    exact number?_append written (ends_cons (by decide))
  | hsl =>
    rw [skipBlanks_hue written]
    exact hue?_append written

theorem arguments?_inner (written : color.Written) : arguments? color.mode color.inner = some color := by
  have space : ∀ rest, Ends (' ' :: rest) := fun _ => ends_cons (by decide)
  rw [arguments?_eq, inner]
  simp only [firstChannel?_append written.first, afterSeparator?_space written.second,
    number?_append written.second (space _), afterSeparator?_space written.third,
    number?_append written.third (ends_closing _), closing?_closing written.alpha, Option.bind_eq_bind,
    Option.bind_some, String.ofList_toList]
  rfl

theorem trim_text (color : Color) : trim color.text.toList = color.text.toList := by
  obtain ⟨front, closed⟩ := color.exists_inner_eq
  rw [toList_text, closed]
  cases color.mode with
  | rgb => exact @trim_eq_self 'r' ('g' :: 'b' :: '(' :: front) ')' (by decide) (by decide)
  | hsl => exact @trim_eq_self 'h' ('s' :: 'l' :: '(' :: front) ')' (by decide) (by decide)

theorem parse?_text (written : color.Written) : parse? color.text = some color := by
  have read := arguments?_inner written
  unfold parse?
  rw [trim_text, toList_text]
  generalize color.mode = mode at read ⊢
  cases mode <;> exact read

/-! ### What is read -/

theorem isNumber_of_digits (some : digits ≠ []) (digit : ∀ c ∈ digits, c.isDigit = true) : IsNumber digits := by
  have number := IsNumber.whole some (fun c member => isDecimalDigit_of_isDigit (digit c member)) (.inl rfl)
  rwa [List.append_nil] at number

theorem isNumber_toString (n : Nat) : IsNumber (toString n).toList := by
  rw [Nat.toString_eq_repr, Nat.repr_eq_ofList_toDigits, String.toList_ofList]
  exact isNumber_of_digits Nat.toDigits_ne_nil fun c => Nat.isDigit_of_mem_toDigits (by decide) (by decide)

theorem isNumber_shortestRatio {whole : Nat} (n : Nat) (bounded : whole.log2 ≤ 1000) :
    IsNumber (Decimal.shortestRatio n whole).toList := by
  unfold Decimal.shortestRatio
  split
  · exact isNumber_toString 0
  · split
    · exact isNumber_toString 1
    · obtain ⟨positive, small⟩ := Decimal.Binary.shift_nearest n whole
      obtain ⟨m, places, decimals⟩ := Decimal.Binary.exists_decimals_eq positive (by omega)
      have digit : ∀ c ∈ Decimal.lastDigits m (places + 1), isDecimalDigit c = true := fun c member =>
        isDecimalDigit_of_isDigit (Decimal.isDigit_of_mem_lastDigits member)
      have some : Decimal.lastDigits m (places + 1) ≠ [] := by
        rw [← List.length_pos_iff, Decimal.length_lastDigits]
        exact Nat.succ_pos places
      have zero : ∀ c ∈ ['0'], isDecimalDigit c = true := List.forall_mem_singleton.mpr (by decide)
      have number := @IsNumber.point ['0'] _ _ zero some digit (.inl rfl)
      rw [decimals, String.toList_ofList]
      rwa [List.append_nil] at number

theorem written_ofPairs (r g b : Pair) (alpha : Option Pair) : (ofPairs r g b alpha).Written := by
  refine ⟨isNumber_toString _, isNumber_toString _, isNumber_toString _, fun text given => ?_⟩
  obtain ⟨pair, -, given⟩ := Option.bind_eq_some_iff.mp given
  split at given
  · cases given
    exact isNumber_shortestRatio _ (by decide)
  · cases given

theorem written_of_closing? {alpha : Option String} (read : closing? cs = some alpha) :
    ∀ text ∈ alpha, IsNumber text.toList := by
  unfold closing? at read
  split at read
  · cases read
    nofun
  · split at read
    · obtain ⟨⟨number, rest⟩, numbered, read⟩ := Option.bind_eq_some_iff.mp read
      dsimp only at read
      split at read
      · cases read
        rintro text ⟨⟩
        rw [String.toList_ofList]
        exact isNumber_of_number? numbered
      · cases read
    · cases read
  · cases read

theorem isChannel_of_firstChannel? {mode : ColorMode} (read : firstChannel? mode cs = some (number, rest)) :
    IsChannel mode number := by
  cases mode with
  | rgb => exact isNumber_of_number? read
  | hsl => exact isHue_of_hue? read

theorem written_of_arguments? {mode : ColorMode} (read : arguments? mode cs = some color) : color.Written := by
  rw [arguments?_eq] at read
  simp only [Option.bind_eq_bind, Option.bind_eq_some_iff] at read
  obtain ⟨_, first, _, -, _, second, _, -, _, third, _, closed, made⟩ := read
  cases made
  refine ⟨?_, ?_, ?_, written_of_closing? closed⟩ <;> rw [String.toList_ofList]
  · exact isChannel_of_firstChannel? first
  · exact isNumber_of_number? second
  · exact isNumber_of_number? third

theorem written_of_ofFunction? (read : ofFunction? cs = some color) : color.Written := by
  unfold ofFunction? at read
  split at read
  case h_5 => cases read
  all_goals exact written_of_arguments? read

theorem written_of_parse? (read : parse? s = some color) : color.Written := by
  unfold parse? at read
  split at read
  · cases read
    have zero := isNumber_toString 0
    exact ⟨zero, zero, zero, fun text given => by cases given; exact zero⟩
  · obtain ⟨r, g, b, alpha, -, -, rfl⟩ := ofHexDigits?_eq_some_iff.mp read
    exact written_ofPairs r g b alpha
  · exact written_of_ofFunction? read

/-- A colour that is read reads back from its text, and so it does with any number as its alpha channel. -/
theorem parse?_text_of_parse? (read : parse? s = some color) : parse? color.text = some color ∧
    ∀ alpha : String, IsNumber alpha.toList → parse? (color.withAlpha alpha).text = some (color.withAlpha alpha) := by
  have written := written_of_parse? read
  refine ⟨parse?_text written, fun alpha number => parse?_text ?_⟩
  exact ⟨written.first, written.second, written.third, fun text given => by cases given; exact number⟩

/-- A hue with an Arabic digit and a unit, and separators of every kind. -/
theorem parse?_text_of_turn :
    parse? "\u2003hsla(\u0661.5turn\u00a0,.25%  50% , 1 )" = some ⟨.hsl, "\u0661.5turn", ".25%", "50%", some "1"⟩ ∧
      parse? "hsl(\u0661.5turn .25% 50% / 1)" = some ⟨.hsl, "\u0661.5turn", ".25%", "50%", some "1"⟩ ∧
      parse? "hsl(\u0661.5turn .25% 50% / .5%)" = some ⟨.hsl, "\u0661.5turn", ".25%", "50%", some ".5%"⟩ := by
  have read : parse? "\u2003hsla(\u0661.5turn\u00a0,.25%  50% , 1 )" =
      some ⟨.hsl, "\u0661.5turn", ".25%", "50%", some "1"⟩ := by decide
  obtain ⟨again, faded⟩ := parse?_text_of_parse? read
  have five : ∀ c ∈ ['5'], isDecimalDigit c = true := List.forall_mem_singleton.mpr (by decide)
  have number : IsNumber ".5%".toList := @IsNumber.point [] ['5'] ['%'] nofun (by decide) five (.inr rfl)
  exact ⟨read, again, faded ".5%" number⟩

end Color

end UtilityCss
