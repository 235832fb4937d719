import UtilityCss.Color

/-!
# Hexadecimal colours

Behind `#` stand pairs of digits, or single digits for pairs of themselves. The pairs of the channels have to be
hexadecimal, and nothing else is read: `parse?_hash`. The pair of the alpha channel may hold the decimal digits of other
scripts as well, and such a pair is dropped, so that the colour is opaque.
-/

namespace UtilityCss.Color
open Text

variable {c : Char} {s : String} {digits : List Char} {color : Color}

/-! ### Digits -/

/-- A hexadecimal digit of ASCII. -/
def IsHexDigit (c : Char) : Prop :=
  c ∈ "0123456789abcdefABCDEF".toList

instance : DecidablePred IsHexDigit := fun c => inferInstanceAs (Decidable (c ∈ _))

def digitValue (c : Char) : Nat :=
  "0123456789abcdef".toList.idxOf c.toLower

/-- A hexadecimal digit, or a decimal digit of any script. -/
def IsHexPlace (c : Char) : Prop :=
  IsHexDigit c ∨ isDecimalDigit c = true

instance : DecidablePred IsHexPlace := fun _ => inferInstanceAs (Decidable (_ ∨ _))

theorem forall_ascii {p : Char → Prop} (each : ∀ n < 128, p (Char.ofNat n)) (ascii : c.toNat < 128) : p c := by
  have here := each c.toNat ascii
  rwa [Char.ofNat_toNat] at here

theorem not_le_of_wide (limit : Char) (ascii : limit.toNat < 128) (wide : 128 ≤ c.toNat) : ¬c ≤ limit := by
  intro below
  have below : c.toNat ≤ limit.toNat := UInt32.le_iff_toNat_le.mp below
  omega

theorem ascii_of_isHexDigit (digit : IsHexDigit c) : c.toNat < 128 := by
  -- A test of the list is decided one by one, where the statement may be decided over all characters.
  have each : "0123456789abcdefABCDEF".toList.all (fun c => c.toNat < 128) = true := by decide
  exact of_decide_eq_true (List.all_eq_true.mp each c digit)

theorem hexValue?_eq (c : Char) : hexValue? c = if IsHexDigit c then some (digitValue c) else none := by
  rcases Nat.lt_or_ge c.toNat 128 with ascii | wide
  · exact forall_ascii (p := fun c => hexValue? c = if IsHexDigit c then some (digitValue c) else none)
      (by decide +kernel) ascii
  · have other : ¬IsHexDigit c := fun digit => Nat.not_lt.mpr wide (ascii_of_isHexDigit digit)
    rw [if_neg other, hexValue?]
    simp [not_le_of_wide '9' (by decide) wide, not_le_of_wide 'f' (by decide) wide,
      not_le_of_wide 'F' (by decide) wide]

theorem isHexPlace_iff (c : Char) : isHexPlace c = true ↔ IsHexPlace c := by
  rcases Nat.lt_or_ge c.toNat 128 with ascii | wide
  · exact forall_ascii (p := fun c => isHexPlace c = true ↔ IsHexPlace c) (by decide +kernel) ascii
  · have other : ¬IsHexDigit c := fun digit => Nat.not_lt.mpr wide (ascii_of_isHexDigit digit)
    rw [IsHexPlace, or_iff_right other, isHexPlace]
    simp [not_le_of_wide 'f' (by decide) wide, not_le_of_wide 'F' (by decide) wide]

/-! ### Pairs -/

/-- Two digits, the higher one first. -/
abbrev Pair := Char × Char

/-- Both digits are hexadecimal. -/
def IsHexPair (pair : Pair) : Prop :=
  IsHexDigit pair.1 ∧ IsHexDigit pair.2

instance : DecidablePred IsHexPair := fun _ => inferInstanceAs (Decidable (_ ∧ _))

def pairValue (pair : Pair) : Nat :=
  16 * digitValue pair.1 + digitValue pair.2

theorem pairValue?_eq (pair : Pair) :
    pairValue? pair.1 pair.2 = if IsHexPair pair then some (pairValue pair) else none := by
  unfold pairValue? IsHexPair
  rw [hexValue?_eq, hexValue?_eq]
  by_cases high : IsHexDigit pair.1 <;> by_cases low : IsHexDigit pair.2 <;> simp [high, low, pairValue]

/-- The digits behind `#` and the pairs that they stand for, red, green and blue, and alpha if there is one. Three or
four digits stand for pairs of themselves. -/
inductive HexForm : List Char → Pair → Pair → Pair → Option Pair → Prop
  | three (r g b : Char) : HexForm [r, g, b] (r, r) (g, g) (b, b) none
  | four (r g b a : Char) : HexForm [r, g, b, a] (r, r) (g, g) (b, b) (some (a, a))
  | six (r r' g g' b b' : Char) : HexForm [r, r', g, g', b, b'] (r, r') (g, g') (b, b') none
  | eight (r r' g g' b b' a a' : Char) :
      HexForm [r, r', g, g', b, b', a, a'] (r, r') (g, g') (b, b') (some (a, a'))

/-- The colour of these pairs. An alpha pair that is not hexadecimal leaves no alpha channel. -/
def ofPairs (r g b : Pair) (alpha : Option Pair) : Color :=
  ⟨.rgb, toString (pairValue r), toString (pairValue g), toString (pairValue b),
    alpha.bind fun pair => if IsHexPair pair then some (Decimal.shortestRatio (pairValue pair) 255) else none⟩

/-- The pairs that a colour is made of: hexadecimal ones, but for alpha a pair of decimal digits of any script will
do. -/
structure IsHexColour (r g b : Pair) (alpha : Option Pair) : Prop where
  red : IsHexPair r
  green : IsHexPair g
  blue : IsHexPair b
  alpha : ∀ pair ∈ alpha, IsHexPlace pair.1 ∧ IsHexPlace pair.2

section Forms
variable {r g b : Pair} {alpha : Option Pair}

theorem ofChannels?_eq_some_iff :
    ofChannels? r.1 r.2 g.1 g.2 b.1 b.2 (alpha.bind fun pair => alphaOfPair? pair.1 pair.2) = some color ↔
      IsHexPair r ∧ IsHexPair g ∧ IsHexPair b ∧ color = ofPairs r g b alpha := by
  have share : ∀ pair : Pair, alphaOfPair? pair.1 pair.2 =
      if IsHexPair pair then some (Decimal.shortestRatio (pairValue pair) 255) else none := by
    intro pair
    rw [alphaOfPair?, pairValue?_eq]
    split <;> rfl
  simp only [ofChannels?, pairValue?_eq, share, Option.bind_eq_bind, Option.pure_def, ofPairs]
  by_cases red : IsHexPair r <;> by_cases green : IsHexPair g <;> by_cases blue : IsHexPair b <;>
    simp [red, green, blue, eq_comm]

theorem ofHexDigits?_of_form (form : HexForm digits r g b alpha) : ofHexDigits? digits =
    if digits.all isHexPlace then
      ofChannels? r.1 r.2 g.1 g.2 b.1 b.2 (alpha.bind fun pair => alphaOfPair? pair.1 pair.2)
    else none := by
  cases form <;> rfl

theorem exists_form_of_ofHexDigits? (read : ofHexDigits? digits = some color) :
    ∃ r g b alpha, HexForm digits r g b alpha := by
  unfold ofHexDigits? at read
  split at read
  · split at read
    · exact ⟨_, _, _, _, .three ..⟩
    · exact ⟨_, _, _, _, .four ..⟩
    · exact ⟨_, _, _, _, .six ..⟩
    · exact ⟨_, _, _, _, .eight ..⟩
    · cases read
  · cases read

theorem places_iff_of_form (form : HexForm digits r g b alpha) : digits.all isHexPlace = true ↔
    (IsHexPlace r.1 ∧ IsHexPlace r.2) ∧ (IsHexPlace g.1 ∧ IsHexPlace g.2) ∧ (IsHexPlace b.1 ∧ IsHexPlace b.2) ∧
      ∀ pair ∈ alpha, IsHexPlace pair.1 ∧ IsHexPlace pair.2 := by
  simp only [List.all_eq_true, isHexPlace_iff]
  cases form <;> simp [and_assoc]

theorem ofHexDigits?_eq_some_iff : ofHexDigits? digits = some color ↔
    ∃ r g b alpha, HexForm digits r g b alpha ∧ IsHexColour r g b alpha ∧ color = ofPairs r g b alpha := by
  constructor
  · intro read
    obtain ⟨r, g, b, alpha, form⟩ := exists_form_of_ofHexDigits? read
    rw [ofHexDigits?_of_form form] at read
    split at read
    · rename_i places
      obtain ⟨red, green, blue, made⟩ := ofChannels?_eq_some_iff.mp read
      exact ⟨r, g, b, alpha, form, ⟨red, green, blue, ((places_iff_of_form form).mp places).2.2.2⟩, made⟩
    · cases read
  · rintro ⟨r, g, b, alpha, form, ⟨red, green, blue, places⟩, made⟩
    have hex : ∀ pair, IsHexPair pair → IsHexPlace pair.1 ∧ IsHexPlace pair.2 := fun _ => .imp .inl .inl
    rw [ofHexDigits?_of_form form,
      if_pos ((places_iff_of_form form).mpr ⟨hex r red, hex g green, hex b blue, places⟩)]
    exact ofChannels?_eq_some_iff.mpr ⟨red, green, blue, made⟩

theorem form_unique {r' g' b' : Pair} {alpha' : Option Pair} (form : HexForm digits r g b alpha)
    (other : HexForm digits r' g' b' alpha') : r' = r ∧ g' = g ∧ b' = b ∧ alpha' = alpha := by
  cases form <;> cases other <;> exact ⟨rfl, rfl, rfl, rfl⟩

theorem length_iff : digits.length ∈ [3, 4, 6, 8] ↔ ∃ r g b alpha, HexForm digits r g b alpha := by
  constructor
  · intro length
    match digits, length with
    | [r, g, b], _ => exact ⟨_, _, _, _, .three ..⟩
    | [r, g, b, a], _ => exact ⟨_, _, _, _, .four ..⟩
    | [_, _, _, _, _, _], _ => exact ⟨_, _, _, _, .six ..⟩
    | [_, _, _, _, _, _, _, _], _ => exact ⟨_, _, _, _, .eight ..⟩
  · rintro ⟨r, g, b, alpha, form⟩
    cases form <;> simp

theorem alpha_iff_of_form (form : HexForm digits r g b alpha) :
    alpha.isSome = true ↔ digits.length = 4 ∨ digits.length = 8 := by
  cases form <;> simp

theorem digits_iff_of_form (form : HexForm digits r g b alpha) : (∀ c ∈ digits, IsHexDigit c) ↔
    IsHexPair r ∧ IsHexPair g ∧ IsHexPair b ∧ ∀ pair ∈ alpha, IsHexPair pair := by
  cases form <;> simp [IsHexPair, and_assoc]

end Forms

/-! ### Reading -/

/-- What one would expect of digits behind `#`: they are a colour when there are three, four, six or eight and all are
hexadecimal. The channels are then the values of the pairs, and four or eight digits give an alpha channel. -/
structure ReadsDigits (s : String) (digits : List Char) : Prop where
  read : (parse? s).isSome = true ↔ digits.length ∈ [3, 4, 6, 8] ∧ ∀ c ∈ digits, IsHexDigit c
  channels : ∀ color r g b alpha, parse? s = some color → HexForm digits r g b alpha → color.mode = .rgb ∧
    color.first = toString (pairValue r) ∧ color.second = toString (pairValue g) ∧ color.third = toString (pairValue b)
  alpha : ∀ color, parse? s = some color → (color.alpha.isSome = true ↔ digits.length = 4 ∨ digits.length = 8)

theorem parse?_of_hash (hash : trim s.toList = '#' :: digits) : parse? s = ofHexDigits? digits := by
  unfold parse?
  rw [hash]
  rfl

/-- Digits behind `#` are a colour when they make up hexadecimal pairs, but that a pair for alpha may also hold decimal
digits of other scripts; the colour is then opaque. Such pairs are all that keeps the digits from being read as
expected. -/
theorem parse?_hash (hash : trim s.toList = '#' :: digits) :
    (∀ color, parse? s = some color ↔
      ∃ r g b alpha, HexForm digits r g b alpha ∧ IsHexColour r g b alpha ∧ color = ofPairs r g b alpha) ∧
    (ReadsDigits s digits ↔
      ∀ r g b alpha, HexForm digits r g b alpha → IsHexColour r g b alpha → ∀ pair ∈ alpha, IsHexPair pair) := by
  have exact : ∀ color, parse? s = some color ↔
      ∃ r g b alpha, HexForm digits r g b alpha ∧ IsHexColour r g b alpha ∧ color = ofPairs r g b alpha := by
    intro color
    rw [parse?_of_hash hash, ofHexDigits?_eq_some_iff]
  refine ⟨exact, fun reads r g b alpha form colour => ?_, fun plain => ⟨?_, ?_, ?_⟩⟩
  · have read := (exact _).mpr ⟨r, g, b, alpha, form, colour, rfl⟩
    have digits := (reads.read.mp (Option.isSome_of_eq_some read)).2
    exact ((digits_iff_of_form form).mp digits).2.2.2
  · rw [Option.isSome_iff_exists, length_iff]
    constructor
    · rintro ⟨color, read⟩
      obtain ⟨r, g, b, alpha, form, colour, -⟩ := (exact color).mp read
      exact ⟨⟨r, g, b, alpha, form⟩, (digits_iff_of_form form).mpr
        ⟨colour.red, colour.green, colour.blue, plain r g b alpha form colour⟩⟩
    · rintro ⟨⟨r, g, b, alpha, form⟩, digits⟩
      obtain ⟨red, green, blue, last⟩ := (digits_iff_of_form form).mp digits
      exact ⟨_, (exact _).mpr
        ⟨r, g, b, alpha, form, ⟨red, green, blue, fun pair member => (last pair member).imp .inl .inl⟩, rfl⟩⟩
  · intro color r g b alpha read form
    obtain ⟨r', g', b', alpha', form', -, rfl⟩ := (exact color).mp read
    obtain ⟨rfl, rfl, rfl, -⟩ := form_unique form form'
    exact ⟨rfl, rfl, rfl, rfl⟩
  · intro color read
    obtain ⟨r, g, b, alpha, form, colour, rfl⟩ := (exact color).mp read
    rw [← alpha_iff_of_form form]
    cases alpha with
    | none => exact Iff.rfl
    | some pair => simp [ofPairs, plain r g b (some pair) form colour pair rfl]

/-- The fourth digit is an Arabic four, and what is read is opaque. -/
theorem parse?_hash_wide : parse? "#123\u0664" = some ⟨.rgb, "17", "34", "51", none⟩ ∧
    ¬ReadsDigits "#123\u0664" "123\u0664".toList := by
  have hash : trim "#123\u0664".toList = '#' :: "123\u0664".toList := by decide
  obtain ⟨exact, expected⟩ := parse?_hash hash
  have colour : IsHexColour ('1', '1') ('2', '2') ('3', '3') (some ('\u0664', '\u0664')) :=
    ⟨by decide, by decide, by decide, by decide⟩
  have form : HexForm "123\u0664".toList ('1', '1') ('2', '2') ('3', '3') (some ('\u0664', '\u0664')) := .four ..
  refine ⟨(exact _).mpr ⟨_, _, _, _, form, colour, by decide⟩, fun reads => ?_⟩
  have hex := expected.mp reads _ _ _ _ form colour _ rfl
  exact absurd hex (by decide)

end UtilityCss.Color
