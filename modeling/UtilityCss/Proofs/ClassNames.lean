import UtilityCss.Proofs.WholeTokens

/-!
# Class names

A selector names a class by an identifier of CSS, in which a backslash escapes a character or writes its code
point in hexadecimal digits. `Identifier.read?` reads an identifier. A token of a source is read back from its
escaped form unless it starts with a digit: the backslash in front of a digit makes it part of a code point.
-/

namespace UtilityCss

/-! ### Identifiers -/

namespace Identifier

def isHexDigit (c : Char) : Bool :=
  (Color.hexValue? c).isSome

/-- A letter of ASCII, the underscore, or a character outside ASCII. -/
def isLetter (c : Char) : Bool :=
  c.isAlpha || c = '_' || 0x80 ≤ c.toNat

/-- The characters that stand for themselves. -/
def isPlain (c : Char) : Bool :=
  isLetter c || c.isDigit || c = '-'

def isSpace (c : Char) : Bool :=
  c = ' ' || c = '\t' || c = '\n' || c = '\x0c' || c = '\r'

/-- The digits of a code point at the start of a text: six at most. -/
def codeDigits (cs : List Char) : List Char :=
  (cs.takeWhile isHexDigit).take 6

def codeValue (digits : List Char) : Nat :=
  digits.foldl (fun n c => 16 * n + (Color.hexValue? c).getD 0) 0

/-- The character of a code point. The replacement character stands for zero and for what is no code point of
a character. -/
def ofCode (n : Nat) : Char :=
  if (Char.ofNat n).toNat = 0 then Char.ofNat 0xFFFD else Char.ofNat n

def dropSpace : List Char → List Char
  | [] => []
  | c :: cs => if isSpace c then cs else c :: cs

/-- What a backslash in front of a text escapes, and the text behind that. One space behind the digits of a code
point belongs to it. -/
def unescape? : List Char → Option (Char × List Char)
  | [] => none
  | c :: cs =>
    if isHexDigit c then
      some (ofCode (codeValue (codeDigits (c :: cs))), dropSpace ((c :: cs).drop (codeDigits (c :: cs)).length))
    else some (c, cs)

theorem length_dropSpace_le (cs : List Char) : (dropSpace cs).length ≤ cs.length := by
  cases cs with
  | nil => exact Nat.le_refl _
  | cons c cs =>
    rw [dropSpace]
    split
    · exact Nat.le_succ _
    · exact Nat.le_refl _

theorem codeDigits_cons {c : Char} (cs : List Char) (digit : isHexDigit c = true) :
    codeDigits (c :: cs) = c :: (cs.takeWhile isHexDigit).take 5 := by
  rw [codeDigits, List.takeWhile_cons, if_pos digit]
  rfl

theorem length_lt_of_unescape? {c : Char} {cs rest : List Char} (h : unescape? cs = some (c, rest)) :
    rest.length < cs.length := by
  cases cs with
  | nil => cases h
  | cons d cs =>
    rw [unescape?] at h
    split at h
    · rename_i digit
      obtain ⟨-, rfl⟩ := Prod.mk.inj (Option.some.inj h)
      have shorter := length_dropSpace_le ((d :: cs).drop (codeDigits (d :: cs)).length)
      rw [codeDigits_cons cs digit, List.length_cons, List.drop_succ_cons, List.length_drop] at shorter
      rw [codeDigits_cons cs digit, List.length_cons, List.drop_succ_cons, List.length_cons]
      omega
    · obtain ⟨-, rfl⟩ := Prod.mk.inj (Option.some.inj h)
      exact Nat.lt_succ_self _

/-- The name that the rest of an identifier stands for. -/
def name? (cs : List Char) : Option (List Char) :=
  match cs with
  | [] => some []
  | c :: cs =>
    if c = '\\' then
      match _h : unescape? cs with
      | some (c, rest) => (name? rest).map (c :: ·)
      | none => none
    else if isPlain c then (name? cs).map (c :: ·)
    else none
termination_by cs.length
decreasing_by
  · have := length_lt_of_unescape? _h
    simp only [List.length_cons]
    omega
  · exact Nat.lt_succ_self _

/-- Whether an identifier can start like this: with a letter or an escape, or with a hyphen that has one of them
or another hyphen behind it. -/
def starts : List Char → Bool
  | '-' :: c :: _ => c = '-' || c = '\\' || isLetter c
  | c :: _ => c = '\\' || isLetter c
  | [] => false

/-- The name that a whole text stands for as an identifier. -/
def read? (cs : List Char) : Option (List Char) :=
  if starts cs then name? cs else none

/-- The two ways to write the class of `2xl`: the code point of the digit, and an escaped digit, which is a code
point of its own. -/
example : read? "\\32 xl".toList = some "2xl".toList ∧ read? "\\2xl".toList = some ['\x02', 'x', 'l'] := by
  decide +kernel

/-! ### Marks -/

variable {c : Char} {cs : List Char}

/-- What may stand in a class name: marks, which are escaped, and what needs no escape. -/
def IsUsual (c : Char) : Prop :=
  c ∈ selectorMarks ∨ isPlain c = true

theorem name?_plain (unmarked : c ≠ '\\') (plain : isPlain c = true) :
    name? (c :: cs) = (name? cs).map (c :: ·) := by
  rw [name?, if_neg unmarked, if_pos plain]

theorem name?_escape {rest : List Char} (read : unescape? cs = some (c, rest)) :
    name? ('\\' :: cs) = (name? rest).map (c :: ·) := by
  rw [name?, if_pos rfl]
  split
  · rename_i found
    obtain ⟨rfl, rfl⟩ := Prod.mk.inj (Option.some.inj (found.symm.trans read))
    rfl
  · rename_i none
    cases none.symm.trans read

theorem escapeMarks_cons (c : Char) (cs : List Char) :
    escapeMarks (c :: cs) = if c ∈ selectorMarks then '\\' :: c :: escapeMarks cs else c :: escapeMarks cs := by
  rw [escapeMarks, List.flatMap_cons]
  by_cases mark : c ∈ selectorMarks
  · simp [mark, escapeMarks]
  · simp [mark, escapeMarks]

instance : DecidablePred IsUsual :=
  fun _ => inferInstanceAs (Decidable (_ ∨ _))

theorem isHexDigit_of_mark (mark : c ∈ selectorMarks) : isHexDigit c = false := by
  have all : selectorMarks.all (!isHexDigit ·) = true := by decide
  simpa using List.all_eq_true.mp all c mark

theorem unmarked_of_isHexDigit (digit : isHexDigit c = true) : c ∉ selectorMarks := by
  intro mark
  rw [isHexDigit_of_mark mark] at digit
  cases digit

theorem name?_escapeMarks (usual : ∀ c ∈ cs, IsUsual c) : name? (escapeMarks cs) = some cs := by
  induction cs with
  | nil => rw [escapeMarks, List.flatMap_nil, name?]
  | cons c cs ih =>
    obtain ⟨first, later⟩ := List.forall_mem_cons.mp usual
    rw [escapeMarks_cons]
    split
    · rename_i mark
      have read : unescape? (c :: escapeMarks cs) = some (c, escapeMarks cs) := by
        rw [unescape?, isHexDigit_of_mark mark, if_neg Bool.false_ne_true]
      rw [name?_escape read, ih later]
      rfl
    · rename_i unmarked
      have plain := first.resolve_left unmarked
      have other : c ≠ '\\' := fun same => absurd plain (by rw [same]; decide)
      rw [name?_plain other plain, ih later]
      rfl

/-! ### Code points -/

theorem takeWhile_escapeMarks (cs : List Char) :
    (escapeMarks cs).takeWhile isHexDigit = cs.takeWhile isHexDigit := by
  induction cs with
  | nil => rfl
  | cons c cs ih =>
    rw [escapeMarks_cons]
    split
    · rename_i mark
      have backslash : isHexDigit '\\' = false := by decide
      rw [List.takeWhile_cons_of_neg (by rw [backslash]; decide),
        List.takeWhile_cons_of_neg (by rw [isHexDigit_of_mark mark]; decide)]
    · rw [List.takeWhile_cons, List.takeWhile_cons, ih]

theorem escapeMarks_append_digits {digits : List Char} (hex : ∀ c ∈ digits, isHexDigit c = true) :
    escapeMarks (digits ++ cs) = digits ++ escapeMarks cs := by
  induction digits with
  | nil => rfl
  | cons c digits ih =>
    obtain ⟨first, later⟩ := List.forall_mem_cons.mp hex
    rw [List.cons_append, escapeMarks_cons, if_neg (unmarked_of_isHexDigit first), ih later, List.cons_append]

theorem codeDigits_append_drop (cs : List Char) : codeDigits cs ++ cs.drop (codeDigits cs).length = cs := by
  have front : codeDigits cs <+: cs := (List.take_prefix _ _).trans (List.takeWhile_prefix _)
  exact List.prefix_iff_eq_append.mp front

theorem isHexDigit_of_mem_codeDigits (member : c ∈ codeDigits cs) : isHexDigit c = true :=
  List.all_eq_true.mp List.all_takeWhile c (List.mem_of_mem_take member)

theorem isSpace_of_isUsual (usual : IsUsual c) : isSpace c = false := by
  have spaces : [' ', '\t', '\n', '\x0c', '\r'].all (¬IsUsual ·) = true := by decide
  rw [← Bool.not_eq_true]
  intro space
  refine of_decide_eq_true (List.all_eq_true.mp spaces c ?_) usual
  simpa [isSpace, or_assoc] using space

theorem dropSpace_escapeMarks (usual : ∀ c ∈ cs, IsUsual c) : dropSpace (escapeMarks cs) = escapeMarks cs := by
  cases cs with
  | nil => rfl
  | cons c cs =>
    rw [escapeMarks_cons]
    split
    · rfl
    · rw [dropSpace, isSpace_of_isUsual (List.forall_mem_cons.mp usual).1]
      rfl

/-- A backslash in front of a digit takes it, and the digits behind it, for a code point. -/
theorem name?_escape_digit (digit : isHexDigit c = true) (usual : ∀ x ∈ c :: cs, IsUsual x) :
    name? ('\\' :: escapeMarks (c :: cs)) =
      some (ofCode (codeValue (codeDigits (c :: cs))) :: (c :: cs).drop (codeDigits (c :: cs)).length) := by
  have later : ∀ x ∈ (c :: cs).drop (codeDigits (c :: cs)).length, IsUsual x :=
    fun x member => usual x (List.mem_of_mem_drop member)
  -- Digits are not escaped, so the escaped text starts with the same code point.
  have split := codeDigits_append_drop (c :: cs)
  have escaped : escapeMarks (c :: cs) = codeDigits (c :: cs) ++
      escapeMarks ((c :: cs).drop (codeDigits (c :: cs)).length) := by
    rw [← escapeMarks_append_digits fun x => isHexDigit_of_mem_codeDigits, split]
  have digits : codeDigits (escapeMarks (c :: cs)) = codeDigits (c :: cs) := by
    rw [codeDigits, takeWhile_escapeMarks, ← codeDigits]
  have first : escapeMarks (c :: cs) = c :: escapeMarks cs := by
    rw [escapeMarks_cons, if_neg (unmarked_of_isHexDigit digit)]
  have read : unescape? (escapeMarks (c :: cs)) = some (ofCode (codeValue (codeDigits (c :: cs))),
      escapeMarks ((c :: cs).drop (codeDigits (c :: cs)).length)) := by
    rw [first, unescape?, if_pos digit, ← first, digits]
    conv => lhs; rw [escaped, List.drop_left, dropSpace_escapeMarks later]
  rw [name?_escape read, name?_escapeMarks later]
  rfl

theorem hexValue?_of_isDigit (digit : c.isDigit = true) :
    Color.hexValue? c = some (c.toNat - '0'.toNat) ∧ c.toNat - '0'.toNat < 10 := by
  simp only [Char.isDigit, Bool.and_eq_true, decide_eq_true_eq] at digit
  have upper : c.toNat ≤ '9'.toNat := UInt32.le_iff_toNat_le.mp digit.2
  refine ⟨?_, ?_⟩
  · rw [Color.hexValue?, if_pos ⟨digit.1, digit.2⟩]
  · have nine : '9'.toNat = 57 := rfl
    have zero : '0'.toNat = 48 := rfl
    omega

theorem isHexDigit_of_isDigit (digit : c.isDigit = true) : isHexDigit c = true := by
  rw [isHexDigit, (hexValue?_of_isDigit digit).1]
  rfl

theorem ofCode_ne_digit (digit : c.isDigit = true) : ofCode (codeValue [c]) ≠ c := by
  have low : ∀ n < 10, (ofCode n).isDigit = false := by decide
  obtain ⟨value, small⟩ := hexValue?_of_isDigit digit
  have named : codeValue [c] = c.toNat - '0'.toNat := by
    rw [codeValue, List.foldl_cons, value, Option.getD_some, Nat.mul_zero, Nat.zero_add, List.foldl_nil]
  intro same
  have other := low _ small
  rw [← named, same] at other
  exact Bool.false_ne_true (other.symm.trans digit)

theorem ofCode_cons_drop_ne (digit : c.isDigit = true) :
    ofCode (codeValue (codeDigits (c :: cs))) :: (c :: cs).drop (codeDigits (c :: cs)).length ≠ c :: cs := by
  have cut := codeDigits_cons cs (isHexDigit_of_isDigit digit)
  intro same
  obtain ⟨first, rest⟩ := List.cons.inj same
  -- The lengths agree only if the code point has one digit, and no digit has its own value for a code point.
  have lengths := congrArg List.length rest
  have fits := congrArg List.length (codeDigits_append_drop (c :: cs))
  rw [cut, List.length_cons, List.drop_succ_cons] at lengths
  rw [cut, List.length_append, List.length_cons, List.drop_succ_cons, List.length_cons] at fits
  have alone : (cs.takeWhile isHexDigit).take 5 = [] := List.eq_nil_of_length_eq_zero (by omega)
  rw [cut, alone] at first
  exact ofCode_ne_digit digit first

end Identifier

/-! ### Tokens -/

namespace Token
open Identifier Pattern

variable {w : List Char}

theorem isLetter_of_isLower {c : Char} (lower : isLower c = true) : isLetter c = true := by
  have same : c.isLower = true := lower
  have alpha : c.isAlpha = (c.isUpper || c.isLower) := rfl
  rw [isLetter, alpha, same, Bool.or_true, Bool.true_or, Bool.true_or]

theorem isLower_or_isDigit {c : Char} (h : isLowerOrDigit c = true) : isLower c = true ∨ c.isDigit = true :=
  Bool.or_eq_true_iff.mp h

theorem isPlain_of_isLowerOrDigit {c : Char} (h : isLowerOrDigit c = true) : isPlain c = true := by
  rcases isLower_or_isDigit h with lower | digit
  · rw [isPlain, isLetter_of_isLower lower, Bool.true_or, Bool.true_or]
  · rw [isPlain, digit, Bool.or_true, Bool.true_or]

theorem isUsual_of_isAmong {c : Char} {others : List Char} (h : isAmong others c = true)
    (known : others.all (IsUsual ·) = true) : IsUsual c := by
  simp only [isAmong, Bool.or_eq_true, List.contains_iff_mem] at h
  rcases h with plain | other
  · exact .inr (isPlain_of_isLowerOrDigit plain)
  · exact of_decide_eq_true (List.all_eq_true.mp known c other)

theorem isUsual_of_shape (shape : Shape w) : ∀ c ∈ w, IsUsual c := by
  induction shape with
  | utility described =>
    intro c member
    exact isUsual_of_isAmong (isAmong_of_admits (admits_of_matches described c member)) (by decide)
  | variant described _ ih =>
    intro c member
    rcases List.mem_append.mp member with front | behind
    · exact isUsual_of_isAmong (isSelectorContent_of_isVariant (matches_iff_isVariant.mp described) c front)
        (by decide)
    · exact ih c behind

/-- Behind a hyphen at its start a token has a small letter or another hyphen. -/
def Opens : List Char → Prop
  | [] => False
  | c :: cs =>
    isLowerOrDigit c = true ∨ c ∈ selectorMarks ∨
      c = '-' ∧ ∃ d, cs.head? = some d ∧ isLowerOrHyphen d = true

theorem opens_of_isStem {stem rest : List Char} (isStem : IsStem stem) : Opens (stem ++ '[' :: rest) := by
  rcases isStem with rfl | ⟨name, rfl, some, named⟩
  · exact .inr (.inl (by decide))
  obtain ⟨c, name, rfl⟩ := List.exists_cons_of_ne_nil some
  obtain ⟨first, later⟩ := List.forall_mem_cons.mp named
  rcases Bool.or_eq_true_iff.mp first with lower | hyphen
  · exact .inl (Bool.or_eq_true_iff.mpr (.inl lower))
  · refine .inr (.inr ⟨beq_iff_eq.mp hyphen, ?_⟩)
    cases name with
    | nil => exact ⟨'-', rfl, rfl⟩
    | cons d name => exact ⟨d, rfl, later d List.mem_cons_self⟩

theorem opens_of_utility (h : utility.Matches w) : Opens w := by
  simp only [utility, matches_seq_iff, matches_opt_iff, matches_alt_iff, matches_char_iff] at h
  obtain ⟨_, _, rfl | rfl, ⟨hyphen, _, sign, ⟨v, modified, described, -, rfl⟩, rfl⟩ | property, rfl⟩ := h
  · exact .inr (.inl (by decide))
  · exact .inr (.inl (by decide))
  · obtain ⟨c, body, rfl, lower⟩ := starts_of_matches (matches_alt_iff.mpr described)
    have letter : isLowerOrHyphen c = true := Bool.or_eq_true_iff.mpr (.inl lower)
    rcases sign with rfl | rfl
    · exact .inr (.inr ⟨rfl, c, rfl, letter⟩)
    · exact .inl (Bool.or_eq_true_iff.mpr (.inl lower))
  · obtain ⟨_, -, rfl⟩ := matches_between_iff.mp property
    exact .inr (.inl (by decide))

theorem opens_of_shape (shape : Shape w) : Opens w := by
  cases shape with
  | utility described => exact opens_of_utility described
  | variant described _ =>
    cases matches_iff_isVariant.mp described with
    | named first _ _ => exact .inl first
    | child => exact .inr (.inl (by decide))
    | bracketed isStem _ _ =>
      rw [List.append_assoc]
      exact opens_of_isStem isStem

theorem starts_of_isLetter {c : Char} {cs : List Char} (letter : isLetter c = true) : starts (c :: cs) = true := by
  have other : c ≠ '-' := fun same => absurd letter (by rw [same]; decide)
  unfold starts
  split
  · rename_i same
    exact absurd (List.cons.inj same).1 other
  · rename_i same
    rw [← (List.cons.inj same).1, letter, Bool.or_true]
  · rename_i same
    cases same

theorem isLowerOrHyphen_of_mark {c : Char} (mark : c ∈ selectorMarks) : isLowerOrHyphen c = false := by
  have all : selectorMarks.all (!isLowerOrHyphen ·) = true := by decide
  simpa using List.all_eq_true.mp all c mark

theorem starts_escapeClass (opens : Opens w) : starts (escapeClass w) = true := by
  cases w with
  | nil => exact opens.elim
  | cons c w =>
    rw [escapeClass]
    split
    · rfl
    rename_i nodigit
    rw [escapeMarks_cons]
    split
    · rfl
    rename_i unmarked
    rcases opens with plain | mark | ⟨rfl, d, second, later⟩
    · exact starts_of_isLetter (isLetter_of_isLower ((isLower_or_isDigit plain).resolve_right nodigit))
    · exact absurd mark unmarked
    · obtain ⟨more, rfl⟩ := List.head?_eq_some_iff.mp second
      have unmarked : d ∉ selectorMarks := fun mark =>
        Bool.false_ne_true ((isLowerOrHyphen_of_mark mark).symm.trans later)
      rw [escapeMarks_cons, if_neg unmarked, starts]
      rcases Bool.or_eq_true_iff.mp later with lower | hyphen
      · rw [isLetter_of_isLower lower, Bool.or_true]
      · rw [beq_iff_eq.mp hyphen]
        rfl

theorem shape_of_mem_extract {source : String} (member : String.ofList w ∈ extract source) : Shape w := by
  obtain ⟨rest, -, read⟩ := exists_run_of_mem_extract member
  obtain ⟨w', same, shape, -⟩ := shape_of_rest? read
  rwa [List.append_cancel_right same]

/-- A token starts with a digit if its first variant does. -/
def startsWithDigit (w : List Char) : Bool :=
  w.head?.any Char.isDigit

/-- The class name that stands in the selector of a token is the token, unless the token starts with a digit. Then
the digits at its start are read as a code point, and the name is another one. -/
theorem read?_escapeClass {source token : String} (member : token ∈ extract source) :
    (read? (escapeClass token.toList) = some token.toList ↔ startsWithDigit token.toList = false) ∧
    (startsWithDigit token.toList = true → read? (escapeClass token.toList) =
      some (ofCode (codeValue (codeDigits token.toList)) ::
        token.toList.drop (codeDigits token.toList).length)) := by
  rw [← String.ofList_toList (s := token)] at member
  have shape := shape_of_mem_extract member
  generalize token.toList = w at *
  have usual := isUsual_of_shape shape
  rw [read?, if_pos (starts_escapeClass (opens_of_shape shape))]
  cases w with
  | nil => exact (opens_of_shape shape).elim
  | cons c w =>
    have first : startsWithDigit (c :: w) = c.isDigit := rfl
    rw [first, escapeClass]
    split
    · rename_i digit
      rw [name?_escape_digit (isHexDigit_of_isDigit digit) usual, digit]
      refine ⟨⟨fun same => ?_, fun none => ?_⟩, fun _ => rfl⟩
      · exact absurd (Option.some.inj same) (ofCode_cons_drop_ne digit)
      · cases none
    · rename_i nodigit
      rw [Bool.not_eq_true] at nodigit
      rw [name?_escapeMarks usual, nodigit]
      exact ⟨⟨fun _ => rfl, fun _ => rfl⟩, fun digit => absurd digit Bool.false_ne_true⟩

theorem read?_escapeClass_of_screens :
    "2xl:p-4" ∈ extract "2xl:p-4 md:w-1/2" ∧ "md:w-1/2" ∈ extract "2xl:p-4 md:w-1/2" ∧
      read? (escapeClass "2xl:p-4".toList) = some ('\x02' :: "xl:p-4".toList) ∧
      read? (escapeClass "md:w-1/2".toList) = some "md:w-1/2".toList := by
  have wide : "2xl:p-4" ∈ extract "2xl:p-4 md:w-1/2" := by decide
  have tablet : "md:w-1/2" ∈ extract "2xl:p-4 md:w-1/2" := by decide
  refine ⟨wide, tablet, ?_, ?_⟩
  · exact (read?_escapeClass wide).2 (by decide)
  · exact (read?_escapeClass tablet).1.mpr (by decide)

end Token

end UtilityCss
