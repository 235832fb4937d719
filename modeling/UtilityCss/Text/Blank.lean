/-!
# Blank characters

The characters with the Unicode property `White_Space`, and what is cut at them: words and trimmed text.
-/

namespace UtilityCss.Text

/-- The code points with the Unicode property `White_Space`. -/
def blankCodes : List Nat :=
  [0x09, 0x0A, 0x0B, 0x0C, 0x0D, 0x20, 0x85, 0xA0, 0x1680,
   0x2000, 0x2001, 0x2002, 0x2003, 0x2004, 0x2005, 0x2006, 0x2007, 0x2008, 0x2009, 0x200A,
   0x2028, 0x2029, 0x202F, 0x205F, 0x3000]

/-- A blank is a character with the Unicode property `White_Space`. -/
def isBlank (c : Char) : Bool :=
  c = ' ' || (c.toNat < 0x21 || 0x7F < c.toNat) && blankCodes.contains c.toNat

theorem isBlank_eq_contains (c : Char) : isBlank c = blankCodes.contains c.toNat := by
  unfold isBlank
  by_cases h : c = ' '
  · subst h; decide
  · by_cases h1 : c.toNat < 0x21
    · simp [h, h1]
    · by_cases h2 : 0x7F < c.toNat
      · simp [h, h2]
      · have : c.toNat ∉ blankCodes := by
          simp only [blankCodes, List.mem_cons, List.not_mem_nil, or_false, not_or]
          omega
        simp [h, h1, h2, this]

/-! ### Words -/

/-- Adds a character to the word that a split text starts with. -/
def consWord (c : Char) : List (List Char) → List (List Char)
  | [] => [[c]]
  | w :: ws => (c :: w) :: ws

/-- The parts of a text between the characters that `cut` names, empty parts included. -/
def splitAt (cut : Char → Bool) (cs : List Char) : List (List Char) :=
  cs.foldr (fun c parts => if cut c then [] :: parts else consWord c parts) [[]]

@[simp] theorem splitAt_nil (cut : Char → Bool) : splitAt cut [] = [[]] := rfl

theorem splitAt_cons (cut : Char → Bool) (c : Char) (cs : List Char) :
    splitAt cut (c :: cs) = if cut c then [] :: splitAt cut cs else consWord c (splitAt cut cs) := rfl

/-- The words of a text: its longest runs of characters other than blanks, in order. -/
def words (cs : List Char) : List (List Char) :=
  (splitAt isBlank cs).filter (!·.isEmpty)

def stringWords (s : String) : List String :=
  (words s.toList).map String.ofList

/-! ### Trimming -/

/-- A text without the blanks it starts and ends with. -/
def trim (cs : List Char) : List Char :=
  ((cs.dropWhile isBlank).reverse.dropWhile isBlank).reverse

end UtilityCss.Text
