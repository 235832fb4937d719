import UtilityCss.Pattern
import UtilityCss.Text.Blank

/-!
# Tokens

What a utility looks like in a source text: variants that end in a colon, an important mark, and a utility
with a modifier or a property in brackets. `Token.rest?` reads one token from the start of a text, and
`Token.extract` the tokens of a whole source.
-/

namespace UtilityCss.Token
open Text

/-! ### The shape of a token -/

def isLower (c : Char) : Bool :=
  'a' ≤ c && c ≤ 'z'

def isLowerOrDigit (c : Char) : Bool :=
  isLower c || ('0' ≤ c && c ≤ '9')

/-- Small letters, digits and the characters listed. -/
def isAmong (others : List Char) (c : Char) : Bool :=
  isLowerOrDigit c || others.contains c

def isLowerOrHyphen (c : Char) : Bool :=
  isLower c || c == '-'

def singleQuote : Char := Char.ofNat 0x27

/-- What stands in the brackets of a variant for an attribute or a width. -/
def isDynamicContent : Char → Bool :=
  isAmong ['[', ']', '=', '"', singleQuote, '_', ':', '>', '+', '*', '~', '.', '-']

/-- What stands in the brackets of a variant that is a selector or an at-rule. -/
def isSelectorContent : Char → Bool :=
  isAmong ['&', '[', ']', '=', '"', singleQuote, ':', '>', '+', '*', '~', '.', '(', ')', '_', '@', '-']

/-- What stands in the brackets of a modifier. -/
def isModifierContent : Char → Bool :=
  isAmong ['.', '%', '(', ')', '+', '*', '/', '-']

/-- What stands in the brackets of a value. -/
def isValueContent : Char → Bool :=
  isAmong ['#', '.', '_', ',', singleQuote, '%', '(', ')', '+', '*', '/', '-']

/-- A variant: a name, the child mark, a name with a value in brackets, or brackets alone. -/
def variant : Pattern :=
  .alt (.seq (.one isLowerOrDigit) (.plus (isAmong ['-'])))
    (.alt (.char '*')
      (.alt
        (.seq (.plus isLowerOrHyphen) (.seq (.char '-') (.between '[' ']' (.plus isDynamicContent))))
        (.between '[' ']' (.plus isSelectorContent))))

def variantColon : Pattern :=
  .seq variant (.char ':')

def modifier : Pattern :=
  .seq (.char '/') (.alt (.plus isLowerOrDigit) (.between '[' ']' (.plus isModifierContent)))

/-- A utility without brackets has at least two characters and ends in a letter, a digit or `%`. -/
def plainUtility : Pattern :=
  .seq (.one isLower) (.seq (.many (isAmong ['.', '-'])) (.one (isAmong ['%'])))

def bracketUtility : Pattern :=
  .seq (.one isLower) (.seq (.many isLowerOrHyphen)
    (.seq (.char '-') (.between '[' ']' (.plus isValueContent))))

/-- A property and its value in brackets. -/
def property : Pattern :=
  .between '[' ']' (.seq (.one isLower) (.seq (.plus isLowerOrHyphen)
    (.seq (.char ':') (.plus isValueContent))))

def utility : Pattern :=
  .seq (.opt (.char '!'))
    (.alt (.seq (.opt (.char '-')) (.seq (.alt plainUtility bracketUtility) (.opt modifier))) property)

/-- The texts that have the shape of a token: any number of variants and a utility. -/
inductive Shape : List Char → Prop
  | utility {w : List Char} : utility.Matches w → Shape w
  | variant {v w : List Char} : variantColon.Matches v → Shape w → Shape (v ++ w)

/-! ### One token -/

/-- A token ends where the text ends, or in front of a colon or a dollar sign. -/
def endsHere : List Char → Bool
  | [] => true
  | c :: _ => c == ':' || c == '$'

/-- What a utility at the start of the text leaves of it. -/
def utilityRest? (cs : List Char) : Option (List Char) :=
  (utility.rests cs).find? endsHere

/-- What a token at the start of the text leaves of it, given that for the texts behind a colon. A
variant is preferred to none, and a longer one to a shorter one. -/
def restWith (later : List (Nat × Option (List Char))) (cs : List Char) : Option (List Char) :=
  ((variantColon.rests cs).findSome? fun rest => (later.lookup rest.length).join) <|> utilityRest? cs

/-- For each end of the text that stands behind a colon, by its length, what a token at its start leaves
of it. -/
def restsBehindColons : List Char → List (Nat × Option (List Char))
  | [] => []
  | c :: cs =>
    let later := restsBehindColons cs
    if c = ':' then (cs.length, restWith later cs) :: later else later

/-- What a token at the start of the text leaves of it. -/
def rest? (cs : List Char) : Option (List Char) :=
  restWith (restsBehindColons cs) cs

def atStart? (cs : List Char) : Option (List Char) :=
  (rest? cs).map fun rest => cs.take (cs.length - rest.length)

/-! ### The tokens of a source -/

/-- The characters behind which a token may start: blanks, quotes, and the brace that closes an
interpolation. -/
def isBorder (c : Char) : Bool :=
  isBlank c || c == '"' || c == singleQuote || c == Char.ofNat 0x60 || c == '\x7d'

/-- The token at the start of each run between borders, repeats included. -/
def occurrences (cs : List Char) : List (List Char) :=
  ((splitAt isBorder cs).filter (!·.isEmpty)).filterMap atStart?

/-- The tokens of a source in the order of their first occurrence. -/
def extract (source : String) : List String :=
  ((occurrences source.toList).map String.ofList).eraseDups

end UtilityCss.Token
