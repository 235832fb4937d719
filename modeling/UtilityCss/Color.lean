import UtilityCss.Decimal.Shortest
import UtilityCss.Declaration
import UtilityCss.Text.Blank
import UtilityCss.Text.Cut
import UtilityCss.Text.DecimalDigit

/-!
# Colours

A colour is read from hexadecimal digits or from `rgb()` and `hsl()`, and kept as the text of its channels,
so that an alpha channel can be put onto it. `Color.text` writes it in the space-separated form, which
`Color.parse?` reads.
-/

namespace UtilityCss

inductive ColorMode
  | rgb
  | hsl
  deriving DecidableEq, Repr

/-- A colour as the text of its channels. A colour without alpha channel is opaque. -/
structure Color where
  mode : ColorMode
  first : String
  second : String
  third : String
  alpha : Option String
  deriving DecidableEq, Repr

namespace Color
open Text

def modeText : ColorMode → String
  | .rgb => "rgb"
  | .hsl => "hsl"

def withAlpha (c : Color) (alpha : String) : Color :=
  { c with alpha := some alpha }

/-- The channels separated by spaces, the alpha channel behind a slash. -/
def text (c : Color) : String :=
  modeText c.mode ++ "(" ++ c.first ++ " " ++ c.second ++ " " ++ c.third ++
    (match c.alpha with
      | some alpha => " / " ++ alpha
      | none => "") ++ ")"

def transparent : Color :=
  ⟨.rgb, "0", "0", "0", some "0"⟩

/-! ### Hexadecimal digits -/

/-- The value of a hexadecimal digit of ASCII. -/
def hexValue? (c : Char) : Option Nat :=
  if '0' ≤ c ∧ c ≤ '9' then some (c.toNat - '0'.toNat)
  else if 'a' ≤ c ∧ c ≤ 'f' then some (c.toNat - 'a'.toNat + 10)
  else if 'A' ≤ c ∧ c ≤ 'F' then some (c.toNat - 'A'.toNat + 10)
  else none

/-- What may stand behind `#`: the letters of hexadecimal digits, and the decimal digits of any script. -/
def isHexPlace (c : Char) : Bool :=
  ('a' ≤ c && c ≤ 'f') || ('A' ≤ c && c ≤ 'F') || isDecimalDigit c

/-- The value of two hexadecimal digits, none if one of them has no value. -/
def pairValue? (high low : Char) : Option Nat := do
  return 16 * (← hexValue? high) + (← hexValue? low)

/-- The alpha channel that a pair of digits stands for: its share of 255. -/
def alphaOfPair? (high low : Char) : Option String :=
  (pairValue? high low).map (Decimal.shortestRatio · 255)

/-- Three channels of two digits each, and an alpha channel that is dropped if it has no value. -/
def ofChannels? (r₁ r₂ g₁ g₂ b₁ b₂ : Char) (alpha : Option String) : Option Color := do
  return ⟨.rgb, toString (← pairValue? r₁ r₂), toString (← pairValue? g₁ g₂),
    toString (← pairValue? b₁ b₂), alpha⟩

/-- Three or four digits stand for themselves doubled, six or eight for the channels. -/
def ofHexDigits? (digits : List Char) : Option Color :=
  if digits.all isHexPlace then
    match digits with
    | [r, g, b] => ofChannels? r r g g b b none
    | [r, g, b, a] => ofChannels? r r g g b b (alphaOfPair? a a)
    | [r₁, r₂, g₁, g₂, b₁, b₂] => ofChannels? r₁ r₂ g₁ g₂ b₁ b₂ none
    | [r₁, r₂, g₁, g₂, b₁, b₂, a₁, a₂] => ofChannels? r₁ r₂ g₁ g₂ b₁ b₂ (alphaOfPair? a₁ a₂)
    | _ => none
  else none

/-! ### Functional notation -/

/-- The percent sign that may follow a number. -/
def percentSign : List Char → List Char × List Char
  | '%' :: rest => (['%'], rest)
  | rest => ([], rest)

/-- A number at the start of the text, with or without decimals, and the text behind it. -/
def number? (cs : List Char) : Option (List Char × List Char) :=
  let whole := cs.takeWhile isDecimalDigit
  let rest := cs.dropWhile isDecimalDigit
  let decimals := match rest with
    | '.' :: more => more.takeWhile isDecimalDigit
    | _ => []
  if decimals.isEmpty then
    if whole.isEmpty then none
    else
      let sign := percentSign rest
      some (whole ++ sign.1, sign.2)
  else
    let sign := percentSign (rest.drop (decimals.length + 1))
    some (whole ++ '.' :: decimals ++ sign.1, sign.2)

def hueUnits : List (List Char) :=
  [['d', 'e', 'g'], ['r', 'a', 'd'], ['g', 'r', 'a', 'd'], ['t', 'u', 'r', 'n']]

/-- A number with or without a unit of angle. -/
def hue? (cs : List Char) : Option (List Char × List Char) := do
  let (digits, rest) ← number? cs
  match hueUnits.findSome? fun unit => (unit.isPrefixOf? rest).map (unit, ·) with
  | some (unit, rest) => some (digits ++ unit, rest)
  | none => some (digits, rest)

def skipBlanks (cs : List Char) : List Char :=
  cs.dropWhile isBlank

/-- The text behind a comma, which blanks may surround, or behind blanks. -/
def afterSeparator? (cs : List Char) : Option (List Char) :=
  match skipBlanks cs with
  | ',' :: rest => some (skipBlanks rest)
  | rest => if rest.length < cs.length then some rest else none

/-- The alpha channel and the closing parenthesis that end the text. -/
def closing? (cs : List Char) : Option (Option String) :=
  match skipBlanks cs with
  | [')'] => some none
  | c :: rest =>
    if c = ',' ∨ c = '/' then do
      let (alpha, rest) ← number? (skipBlanks rest)
      if skipBlanks rest = [')'] then some (some (String.ofList alpha)) else none
    else none
  | [] => none

/-- The channels behind the opening parenthesis. -/
def arguments? (mode : ColorMode) (cs : List Char) : Option Color := do
  let (first, rest) ← match mode with
    | .rgb => number? (skipBlanks cs)
    | .hsl => hue? (skipBlanks cs)
  let (second, rest) ← number? (← afterSeparator? rest)
  let (third, rest) ← number? (← afterSeparator? rest)
  let alpha ← closing? rest
  return ⟨mode, String.ofList first, String.ofList second, String.ofList third, alpha⟩

/-- The text behind the opening parenthesis of `rgb`, `rgba`, `hsl` or `hsla`. -/
def ofFunction? : List Char → Option Color
  | 'r' :: 'g' :: 'b' :: '(' :: rest => arguments? .rgb rest
  | 'r' :: 'g' :: 'b' :: 'a' :: '(' :: rest => arguments? .rgb rest
  | 'h' :: 's' :: 'l' :: '(' :: rest => arguments? .hsl rest
  | 'h' :: 's' :: 'l' :: 'a' :: '(' :: rest => arguments? .hsl rest
  | _ => none

/-! ### Reading -/

/-- Reads a colour that carries its channels. Blanks around it do not matter. -/
def parse? (s : String) : Option Color :=
  match trim s.toList with
  | ['t', 'r', 'a', 'n', 's', 'p', 'a', 'r', 'e', 'n', 't'] => some transparent
  | '#' :: digits => ofHexDigits? digits
  | cs => ofFunction? cs

/-- The alpha channel put onto a colour, or the fallback for a text that is no colour. -/
def withAlphaOr (color alpha fallback : String) : String :=
  match parse? color with
  | some c => (c.withAlpha alpha).text
  | none => fallback

/-- The declarations of a colour whose opacity a custom property drives. A text that is no opaque
colour is declared as it stands, and so is every text if the property is not wanted. -/
def declarations (color property : String) (wanted : Bool) (targets : List String) : List Declaration :=
  match (parse? color).filter fun c => wanted && c.alpha.isNone with
  | some c =>
    ⟨property, "1"⟩ :: targets.map (⟨·, (c.withAlpha ("var(" ++ property ++ ")")).text⟩)
  | none => targets.map (⟨·, color⟩)

end Color

end UtilityCss
