import UtilityCss.Data

/-!
# Scalars in TOML

Truth values, numbers, dates and times. A number is only checked; a date or a time keeps its text in the
usual form, in a record with one field.
-/

namespace UtilityCss.Toml

/-! ### Numbers -/

/-- Digits with single underscores between them. -/
def digits? (isDigit : Char → Bool) (cs : List Char) : Option (List Char) :=
  match cs with
  | [] => none
  | [c] => if isDigit c then some [c] else none
  | c :: '_' :: rest => if isDigit c then (digits? isDigit rest).map (c :: ·) else none
  | c :: rest => if isDigit c then (digits? isDigit rest).map (c :: ·) else none

/-- The value of a digit, letters included. -/
def digitValue (c : Char) : Nat :=
  if c.isDigit then c.toNat - '0'.toNat else c.toLower.toNat - 'a'.toNat + 10

def ofDigits (base : Nat) (digits : List Char) : Nat :=
  digits.foldl (fun n c => base * n + digitValue c) 0

/-- A sign, and the text behind it. -/
def sign : List Char → Bool × List Char
  | '+' :: rest => (false, rest)
  | '-' :: rest => (true, rest)
  | rest => (false, rest)

/-- Digits that start with zero only if there is no other. -/
def plainDigits? (cs : List Char) : Option (List Char) :=
  (digits? Char.isDigit cs).filter fun digits => digits.head? ≠ some '0' || digits.length = 1

/-- Whether a text is a whole number that fits into 64 bits with a sign. -/
def isInteger (cs : List Char) : Bool :=
  let based (base : Nat) (isDigit : Char → Bool) (rest : List Char) : Bool :=
    (digits? isDigit rest).any fun digits => ofDigits base digits < Nat.pow 2 63
  match cs with
  | '0' :: 'x' :: rest =>
    based 16 (fun c => c.isDigit || ('a' ≤ c && c ≤ 'f') || ('A' ≤ c && c ≤ 'F')) rest
  | '0' :: 'o' :: rest => based 8 (fun c => '0' ≤ c && c ≤ '7') rest
  | '0' :: 'b' :: rest => based 2 (fun c => c == '0' || c == '1') rest
  | _ =>
    let (negative, rest) := sign cs
    (plainDigits? rest).any fun digits =>
      if negative then ofDigits 10 digits ≤ Nat.pow 2 63 else ofDigits 10 digits < Nat.pow 2 63

/-- Whether `m * 10 ^ e` is too large for a floating-point number of 64 bits. -/
def overflows (m : Nat) (e : Int) : Bool :=
  let magnitude : Int := (Nat.toDigits 10 m).length + e
  if m = 0 || magnitude < 300 then false
  else if 320 < magnitude then true
  else if 0 ≤ e then Nat.pow 2 1024 - Nat.pow 2 970 ≤ m * Nat.pow 10 e.toNat
  else (Nat.pow 2 1024 - Nat.pow 2 970) * Nat.pow 10 (-e).toNat ≤ m

/-- The parts of a number with decimals or an exponent: whole digits, decimals, and the exponent. -/
def floatParts? (cs : List Char) : Option (List Char × List Char × Int) :=
  let isExponent (c : Char) : Bool := c == 'e' || c == 'E'
  let base := cs.takeWhile (!isExponent ·)
  let whole := base.takeWhile (· != '.')
  let exponent? : Option Int := match cs.drop base.length with
    | [] => some 0
    | _ :: rest =>
      let (negative, rest) := sign rest
      (digits? Char.isDigit rest).map fun digits =>
        if negative then -(ofDigits 10 digits : Int) else ofDigits 10 digits
  let decimals? : Option (List Char) := match base.drop whole.length with
    | [] => if base.length < cs.length then some [] else none
    | _ :: rest => digits? Char.isDigit rest
  do return (← plainDigits? whole, ← decimals?, ← exponent?)

/-- Whether a text is a number with decimals or an exponent, or one of the special numbers. Only a number
above zero can be too large. -/
def isFloat (cs : List Char) : Bool :=
  let (negative, rest) := sign cs
  rest == ['i', 'n', 'f'] || rest == ['n', 'a', 'n'] ||
    (floatParts? rest).any fun (whole, decimals, exponent) =>
      negative || !overflows (ofDigits 10 (whole ++ decimals)) (exponent - decimals.length)

/-! ### Dates and times -/

/-- A number of so many digits at the start of a text, within bounds. -/
def fixedDigits? (length least greatest : Nat) (cs : List Char) : Option (Nat × List Char) :=
  let digits := cs.take length
  if digits.length = length && digits.all Char.isDigit then
    let n := ofDigits 10 digits
    if least ≤ n && n ≤ greatest then some (n, cs.drop length) else none
  else none

def after? (mark : Char) : List Char → Option (List Char)
  | c :: rest => if c = mark then some rest else none
  | [] => none

def daysOfMonth (year month : Nat) : Nat :=
  if month = 2 then
    if year % 4 = 0 && (year % 100 ≠ 0 || year % 400 = 0) then 29 else 28
  else if [4, 6, 9, 11].contains month then 30
  else 31

/-- A date at the start of a text, as it is written. -/
def date? (cs : List Char) : Option (List Char × List Char) := do
  let (year, rest) ← fixedDigits? 4 0 9999 cs
  let (month, rest) ← fixedDigits? 2 1 12 (← after? '-' rest)
  let (_, rest) ← fixedDigits? 2 1 (daysOfMonth year month) (← after? '-' rest)
  return (cs.take 10, rest)

/-- A time at the start of a text. Of its decimals nine are kept, without the zeros at their end. -/
def time? (cs : List Char) : Option (List Char × List Char) := do
  let (_, rest) ← fixedDigits? 2 0 23 cs
  let (_, rest) ← fixedDigits? 2 0 59 (← after? ':' rest)
  let (_, rest) ← fixedDigits? 2 0 60 (← after? ':' rest)
  match rest with
  | '.' :: more =>
    let decimals := more.takeWhile Char.isDigit
    if decimals.isEmpty then none
    else
      let kept := ((decimals.take 9).reverse.dropWhile (· == '0')).reverse
      some (cs.take 8 ++ (if kept.isEmpty then [] else '.' :: kept), more.drop decimals.length)
  | _ => some (cs.take 8, rest)

/-- The distance from universal time at the start of a text. No distance is written with a plus. -/
def offset? (cs : List Char) : Option (List Char × List Char) :=
  match cs with
  | c :: rest =>
    if c = 'Z' || c = 'z' then some (['Z'], rest)
    else if c = '+' || c = '-' then do
      let (hours, more) ← fixedDigits? 2 0 23 rest
      let (minutes, more) ← fixedDigits? 2 0 59 (← after? ':' more)
      let mark := if hours = 0 && minutes = 0 then '+' else c
      return (mark :: rest.take 5, more)
    else none
  | [] => none

/-- A date, a time, or both at the start of a text. -/
def moment? (cs : List Char) : Option (List Char × List Char) :=
  match date? cs with
  | none => time? cs
  | some (date, rest) =>
    let timed? : Option (List Char × List Char) :=
      match rest with
      | c :: more => if c = 'T' || c = 't' || c = ' ' then time? more else none
      | [] => none
    match timed? with
    | none => some (date, rest)
    | some (time, rest) =>
      match offset? rest with
      | none => some (date ++ 'T' :: time, rest)
      | some (offset, rest) => some (date ++ 'T' :: time ++ offset, rest)

/-- The field that holds the text of a date or a time. -/
def momentField : String := "$__toml_private_datetime"

/-! ### Scalars -/

def isScalarChar (c : Char) : Bool :=
  c.isAlphanum || c == '_' || c == '+' || c == '-' || c == '.'

/-- A scalar at the start of a text. -/
def scalarValue? (cs : List Char) : Option (Data × List Char) :=
  match moment? cs with
  | some (moment, rest) => some (.record [(momentField, .text (String.ofList moment))], rest)
  | none =>
    let word := cs.takeWhile isScalarChar
    let rest := cs.drop word.length
    if word == ['t', 'r', 'u', 'e'] then some (.bool true, rest)
    else if word == ['f', 'a', 'l', 's', 'e'] then some (.bool false, rest)
    else if isInteger word || isFloat word then some (.number, rest)
    else none

end UtilityCss.Toml
