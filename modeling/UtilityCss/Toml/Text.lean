/-!
# Text in TOML

Blanks, comments, strings and keys. A reader gives what it read and the text behind it, or nothing if the
text does not start as it should.
-/

namespace UtilityCss.Toml

/-! ### Between the values -/

def isSpace (c : Char) : Bool :=
  c == ' ' || c == '\t'

/-- The characters that may stand in a comment or in a string: all but control characters. -/
def isTextChar (c : Char) : Bool :=
  c == '\t' || (0x20 ≤ c.toNat && c.toNat ≠ 0x7F)

def skipSpace (cs : List Char) : List Char :=
  cs.dropWhile isSpace

/-- The text behind a line break. -/
def lineBreak? : List Char → Option (List Char)
  | '\n' :: rest => some rest
  | '\r' :: '\n' :: rest => some rest
  | _ => none

/-- The text behind the end of a line, which blanks and a comment may come before. -/
def lineEnd? (cs : List Char) : Option (List Char) :=
  let rest := match skipSpace cs with
    | '#' :: rest => rest.dropWhile isTextChar
    | rest => rest
  if rest.isEmpty then some [] else lineBreak? rest

/-- The text behind blanks, line breaks and comments. A comment ends in a line break. -/
def skipLayout? (inComment : Bool) : List Char → Option (List Char)
  | [] => if inComment then none else some []
  | c :: cs =>
    if c = '\n' then skipLayout? false cs
    else if c = '\r' then
      if cs.head? = some '\n' then skipLayout? inComment cs else none
    else if inComment then
      if isTextChar c then skipLayout? true cs else none
    else if isSpace c then skipLayout? false cs
    else if c = '#' then skipLayout? true cs
    else some (c :: cs)

/-! ### Strings -/

def hexDigit? (c : Char) : Option Nat :=
  if '0' ≤ c ∧ c ≤ '9' then some (c.toNat - '0'.toNat)
  else if 'a' ≤ c ∧ c ≤ 'f' then some (c.toNat - 'a'.toNat + 10)
  else if 'A' ≤ c ∧ c ≤ 'F' then some (c.toNat - 'A'.toNat + 10)
  else none

/-- The character whose code point the digits give. -/
def scalar? (digits : List Char) : Option Char := do
  let values ← digits.mapM hexDigit?
  let n := values.foldl (fun n digit => 16 * n + digit) 0
  if n < 0xD800 ∨ (0xDFFF < n ∧ n < 0x110000) then some (Char.ofNat n) else none

/-- The character for the code point in the first digits of a text. -/
def codePoint? (length : Nat) (cs : List Char) : Option (Char × List Char) :=
  if cs.length < length then none else (scalar? (cs.take length)).map (·, cs.drop length)

/-- The character that an escape stands for, from the text behind its backslash. -/
def escape? : List Char → Option (Char × List Char)
  | 'b' :: rest => some ('\x08', rest)
  | 't' :: rest => some ('\t', rest)
  | 'n' :: rest => some ('\n', rest)
  | 'f' :: rest => some ('\x0c', rest)
  | 'r' :: rest => some ('\r', rest)
  | '"' :: rest => some ('"', rest)
  | '\\' :: rest => some ('\\', rest)
  | 'u' :: rest => codePoint? 4 rest
  | 'U' :: rest => codePoint? 8 rest
  | _ => none

/-- The content of a string up to its closing quote. -/
def basicBody? : List Char → Option (List Char × List Char)
  | [] => none
  | c :: cs =>
    if c = '"' then some ([], cs)
    else if c = '\\' then
      match escape? cs with
      | some (e, rest) =>
        if rest.length ≤ cs.length then (basicBody? rest).map fun (body, rest) => (e :: body, rest) else none
      | none => none
    else if isTextChar c then (basicBody? cs).map fun (body, rest) => (c :: body, rest)
    else none
termination_by cs => cs.length
decreasing_by all_goals simp only [List.length_cons]; omega

def singleQuote : Char := Char.ofNat 0x27

/-- The content of a string without escapes. -/
def literalBody? (cs : List Char) : Option (List Char × List Char) :=
  let body := cs.takeWhile fun c => isTextChar c && c != singleQuote
  match cs.drop body.length with
  | c :: rest => if c = singleQuote then some (body, rest) else none
  | [] => none

/-- The quotes that may stand in front of the three that close a string of several lines, and the text
behind all of them. -/
def closeLong (quote : Char) (cs : List Char) : List Char × List Char :=
  let extra := (cs.takeWhile (· == quote)).take 2
  (extra, cs.drop extra.length)

/-- The text behind blanks and line breaks. -/
def skipBreaks : List Char → List Char
  | [] => []
  | c :: cs =>
    if isSpace c || c == '\n' || (c == '\r' && cs.head? == some '\n') then skipBreaks cs else c :: cs

/-- The content of a string of several lines up to its three closing quotes. With `escapes`, a backslash at
the end of a line takes the blanks and line breaks behind it away. -/
def longBody? (quote : Char) (escapes : Bool) : List Char → Option (List Char × List Char)
  | [] => none
  | c :: cs =>
    if c = quote && cs.take 2 == [quote, quote] then some (closeLong quote (cs.drop 2))
    else if c = '\\' && escapes then
      match lineBreak? (skipSpace cs) with
      | some rest =>
        if (skipBreaks rest).length ≤ cs.length then longBody? quote escapes (skipBreaks rest) else none
      | none =>
        match escape? cs with
        | some (e, rest) =>
          if rest.length ≤ cs.length then
            (longBody? quote escapes rest).map fun (body, rest) => (e :: body, rest)
          else none
        | none => none
    else if c = '\r' then
      if cs.head? = some '\n' then longBody? quote escapes cs else none
    else if c = '\n' || isTextChar c then
      (longBody? quote escapes cs).map fun (body, rest) => (c :: body, rest)
    else none
termination_by cs => cs.length
decreasing_by all_goals simp only [List.length_cons]; omega

/-- A string of one line, from its opening quote. -/
def shortString? : List Char → Option (List Char × List Char)
  | '"' :: cs => basicBody? cs
  | c :: cs => if c = singleQuote then literalBody? cs else none
  | [] => none

/-- A string of one or of several lines. A line break behind three opening quotes does not count. -/
def string? (cs : List Char) : Option (List Char × List Char) :=
  match cs with
  | a :: b :: c :: rest =>
    if a = b && b = c && (a = '"' || a = singleQuote) then
      longBody? a (a = '"') ((lineBreak? rest).getD rest)
    else shortString? cs
  | _ => shortString? cs

/-! ### Keys -/

def isBareKeyChar (c : Char) : Bool :=
  c.isAlphanum || c == '_' || c == '-'

def simpleKey? (cs : List Char) : Option (String × List Char) :=
  match cs with
  | [] => none
  | c :: _ =>
    if c = '"' || c = singleQuote then (shortString? cs).map fun (key, rest) => (String.ofList key, rest)
    else
      let key := cs.takeWhile isBareKeyChar
      if key.isEmpty then none else some (String.ofList key, cs.drop key.length)

/-- The parts of a key, with dots between them. -/
def key? (cs : List Char) : Option (List String × List Char) := do
  let (part, rest) ← simpleKey? (skipSpace cs)
  match skipSpace rest with
  | '.' :: more =>
    if more.length < cs.length then do
      let (parts, rest) ← key? more
      return (part :: parts, rest)
    else none
  | rest => return ([part], rest)
termination_by cs.length

end UtilityCss.Toml
