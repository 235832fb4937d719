import UtilityCss.Toml.Document
import UtilityCss.Toml.Scalar
import UtilityCss.Toml.Text

/-!
# Reading TOML

`Toml.read?` reads a document of TOML 1.0. Values in brackets and braces may be nested up to a limit, and
so may the parts of a key.
-/

namespace UtilityCss.Toml

/-- How deep lists and inline tables may be nested, and how many parts a key may have. -/
def nestingLimit : Nat := 79

/-- A key as the path to a table and a name in it. -/
def splitKey? (parts : List String) : Option (List String × String) := do
  if parts.length ≤ nestingLimit then return (parts.dropLast, ← parts.getLast?) else none

/-- A key with a path in front of it, and the text behind the equals sign. -/
def keyed? (cs : List Char) : Option ((List String × String) × List Char) := do
  let (parts, rest) ← key? cs
  match rest with
  | '=' :: rest => return (← splitKey? parts, skipSpace rest)
  | _ => none

/-- The items of a list up to its closing bracket, given how one item is read. -/
def items? (value? : List Char → Option (Data × List Char)) (cs : List Char) :
    Option (List Data × List Char) := do
  match ← skipLayout? false cs with
  | ']' :: rest => return ([], rest)
  | start =>
    let (item, rest) ← value? start
    match ← skipLayout? false rest with
    | ']' :: rest => return ([item], rest)
    | ',' :: more =>
      if more.length < cs.length then do
        let (items, rest) ← items? value? more
        return (item :: items, rest)
      else none
    | _ => none
termination_by cs.length

/-- The assignments of an inline table up to its closing brace, at least one. -/
def assignments? (value? : List Char → Option (Data × List Char)) (cs : List Char) :
    Option (List (List String × String × Data) × List Char) := do
  let ((path, key), rest) ← keyed? cs
  let (value, rest) ← value? rest
  match skipSpace rest with
  | '\x7d' :: rest => return ([(path, key, value)], rest)
  | ',' :: more =>
    if more.length < cs.length then do
      let (others, rest) ← assignments? value? more
      return ((path, key, value) :: others, rest)
    else none
  | _ => none
termination_by cs.length

/-- A value at the start of a text, with brackets and braces nested at most `depth` deep. -/
def value? : Nat → List Char → Option (Data × List Char)
  | _, [] => none
  | depth, c :: cs =>
    if c = '"' || c = singleQuote then
      (string? (c :: cs)).map fun (text, rest) => (.text (String.ofList text), rest)
    else if c = '[' then
      match depth with
      | 0 => none
      | depth + 1 => (items? (value? depth) cs).map fun (items, rest) => (.list items, rest)
    else if c = '\x7b' then
      match depth with
      | 0 => none
      | depth + 1 =>
        match skipSpace cs with
        | '\x7d' :: rest => some (.record [], rest)
        | _ => do
          let (assignments, rest) ← assignments? (value? depth) cs
          return (← inlineTable? assignments, rest)
    else scalarValue? (c :: cs)

/-- A header, given the number of brackets around it. -/
def header? (brackets : List Char) (statement : List String → String → Statement) (cs : List Char) :
    Option (Statement × List Char) := do
  let (parts, rest) ← key? cs
  let rest ← brackets.isPrefixOf? rest
  let (path, key) ← splitKey? parts
  return (statement path key, ← lineEnd? rest)

/-- One statement and the text behind its line. -/
def statement? (cs : List Char) : Option (Statement × List Char) :=
  match cs with
  | '[' :: '[' :: rest => header? [']', ']'] .listedTable rest
  | '[' :: rest => header? [']'] .table rest
  | _ => do
    let ((path, key), rest) ← keyed? cs
    let (value, rest) ← value? nestingLimit rest
    return (.assign path key value, ← lineEnd? rest)

def statements? (cs : List Char) : Option (List Statement) :=
  let start := skipSpace cs
  match start with
  | [] => some []
  | c :: _ =>
    if c = '#' || c = '\n' || c = '\r' then
      match lineEnd? start with
      | some rest => if rest.length < cs.length then statements? rest else none
      | none => none
    else
      match statement? start with
      | some (statement, rest) =>
        if rest.length < cs.length then (statements? rest).map (statement :: ·) else none
      | none => none
termination_by cs.length

/-- A text without the mark of its byte order. -/
def withoutMark (cs : List Char) : List Char :=
  match cs with
  | c :: rest => if c = '\ufeff' then rest else cs
  | [] => []

def read? (text : String) : Option Data :=
  statements? (withoutMark text.toList) >>= document?

end UtilityCss.Toml
