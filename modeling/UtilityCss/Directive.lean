import UtilityCss.Error
import UtilityCss.Text.Blank
import UtilityCss.Theme
import UtilityCss.Variant.Table

/-!
# Directives

Written CSS holds three directives: `@apply` with a list of utilities, `screen()` with the name of a screen,
and `theme()` with a path. A text is cut into directives and characters between them, from left to right;
then each directive gives way to its replacement and every other character stays.
-/

namespace UtilityCss.Directive
open Text

/-! ### Cutting -/

/-- A piece of a text: a directive, or a character outside all directives. -/
inductive Segment (δ : Type)
  | char (c : Char)
  | directive (d : δ)

/-- Cuts a text at the directives that `find?` sees at the start of a text, each with its length. The first
`skip` characters belong to the directive before. -/
def segmentsFrom {δ : Type} (find? : List Char → Option (δ × Nat)) : Nat → List Char → List (Segment δ)
  | _, [] => []
  | skip + 1, _ :: cs => segmentsFrom find? skip cs
  | 0, c :: cs =>
    match find? (c :: cs) with
    | some (d, length) => .directive d :: segmentsFrom find? (length - 1) cs
    | none => .char c :: segmentsFrom find? 0 cs

/-- Cuts a text at its leftmost directives. -/
def segments {δ : Type} (find? : List Char → Option (δ × Nat)) (cs : List Char) : List (Segment δ) :=
  segmentsFrom find? 0 cs

/-- Puts the replacement of each directive in its place, up to the first that has none. -/
def replaceSegments {δ ε : Type} (replace : δ → Except ε String) :
    List (Segment δ) → Except ε (List Char)
  | [] => .ok []
  | .char c :: rest => do return c :: (← replaceSegments replace rest)
  | .directive d :: rest => do
    let text ← replace d
    return text.toList ++ (← replaceSegments replace rest)

def replaceAll {δ ε : Type} (find? : List Char → Option (δ × Nat)) (replace : δ → Except ε String)
    (css : String) : Except ε String :=
  (replaceSegments replace (segments find? css.toList)).map String.ofList

/-! ### Screens -/

def isScreenNameChar (c : Char) : Bool :=
  ('a' ≤ c && c ≤ 'z') || ('0' ≤ c && c ≤ '9') || c == '-'

def screenMark : List Char := ['s', 'c', 'r', 'e', 'e', 'n', '(']

/-- The name in a call of `screen()` at the start of a text. -/
def screenCall? (cs : List Char) : Option (String × Nat) := do
  let rest ← screenMark.isPrefixOf? cs
  let name := rest.takeWhile isScreenNameChar
  if name.isEmpty then none
  else if (rest.drop name.length).head? = some ')' then
    some (String.ofList name, screenMark.length + name.length + 1)
  else none

def mediaKeyword : List Char := ['@', 'm', 'e', 'd', 'i', 'a', ' ']

/-- The media condition of a variant, without the keyword. -/
def screenCondition (variants : VariantTable) (name : String) : Except CompositionError String :=
  let call := "screen(" ++ name ++ ")"
  match variants.get? name with
  | none => .error (.unknownVariant name call)
  | some (.atRule _ condition) =>
    match mediaKeyword.isPrefixOf? condition.toList with
    | some media => .ok (String.ofList media)
    | none => .error (.notMedia name call)
  | some _ => .error (.notMedia name call)

/-- `screen(md)` becomes the media condition of the variant `md`. -/
def replaceScreens (variants : VariantTable) (css : String) : Except CompositionError String :=
  if hasMark screenMark css.toList then replaceAll screenCall? (screenCondition variants) css else .ok css

/-! ### Theme values -/

def themeMark : List Char := ['t', 'h', 'e', 'm', 'e', '(', '"']

/-- The path in a call of `theme()` at the start of a text: it ends at the first closing parenthesis, which
stands behind a quote. -/
def themeCall? (cs : List Char) : Option (String × Nat) := do
  let rest ← themeMark.isPrefixOf? cs
  let inner := rest.takeWhile (· ≠ ')')
  if inner.length = rest.length then none
  else
    let path ← unclose? '"' inner
    if path.isEmpty then none else some (String.ofList path, themeMark.length + inner.length + 1)

def themeValue (theme : Theme) (path : String) : Except CompositionError String :=
  match theme.lookup? path with
  | some value => .ok value
  | none => .error (.unresolvedPath path)

/-- `theme("colors.red-500")` becomes the value on the path, and `theme("colors.red-500 / 50%")` the colour
with that alpha channel. -/
def replaceTheme (theme : Theme) (css : String) : Except CompositionError String :=
  if hasMark themeMark css.toList then replaceAll themeCall? (themeValue theme) css else .ok css

end UtilityCss.Directive
