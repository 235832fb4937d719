import UtilityCss.Text.Cut
import UtilityCss.Text.Blank

/-!
# Selectors

The class selector of a token, and the ways in which a variant or a rule changes a selector.
-/

namespace UtilityCss

inductive SelectorChange
  /-- Text behind the selector. -/
  | suffix (text : String)
  /-- An ancestor in front of the selector. -/
  | ancestor (text : String)
  /-- A preceding sibling in front of the selector. -/
  | sibling (text : String)
  /-- A selector that has the other one in the place of its first `&`. -/
  | template (text : String)
  deriving DecidableEq, Repr

namespace SelectorChange
open Text

def apply (change : SelectorChange) (selector : String) : String :=
  match change with
  | suffix text => selector ++ text
  | ancestor text => text ++ " " ++ selector
  | sibling text => text ++ " ~ " ++ selector
  | template text => String.ofList (exchangeFirst '&' selector.toList text.toList)

/-- Applies the changes from the last one to the first. -/
def applyAll (changes : List SelectorChange) (selector : String) : String :=
  changes.foldr apply selector

end SelectorChange

/-! ### Class selectors -/

/-- The characters with a meaning in selectors. -/
def selectorMarks : List Char :=
  ['.', ':', '/', '[', ']', '!', '#', '=', Char.ofNat 0x27, '"', ',', '%', '&', '>', '+', '~', '*', '@',
   '(', ')']

/-- A backslash in front of each character with a meaning in selectors. -/
def escapeMarks (cs : List Char) : List Char :=
  cs.flatMap fun c => if selectorMarks.contains c then ['\\', c] else [c]

/-- A class name as it stands in a selector: its marks are escaped, and a digit at its start. -/
def escapeClass (cs : List Char) : List Char :=
  match cs with
  | c :: _ => if c.isDigit then '\\' :: escapeMarks cs else escapeMarks cs
  | [] => []

def classSelector (name : String) : String :=
  String.ofList ('.' :: escapeClass name.toList)

end UtilityCss
