import UtilityCss.Directive

/-!
# Apply directives

`@apply` stands behind a brace or a blank and ends at a semicolon, a brace or a line break. What it applies
takes its place; the semicolon goes with it, the other characters around it stay.
-/

namespace UtilityCss.Directive
open Text

/-- An `@apply` with the character before it, its tokens, and the character that ends it. -/
structure Apply where
  opening : Char
  tokens : List Char
  closing : Char
  deriving DecidableEq, Repr

def applyMark : List Char := ['@', 'a', 'p', 'p', 'l', 'y', ' ']

def Apply.text (a : Apply) : String :=
  String.ofList (a.opening :: applyMark ++ a.tokens ++ [a.closing])

def isApplyEnd (c : Char) : Bool :=
  c == ';' || c == '\x7d' || c == '\n'

def applyAt? (cs : List Char) : Option (Apply × Nat) :=
  match cs with
  | [] => none
  | opening :: rest =>
    if opening = '\x7b' || isBlank opening then do
      let rest ← applyMark.isPrefixOf? rest
      let tokens := rest.takeWhile (!isApplyEnd ·)
      if tokens.isEmpty then none
      else
        let closing ← (rest.drop tokens.length).head?
        some (⟨opening, tokens, closing⟩, applyMark.length + tokens.length + 2)
    else none

/-- Why a text with `@apply` in it cannot be replaced. -/
inductive ApplyFailure (ε : Type)
  | failed (cause : ε)
  /-- The directive stands behind a blank of more than one byte, which cannot be kept. -/
  | wideBlank (blank : Char)
  deriving DecidableEq, Repr

/-- The lines of a directive in the place of the directive. -/
def Apply.replacement {ε : Type} (a : Apply) (lines : List String) : Except (ApplyFailure ε) String :=
  if a.opening.utf8Size = 1 then
    .ok (String.ofList [a.opening] ++ "\n  ".intercalate lines ++
      (if a.closing = ';' then "" else String.ofList [a.closing]))
  else .error (.wideBlank a.opening)

/-- Puts the lines of each directive in its place, up to the first failure. Applying tokens may change the
state of who applies them. -/
def applySegments {σ ε : Type} (apply : String → String → StateM σ (Except ε (List String))) :
    List (Segment Apply) → StateM σ (Except (ApplyFailure ε) (List Char))
  | [] => pure (.ok [])
  | .char c :: rest => do return (← applySegments apply rest).map (c :: ·)
  | .directive a :: rest => do
    match ← apply (String.ofList a.tokens) a.text with
    | .error cause => pure (.error (.failed cause))
    | .ok lines =>
      match a.replacement lines with
      | .error failure => pure (.error failure)
      | .ok text => return (← applySegments apply rest).map (text.toList ++ ·)

/-- Replaces every `@apply` by the lines that `apply` gives for its tokens and its text. -/
def replaceApply {σ ε : Type} (apply : String → String → StateM σ (Except ε (List String)))
    (css : String) : StateM σ (Except (ApplyFailure ε) String) :=
  if hasMark applyMark css.toList then
    return (← applySegments apply (segments applyAt? css.toList)).map String.ofList
  else pure (.ok css)

end UtilityCss.Directive
