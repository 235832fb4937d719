import UtilityCss.Error
import UtilityCss.Utility

/-!
# Expansions

A list of utilities composed into one block: each gives its declarations, or a nested block anchored on `&`.
A utility that needs an at-rule, keyframes, a container or another anchor cannot be composed, and a style
attribute holds no nested block.
-/

namespace UtilityCss

/-- Where a list of utilities stands. -/
inductive Source
  /-- Behind `@apply` in written CSS. -/
  | css
  | shortcut
  /-- In a style attribute, which holds declarations only. -/
  | inline
  deriving DecidableEq, Repr

/-- What one utility gives. -/
inductive Piece
  | flat (declarations : List Declaration)
  | nested (block : String)
  deriving DecidableEq, Repr

/-- The text of a piece, on one line. -/
def Piece.line : Piece → String
  | flat declarations => " ".intercalate (declarationLines declarations)
  | nested block => block

/-- The declarations of a piece that is not nested. -/
def Piece.declarations? : Piece → Option (List Declaration)
  | flat declarations => some declarations
  | nested _ => none

/-- What a list of utilities gives, one piece for each, and the default groups that they need. -/
structure Expansion where
  pieces : List Piece
  groups : DefaultGroups
  deriving DecidableEq, Repr

namespace Expansion

def lines (e : Expansion) : List String :=
  e.pieces.map Piece.line

/-- All declarations, if no piece is nested. -/
def declarations? (e : Expansion) : Option (List Declaration) :=
  (e.pieces.mapM Piece.declarations?).map List.flatten

end Expansion

abbrev ShortcutTable := Table Expansion

/-- The lines of a shortcut, none if it has no expansion. -/
def ShortcutTable.lines (table : ShortcutTable) (name : String) : List String :=
  ((table.get? name).map Expansion.lines).getD []

namespace Composition

/-- A selector with a block on one line. -/
def nestedBlock (selector : String) (lines : List String) : String :=
  selector ++ " \x7b " ++ " ".intercalate lines ++ " \x7d"

/-- Whether a utility cannot be composed: it needs an at-rule, keyframes, a container, or a selector that is
not anchored on `&`; in a style attribute, any selector but `&` itself. -/
def isComplex (source : Source) (u : Utility) : Bool :=
  let selector := u.selectorOn "&"
  Variant.hasWrapping u.variants || selector.toList.head? ≠ some '&' ||
    u.traits?.any (fun traits => traits.keyframes || traits.container) ||
    (source = .inline && selector ≠ "&")

/-- The error for a utility that cannot be composed. In written CSS a media block is the way out. -/
def complexError (source : Source) (context token : String) (u : Utility) : CompositionError :=
  .complexUtility token (Variant.hasWrapping u.variants && source = .css) context

def shortcutPiece (selector : String) (expansion : Expansion) : Piece :=
  match expansion.declarations? with
  | some declarations =>
    if selector = "&" then .flat declarations else .nested (nestedBlock selector expansion.lines)
  | none =>
    if selector = "&" then .nested (" ".intercalate expansion.lines)
    else .nested (nestedBlock selector expansion.lines)

def ownPiece (u : Utility) : Piece :=
  let selector := u.selectorOn "&"
  if selector = "&" then .flat u.declarations
  else .nested (nestedBlock selector (declarationLines u.declarations))

/-- What one token gives, for the utility that it was read as. -/
def part (source : Source) (context : String) (shortcuts : ShortcutTable) (token : String)
    (found : Option Utility) : Except CompositionError (Piece × DefaultGroups) :=
  match found with
  | none => .error (.unknownUtility token context)
  | some u =>
    if isComplex source u then .error (complexError source context token u)
    else
      let own := (u.traits?.bind (·.group)).toList
      match u.shortcut? with
      | none => .ok (ownPiece u, own)
      | some name =>
        match shortcuts.get? name with
        | none => .error (.unknownUtility token context)
        | some expansion =>
          if source = .inline && expansion.declarations?.isNone then
            .error (complexError source context token u)
          else .ok (shortcutPiece (u.selectorOn "&") expansion, own ++ expansion.groups)

/-- The parts of a list of tokens, up to the first that cannot be composed. Looking up a token may change
the state of who looks it up. -/
def parts {σ : Type} (look : String → StateM σ (Option Utility)) (source : Source) (context : String)
    (shortcuts : ShortcutTable) :
    List String → StateM σ (Except CompositionError (List (Piece × DefaultGroups)))
  | [] => pure (.ok [])
  | token :: tokens => do
    match part source context shortcuts token (← look token) with
    | .error cause => pure (.error cause)
    | .ok first =>
      match ← parts look source context shortcuts tokens with
      | .error cause => pure (.error cause)
      | .ok rest => pure (.ok (first :: rest))

def expansionOf (parts : List (Piece × DefaultGroups)) : Expansion :=
  ⟨parts.map (·.1), DefaultGroups.add [] (parts.flatMap (·.2))⟩

/-- The expansion of the words of a text. -/
def compose {σ : Type} (look : String → StateM σ (Option Utility)) (source : Source) (context : String)
    (shortcuts : ShortcutTable) (text : String) : StateM σ (Except CompositionError Expansion) := do
  return (← parts look source context shortcuts (Text.stringWords text)).map expansionOf

/-- The expansion of the words of a text when a token always means the same. -/
def composeWith (read : String → Option Utility) (source : Source) (context : String)
    (shortcuts : ShortcutTable) (text : String) : Except CompositionError Expansion :=
  ((compose (fun token => pure (read token)) source context shortcuts text).run ()).1

end Composition

end UtilityCss
