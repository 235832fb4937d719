import Std.Data.TreeSet
import UtilityCss.Cascade
import UtilityCss.Entry.Index
import UtilityCss.Expansion
import UtilityCss.Sheet

/-!
# Printing

What a cascade looks like as a sheet. Utilities come in declaration order, and neighbours with the same
lines share a block; groups come behind them by rank and condition. The container class adapts to the
screens. The header declares the default groups and the animations in use. The listing prints the whole
vocabulary.
-/

namespace UtilityCss

/-- What printing reads besides the cascade. -/
structure Printer where
  theme : Theme
  shortcuts : ShortcutTable

namespace Printer
open Text

/-! ### Lines -/

/-- The lines of a utility. A shortcut prints its expansion. -/
def lines (p : Printer) (u : Utility) : List String :=
  match u.shortcut? with
  | some name => p.shortcuts.lines name
  | none => declarationLines u.declarations

def entryLines (p : Printer) (entry : Entry) : List String :=
  match entry.rule.shortcut? with
  | some name => p.shortcuts.lines name
  | none => declarationLines (entry.rule.declarations entry.direction entry.value?)

/-! ### The container class -/

/-- The declarations of the container class where no screen changes them. -/
def containerDeclarations (c : Container) : List Declaration :=
  ⟨"width", "100%"⟩ ::
    ((if c.center then [⟨"margin-left", "auto"⟩, ⟨"margin-right", "auto"⟩] else []) ++
      match c.defaultPadding with
      | some padding => [⟨"padding-left", padding⟩, ⟨"padding-right", padding⟩]
      | none => [])

def containerBlock (c : Container) : SheetItem :=
  .block ".container" (declarationLines (containerDeclarations c))

def containerText (c : Container) : String :=
  sheetText [containerBlock c]

/-- The container class on a screen with a least width, on one line. -/
def screenContainer (c : Container) (screen min : String) : String :=
  "  .container \x7b max-width: " ++ min ++ "; " ++
    (match c.screenPadding screen with
      | some padding => "padding-left: " ++ padding ++ "; padding-right: " ++ padding ++ "; "
      | none => "") ++ "\x7d"

/-! ### Utilities of one level -/

/-- Whether a selector has a vendor's pseudo selector in it. A browser that does not know it drops the
whole rule, so it shares no block. -/
def isUnsafe (selector : String) : Bool :=
  hasMark [':', '-'] selector.toList

structure Printed where
  selector : String
  lines : List String
  container : Bool
  deriving DecidableEq, Repr

def printed (p : Printer) (u : Utility) : Printed :=
  ⟨u.selector, p.lines u, u.isContainer⟩

/-- Whether a utility leaves its block to the one behind it. -/
def shares (a b : Printed) : Bool :=
  a.lines = b.lines && !isUnsafe a.selector && !isUnsafe b.selector

/-- The item of one utility, given the one behind it. The container class is printed outside all at-rules
only. -/
def itemOf (p : Printer) (atRoot : Bool) (a : Printed) (next : Option Printed) : Option SheetItem :=
  if a.container then
    if atRoot then some (containerBlock p.theme.container) else none
  else if next.any (shares a) then some (.shared a.selector)
  else some (.block a.selector a.lines)

/-- The items of utilities that stand in order. -/
def itemsInOrder (p : Printer) (atRoot : Bool) : List Printed → List SheetItem
  | [] => []
  | a :: rest => (p.itemOf atRoot a rest.head?).toList ++ itemsInOrder p atRoot rest

def inOrder (utilities : List Utility) : List Utility :=
  utilities.mergeSort fun a b => Rank.leWith a.sortKey b.sortKey

/-! ### Groups -/

/-- The items of a group with its place among its siblings. -/
structure PlacedItems where
  key : Rank × String
  items : List SheetItem

/-- The items of a group. If the container class is used, the group of a screen holds its width there; a
screen with a greatest width has it in front, in a group that has no greatest width. A group without
anything in it is not printed. -/
def groupItems (p : Printer) (used : Bool) (group : CascadeGroup Unit) (isEmpty : Bool)
    (content : List SheetItem) : List SheetItem :=
  let screen := if used then
      group.screen.bind fun name => (p.theme.screens.get? name).map (name, ·)
    else none
  match screen with
  | some (name, ⟨some min, some _⟩) =>
    .atRule ("@media (min-width: " ++ min ++ ")") (some (screenContainer p.theme.container name min)) [] ::
      (if isEmpty then [] else [.atRule group.condition none content])
  | some (name, ⟨some min, none⟩) =>
    [.atRule group.condition (some (screenContainer p.theme.container name min)) content]
  | _ => if isEmpty then [] else [.atRule group.condition none content]

/-- The items of groups, by rank and condition. -/
def groupsInOrder (groups : List PlacedItems) : List SheetItem :=
  (groups.mergeSort fun a b => Rank.leWith a.key b.key).flatMap (·.items)

mutual

/-- The items of a cascade. `used` tells whether the container class is used. -/
def items (p : Printer) (used atRoot : Bool) : Cascade → List SheetItem
  | .node utilities groups =>
    p.itemsInOrder atRoot ((inOrder utilities).map p.printed) ++
      groupsInOrder (placedItems p used groups)

/-- The items of groups, each with its place. -/
def placedItems (p : Printer) (used : Bool) : List (CascadeGroup Cascade) → List PlacedItems
  | [] => []
  | ⟨screen, rank, condition, content⟩ :: groups =>
    ⟨(rank, condition),
      p.groupItems used ⟨screen, rank, condition, ()⟩ content.isEmpty (items p used false content)⟩ ::
      placedItems p used groups

end

def sheet (p : Printer) (cascade : Cascade) : List SheetItem :=
  p.items (cascade.utilities.any (·.isContainer)) true cascade

/-! ### The whole text -/

/-- The declarations of the default groups, and the animations that the theme knows. -/
def header (p : Printer) (groups : DefaultGroups) (keyframes : List String) : String :=
  (if groups.isEmpty then ""
    else blockText "*, ::before, ::after, ::backdrop"
      (declarationLines (groups.sorted.flatMap (DefaultGroup.declarations p.theme))) "" ++ "\n") ++
  String.join (keyframes.map fun name =>
    match p.theme.value? "keyframes" name with
    | some body => "@keyframes " ++ name ++ " \x7b\n  " ++ body.primary ++ "\n\x7d\n"
    | none => "") ++
  (if keyframes.isEmpty then "" else "\n")

/-- The header and the sheet of a cascade. -/
def text (p : Printer) (cascade : Cascade) (groups : DefaultGroups) (keyframes : Std.TreeSet String) :
    String :=
  p.header groups keyframes.toList ++ sheetText (p.sheet cascade)

/-! ### Listings -/

/-- How the whole vocabulary is listed. -/
inductive ListingMode
  /-- Every class with its block. -/
  | withContent
  /-- Every class with an empty block, one a line. -/
  | omitContent
  /-- Every class with an empty block, under a class of its own and without line breaks. -/
  | devtools
  deriving DecidableEq, Repr

def entryItem (p : Printer) (name : String) (entry : Entry) : SheetItem :=
  if entry.rule.traits.container then containerBlock p.theme.container
  else
    .block (Variant.selector [] entry.rule.traits.selectorChange (classSelector name)) (p.entryLines entry)

/-- Every class of the vocabulary, scanned or not. -/
def listing (p : Printer) (entries : EntryIndex) (mode : ListingMode) : String :=
  match mode with
  | .withContent => String.join (entries.toList.map fun (name, entry) => sheetText [p.entryItem name entry])
  | .omitContent =>
    "\n".intercalate (entries.toList.map fun (name, _) => classSelector name ++ "\x7b\x7d")
  | .devtools =>
    String.join (entries.toList.map fun (name, _) =>
      ".downdraft" ++ classSelector name ++ "\x7b\x7d")

end Printer

end UtilityCss
