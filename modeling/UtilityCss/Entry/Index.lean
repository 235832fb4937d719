import Std.Data.TreeMap
import UtilityCss.Entry
import UtilityCss.Error
import UtilityCss.Table

/-!
# The entry index

The class names and bracket stems of a rule list. The declaration order is the place in the listings of all
rules, one behind the other. A name that is listed again keeps its place in the index and stands for the
later entry.
-/

namespace UtilityCss

/-- Look-up from class names to entries, and from stems to the families that take brackets on them. -/
structure EntryIndex where
  entries : Table Entry
  brackets : Std.TreeMap String (List BracketFamily)

/-- Something in a rule list that is allowed and may not be meant. -/
inductive Warning
  /-- Names that are listed more than once, once for each time they were known before. -/
  | collisions (names : List String)
  /-- Two families take brackets on a stem and neither is for colours. -/
  | unscopedStem (stem : String)
  deriving DecidableEq, Repr

def Warning.message : Warning → String
  | collisions names =>
    "Collision happened for " ++ toString names.length ++ " rule(s): " ++ ", ".intercalate names
  | unscopedStem stem =>
    "2 rules are using arbitrary values with the prefix \"" ++ stem ++
      "\" but none is scoped to colors"

namespace EntryIndex

def empty : EntryIndex :=
  ⟨∅, ∅⟩

/-- The listings of a rule list in declaration order, each with its rule. -/
def listings (rules : List Rule) : List (Rule × Listing) :=
  rules.flatMap fun rule => rule.listings.map (rule, ·)

/-- Adds a family to those of its stem, families for colours in front. -/
def addFamily (families : List BracketFamily) (family : BracketFamily) : List BracketFamily :=
  if family.colorOnly then family :: families else families ++ [family]

def add (index : EntryIndex) (rule : Rule) (listing : Listing) (order : Nat) : EntryIndex :=
  match listing with
  | .named name key direction negative =>
    { index with entries := index.entries.insert name ⟨rule, key, direction, negative, order⟩ }
  | .brackets stem direction colorOnly =>
    { index with
      brackets := index.brackets.insert stem
        (addFamily ((index.brackets[stem]?).getD []) ⟨rule, direction, colorOnly, order⟩) }

/-- The name of a listing, if the index knows it already. -/
def knownName? (index : EntryIndex) : Listing → Option String
  | .named name _ _ _ => if index.entries.contains name then some name else none
  | .brackets _ _ _ => none

/-- An index under way, with the names that were known when they were listed. -/
structure Progress where
  index : EntryIndex
  collisions : Array String

def Progress.step (progress : Progress) (item : (Rule × Listing) × Nat) : Progress :=
  match progress.index.knownName? item.1.2 with
  | some name =>
    ⟨progress.index.add item.1.1 item.1.2 item.2, progress.collisions.push name⟩
  | none => ⟨progress.index.add item.1.1 item.1.2 item.2, progress.collisions⟩

/-- The index of a rule list, with the names that collide. -/
def progress (rules : List Rule) : Progress :=
  (listings rules).zipIdx.foldl Progress.step ⟨empty, #[]⟩

/-- At most two families share a stem. Two of them should be told apart by colour. -/
def checkStem (stem : String) (families : List BracketFamily) : Except ConfigError (List Warning) :=
  match families with
  | [first, _] => .ok (if first.colorOnly then [] else [.unscopedStem stem])
  | families => if 2 < families.length then .error (.crowdedStem families.length stem) else .ok []

/-- The index of a rule list, and what may not be meant in it. -/
def build (rules : List Rule) : Except ConfigError (EntryIndex × List Warning) := do
  let done := progress rules
  let collisions := if done.collisions.isEmpty then [] else [.collisions done.collisions.toList]
  let stems ← done.index.brackets.toList.mapM fun (stem, families) => checkStem stem families
  return (done.index, collisions ++ stems.flatten)

def get? (index : EntryIndex) (name : String) : Option Entry :=
  index.entries.get? name

/-- The families that take brackets on a stem, those for colours first. -/
def families (index : EntryIndex) (stem : String) : List BracketFamily :=
  (index.brackets[stem]?).getD []

/-- The entries with their names, in the order in which the names were first listed. -/
def toList (index : EntryIndex) : List (String × Entry) :=
  index.entries.toList

def size (index : EntryIndex) : Nat :=
  index.entries.size

def isEmpty (index : EntryIndex) : Bool :=
  index.entries.isEmpty

end EntryIndex

end UtilityCss
