import UtilityCss.Data

/-!
# TOML documents

A document is a list of statements: assignments, headers of tables and headers of table lists. Statements
build a tree of tables; a statement that defines something twice, or adds to what is closed, is refused.
Fields stand in the order in which they first appear.
-/

namespace UtilityCss.Toml

inductive Statement
  /-- A value for the last part of a key. -/
  | assign (path : List String) (key : String) (value : Data)
  | table (path : List String) (key : String)
  | listedTable (path : List String) (key : String)

/-- How a table came to be. -/
inductive Origin
  /-- By a header of its own. -/
  | header
  /-- By the header of a table in it. -/
  | implied
  /-- By a dotted key. -/
  | dotted
  deriving DecidableEq, Repr

/-- A field of a document under way. Only tables can still grow. -/
inductive Node
  | closed (value : Data)
  | table (origin : Origin) (fields : List (String × Node))
  | listed (tables : List (List (String × Node)))

abbrev Fields := List (String × Node)

/-- Gives a field a new content, in its place if it is there and behind the others if not. -/
def putField (key : String) (node : Node) : Fields → Fields
  | [] => [(key, node)]
  | (k, n) :: fields => if k = key then (k, node) :: fields else (k, n) :: putField key node fields

/-- Changes the table at the end of a path. A table on the way that is not there is made. The way of a
dotted key leads through no table that has a header of its own; in a list of tables it is the last. -/
def changeTable (dotted : Bool) (change : Origin → Fields → Option Fields) :
    List String → Origin → Fields → Option Fields
  | [], origin, fields => change origin fields
  | key :: path, _, fields =>
    let made := if dotted then Origin.dotted else Origin.implied
    match fields.lookup key with
    | none => do return putField key (.table made (← changeTable dotted change path made [])) fields
    | some (.closed _) => none
    | some (.table origin inner) =>
      if dotted && origin = .header then none
      else do return putField key (.table origin (← changeTable dotted change path origin inner)) fields
    | some (.listed tables) => do
      let last ← changeTable dotted change path .header (← tables.getLast?)
      return putField key (.listed (tables.dropLast ++ [last])) fields

/-- Adds a field that is not there yet. A key without dots adds to no table of dotted keys, and a dotted one
to nothing else. -/
def addField (isDotted : Bool) (key : String) (node : Node) (origin : Origin) (fields : Fields) :
    Option Fields :=
  if (origin = .dotted) ≠ isDotted then none
  else if (fields.lookup key).isSome then none
  else some (fields ++ [(key, node)])

/-- Carries out an assignment in a table. -/
def assign (path : List String) (key : String) (value : Data) (origin : Origin) (fields : Fields) :
    Option Fields :=
  changeTable true (addField (!path.isEmpty) key (.closed value)) path origin fields

/-- Starts a table that has no header yet. -/
def startTable (key : String) (_ : Origin) (fields : Fields) : Option Fields :=
  match fields.lookup key with
  | none => some (fields ++ [(key, .table .header [])])
  | some (.table .implied inner) => some (putField key (.table .header inner) fields)
  | some _ => none

/-- Starts another table in a list of tables. -/
def startListed (key : String) (_ : Origin) (fields : Fields) : Option Fields :=
  match fields.lookup key with
  | none => some (fields ++ [(key, .listed [[]])])
  | some (.listed tables) => some (putField key (.listed (tables ++ [[]])) fields)
  | some _ => none

/-- A document under way: its fields, and the path of the table that assignments go to. -/
structure Progress where
  fields : Fields
  current : List String

def Progress.step (p : Progress) : Statement → Option Progress
  | .assign path key value => do
    return { p with fields := ← changeTable false (assign path key value) p.current .header p.fields }
  | .table path key => do
    return ⟨← changeTable false (startTable key) path .header p.fields, path ++ [key]⟩
  | .listedTable path key => do
    return ⟨← changeTable false (startListed key) path .header p.fields, path ++ [key]⟩

mutual

def Node.data : Node → Data
  | .closed value => value
  | .table _ fields => .record (dataOfFields fields)
  | .listed tables => .list (dataOfTables tables)

def dataOfFields : List (String × Node) → List (String × Data)
  | [] => []
  | (key, node) :: fields => (key, node.data) :: dataOfFields fields

def dataOfTables : List (List (String × Node)) → List Data
  | [] => []
  | fields :: tables => .record (dataOfFields fields) :: dataOfTables tables

end

/-- The data of a list of statements. -/
def document? (statements : List Statement) : Option Data := do
  let done ← statements.foldlM Progress.step ⟨[], []⟩
  return .record (dataOfFields done.fields)

/-- The record of the assignments in an inline table. -/
def inlineTable? (assignments : List (List String × String × Data)) : Option Data := do
  let fields ← assignments.foldlM (fun fields (path, key, value) => assign path key value .header fields) []
  return .record (dataOfFields fields)

end UtilityCss.Toml
