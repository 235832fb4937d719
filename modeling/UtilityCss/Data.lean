import UtilityCss.Table

/-!
# Data

The values that a configuration is written in: texts, truth values, lists, and records whose fields stand
in the order in which they are written. Numbers occur only where they are passed over, so they carry
nothing.
-/

namespace UtilityCss

inductive Data
  | null
  | bool (b : Bool)
  | number
  | text (s : String)
  | list (items : List Data)
  | record (fields : List (String × Data))

namespace Data

def bool? : Data → Option Bool
  | bool b => some b
  | _ => none

def text? : Data → Option String
  | text s => some s
  | _ => none

def texts? : Data → Option (List String)
  | list items => items.mapM text?
  | _ => none

def fields? : Data → Option (List (String × Data))
  | record fields => some fields
  | _ => none

/-- A record whose fields can all be read. -/
def tableOf? {β : Type} (read? : Data → Option β) (d : Data) : Option (Table β) := do
  let pairs ← (← d.fields?).mapM fun (key, value) => do return (key, ← read? value)
  return .ofList pairs

/-- The value of a field, the last one if it is written several times. -/
def field? (fields : List (String × Data)) (key : String) : Option Data :=
  fields.reverse.lookup key

end Data

end UtilityCss
