import UtilityCss.Color.Named
import UtilityCss.Rule

/-!
# Entries

What a rule adds to the vocabulary: a class name for each theme key and direction, and stems that take a
value in brackets. `Rule.listings` gives them in declaration order.
-/

namespace UtilityCss

/-- A class name and what it stands for. The key is empty for a rule without keys; the direction is `all`
for a directed rule without direction. -/
structure Entry where
  rule : Rule
  key : String
  direction : String
  negative : Bool
  order : Nat

/-- The theme value of an entry, with a minus sign for a negative one. -/
def Entry.value? (entry : Entry) : Option Value := do
  let value ← (← entry.rule.values?).get? entry.key
  return if entry.negative then .plain ("-" ++ value.primary) else value

/-- A rule that takes values in brackets on a stem. -/
structure BracketFamily where
  rule : Rule
  direction : String
  colorOnly : Bool
  order : Nat

/-- A family for colours takes colours and custom properties, any other family takes everything. -/
def BracketFamily.accepts (family : BracketFamily) (raw : List Char) : Bool :=
  !family.colorOnly || ['-', '-'].isPrefixOf raw || Color.isColor (String.ofList raw)

/-- One thing that a rule adds to the vocabulary. -/
inductive Listing
  /-- A class name with its key and direction, and whether its value is negated. -/
  | named (name key direction : String) (negative : Bool)
  | brackets (stem direction : String) (colorOnly : Bool)
  deriving DecidableEq, Repr

/-- Whether a value can be negated: a plain number above zero. -/
def Value.allowsNegative : Value → Bool
  | .plain text =>
    match text.toList with
    | '0' :: '.' :: _ => true
    | c :: _ => '1' ≤ c && c ≤ '9'
    | [] => false
  | _ => false

namespace Rule

/-- The class name for a key: the stem alone for `DEFAULT`, unless that key is left out. -/
def keyName? (traits : Traits) (stem key : String) : Option String :=
  if key = "DEFAULT" then
    if traits.filterDefault then none else some stem
  else some (stem ++ "-" ++ key)

/-- The names of the keys whose values can be negated, in the order of the keys. -/
def negativeListings (traits : Traits) (stem direction : String) (values : Category) : List Listing :=
  if traits.negative then
    values.toList.filterMap fun (key, value) =>
      if value.allowsNegative then
        (keyName? traits ("-" ++ stem) key).map (.named · key direction true)
      else none
  else []

def keyListings (traits : Traits) (stem direction : String) (values : Category) : List Listing :=
  values.keys.filterMap fun key => (keyName? traits stem key).map (.named · key direction false)

/-- The stem, if the rule takes brackets. -/
def bracketListings (traits : Traits) (stem direction : String) : List Listing :=
  match traits.brackets with
  | .refused => []
  | .any => [.brackets stem direction false]
  | .colorOnly => [.brackets stem direction true]

/-- What a rule with keys adds under one stem: negated names first, then the names, then the brackets. -/
def stemListings (traits : Traits) (stem direction : String) (values : Category) : List Listing :=
  negativeListings traits stem direction values ++ keyListings traits stem direction values ++
    bracketListings traits stem direction

/-- What a rule adds to the vocabulary, in declaration order. -/
def listings : Rule → List Listing
  | fixed name _ _ => [.named name "" "" false]
  | shortcut name _ => [.named name "" "" false]
  | keyed stem values _ traits => stemListings traits stem "" values
  | directed stem directions values _ traits =>
    (if traits.mandatory then [] else stemListings traits stem "all" values) ++
      directions.flatMap fun direction =>
        stemListings traits (stem ++ (if traits.omitHyphen then "" else "-") ++ direction) direction values

end Rule

end UtilityCss
