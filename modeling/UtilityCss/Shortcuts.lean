import UtilityCss.Expansion
import UtilityCss.Vocabulary

/-!
# Shortcuts

A shortcut stands for a list of utilities, other shortcuts among them. Each is expanded once, after those
that it names; a shortcut that leads back to itself is refused.
-/

namespace UtilityCss.Shortcuts

/-- The definitions in a rule list. -/
def definitions (rules : List Rule) : Table String :=
  .ofList (rules.filterMap fun rule =>
    match rule with
    | .shortcut name utilities => some (name, utilities)
    | _ => none)

/-- The shortcut that a token stands for, under any variants. -/
def reference? (v : Vocabulary) (token : String) : Option String :=
  (v.read? token).bind Utility.shortcut?

/-- The expansion of a definition, given those of the shortcuts that it names. -/
def expansion (v : Vocabulary) (table : ShortcutTable) (name utilities : String) :
    Except ConfigError Expansion :=
  (Composition.composeWith v.read? .shortcut (shortcutText name utilities) table utilities).mapError
    .shortcutDefinition

mutual

/-- Adds the expansion of a shortcut, if the table does not have it yet. `path` holds the shortcuts that
led here, `unvisited` all others. -/
def expand (v : Vocabulary) (defs : Table String) (path unvisited : List String) (table : ShortcutTable)
    (name : String) : Except ConfigError ShortcutTable :=
  if table.contains name then .ok table
  else
    match defs.get? name with
    | none => .ok table
    | some utilities =>
      if _h : name ∈ unvisited then do
        let table ← expandAll v defs (path ++ [name]) (unvisited.erase name) table
          (Text.stringWords utilities)
        return table.insert name (← expansion v table name utilities)
      else .error (.shortcutCycle path name utilities)
termination_by (unvisited.length, 0)
decreasing_by
  apply Prod.Lex.left
  rw [List.length_erase_of_mem _h]
  have := List.length_pos_of_mem _h
  omega

/-- Adds the expansions of the shortcuts that tokens stand for. -/
def expandAll (v : Vocabulary) (defs : Table String) (path unvisited : List String)
    (table : ShortcutTable) (tokens : List String) : Except ConfigError ShortcutTable :=
  match tokens with
  | [] => .ok table
  | token :: tokens =>
    match reference? v token with
    | none => expandAll v defs path unvisited table tokens
    | some name => do
      expandAll v defs path unvisited (← expand v defs path unvisited table name) tokens
termination_by (unvisited.length, tokens.length + 1)
decreasing_by
  all_goals
    apply Prod.Lex.right
    simp only [List.length_cons]
    omega

end

/-- The expansions of all shortcuts of a rule list. -/
def build (rules : List Rule) (v : Vocabulary) : Except ConfigError ShortcutTable :=
  let defs := definitions rules
  defs.keys.foldlM (expand v defs [] defs.keys) ∅

end UtilityCss.Shortcuts
