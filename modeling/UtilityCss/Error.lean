import UtilityCss.Text.Quoted

/-!
# Errors

What can be wrong with a configuration and with a composition of utilities. A token that is no utility
is not an error: it is passed over. `Error.report` gives the wording of every error and the text that it
points at.
-/

namespace UtilityCss

/-- Why a list of tokens or a call in written CSS cannot be honoured. The context is the text that holds
the token. -/
inductive CompositionError
  | unknownUtility (token context : String)
  /-- A utility that needs more than a block anchored on `&`. -/
  | complexUtility (token : String) (hint : Bool) (context : String)
  | unknownVariant (name call : String)
  /-- `screen()` names a variant that is no media condition. -/
  | notMedia (name call : String)
  | unresolvedPath (path : String)
  /-- A nested block cannot stand in a style attribute. -/
  | nestedInline (text : String)
  deriving DecidableEq, Repr

/-- Why no engine can be built from a configuration. -/
inductive ConfigError
  | missingCategory (category : String)
  | screenShape (screen : String)
  | emptyList (category key : String)
  | shadowRecord (category key : String)
  | namelessRule
  | ruleWithoutDeclarations (name : String)
  | emptyDirection (name : String)
  | shortcutAmongRules
  | shortcutName (name utilities : String)
  | emptyShortcut (name utilities : String)
  | unknownFamily (name : String)
  /-- More rule families take bracket values on one stem than can be told apart. -/
  | crowdedStem (count : Nat) (stem : String)
  /-- The shortcuts on the way from the first one back to `name`. -/
  | shortcutCycle (path : List String) (name utilities : String)
  | shortcutDefinition (cause : CompositionError)
  | safelistToken (token : String) (safelist : List String)
  | unreadable
  deriving DecidableEq, Repr

inductive Error
  | config (cause : ConfigError)
  | composition (cause : CompositionError)
  deriving DecidableEq, Repr

/-- The wording of an error, and the text it points at where there is one. -/
structure Report where
  message : String
  context : Option String
  deriving DecidableEq, Repr

/-- The message, and the context on a line of its own. -/
def Report.text (r : Report) : String :=
  match r.context with
  | some context => r.message ++ "\n  in: " ++ context
  | none => r.message

/-- A shortcut as it stands in a configuration. -/
def shortcutText (name utilities : String) : String :=
  "\"" ++ name ++ "\": \"" ++ utilities ++ "\""

def CompositionError.report : CompositionError → Report
  | .unknownUtility token context => ⟨"No rule matching \"" ++ token ++ "\"", some context⟩
  | .complexUtility token hint context =>
    ⟨"Complex utils like \"" ++ token ++ "\" are not supported." ++
      (if hint then " You can use @media screen(...) for media variants." else ""), some context⟩
  | .unknownVariant name call => ⟨"No variant matching \"" ++ name ++ "\"", some call⟩
  | .notMedia name call => ⟨"\"" ++ name ++ "\" is not a media variant", some call⟩
  | .unresolvedPath path =>
    ⟨"Could not resolve \"" ++ path ++ "\" in current theme", some ("theme(" ++ path ++ ")")⟩
  | .nestedInline text => ⟨"Nested utilities cannot be inlined", some text⟩

def ConfigError.report : ConfigError → Report
  | .missingCategory category =>
    ⟨"Theme category \"" ++ category ++ "\" is not available", some ("theme." ++ category)⟩
  | .screenShape screen =>
    ⟨"A screen must be a width or a \x7b min, max \x7d table", some ("theme.screens." ++ screen)⟩
  | .emptyList category key =>
    ⟨"Theme value lists cannot be empty", some ("theme." ++ category ++ "." ++ key)⟩
  | .shadowRecord category key =>
    ⟨"A box shadow record needs `value` and `defaultColor`",
      some ("theme." ++ category ++ "." ++ key)⟩
  | .namelessRule => ⟨"User rules need a non-empty name", none⟩
  | .ruleWithoutDeclarations name => ⟨"Rule \"" ++ name ++ "\" has no declarations", none⟩
  | .emptyDirection name => ⟨"Rule \"" ++ name ++ "\" needs non-empty directions", none⟩
  | .shortcutAmongRules => ⟨"Shortcuts are declared in the shortcuts map, not as rules", none⟩
  | .shortcutName name utilities =>
    ⟨"Shortcut names must be non-empty and contain no whitespace", some (shortcutText name utilities)⟩
  | .emptyShortcut name utilities =>
    ⟨"Shortcut \"" ++ name ++ "\" expands to nothing", some (shortcutText name utilities)⟩
  | .unknownFamily name => ⟨"Unknown core rule \"" ++ name ++ "\"", some ("core_rules." ++ name)⟩
  | .crowdedStem count stem =>
    ⟨toString count ++ " rules are using arbitrary values with the prefix \"" ++ stem ++ "\"", some stem⟩
  | .shortcutCycle path name utilities =>
    ⟨"Shortcut cycle: " ++ " -> ".intercalate path ++ " -> " ++ name, some (shortcutText name utilities)⟩
  | .shortcutDefinition cause => cause.report
  | .safelistToken token safelist =>
    ⟨"No rule matching \"" ++ token ++ "\" in safelist", some ("safelist = " ++ Text.quotedList safelist)⟩
  | .unreadable => ⟨"failed to parse config", none⟩

def Error.report : Error → Report
  | .config cause => cause.report
  | .composition cause => cause.report

end UtilityCss
