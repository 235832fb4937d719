import UtilityCss.Directive.Apply
import UtilityCss.Settings
import UtilityCss.Sheet.Printer
import UtilityCss.Shortcuts
import UtilityCss.Token
import UtilityCss.Vocabulary.Memo

/-!
# Engines

An engine reads the tokens of sources, registers the utilities among them and prints the sheet that they
need. It also composes utilities for style attributes and for directives in written CSS. Each operation is
a function from one engine to the next.
-/

namespace UtilityCss

structure Engine where
  theme : Theme
  vocabulary : Vocabulary
  shortcuts : ShortcutTable
  memo : Memo
  cascade : Cascade
  seen : Std.TreeSet String
  groups : DefaultGroups
  keyframes : Std.TreeSet String
  /-- The accepted tokens of each file when it was last read. -/
  files : Std.TreeMap String (Std.TreeSet String)

namespace Engine

/-! ### Registering -/

/-- The default groups that a registered utility needs: its rule's, and those of the shortcut it stands
for. -/
def groupsOf (shortcuts : ShortcutTable) (u : Utility) : DefaultGroups :=
  (u.traits?.bind (·.group)).toList ++
    ((u.shortcut?.bind shortcuts.get?).map Expansion.groups).getD []

/-- The animation that a utility names, if the theme knows it: the first word of its value. -/
def keyframesOf? (theme : Theme) (u : Utility) : Option String :=
  match u.body with
  | .rule ⟨rule, _, _, some value⟩ =>
    let name := String.ofList (value.primary.toList.takeWhile (· ≠ ' '))
    if rule.traits.keyframes && (theme.value? "keyframes" name).isSome then some name else none
  | _ => none

/-- Registers a utility, and tells whether it is new. -/
def register (e : Engine) (u : Utility) : Bool × Engine :=
  if e.seen.contains u.token then (false, e)
  else
    (true,
      { e with
        seen := e.seen.insert u.token
        cascade := e.cascade.insert u
        groups := e.groups.add (groupsOf e.shortcuts u)
        keyframes := match keyframesOf? e.theme u with
          | some name => e.keyframes.insert name
          | none => e.keyframes })

/-! ### Scanning -/

/-- What a token means, and the engine that remembers it. -/
def read (e : Engine) (token : String) : Option Utility × Engine :=
  let answer := e.memo.read e.vocabulary token
  (answer.1, { e with memo := answer.2 })

/-- Registers a token, and tells whether it is new. A token that is no utility is passed over. -/
def scanToken (e : Engine) (token : String) : Bool × Engine :=
  match e.read token with
  | (some u, e) => e.register u
  | (none, e) => (false, e)

def scanTokens (e : Engine) (tokens : List String) : Bool × Engine :=
  tokens.foldl (fun state token =>
    let next := state.2.scanToken token
    (state.1 || next.1, next.2)) (false, e)

/-- Registers every utility of a text, and tells whether one of them is new. -/
def scan (e : Engine) (text : String) : Bool × Engine :=
  e.scanTokens (Token.extract text)

def acceptedTokens (e : Engine) : List String → List String × Engine
  | [] => ([], e)
  | token :: tokens =>
    let answer := e.read token
    let rest := answer.2.acceptedTokens tokens
    (if answer.1.isSome then token :: rest.1 else rest.1, rest.2)

/-- Scans a file that is read again when it changes. Nothing is done if it holds no utility besides those
recorded for it. -/
def scanFile (e : Engine) (path text : String) : Bool × Engine :=
  let (accepted, e) := e.acceptedTokens (Token.extract text)
  if (e.files[path]?).any fun recorded => accepted.all recorded.contains then (false, e)
  else
    let (isNew, e) := e.scanTokens accepted
    (isNew, { e with files := e.files.insert path (.ofList accepted) })

/-! ### Building -/

inductive Notice
  | warning (warning : Warning)
  | ready (rules entries variants shortcuts : Nat)
  deriving DecidableEq, Repr

def Notice.message : Notice → String
  | warning w => w.message
  | ready rules entries variants shortcuts =>
    "engine ready: " ++ toString rules ++ " rules, " ++ toString entries ++ " entries, " ++
      toString variants ++ " variants, " ++ toString shortcuts ++ " shortcuts"

/-- Registers the tokens of a safelist. Each of them has to be a utility. -/
def registerAll (safelist : List String) : List String → Engine → Except ConfigError Engine
  | [], e => .ok e
  | token :: tokens, e =>
    match e.read token with
    | (some u, e) => registerAll safelist tokens (e.register u).2
    | (none, _) => .error (.safelistToken token safelist)

/-- The engine of some settings before its safelist is registered, and what is worth a note. -/
def prepare (settings : Settings) : Except ConfigError (Engine × List Notice) := do
  let theme ← Theme.resolve settings.theme
  let variants := VariantTable.ofTheme theme
  let rules ← Catalog.rules theme settings.families (settings.rules theme) settings.shortcuts
  let (entries, warnings) ← EntryIndex.build rules
  let vocabulary : Vocabulary := ⟨variants, entries, theme.category "lineHeight"⟩
  let shortcuts ← Shortcuts.build rules vocabulary
  let engine : Engine :=
    { theme, vocabulary, shortcuts
      memo := .ofBlocklist settings.blocklist
      cascade := .withScreens theme.screens variants
      seen := ∅, groups := [], keyframes := ∅, files := ∅ }
  return (engine, warnings.map .warning ++
    [.ready rules.length entries.size variants.size shortcuts.size])

/-- The engine of some settings, and what is worth a note. -/
def build (settings : Settings) : Except ConfigError (Engine × List Notice) := do
  let (engine, notices) ← prepare settings
  let safelist := settings.safelist engine.theme
  return (← registerAll safelist safelist engine, notices)

/-! ### Composing -/

def lookUp (v : Vocabulary) (token : String) : StateM Memo (Option Utility) :=
  fun memo => memo.read v token

/-- The declarations of utilities for a style attribute. -/
def applyInline (e : Engine) (text : String) : Except CompositionError (List Declaration) × Engine :=
  let (result, memo) := (Composition.compose (lookUp e.vocabulary) .inline text e.shortcuts text).run e.memo
  let e := { e with memo := memo }
  match result with
  | .error cause => (.error cause, e)
  | .ok expansion =>
    let e := { e with groups := e.groups.add expansion.groups }
    match expansion.declarations? with
    | some declarations => (.ok declarations, e)
    | none => (.error (.nestedInline text), e)

/-- What directives change while they are replaced: the memo and the groups in use. `stale` tells whether a
group was used for the first time. -/
structure ApplyState where
  memo : Memo
  groups : DefaultGroups
  stale : Bool

/-- The lines of the tokens of one `@apply`. -/
def applyTokens (v : Vocabulary) (shortcuts : ShortcutTable) (tokens context : String) :
    StateM ApplyState (Except CompositionError (List String)) := fun state =>
  let (result, memo) := (Composition.compose (lookUp v) .css context shortcuts tokens).run state.memo
  match result with
  | .error cause => (.error cause, { state with memo := memo })
  | .ok expansion =>
    (.ok expansion.lines,
      { memo := memo
        groups := state.groups.add expansion.groups
        stale := state.stale || expansion.groups.any (!state.groups.contains ·) })

/-- Written CSS with its directives replaced. -/
structure Transformed where
  css : String
  /-- A default group is in use for the first time, so a sheet printed before is out of date. -/
  stale : Bool
  deriving DecidableEq, Repr

/-- Replaces `@apply`, then `screen()`, then `theme()`. What `@apply` changed stays changed if a later
directive fails. -/
def transform (e : Engine) (css : String) :
    Except (Directive.ApplyFailure CompositionError) Transformed × Engine :=
  let (applied, state) :=
    (Directive.replaceApply (applyTokens e.vocabulary e.shortcuts) css).run ⟨e.memo, e.groups, false⟩
  let e := { e with memo := state.memo, groups := state.groups }
  match applied with
  | .error failure => (.error failure, e)
  | .ok css =>
    match (Directive.replaceScreens e.vocabulary.variants css).bind (Directive.replaceTheme e.theme) with
    | .error cause => (.error (.failed cause), e)
    | .ok css => (.ok ⟨css, state.stale⟩, e)

/-! ### Printing -/

def printer (e : Engine) : Printer :=
  ⟨e.theme, e.shortcuts⟩

/-- The sheet of every utility registered so far. -/
def sheet (e : Engine) : String :=
  e.printer.text e.cascade e.groups e.keyframes

/-- The listing of every utility known, registered or not. -/
def listing (e : Engine) (mode : Printer.ListingMode) : String :=
  e.printer.listing e.vocabulary.entries mode

end Engine

end UtilityCss
