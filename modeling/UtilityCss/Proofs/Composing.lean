import Mathlib.Data.List.Forall2
import UtilityCss.Expansion

/-!
# Composing

A list of utilities composes when each of them does, and what it composes to depends on the meaning of its
tokens and on the expansions of the shortcuts among them. The place of an entry in the declaration order has
no part in it.
-/

namespace UtilityCss

/-! ### Results -/

section Results
variable {α β ε : Type} {f g : α → Except ε β} {xs : List α}

theorem map_eq_ok {result : Except ε α} {f : α → β} {b : β} (done : result.map f = .ok b) :
    ∃ a, result = .ok a ∧ f a = b := by
  cases result with
  | error cause => cases done
  | ok a => exact ⟨a, rfl, Except.ok.inj done⟩

theorem map_eq_error {result : Except ε α} {f : α → β} {cause : ε} :
    result.map f = .error cause ↔ result = .error cause := by
  cases result with
  | error other => exact ⟨fun same => congrArg _ (Except.error.inj same), fun same => congrArg _ (Except.error.inj same)⟩
  | ok a => exact ⟨nofun, nofun⟩

theorem bind_eq_ok {result : Except ε α} {next : α → Except ε β} {b : β}
    (done : (result >>= next) = .ok b) : ∃ a, result = .ok a ∧ next a = .ok b := by
  cases result with
  | error cause => cases done
  | ok a => exact ⟨a, rfl, done⟩

theorem bind_eq_error {result : Except ε α} {next : α → Except ε β} {cause : ε}
    (failed : (result >>= next) = .error cause) :
    result = .error cause ∨ ∃ a, result = .ok a ∧ next a = .error cause := by
  cases result with
  | error other => exact .inl (congrArg _ (Except.error.inj failed))
  | ok a => exact .inr ⟨a, rfl, failed⟩

theorem exists_bind_eq_ok {result : Except ε α} {next : α → Except ε β} (done : ∃ a, result = .ok a)
    (go : ∀ a, result = .ok a → ∃ b, next a = .ok b) : ∃ b, (result >>= next) = .ok b := by
  obtain ⟨a, done⟩ := done
  obtain ⟨b, next⟩ := go a done
  rw [done]
  exact ⟨b, next⟩

theorem eq_ok_of_forM {check : α → Except ε Unit} (checked : xs.forM check = .ok ()) :
    ∀ x ∈ xs, check x = .ok () := by
  induction xs with
  | nil => exact fun _ member => absurd member List.not_mem_nil
  | cons x xs ih =>
    have step : (check x >>= fun _ => xs.forM check) = .ok () := checked
    obtain ⟨_, first, later⟩ := bind_eq_ok step
    exact List.forall_mem_cons.mpr ⟨first, ih later⟩

theorem exists_mapM_ok_iff : (∃ ys, xs.mapM f = .ok ys) ↔ ∀ x ∈ xs, ∃ y, f x = .ok y := by
  induction xs with
  | nil => exact ⟨fun _ _ h => absurd h List.not_mem_nil, fun _ => ⟨[], rfl⟩⟩
  | cons x xs ih =>
    rw [List.mapM_cons, List.forall_mem_cons, ← ih]
    cases first : f x with
    | error cause =>
      constructor
      · rintro ⟨ys, done⟩
        cases done
      · rintro ⟨⟨y, done⟩, -⟩
        cases done
    | ok y =>
      cases rest : xs.mapM f with
      | error cause =>
        constructor
        · rintro ⟨ys, done⟩
          cases done
        · rintro ⟨-, ys, done⟩
          cases done
      | ok ys => exact ⟨fun _ => ⟨⟨y, rfl⟩, ys, rfl⟩, fun _ => ⟨y :: ys, rfl⟩⟩

theorem exists_of_mapM_eq_error {cause : ε} (failed : xs.mapM f = .error cause) : ∃ x ∈ xs, f x = .error cause := by
  induction xs with
  | nil => cases failed
  | cons x xs ih =>
    rw [List.mapM_cons] at failed
    rcases bind_eq_error failed with here | ⟨y, -, failed⟩
    · exact ⟨x, List.mem_cons_self, here⟩
    · rcases bind_eq_error failed with later | ⟨ys, -, done⟩
      · obtain ⟨x', member, failed⟩ := ih later
        exact ⟨x', List.mem_cons_of_mem x member, failed⟩
      · cases done

theorem exists_of_foldlM_eq_error {step : β → α → Except ε β} {start : β} {cause : ε}
    (failed : xs.foldlM step start = .error cause) : ∃ x ∈ xs, ∃ b, step b x = .error cause := by
  induction xs generalizing start with
  | nil => cases failed
  | cons x xs ih =>
    rw [List.foldlM_cons] at failed
    rcases bind_eq_error failed with here | ⟨next, -, later⟩
    · exact ⟨x, List.mem_cons_self, start, here⟩
    · obtain ⟨x', member, failed⟩ := ih later
      exact ⟨x', List.mem_cons_of_mem x member, failed⟩

theorem mem_iff_of_mapM_eq_ok {ys : List β} (done : xs.mapM f = .ok ys) (y : β) :
    y ∈ ys ↔ ∃ x ∈ xs, f x = .ok y := by
  induction xs generalizing ys with
  | nil =>
    obtain rfl := Except.ok.inj done
    simp
  | cons x xs ih =>
    rw [List.mapM_cons] at done
    obtain ⟨first, here, done⟩ := bind_eq_ok done
    obtain ⟨later, behind, done⟩ := bind_eq_ok done
    obtain rfl := Except.ok.inj done
    simp only [List.mem_cons, ih behind, or_and_right, exists_or, exists_eq_left, here, Except.ok.injEq,
      @eq_comm _ first]

theorem forall₂_of_mapM_eq_ok {R : α → β → Prop} {ys : List β} (each : ∀ x ∈ xs, ∀ y, f x = .ok y → R x y)
    (done : xs.mapM f = .ok ys) : List.Forall₂ R xs ys := by
  induction xs generalizing ys with
  | nil =>
    obtain rfl := Except.ok.inj done
    exact .nil
  | cons x xs ih =>
    rw [List.mapM_cons] at done
    obtain ⟨first, here, done⟩ := bind_eq_ok done
    obtain ⟨later, behind, done⟩ := bind_eq_ok done
    obtain rfl := Except.ok.inj done
    exact .cons (each x List.mem_cons_self first here)
      (ih (fun y member => each y (List.mem_cons_of_mem _ member)) behind)

theorem mapM_congr (same : ∀ x ∈ xs, f x = g x) : xs.mapM f = xs.mapM g := by
  induction xs with
  | nil => rfl
  | cons x xs ih =>
    rw [List.mapM_cons, List.mapM_cons, same x List.mem_cons_self,
      ih fun y hy => same y (List.mem_cons_of_mem _ hy)]

theorem mapM_eq_ok_of_imp {ys : List β} (imp : ∀ x ∈ xs, ∀ y, f x = .ok y → g x = .ok y)
    (done : xs.mapM f = .ok ys) : xs.mapM g = .ok ys := by
  have each := exists_mapM_ok_iff.mp ⟨ys, done⟩
  rw [← done]
  refine (mapM_congr fun x hx => ?_).symm
  obtain ⟨y, hy⟩ := each x hx
  rw [hy, imp x hx y hy]

theorem mapM_eq_ok_iff_of_iff {p : β → Prop} {ys : List β} (each : ∀ x y, f x = .ok y ↔ g x = .ok y ∧ p y) :
    xs.mapM f = .ok ys ↔ xs.mapM g = .ok ys ∧ ∀ y ∈ ys, p y := by
  induction xs generalizing ys with
  | nil =>
    rw [List.mapM_nil, List.mapM_nil]
    constructor
    · intro done
      obtain rfl := Except.ok.inj done
      exact ⟨rfl, fun _ member => absurd member List.not_mem_nil⟩
    · rintro ⟨done, -⟩
      obtain rfl := Except.ok.inj done
      rfl
  | cons x xs ih =>
    rw [List.mapM_cons, List.mapM_cons]
    constructor
    · intro done
      obtain ⟨y, first, done⟩ := bind_eq_ok done
      obtain ⟨zs, later, done⟩ := bind_eq_ok done
      obtain rfl := Except.ok.inj done
      obtain ⟨first, own⟩ := (each x y).mp first
      obtain ⟨later, others⟩ := ih.mp later
      rw [first, later]
      exact ⟨rfl, List.forall_mem_cons.mpr ⟨own, others⟩⟩
    · rintro ⟨done, all⟩
      obtain ⟨y, first, done⟩ := bind_eq_ok done
      obtain ⟨zs, later, done⟩ := bind_eq_ok done
      obtain rfl := Except.ok.inj done
      obtain ⟨own, others⟩ := List.forall_mem_cons.mp all
      rw [(each x y).mpr ⟨first, own⟩, ih.mpr ⟨later, others⟩]
      rfl

end Results

/-- What a utility needs to be composed: no at-rule, a selector anchored on `&`, and a rule without keyframes
and without container. -/
structure Utility.Composable (u : Utility) : Prop where
  unwrapped : u.wrappings = []
  anchored : (u.selectorOn "&").toList.head? = some '&'
  modest : ∀ traits, u.traits? = some traits → traits.keyframes = false ∧ traits.container = false

def RuleUse.unordered (use : RuleUse) : RuleUse :=
  { use with order := 0 }

def UtilityBody.unordered : UtilityBody → UtilityBody
  | rule use => rule use.unordered
  | property name value => property name value

/-- A utility without its place in the declaration order. -/
def Utility.unordered (u : Utility) : Utility :=
  { u with body := u.body.unordered }

/-- A table has at least what another one has. -/
def Table.Extends {β : Type} (table smaller : Table β) : Prop :=
  ∀ key value, smaller.get? key = some value → table.get? key = some value

namespace Composition

variable {source : Source} {context token text : String} {table table' : ShortcutTable}
  {found found' : Option Utility} {piece : Piece × DefaultGroups}

/-! ### One token -/

theorem hasWrapping_eq_false_iff {variants : List Variant} :
    Variant.hasWrapping variants = false ↔ Variant.wrappings variants = [] := by
  rw [Variant.hasWrapping, Variant.wrappings, List.any_eq_false, List.filterMap_eq_nil_iff]
  simp

theorem isComplex_eq_false_iff {u : Utility} : isComplex .shortcut u = false ↔ u.Composable := by
  have modest : u.traits?.any (fun traits => traits.keyframes || traits.container) = false ↔
      ∀ traits, u.traits? = some traits → traits.keyframes = false ∧ traits.container = false := by
    cases u.traits? <;> simp
  simp only [isComplex, Bool.or_eq_false_iff, modest, hasWrapping_eq_false_iff]
  constructor
  · rintro ⟨⟨⟨unwrapped, anchored⟩, bare⟩, -⟩
    exact ⟨unwrapped, by simpa using anchored, bare⟩
  · rintro ⟨unwrapped, anchored, bare⟩
    exact ⟨⟨⟨unwrapped, by simpa using anchored⟩, bare⟩, rfl⟩

theorem part_some (u : Utility) :
    part source context table token (some u) =
      if isComplex source u then .error (complexError source context token u)
      else
        match u.shortcut? with
        | none => .ok (ownPiece u, (u.traits?.bind (·.group)).toList)
        | some name =>
          match table.get? name with
          | none => .error (.unknownUtility token context)
          | some expansion =>
            if source = .inline && expansion.declarations?.isNone then
              .error (complexError source context token u)
            else .ok (shortcutPiece (u.selectorOn "&") expansion,
              (u.traits?.bind (·.group)).toList ++ expansion.groups) := rfl

/-- A token of a definition composes when it is a composable utility whose shortcut, if it is one, has an
expansion. -/
theorem exists_part_ok_iff : (∃ piece, part .shortcut context table token found = .ok piece) ↔
    ∃ u, found = some u ∧ u.Composable ∧ ∀ name, u.shortcut? = some name → (table.get? name).isSome = true := by
  cases found with
  | none =>
    constructor
    · rintro ⟨piece, done⟩
      cases done
    · rintro ⟨u, absurd, -⟩
      cases absurd
  | some u =>
    simp only [Option.some.injEq, exists_eq_left']
    rw [← isComplex_eq_false_iff, part_some]
    cases complex : isComplex .shortcut u with
    | true =>
      constructor
      · rintro ⟨piece, done⟩
        cases done
      · rintro ⟨refused, -⟩
        cases refused
    | false =>
      rw [if_neg Bool.false_ne_true]
      cases shortcut : u.shortcut? with
      | none => exact ⟨fun _ => ⟨rfl, fun _ h => nomatch h⟩, fun _ => ⟨_, rfl⟩⟩
      | some name =>
        dsimp only
        cases known : table.get? name with
        | none =>
          constructor
          · rintro ⟨piece, done⟩
            cases done
          · rintro ⟨-, expanded⟩
            have expansion := expanded name rfl
            rw [known] at expansion
            cases expansion
        | some expansion =>
          refine ⟨fun _ => ⟨rfl, ?_⟩, fun _ => ⟨_, rfl⟩⟩
          rintro _ ⟨⟩
          rw [known]
          rfl

theorem part_of_extends (more : table'.Extends table)
    (done : part source context table token found = .ok piece) :
    part source context table' token found = .ok piece := by
  cases found with
  | none => exact done
  | some u =>
    rw [part_some] at done ⊢
    cases shortcut : u.shortcut? with
    | none =>
      rw [shortcut] at done
      exact done
    | some name =>
      rw [shortcut] at done
      cases known : table.get? name with
      | none =>
        simp only [known] at done
        split at done <;> cases done
      | some expansion =>
        simp only [known] at done
        simp only [more name expansion known]
        exact done

theorem part_unordered (u : Utility) :
    part source context table token (some u.unordered) = part source context table token (some u) := by
  obtain ⟨token, variants, important, body⟩ := u
  cases body <;> rfl

/-- A token composes alike under two meanings that differ in their order only, if its shortcut has the same
expansion. -/
theorem part_congr (same : found.map Utility.unordered = found'.map Utility.unordered)
    (expansions : ∀ u name, found = some u → u.shortcut? = some name → table.get? name = table'.get? name) :
    part source context table token found = part source context table' token found' := by
  cases found with
  | none =>
    cases found' with
    | none => rfl
    | some u' => cases same
  | some u =>
    cases found' with
    | none => cases same
    | some u' =>
      have bodies : u.unordered = u'.unordered := Option.some.inj same
      rw [← part_unordered u', ← bodies, part_unordered, part_some, part_some]
      cases shortcut : u.shortcut? with
      | none => rfl
      | some name => simp only [expansions u name rfl shortcut]

/-! ### Lists of tokens -/

theorem parts_pure {σ : Type} (read : String → Option Utility) (tokens : List String) (s : σ) :
    (parts (fun token => pure (read token)) source context table tokens).run s =
      (tokens.mapM fun token => part source context table token (read token), s) := by
  induction tokens with
  | nil => rfl
  | cons token tokens ih =>
    rw [List.mapM_cons]
    unfold parts
    simp only [pure_bind]
    cases first : part source context table token (read token) with
    | error cause => rfl
    | ok piece =>
      simp only [StateT.run_bind, ih]
      cases rest : tokens.mapM fun token => part source context table token (read token) <;> rfl

theorem composeWith_eq (read : String → Option Utility) (text : String) :
    composeWith read source context table text =
      ((Text.stringWords text).mapM fun token => part source context table token (read token)).map
        expansionOf := by
  unfold composeWith compose
  rw [StateT.run_bind, parts_pure]
  rfl

/-- The text of a definition composes when each of its tokens does. -/
theorem exists_composeWith_ok_iff {read : String → Option Utility} :
    (∃ expansion, composeWith read .shortcut context table text = .ok expansion) ↔
      ∀ token ∈ Text.stringWords text, ∃ u, read token = some u ∧ u.Composable ∧
        ∀ name, u.shortcut? = some name → (table.get? name).isSome = true := by
  have each : (∃ pieces, ((Text.stringWords text).mapM fun token =>
      part .shortcut context table token (read token)) = .ok pieces) ↔ _ := exists_mapM_ok_iff
  simp only [exists_part_ok_iff] at each
  rw [← each, composeWith_eq]
  constructor
  · rintro ⟨expansion, done⟩
    obtain ⟨pieces, composed, -⟩ := map_eq_ok done
    exact ⟨pieces, composed⟩
  · rintro ⟨pieces, composed⟩
    rw [composed]
    exact ⟨_, rfl⟩

theorem composeWith_of_extends {read : String → Option Utility} {expansion : Expansion}
    (more : table'.Extends table) (done : composeWith read source context table text = .ok expansion) :
    composeWith read source context table' text = .ok expansion := by
  rw [composeWith_eq] at done ⊢
  obtain ⟨pieces, composed, made⟩ := map_eq_ok done
  rw [mapM_eq_ok_of_imp (fun token _ piece => part_of_extends more) composed]
  exact congrArg Except.ok made

theorem composeWith_congr {read read' : String → Option Utility}
    (same : ∀ token ∈ Text.stringWords text,
      (read token).map Utility.unordered = (read' token).map Utility.unordered)
    (expansions : ∀ token ∈ Text.stringWords text, ∀ u name, read token = some u → u.shortcut? = some name →
      table.get? name = table'.get? name) :
    composeWith read source context table text = composeWith read' source context table' text := by
  rw [composeWith_eq, composeWith_eq]
  refine congrArg (Except.map expansionOf) (mapM_congr fun token member => ?_)
  exact part_congr (same token member) (expansions token member)

end Composition

end UtilityCss
