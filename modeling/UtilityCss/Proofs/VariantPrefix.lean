import UtilityCss.Proofs.OwnRules

/-!
# Variants in front of a token

A token with variants is cut at its first colon outside brackets. What stands in front of that colon is read
on its own, as is what stands behind it, so reading a token behind a variant adds the variant and changes
nothing else: `read?_behind_variant`. The depth of brackets never falls below zero: a closing bracket without an
opening one does not count.
-/

namespace UtilityCss

namespace TokenParts

variable {p t cs : List Char} {depth : Nat}

/-! ### Brackets -/

/-- The bracket depth behind a text that starts at a depth. -/
def depthBehind (depth : Nat) (cs : List Char) : Nat :=
  cs.foldl depthAfter depth

/-- A text that a colon behind it cuts off as a variant: it holds no colon outside brackets, leaves no bracket
open and does not start with an important mark. -/
structure IsPrefix (p : List Char) : Prop where
  unmarked : p.head? ≠ some '!'
  inside : ∀ a b, p = a ++ ':' :: b → depthBehind 0 a ≠ 0
  closed : depthBehind 0 p = 0

/-- How many brackets a text opens more than it closes. -/
def surplus (cs : List Char) : Int :=
  cs.count '[' - cs.count ']'

/-- A text with its brackets in pairs, without a colon outside them and without an important mark in front. -/
structure IsPaired (p : List Char) : Prop where
  unmarked : p.head? ≠ some '!'
  opened : ∀ a b, p = a ++ b → 0 ≤ surplus a
  inside : ∀ a b, p = a ++ ':' :: b → surplus a ≠ 0
  closed : surplus p = 0

theorem surplus_cons (c : Char) (cs : List Char) :
    surplus (c :: cs) = (if c = '[' then 1 else if c = ']' then -1 else 0) + surplus cs := by
  unfold surplus
  rw [List.count_cons, List.count_cons]
  by_cases opening : c = '['
  · subst opening
    simp
    omega
  · by_cases closing : c = ']'
    · subst closing
      simp
      omega
    · simp [opening, closing]

/-- As long as no bracket is closed that was not opened, the depth is what is open. -/
theorem depthBehind_eq (opened : ∀ a b, cs = a ++ b → 0 ≤ depth + surplus a) :
    (depthBehind depth cs : Int) = depth + surplus cs := by
  induction cs generalizing depth with
  | nil => simp [depthBehind, surplus]
  | cons c cs ih =>
    have first : (depthAfter depth c : Int) =
        depth + (if c = '[' then 1 else if c = ']' then -1 else 0) := by
      have step := opened [c] cs rfl
      rw [surplus_cons] at step
      unfold depthAfter
      split
      · omega
      · split
        · rename_i opening closing
          rw [if_neg opening, if_pos closing] at step
          simp [surplus] at step
          omega
        · omega
    have later : ∀ a b, cs = a ++ b → 0 ≤ (depthAfter depth c : Int) + surplus a := by
      intro a b halves
      have all := opened (c :: a) b (by rw [halves, List.cons_append])
      rw [surplus_cons] at all
      omega
    have rest := ih later
    rw [surplus_cons, depthBehind, List.foldl_cons]
    rw [depthBehind] at rest
    omega

theorem depthBehind_eq_surplus (opened : ∀ a b, p = a ++ b → 0 ≤ surplus a) :
    ∀ a b, p = a ++ b → (depthBehind 0 a : Int) = surplus a := by
  intro a b halves
  have inner : ∀ a' b', a = a' ++ b' → 0 ≤ ((0 : Nat) : Int) + surplus a' := by
    intro a' b' split
    have := opened a' (b' ++ b) (by rw [halves, split, List.append_assoc])
    omega
  have := depthBehind_eq inner
  omega

/-- Brackets are in pairs if besides none is closed that was not opened. -/
theorem isPaired_iff : IsPaired p ↔ IsPrefix p ∧ ∀ a b, p = a ++ b → 0 ≤ surplus a := by
  constructor
  · intro h
    have depth := depthBehind_eq_surplus h.opened
    have whole := depth p [] (List.append_nil p).symm
    have closed : depthBehind 0 p = 0 := by
      rw [h.closed] at whole
      omega
    refine ⟨⟨h.unmarked, fun a b halves outside => h.inside a b halves ?_, closed⟩, h.opened⟩
    rw [← depth a _ halves, outside]
    rfl
  · rintro ⟨h, opened⟩
    have depth := depthBehind_eq_surplus opened
    refine ⟨h.unmarked, opened, fun a b halves level => h.inside a b halves ?_, ?_⟩
    · rw [← depth a _ halves] at level
      omega
    · rw [← depth p [] (List.append_nil p).symm, h.closed]
      rfl

/-! ### Cutting -/

/-- A text is cut at the first colon at depth zero. -/
theorem cutVariant?_eq_some_iff : cutVariant? depth cs = some (p, t) ↔
    cs = p ++ ':' :: t ∧ depthBehind depth p = 0 ∧ ∀ a b, p = a ++ ':' :: b → depthBehind depth a ≠ 0 := by
  induction cs generalizing depth p with
  | nil => simp [cutVariant?]
  | cons c cs ih =>
    unfold cutVariant?
    split
    · rename_i cut
      obtain ⟨rfl, rfl⟩ := cut
      constructor
      · intro found
        obtain ⟨rfl, rfl⟩ := Prod.mk.inj (Option.some.inj found)
        exact ⟨rfl, rfl, fun a b halves => by simp at halves⟩
      · rintro ⟨text, -, inside⟩
        cases p with
        | nil =>
          obtain ⟨-, rfl⟩ := List.cons.inj text
          rfl
        | cons d p =>
          obtain ⟨rfl, -⟩ := List.cons.inj text
          exact absurd rfl (inside [] p rfl)
    · rename_i uncut
      rw [Option.map_eq_some_iff]
      constructor
      · rintro ⟨⟨p', t'⟩, found, made⟩
        obtain ⟨rfl, rfl⟩ := Prod.mk.inj made
        obtain ⟨text, closed, inside⟩ := ih.mp found
        refine ⟨by rw [text]; rfl, closed, fun a b halves => ?_⟩
        cases a with
        | nil =>
          obtain ⟨rfl, -⟩ := List.cons.inj halves
          exact fun outside => uncut ⟨rfl, outside⟩
        | cons d a =>
          obtain ⟨rfl, rest⟩ := List.cons.inj halves
          exact inside a b rest
      · rintro ⟨text, closed, inside⟩
        cases p with
        | nil =>
          obtain ⟨rfl, -⟩ := List.cons.inj text
          exact absurd ⟨rfl, closed⟩ uncut
        | cons d p =>
          obtain ⟨rfl, rest⟩ := List.cons.inj text
          refine ⟨(p, t), ih.mpr ⟨rest, closed, fun a b halves => ?_⟩, rfl⟩
          exact inside (c :: a) b (by rw [halves, List.cons_append])

theorem isPrefix_iff : IsPrefix p ↔ p.head? ≠ some '!' ∧ cutVariant? 0 (p ++ [':']) = some (p, []) := by
  rw [cutVariant?_eq_some_iff]
  constructor
  · rintro ⟨unmarked, inside, closed⟩
    exact ⟨unmarked, rfl, closed, inside⟩
  · rintro ⟨unmarked, -, closed, inside⟩
    exact ⟨unmarked, inside, closed⟩

instance : Decidable (IsPrefix p) :=
  decidable_of_iff _ isPrefix_iff.symm

instance : Decidable (IsPaired p) :=
  decidable_of_iff (IsPrefix p ∧ ∀ n < p.length + 1, 0 ≤ surplus (p.take n)) (by
    rw [isPaired_iff]
    refine and_congr_right fun _ => ⟨fun opened a b halves => ?_, fun opened n _ => ?_⟩
    · have taken := opened a.length (by rw [halves, List.length_append]; omega)
      rwa [halves, List.take_left] at taken
    · exact opened _ _ (List.take_append_drop n p).symm)

/-- With a closing bracket too many, the brackets are not in pairs, but none is left open. -/
example : IsPrefix "[&]]".toList ∧ ¬IsPaired "[&]]".toList := by decide

/-! ### Parts -/

theorem head?_append_colon (unmarked : p.head? ≠ some '!') : (p ++ ':' :: t).head? ≠ some '!' := by
  cases p with
  | nil => exact fun marked => absurd (Option.some.inj marked) (by decide)
  | cons c p => exact unmarked

theorem ofToken_behind (h : IsPrefix p) :
    ofToken (p ++ ':' :: t) = { ofToken t with variants := p :: (ofToken t).variants } :=
  ofToken_cut (head?_append_colon h.unmarked) (cutVariant?_eq_some_iff.mpr ⟨rfl, h.closed, h.inside⟩)

/-- A token with a variant is cut behind its first one. -/
theorem exists_cut_of_variants (varied : (ofToken cs).variants ≠ []) :
    ∃ p t, cs = p ++ ':' :: t ∧ IsPrefix p := by
  by_cases marked : cs.head? = some '!'
  · obtain ⟨rest, rfl⟩ := List.head?_eq_some_iff.mp marked
    rw [ofToken_marked] at varied
    exact absurd rfl varied
  · cases cut : cutVariant? 0 cs with
    | none =>
      rw [ofToken_uncut marked cut] at varied
      exact absurd rfl varied
    | some halves =>
      obtain ⟨p, t⟩ := halves
      obtain ⟨rfl, closed, inside⟩ := cutVariant?_eq_some_iff.mp cut
      refine ⟨p, t, rfl, fun first => marked ?_, inside, closed⟩
      rw [List.head?_append, first]
      rfl

/-- A token without variants and without a mark is all body. -/
theorem ofToken_of_bare (bare : (ofToken cs).variants = []) (plain : (ofToken cs).important = false) :
    ofToken cs = ⟨[], false, cs⟩ := by
  by_cases marked : cs.head? = some '!'
  · obtain ⟨rest, rfl⟩ := List.head?_eq_some_iff.mp marked
    rw [ofToken_marked] at plain
    cases plain
  · cases cut : cutVariant? 0 cs with
    | none => exact ofToken_uncut marked cut
    | some halves =>
      rw [ofToken_cut marked cut] at bare
      cases bare

end TokenParts

namespace Vocabulary
open TokenParts

variable {v : Vocabulary} {token : String} {u : Utility}

/-! ### Reading -/

theorem read?_eq_some_iff : v.read? token = some u ↔
    (ofToken token.toList).variants.mapM v.variants.resolve? = some u.variants ∧
      v.readBody? (ofToken token.toList).body = some u.body ∧
      u.token = token ∧ u.important = (ofToken token.toList).important := by
  simp only [read?, Option.bind_eq_bind, Option.bind_eq_some_iff]
  constructor
  · rintro ⟨variants, resolved, body, read, made⟩
    cases made
    exact ⟨resolved, read, rfl, rfl⟩
  · rintro ⟨resolved, read, rfl, important⟩
    refine ⟨u.variants, resolved, u.body, read, ?_⟩
    rw [← important]
    rfl

theorem read?_behind {p : String} (h : IsPrefix p.toList) (t : String) :
    v.read? (p ++ ":" ++ t) = do
      let x ← v.variants.resolve? p.toList
      let u ← v.read? t
      return { u with token := p ++ ":" ++ t, variants := x :: u.variants } := by
  have text : (p ++ ":" ++ t).toList = p.toList ++ ':' :: t.toList := by
    rw [String.toList_append, String.toList_append, List.append_assoc]
    rfl
  simp only [read?, text, ofToken_behind h, List.mapM_cons, Option.bind_eq_bind, Option.pure_def]
  cases v.variants.resolve? p.toList with
  | none => rfl
  | some x =>
    cases (ofToken t.toList).variants.mapM v.variants.resolve? with
    | none => rfl
    | some xs => cases v.readBody? (ofToken t.toList).body <;> rfl

theorem variants_ne_nil_of_read? (read : v.read? token = some u) (varied : u.variants ≠ []) :
    (ofToken token.toList).variants ≠ [] := by
  intro bare
  have resolved := (read?_eq_some_iff.mp read).1
  rw [bare, List.mapM_nil] at resolved
  exact varied (Option.some.inj resolved).symm

/-- What is read without variants and mark is all body. -/
theorem ofToken_of_read? (read : v.read? token = some u) (bare : u.variants = []) (plain : u.important = false) :
    ofToken token.toList = ⟨[], false, token.toList⟩ := by
  obtain ⟨resolved, -, -, important⟩ := read?_eq_some_iff.mp read
  refine ofToken_of_bare ?_ (important.symm.trans plain)
  rw [bare] at resolved
  cases listed : (ofToken token.toList).variants with
  | nil => rfl
  | cons p ps =>
    rw [listed, List.mapM_cons] at resolved
    simp only [Option.bind_eq_bind, Option.bind_eq_some_iff, Option.pure_def] at resolved
    obtain ⟨x, -, xs, -, made⟩ := resolved
    cases made

theorem read?_marked {t : String} (read : v.read? t = some u) (bare : u.variants = [])
    (plain : u.important = false) :
    v.read? ("!" ++ t) = some { u with token := "!" ++ t, important := true } := by
  obtain ⟨-, body, -, -⟩ := read?_eq_some_iff.mp read
  rw [ofToken_of_read? read bare plain] at body
  have text : ("!" ++ t).toList = '!' :: t.toList := by
    rw [String.toList_append]
    rfl
  rw [read?_eq_some_iff, text, ofToken_marked]
  exact ⟨by rw [bare]; rfl, body, rfl, rfl⟩

/-- Behind a variant a token is read as without it, and the variant comes in front of its own; every token
that is read with variants is read in this way; and a mark in front of a token without variants and mark makes
it important. What has its brackets in pairs can be such a variant. -/
theorem read?_behind_variant (v : Vocabulary) :
    (∀ p, IsPaired p → IsPrefix p) ∧
    (∀ p t : String, IsPrefix p.toList → v.read? (p ++ ":" ++ t) = do
      let x ← v.variants.resolve? p.toList
      let u ← v.read? t
      return { u with token := p ++ ":" ++ t, variants := x :: u.variants }) ∧
    (∀ token u, v.read? token = some u → u.variants ≠ [] →
      ∃ p t, token = p ++ ":" ++ t ∧ IsPrefix p.toList ∧
        ∃ x w, v.variants.resolve? p.toList = some x ∧ v.read? t = some w ∧
          u = { w with token := token, variants := x :: w.variants }) ∧
    (∀ t u, v.read? t = some u → u.variants = [] → u.important = false →
      v.read? ("!" ++ t) = some { u with token := "!" ++ t, important := true }) := by
  refine ⟨fun p paired => (isPaired_iff.mp paired).1, fun p t h => read?_behind h t, ?_, fun t u => read?_marked⟩
  intro token u read varied
  obtain ⟨p, t, cut, isPrefix⟩ := exists_cut_of_variants (variants_ne_nil_of_read? read varied)
  have text : token = String.ofList p ++ ":" ++ String.ofList t := by
    rw [← String.ofList_toList (s := token), cut, String.append_assoc, String.ofList_append,
      String.ofList_cons]
    rfl
  have isPrefix : IsPrefix (String.ofList p).toList := by
    rw [String.toList_ofList]
    exact isPrefix
  refine ⟨_, _, text, isPrefix, ?_⟩
  rw [text, read?_behind isPrefix] at read
  simp only [Option.bind_eq_bind, Option.bind_eq_some_iff, Option.pure_def] at read
  obtain ⟨x, resolved, w, behind, made⟩ := read
  refine ⟨x, w, resolved, behind, ?_⟩
  rw [text]
  exact (Option.some.inj made).symm

/-! ### A selector in front -/

def ownVocabulary : Vocabulary :=
  ⟨⟨∅, ∅⟩, ownIndex, ∅⟩

def selectorVariant (selector : String) : Variant :=
  .onSelector (.template selector)

theorem isPaired_hover : IsPaired "[&:hover]".toList := by
  decide

theorem resolve?_hover :
    ownVocabulary.variants.resolve? "[&:hover]".toList = some (selectorVariant "&:hover") := by
  decide

/-- The variant `[&:hover]` is cut off and read, and a mark behind it makes the token important. -/
theorem read?_behind_hover :
    ownVocabulary.read? ("[&:hover]" ++ ":" ++ "!spun") =
      some ⟨"[&:hover]:!spun", [selectorVariant "&:hover"], true, spun.body⟩ ∧
    ∃ p t, "[&:hover]:!spun" = p ++ ":" ++ t ∧ IsPrefix p.toList ∧ ∃ w, ownVocabulary.read? t = some w := by
  obtain ⟨paired, behind, cut, marked⟩ := read?_behind_variant ownVocabulary
  have plain : ownVocabulary.read? "spun" = some spun := read?_spun rfl
  have important : ownVocabulary.read? "!spun" = some { spun with token := "!spun", important := true } :=
    marked "spun" spun plain rfl rfl
  have read : ownVocabulary.read? ("[&:hover]" ++ ":" ++ "!spun") =
      some ⟨"[&:hover]:!spun", [selectorVariant "&:hover"], true, spun.body⟩ := by
    rw [behind "[&:hover]" "!spun" (paired _ isPaired_hover), resolve?_hover, important]
    rfl
  refine ⟨read, ?_⟩
  obtain ⟨p, t, text, isPrefix, _, w, -, later, -⟩ := cut _ _ read (List.cons_ne_nil _ _)
  exact ⟨p, t, text, isPrefix, w, later⟩

end Vocabulary

end UtilityCss
