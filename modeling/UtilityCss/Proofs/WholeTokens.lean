import Mathlib.Data.List.Basic
import UtilityCss.Proofs.OwnRules
import UtilityCss.Proofs.TokenShape

/-!
# Tokens that stand alone

A text of the shape of a token is looked for as any other text is: it is split at quotes, and of the variants
at its start the longest one is taken behind which there is a token. `extract_eq_self_iff` says which texts
come through this whole.
-/

namespace UtilityCss.Token
open Pattern Text

variable {u v w cs rest : List Char} {vs : List (List Char)}

/-! ### One token -/

/-- A token stands at the start of the text. -/
def Starts (cs : List Char) : Prop :=
  ∃ w rest, cs = w ++ rest ∧ Shape w ∧ endsHere rest = true

theorem lookup_restsBehindColons (x rest : List Char) :
    (restsBehindColons (x ++ ':' :: rest)).lookup rest.length = some (rest? rest) := by
  induction x with
  | nil =>
    rw [List.nil_append, restsBehindColons, if_pos rfl, List.lookup_cons_self]
    rfl
  | cons c x ih =>
    rw [List.cons_append, restsBehindColons]
    split
    · have other : (rest.length == (x ++ ':' :: rest).length) = false := by
        rw [beq_eq_false_iff_ne, List.length_append, List.length_cons]
        omega
      rw [List.lookup_cons, other]
      exact ih
    · exact ih

theorem exists_name_of_variant (h : variantColon.Matches v) : ∃ name, v = name ++ [':'] := by
  obtain ⟨name, _, -, colon, rfl⟩ := matches_seq_iff.mp h
  exact ⟨name, by rw [matches_char_iff.mp colon]⟩

/-- A token is a variant with a token behind it, or a utility. -/
theorem rest?_eq (cs : List Char) :
    rest? cs = ((variantColon.rests cs).findSome? rest?).or (utilityRest? cs) := by
  have known : ∀ rest ∈ variantColon.rests cs,
      ((restsBehindColons cs).lookup rest.length).join = rest? rest := by
    intro rest member
    obtain ⟨v, described, rfl⟩ := mem_rests_iff.mp member
    obtain ⟨name, rfl⟩ := exists_name_of_variant described
    rw [List.append_assoc, List.singleton_append, lookup_restsBehindColons]
    rfl
  have found : (variantColon.rests cs).findSome? (fun rest => ((restsBehindColons cs).lookup rest.length).join) =
      (variantColon.rests cs).findSome? rest? := by
    rw [← List.head?_filterMap, List.filterMap_congr known, List.head?_filterMap]
  rw [← found, rest?, restWith]
  exact Option.orElse_eq_or

theorem length_lt_of_variant {r : List Char} (h : variantColon.Matches v) : r.length < (v ++ r).length := by
  obtain ⟨name, rfl⟩ := exists_name_of_variant h
  simp only [List.length_append, List.length_singleton]
  omega

/-- What is read is a token. -/
theorem shape_of_rest? {cs rest : List Char} (read : rest? cs = some rest) :
    ∃ w, cs = w ++ rest ∧ Shape w ∧ endsHere rest = true := by
  rw [rest?_eq, Option.or_eq_some_iff] at read
  rcases read with varied | ⟨-, plain⟩
  · obtain ⟨later, member, read⟩ := List.exists_of_findSome?_eq_some varied
    obtain ⟨v, described, rfl⟩ := mem_rests_iff.mp member
    have shorter : later.length < (v ++ later).length := length_lt_of_variant described
    obtain ⟨w, rfl, shape, ends⟩ := shape_of_rest? read
    exact ⟨v ++ w, (List.append_assoc ..).symm, .variant described shape, ends⟩
  · obtain ⟨w, described, rfl⟩ := mem_rests_iff.mp (List.mem_of_find?_eq_some plain)
    exact ⟨w, rfl, .utility described, List.find?_some plain⟩
termination_by cs.length

theorem rest?_isSome_of_shape (shape : Shape w) (ends : endsHere rest = true) :
    (rest? (w ++ rest)).isSome = true := by
  induction shape with
  | @utility w described =>
    have member : rest ∈ utility.rests (w ++ rest) := mem_rests_iff.mpr ⟨w, described, rfl⟩
    have found : (utilityRest? (w ++ rest)).isSome = true :=
      List.find?_isSome.mpr ⟨rest, member, ends⟩
    rw [rest?_eq, Option.isSome_or, found, Bool.or_true]
  | @variant v w described _ ih =>
    have member : w ++ rest ∈ variantColon.rests (v ++ w ++ rest) :=
      mem_rests_iff.mpr ⟨v, described, List.append_assoc ..⟩
    have found : ((variantColon.rests (v ++ w ++ rest)).findSome? rest?).isSome = true :=
      List.findSome?_isSome_iff.mpr ⟨_, member, ih⟩
    rw [rest?_eq, Option.isSome_or, found, Bool.true_or]

theorem starts_iff : Starts cs ↔ (rest? cs).isSome = true := by
  constructor
  · rintro ⟨w, rest, rfl, shape, ends⟩
    exact rest?_isSome_of_shape shape ends
  · intro read
    obtain ⟨rest, read⟩ := Option.isSome_iff_exists.mp read
    obtain ⟨w, text, shape, ends⟩ := shape_of_rest? read
    exact ⟨w, rest, text, shape, ends⟩

/-! ### Chains -/

/-- Variants and the utility behind them. -/
structure IsChain (vs : List (List Char)) (u : List Char) : Prop where
  variants : ∀ v ∈ vs, variantColon.Matches v
  utility : utility.Matches u

/-- A variant with a name and a value in brackets takes as much for its value as it can. The variants in front
of a utility are straight if that changes nothing: wherever a value could end behind its own end, another
variant ends as well, or there is no token. -/
def Straight (u : List Char) : List (List Char) → Prop
  | [] => True
  | v :: vs =>
    (stemmedColon.Matches v → ∀ more rest, vs.flatten ++ u = more ++ ']' :: ':' :: rest →
      (∀ c ∈ more, isDynamicContent c = true) →
        (∃ later, later <:+ vs ∧ rest = later.flatten ++ u) ∨ ¬Starts rest) ∧
      Straight u vs

/-! ### Brackets -/

section Brackets
variable {stem value r s : List Char}

/-- Of two places where brackets end in front of a colon, one stands behind the other. -/
theorem eq_append_of_shorter {a b : List Char} (same : a ++ ']' :: ':' :: s = b ++ ']' :: ':' :: r)
    (shorter : r.length < s.length) : ∃ more, s = more ++ ']' :: ':' :: r ∧ b = a ++ ']' :: ':' :: more := by
  rcases List.append_eq_append_iff.mp same with ⟨z, rfl, behind⟩ | ⟨z, rfl, behind⟩
  · match z with
    | [] =>
      obtain rfl := (List.cons.inj (List.cons.inj behind).2).2
      exact absurd shorter (Nat.lt_irrefl _)
    | [c] => exact absurd (List.cons.inj (List.cons.inj behind).2).1 (by decide)
    | c :: d :: more =>
      obtain ⟨closing, behind⟩ := List.cons.inj behind
      obtain ⟨colon, behind⟩ := List.cons.inj behind
      exact ⟨more, behind, by rw [← closing, ← colon]⟩
  · have lengths := congrArg List.length behind
    simp only [List.length_append, List.length_cons] at lengths
    omega

theorem mem_rests_of_bracketed (isStem : IsStem stem) (filled : value ≠ [])
    (content : ∀ c ∈ value, contentBehind stem c = true) :
    s ∈ variantColon.rests (stem ++ '[' :: (value ++ ']' :: ':' :: s)) :=
  mem_rests_iff.mpr ⟨_, matches_iff_isVariant.mpr (.bracketed isStem filled content), by simp⟩

/-- Brackets may end within brackets. -/
theorem content_of_ends {more : List Char} (content : ∀ c ∈ value, contentBehind stem c = true)
    (further : ∀ c ∈ more, contentBehind stem c = true) :
    ∀ c ∈ value ++ ']' :: ':' :: more, contentBehind stem c = true := by
  intro c member
  simp only [List.mem_append, List.mem_cons] at member
  rcases member with old | rfl | rfl | new
  · exact content c old
  · unfold contentBehind
    split <;> rfl
  · unfold contentBehind
    split <;> rfl
  · exact further c new

/-- Behind brackets that end earlier, a shorter rest is one behind a later end. -/
theorem exists_more_of_shorter (isStem : IsStem stem)
    (member : r ∈ variantColon.rests (stem ++ '[' :: (value ++ ']' :: ':' :: s))) (shorter : r.length < s.length) :
    ∃ more, s = more ++ ']' :: ':' :: r ∧ ∀ c ∈ more, contentBehind stem c = true := by
  obtain ⟨v, described, text⟩ := mem_rests_iff.mp member
  obtain ⟨value', -, content, same⟩ :=
    bracketed_of_append_eq isStem (matches_iff_isVariant.mp described) text.symm
  obtain ⟨more, rfl, rfl⟩ := eq_append_of_shorter same shorter
  exact ⟨more, rfl, fun c inside => content c (by simp [inside])⟩

end Brackets

/-! ### Straight chains -/

/-- In a list whose elements get longer, an answer is the first one if each shorter element gives the same
answer or none. -/
theorem findSome?_eq_of_pairwise {f : List Char → Option (List Char)} {l : List (List Char)} {s x : List Char}
    (ordered : l.Pairwise (·.length < ·.length)) (member : s ∈ l) (answer : f s = some x)
    (shorter : ∀ r ∈ l, r.length < s.length → f r = none ∨ f r = some x) : l.findSome? f = some x := by
  induction l with
  | nil => cases member
  | cons r l ih =>
    obtain ⟨first, ordered⟩ := List.pairwise_cons.mp ordered
    rw [List.findSome?_cons]
    rcases List.mem_cons.mp member with rfl | later
    · rw [answer]
    · rcases shorter r List.mem_cons_self (first s later) with none | same
      · rw [none]
        exact ih ordered later fun r member => shorter r (List.mem_cons_of_mem _ member)
      · rw [same]

theorem exists_brackets (isVariant : IsVariant v) (bracket : '[' ∈ v) : ∃ stem value, IsStem stem ∧ value ≠ [] ∧
    (∀ c ∈ value, contentBehind stem c = true) ∧ v = stem ++ '[' :: (value ++ [']', ':']) := by
  cases isVariant with
  | named first _ later =>
    rcases List.mem_append.mp bracket with member | colon
    · exact absurd (isAmong_of_named first later _ member) (by decide)
    · exact absurd colon (by decide)
  | child => exact absurd bracket (by decide)
  | bracketed isStem filled content => exact ⟨_, _, isStem, filled, content, rfl⟩

theorem bracket_not_mem (isVariant : IsVariant v) (bare : '[' ∉ v) : ']' ∉ v := by
  cases isVariant with
  | named first _ later =>
    refine List.not_mem_append (fun member => ?_) (by decide)
    exact absurd (isAmong_of_named first later _ member) (by decide)
  | child => decide
  | bracketed => exact absurd (by simp) bare

/-- Behind the last brackets no brackets end in front of a colon. -/
theorem no_end_of_bare (variants : ∀ v ∈ vs, IsVariant v) (bare : ∀ v ∈ vs, '[' ∉ v) (utility : utility.Matches u)
    (a b : List Char) : vs.flatten ++ u ≠ a ++ ']' :: ':' :: b := by
  have inside : ∀ z, u ≠ z ++ ']' :: ':' :: b := by
    intro z text
    have isUtility := isUtility_of_matches utility
    rw [text, List.append_cons] at isUtility
    exact isProperty_bracket (isProperty_of_colon isUtility)
  intro same
  rcases List.append_eq_append_iff.mp same with ⟨z, -, behind⟩ | ⟨z, text, behind⟩
  · exact inside z behind
  · cases z with
    | nil => exact inside [] behind.symm
    | cons c z =>
      obtain ⟨rfl, -⟩ := List.cons.inj behind
      have member : ']' ∈ vs.flatten := by
        rw [text]
        simp
      obtain ⟨v, listed, closing⟩ := List.mem_flatten.mp member
      exact bracket_not_mem (variants v listed) (bare v listed) closing

/-- Variants can be parted behind the last one that ends in brackets. -/
theorem exists_last_bracket (variants : ∀ v ∈ vs, IsVariant v) :
    ∃ earlier later, vs = earlier ++ later ∧ (∀ v ∈ later, '[' ∉ v) ∧
      (earlier = [] ∨ ∃ x, earlier.flatten = x ++ [']', ':']) := by
  induction vs with
  | nil => exact ⟨[], [], rfl, by simp, .inl rfl⟩
  | cons v vs ih =>
    obtain ⟨first, variants⟩ := List.forall_mem_cons.mp variants
    obtain ⟨earlier, later, rfl, bare, rfl | ⟨x, ends⟩⟩ := ih variants
    · by_cases bracket : '[' ∈ v
      · obtain ⟨stem, value, -, -, -, rfl⟩ := exists_brackets first bracket
        exact ⟨[_], later, rfl, bare, .inr ⟨stem ++ '[' :: value, by simp⟩⟩
      · exact ⟨[], v :: later, rfl, List.forall_mem_cons.mpr ⟨bracket, bare⟩, .inl rfl⟩
    · exact ⟨v :: earlier, later, rfl, bare, .inr ⟨v ++ x, by rw [List.flatten_cons, ends, List.append_assoc]⟩⟩

theorem stemmedColon_iff : stemmedColon.Matches v ↔ ∃ stem value, IsStem stem ∧ stem ≠ [] ∧ value ≠ [] ∧
    (∀ c ∈ value, isDynamicContent c = true) ∧ v = stem ++ '[' :: (value ++ [']', ':']) := by
  simp only [stemmedColon, matches_seq_iff, matches_plus_iff, matches_char_iff, matches_between_iff]
  constructor
  · rintro ⟨_, _, ⟨name, _, ⟨some, lower⟩, ⟨_, _, rfl, ⟨value, ⟨filled, content⟩, rfl⟩, rfl⟩, rfl⟩, rfl, rfl⟩
    exact ⟨name ++ ['-'], value, .inr ⟨name, rfl, some, lower⟩, by simp, filled, content, by simp⟩
  · rintro ⟨stem, value, isStem, named, filled, content, rfl⟩
    obtain ⟨name, rfl, some, lower⟩ := isStem.resolve_left named
    exact ⟨_, [':'], ⟨name, _, ⟨some, lower⟩, ⟨['-'], _, rfl, ⟨value, ⟨filled, content⟩, rfl⟩, rfl⟩, rfl⟩, rfl,
      by simp⟩

section Variant
variable {stem value : List Char}

/-- A variant without brackets is the only one at the start of its text. -/
theorem findSome?_of_bare {s : List Char} (described : variantColon.Matches v) (bare : '[' ∉ v)
    (read : rest? s = some []) : (variantColon.rests (v ++ s)).findSome? rest? = some [] := by
  refine findSome?_eq_of_pairwise (greedy_variantColon _) (mem_rests_iff.mpr ⟨v, described, rfl⟩) read
    fun r member shorter => ?_
  obtain ⟨v', described', same⟩ := mem_rests_iff.mp member
  have only := rest_eq_of_bare (matches_iff_isVariant.mp described) (matches_iff_isVariant.mp described') bare same
  rw [only] at shorter
  exact absurd shorter (Nat.lt_irrefl _)

/-- A selector in brackets reaches to the end of the last brackets. -/
theorem findSome?_of_selector (chain : IsChain vs u) (filled : value ≠ [])
    (content : ∀ c ∈ value, contentBehind [] c = true)
    (read : ∀ later, later <:+ vs → rest? (later.flatten ++ u) = some []) :
    (variantColon.rests ('[' :: (value ++ ']' :: ':' :: (vs.flatten ++ u)))).findSome? rest? = some [] := by
  have variants := fun v member => matches_iff_isVariant.mp (chain.variants v member)
  obtain ⟨earlier, later, rfl, bare, ends⟩ := exists_last_bracket variants
  have reached : ∃ value', value' ≠ [] ∧ (∀ c ∈ value', contentBehind [] c = true) ∧
      value ++ ']' :: ':' :: ((earlier ++ later).flatten ++ u) = value' ++ ']' :: ':' :: (later.flatten ++ u) := by
    rcases ends with rfl | ⟨x, ends⟩
    · exact ⟨value, filled, content, rfl⟩
    · have inside : ∀ c ∈ x, contentBehind [] c = true := by
        intro c member
        have listed : c ∈ earlier.flatten := by
          rw [ends]
          exact List.mem_append_left _ member
        obtain ⟨v, listed, written⟩ := List.mem_flatten.mp listed
        exact isSelectorContent_of_isVariant (variants v (List.mem_append_left _ listed)) c written
      exact ⟨value ++ ']' :: ':' :: x, by simp, content_of_ends content inside, by simp [ends]⟩
  obtain ⟨value', filled', content', same⟩ := reached
  rw [same]
  refine findSome?_eq_of_pairwise (greedy_variantColon _) (mem_rests_of_bracketed (.inl rfl) filled' content')
    (read later (List.suffix_append _ _)) fun r member shorter => ?_
  obtain ⟨more, further, -⟩ := exists_more_of_shorter (.inl rfl) member shorter
  have others := fun v member => variants v (List.mem_append_right _ member)
  exact absurd further (no_end_of_bare others bare chain.utility more r)

/-- Where a value in brackets could reach further, a straight chain has the end of a variant or no token. -/
theorem findSome?_of_stemmed (isStem : IsStem stem) (filled : value ≠ [])
    (content : ∀ c ∈ value, isDynamicContent c = true) (named : stem ≠ [])
    (straight : Straight u ((stem ++ '[' :: (value ++ [']', ':'])) :: vs))
    (read : ∀ later, later <:+ vs → rest? (later.flatten ++ u) = some []) :
    (variantColon.rests (stem ++ '[' :: (value ++ ']' :: ':' :: (vs.flatten ++ u)))).findSome? rest? =
      some [] := by
  have behind : contentBehind stem = isDynamicContent := if_neg named
  refine findSome?_eq_of_pairwise (greedy_variantColon _) (mem_rests_of_bracketed isStem filled (behind ▸ content))
    (read vs (List.suffix_refl vs)) fun r member shorter => ?_
  obtain ⟨more, further, dynamic⟩ := exists_more_of_shorter isStem member shorter
  rw [behind] at dynamic
  have stemmed := stemmedColon_iff.mpr ⟨stem, value, isStem, named, filled, content, rfl⟩
  rcases straight.1 stemmed more r further dynamic with ⟨later, isSuffix, rfl⟩ | none
  · exact .inr (read later isSuffix)
  · exact .inl (Option.not_isSome_iff_eq_none.mp (mt starts_iff.mpr none))

end Variant

/-- A straight chain is read to its end, and so is every part of it that starts behind a variant. -/
theorem rest?_of_suffix (chain : IsChain vs u) (straight : Straight u vs) :
    ∀ later, later <:+ vs → rest? (later.flatten ++ u) = some [] := by
  obtain ⟨variants, utility⟩ := chain
  induction vs with
  | nil =>
    intro later isSuffix
    obtain rfl := List.suffix_nil.mp isSuffix
    rw [List.flatten_nil, List.nil_append, rest?_eq, rests_eq_nil_of_utility (isUtility_of_matches utility)]
    exact utilityRest?_eq utility
  | cons v vs ih =>
    obtain ⟨described, others⟩ := List.forall_mem_cons.mp variants
    have read := ih straight.2 others
    intro later isSuffix
    rcases List.suffix_cons_iff.mp isSuffix with rfl | isSuffix
    · rw [List.flatten_cons, List.append_assoc, rest?_eq, Option.or_eq_some_iff]
      left
      by_cases bracket : '[' ∈ v
      · obtain ⟨stem, value, isStem, filled, content, rfl⟩ :=
          exists_brackets (matches_iff_isVariant.mp described) bracket
        have text : stem ++ '[' :: (value ++ [']', ':']) ++ (vs.flatten ++ u) =
            stem ++ '[' :: (value ++ ']' :: ':' :: (vs.flatten ++ u)) := by simp
        rw [text]
        by_cases named : stem = []
        · subst named
          exact findSome?_of_selector ⟨others, utility⟩ filled content read
        · rw [contentBehind, if_neg named] at content
          exact findSome?_of_stemmed isStem filled content named straight read
      · exact findSome?_of_bare described bracket (read vs (List.suffix_refl vs))
    · exact read later isSuffix

/-- What is read to its end is a straight chain. -/
theorem exists_straight {w : List Char} (read : rest? w = some []) :
    ∃ vs u, IsChain vs u ∧ w = vs.flatten ++ u ∧ Straight u vs := by
  rw [rest?_eq, Option.or_eq_some_iff] at read
  rcases read with varied | ⟨-, plain⟩
  · obtain ⟨longer, behind, shorter, rests, read, unread⟩ := List.findSome?_eq_some_iff.mp varied
    have member : behind ∈ variantColon.rests w := by
      rw [rests]
      simp
    obtain ⟨v, described, rfl⟩ := mem_rests_iff.mp member
    have : behind.length < (v ++ behind).length := length_lt_of_variant described
    obtain ⟨vs, u, chain, rfl, straight⟩ := exists_straight read
    refine ⟨v :: vs, u, ⟨List.forall_mem_cons.mpr ⟨described, chain.variants⟩, chain.utility⟩,
      by rw [List.flatten_cons, List.append_assoc], ?_, straight⟩
    intro stemmed more rest text dynamic
    -- The value could take that much as well, and as more is preferred, there is no token behind it.
    right
    have further : rest ∈ variantColon.rests (v ++ (vs.flatten ++ u)) := by
      obtain ⟨stem, value, isStem, named, filled, content, rfl⟩ := stemmedColon_iff.mp stemmed
      have whole : stem ++ '[' :: (value ++ [']', ':']) ++ (vs.flatten ++ u) =
          stem ++ '[' :: ((value ++ ']' :: ':' :: more) ++ ']' :: ':' :: rest) := by
        rw [text]
        simp
      have inside : contentBehind stem = isDynamicContent := if_neg named
      rw [← inside] at content dynamic
      rw [whole]
      exact mem_rests_of_bracketed isStem (by simp) (content_of_ends content dynamic)
    have ordered := greedy_variantColon (v ++ (vs.flatten ++ u))
    have less : rest.length < (vs.flatten ++ u).length := by
      rw [text, List.length_append, List.length_cons, List.length_cons]
      omega
    rw [rests] at further ordered
    rcases List.mem_append.mp further with before | after
    · rw [starts_iff, unread rest before]
      exact Bool.false_ne_true
    · have longer : (vs.flatten ++ u).length ≤ rest.length := by
        rcases List.mem_cons.mp after with rfl | after
        · exact Nat.le_refl _
        · exact Nat.le_of_lt ((List.pairwise_cons.mp (List.pairwise_append.mp ordered).2.1).1 rest after)
      exact absurd longer (Nat.not_le_of_lt less)
  · obtain ⟨w, described, same⟩ := mem_rests_iff.mp (List.mem_of_find?_eq_some plain)
    rw [List.append_nil] at same
    subst same
    exact ⟨[], w, ⟨by simp, described⟩, rfl, trivial⟩
termination_by w.length

theorem rest?_eq_nil_iff : rest? w = some [] ↔ ∃ vs u, IsChain vs u ∧ w = vs.flatten ++ u ∧ Straight u vs := by
  constructor
  · exact exists_straight
  · rintro ⟨vs, u, chain, rfl, straight⟩
    exact rest?_of_suffix chain straight vs (List.suffix_refl vs)

/-- Where brackets end in front of a colon, a variant ends, if no variant has such a place within. -/
theorem exists_suffix_of_end {more : List Char} (chain : IsChain vs u)
    (once : ∀ v ∈ vs, ∀ a b, v = a ++ ']' :: ':' :: b → b = [])
    (text : vs.flatten ++ u = more ++ ']' :: ':' :: rest) : ∃ later, later <:+ vs ∧ rest = later.flatten ++ u := by
  obtain ⟨variants, utility⟩ := chain
  induction vs generalizing more with
  | nil => exact absurd text (no_end_of_bare (by simp) (by simp) utility more rest)
  | cons v vs ih =>
    obtain ⟨described, others⟩ := List.forall_mem_cons.mp variants
    obtain ⟨first, onceBehind⟩ := List.forall_mem_cons.mp once
    have behind : ∀ {z}, vs.flatten ++ u = z ++ ']' :: ':' :: rest →
        ∃ later, later <:+ v :: vs ∧ rest = later.flatten ++ u := by
      intro z text
      obtain ⟨later, isSuffix, rfl⟩ := ih onceBehind text others
      exact ⟨later, isSuffix.trans (List.suffix_cons v vs), rfl⟩
    rw [List.flatten_cons, List.append_assoc] at text
    rcases List.append_eq_append_iff.mp text with ⟨z, -, beyond⟩ | ⟨z, rfl, within⟩
    · exact behind beyond
    · match z with
      | [] => exact @behind [] within.symm
      | [c] =>
        obtain ⟨name, same⟩ := exists_name_of_variant described
        obtain ⟨-, last⟩ := List.append_inj' same rfl
        obtain rfl := (List.cons.inj last).1
        exact absurd (List.cons.inj within).1 (by decide)
      | c :: d :: z =>
        obtain ⟨bracket, behindBracket⟩ := List.cons.inj within
        obtain ⟨colon, rfl⟩ := List.cons.inj behindBracket
        obtain rfl := first more z (by rw [bracket, colon])
        exact ⟨vs, List.suffix_cons _ vs, rfl⟩

theorem straight_of_once (chain : IsChain vs u) (once : ∀ v ∈ vs, ∀ a b, v = a ++ ']' :: ':' :: b → b = []) :
    Straight u vs := by
  obtain ⟨variants, utility⟩ := chain
  induction vs with
  | nil => trivial
  | cons v vs ih =>
    obtain ⟨-, others⟩ := List.forall_mem_cons.mp variants
    obtain ⟨-, onceBehind⟩ := List.forall_mem_cons.mp once
    refine ⟨fun _ more rest text _ => ?_, ih onceBehind others⟩
    exact .inl (exists_suffix_of_end ⟨others, utility⟩ onceBehind text)

/-! ### Sources -/

theorem splitAt_of_uncut {cut : Char → Bool} (uncut : ∀ c ∈ w, cut c = false) : splitAt cut w = [w] := by
  induction w with
  | nil => rfl
  | cons c w ih =>
    obtain ⟨first, later⟩ := List.forall_mem_cons.mp uncut
    rw [splitAt_cons, first, ih later]
    rfl

theorem uncut_of_mem_splitAt {cut : Char → Bool} (member : w ∈ splitAt cut cs) : ∀ c ∈ w, cut c = false := by
  induction cs generalizing w with
  | nil =>
    obtain rfl := List.mem_singleton.mp member
    simp
  | cons c cs ih =>
    rw [splitAt_cons] at member
    split at member
    · rcases List.mem_cons.mp member with rfl | later
      · simp
      · exact ih later
    · rename_i uncut
      have joined : ∀ parts, (∀ part ∈ parts, ∀ c ∈ part, cut c = false) →
          ∀ part ∈ consWord c parts, ∀ c ∈ part, cut c = false := by
        intro parts plain part listed
        cases parts with
        | nil =>
          obtain rfl := List.mem_singleton.mp listed
          simpa using uncut
        | cons first parts =>
          obtain ⟨firstPlain, later⟩ := List.forall_mem_cons.mp plain
          rcases List.mem_cons.mp listed with rfl | old
          · exact List.forall_mem_cons.mpr ⟨by simpa using uncut, firstPlain⟩
          · exact later part old
      exact joined _ (fun part listed => ih listed) w member

theorem atStart?_eq_some_iff {t : List Char} :
    atStart? cs = some t ↔ ∃ rest, rest? cs = some rest ∧ cs = t ++ rest := by
  unfold atStart?
  rw [Option.map_eq_some_iff]
  constructor
  · rintro ⟨rest, read, rfl⟩
    obtain ⟨w, rfl, -⟩ := shape_of_rest? read
    exact ⟨rest, read, by simp⟩
  · rintro ⟨rest, read, rfl⟩
    exact ⟨rest, read, by simp⟩

/-- A text without borders has the token at its start and no other. -/
theorem extract_of_unbordered (uncut : ∀ c ∈ w, isBorder c = false) :
    extract (String.ofList w) = ((atStart? w).map String.ofList).toList := by
  have single : (occurrences w) = (atStart? w).toList := by
    unfold occurrences
    rw [splitAt_of_uncut uncut]
    cases w with
    | nil =>
      have none : atStart? [] = none := by decide
      rw [none]
      rfl
    | cons c w => cases found : atStart? (c :: w) <;> simp [found]
  unfold extract
  rw [String.toList_ofList, single]
  cases atStart? w <;> rfl

/-- A token of a source stands at the start of a run between borders. -/
theorem exists_run_of_mem_extract {source : String} (member : String.ofList w ∈ extract source) :
    ∃ rest, w ++ rest ∈ splitAt isBorder source.toList ∧ rest? (w ++ rest) = some rest := by
  unfold extract at member
  rw [List.mem_eraseDups, List.mem_map] at member
  obtain ⟨t, found, same⟩ := member
  obtain rfl := String.ofList_inj.mp same
  obtain ⟨part, listed, read⟩ := List.mem_filterMap.mp found
  obtain ⟨rest, read, rfl⟩ := atStart?_eq_some_iff.mp read
  exact ⟨rest, List.mem_of_mem_filter listed, read⟩

theorem uncut_of_mem_extract {source : String} (member : String.ofList w ∈ extract source) :
    ∀ c ∈ w, isBorder c = false := by
  obtain ⟨rest, listed, -⟩ := exists_run_of_mem_extract member
  intro c inside
  exact uncut_of_mem_splitAt listed c (List.mem_append_left _ inside)

/-- A text of the shape of a token is extracted whole if it holds no quote and its variants are straight, and
only then. Without a quote it is not lost altogether, but a token in front of a colon may be all that comes of
it. Variants are straight if in none of them brackets end in front of a colon but at its own end. -/
theorem extract_eq_self_iff (shape : Shape w) :
    (extract (String.ofList w) = [String.ofList w] ↔
      (∀ c ∈ w, isQuote c = false) ∧ ∃ vs u, IsChain vs u ∧ w = vs.flatten ++ u ∧ Straight u vs) ∧
    ((∀ c ∈ w, isQuote c = false) → ∃ t rest, w = t ++ rest ∧ Shape t ∧ endsHere rest = true ∧
      extract (String.ofList w) = [String.ofList t]) ∧
    ((∀ c ∈ w, isQuote c = false) → ∀ vs u, IsChain vs u → w = vs.flatten ++ u →
      (∀ v ∈ vs, ∀ a b, v = a ++ ']' :: ':' :: b → b = []) →
        extract (String.ofList w) = [String.ofList w]) := by
  have unquoted : (∀ c ∈ w, isQuote c = false) → ∀ c ∈ w, isBorder c = false := by
    intro plain c member
    rw [← Bool.not_eq_true]
    intro border
    exact Bool.false_ne_true ((plain c member).symm.trans (isQuote_of_shape shape c member border))
  have whole : (∀ c ∈ w, isQuote c = false) → rest? w = some [] →
      extract (String.ofList w) = [String.ofList w] := by
    intro plain read
    have taken : atStart? w = some w := atStart?_eq_some_iff.mpr ⟨[], read, (List.append_nil w).symm⟩
    rw [extract_of_unbordered (unquoted plain), taken]
    rfl
  refine ⟨⟨fun extracted => ?_, fun ⟨plain, straight⟩ => whole plain (rest?_eq_nil_iff.mpr straight)⟩,
    fun plain => ?_, fun plain vs u chain text once => ?_⟩
  · have uncut := uncut_of_mem_extract (extracted ▸ List.mem_singleton_self _)
    rw [extract_of_unbordered uncut] at extracted
    obtain ⟨t, taken, same⟩ : ∃ t, atStart? w = some t ∧ String.ofList t = String.ofList w := by
      simpa using extracted
    obtain rfl := String.ofList_inj.mp same
    obtain ⟨rest, read, text⟩ := atStart?_eq_some_iff.mp taken
    obtain rfl := List.self_eq_append_right.mp text
    refine ⟨fun c member => ?_, rest?_eq_nil_iff.mp read⟩
    rw [← Bool.not_eq_true]
    exact fun quote => Bool.false_ne_true ((uncut c member).symm.trans (isBorder_of_isQuote quote))
  · have starts : Starts w := ⟨w, [], (List.append_nil w).symm, shape, rfl⟩
    obtain ⟨rest, read⟩ := Option.isSome_iff_exists.mp (starts_iff.mp starts)
    obtain ⟨t, rfl, shape, ends⟩ := shape_of_rest? read
    refine ⟨t, rest, rfl, shape, ends, ?_⟩
    rw [extract_of_unbordered (unquoted plain), atStart?_eq_some_iff.mpr ⟨rest, read, rfl⟩]
    rfl
  · exact whole plain (rest?_eq_nil_iff.mpr ⟨vs, u, chain, text, straight_of_once chain once⟩)

/-! ### Attributes -/

/-- A vocabulary with the variants for an attribute in brackets. -/
def ariaVocabulary : Vocabulary :=
  ⟨⟨∅, .ofList (VariantTable.attributeBrackets "aria")⟩, ownIndex, ∅⟩

theorem read?_of_parts {v : Vocabulary} {token : String} (variants : List (List Char)) (own : v.entries = ownIndex)
    (parts : TokenParts.ofToken token.toList = ⟨variants, false, "spun".toList⟩)
    (resolved : (variants.mapM v.variants.resolve?).isSome = true) : (v.read? token).isSome = true := by
  obtain ⟨xs, resolved⟩ := Option.isSome_iff_exists.mp resolved
  have plain := Vocabulary.read?_spun own
  have bare : TokenParts.ofToken "spun".toList = ⟨[], false, "spun".toList⟩ :=
    TokenParts.ofToken_uncut (by decide) (by decide)
  simp only [Vocabulary.read?, bare, parts, resolved, Option.bind_eq_bind, Option.bind_eq_some_iff,
    List.mapM_nil, Option.pure_def, Option.bind_some] at plain ⊢
  obtain ⟨body, read, -⟩ := plain
  rw [read]
  rfl

def quoted : String :=
  "aria-[labelledby=\x27a_b\x27]:spun"

/-- An attribute with a value in quotes is understood, but not found in a source. -/
theorem quoted_not_extracted :
    (ariaVocabulary.read? quoted).isSome = true ∧ Shape quoted.toList ∧ extract quoted ≠ [quoted] := by
  have read : (ariaVocabulary.read? quoted).isSome = true :=
    read?_of_parts ["aria-[labelledby=\x27a_b\x27]".toList] rfl (by decide +kernel) (by decide)
  have shape : Shape quoted.toList := by
    obtain ⟨w, text, shape, -⟩ := @shape_of_rest? quoted.toList [] (by decide)
    rwa [text, List.append_nil]
  refine ⟨read, shape, fun whole => ?_⟩
  have unquoted := ((extract_eq_self_iff shape).1.mp (by rw [String.ofList_toList]; exact whole)).1
  exact absurd (unquoted singleQuote (by decide)) (by decide)

/-- A value in brackets that takes in part of the next variant leaves a token that is not understood. -/
example : (ariaVocabulary.read? "aria-[x]:[[a]:bb:cc&]:spun").isSome = true ∧
    extract "aria-[x]:[[a]:bb:cc&]:spun" = ["aria-[x]:[[a]:bb"] :=
  ⟨read?_of_parts ["aria-[x]".toList, "[[a]:bb:cc&]".toList] rfl (by decide +kernel) (by decide),
    by decide⟩

end UtilityCss.Token
