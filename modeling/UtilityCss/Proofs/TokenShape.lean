import UtilityCss.Proofs.PatternOrder
import UtilityCss.Token

/-!
# The shape of tokens

What the patterns of a token describe. A variant is a name, the child mark, or brackets that may stand behind
a name, and a text that starts with one of them starts with no other kind. A utility holds no colon but the one
between a property and its value, so no part of it reads as a variant.
-/

namespace UtilityCss.Token
open Pattern Text

variable {u v v' r r' : List Char}

/-! ### Cutting -/

/-- The text up to the first character outside a class is the same however the whole is written. -/
theorem eq_of_append_cons_eq {p : Char → Bool} {a a' b b' : List Char} {c c' : Char}
    (same : a ++ c :: b = a' ++ c' :: b') (left : ∀ x ∈ a, p x = true) (right : ∀ x ∈ a', p x = true)
    (stop : p c = false) (stop' : p c' = false) : a = a' ∧ c = c' ∧ b = b' := by
  have first : (a ++ c :: b).takeWhile p = a := by
    rw [List.takeWhile_append_of_pos left, List.takeWhile_cons, stop]
    simp
  have second : (a' ++ c' :: b').takeWhile p = a' := by
    rw [List.takeWhile_append_of_pos right, List.takeWhile_cons, stop']
    simp
  have heads : a = a' := by rw [← first, same, second]
  subst heads
  obtain ⟨rfl, rfl⟩ := List.cons.inj (List.append_cancel_left same)
  exact ⟨rfl, rfl, rfl⟩

/-! ### Variants -/

/-- What stands in front of the brackets of a variant: nothing, or a name and a hyphen. -/
def IsStem (stem : List Char) : Prop :=
  stem = [] ∨ ∃ name, stem = name ++ ['-'] ∧ name ≠ [] ∧ ∀ c ∈ name, isLowerOrHyphen c = true

/-- What may stand in the brackets behind a stem. -/
def contentBehind (stem : List Char) : Char → Bool :=
  if stem = [] then isSelectorContent else isDynamicContent

inductive IsVariant : List Char → Prop
  | named {c : Char} {name : List Char} : isLowerOrDigit c = true → name ≠ [] →
      (∀ c ∈ name, isAmong ['-'] c = true) → IsVariant (c :: name ++ [':'])
  | child : IsVariant ['*', ':']
  | bracketed {stem value : List Char} : IsStem stem → value ≠ [] →
      (∀ c ∈ value, contentBehind stem c = true) → IsVariant (stem ++ '[' :: (value ++ [']', ':']))

theorem matches_iff_isVariant : variantColon.Matches v ↔ IsVariant v := by
  simp only [variantColon, variant, matches_seq_iff, matches_alt_iff, matches_one_iff, matches_plus_iff,
    matches_char_iff, matches_between_iff]
  constructor
  · rintro ⟨_, _, kind, rfl, rfl⟩
    rcases kind with ⟨_, name, ⟨c, rfl, first⟩, ⟨some, later⟩, rfl⟩ | rfl |
      ⟨name, _, ⟨some, stem⟩, ⟨_, _, rfl, ⟨value, ⟨filled, content⟩, rfl⟩, rfl⟩, rfl⟩ |
      ⟨value, ⟨filled, content⟩, rfl⟩
    · exact .named first some later
    · exact .child
    · have stemmed := IsVariant.bracketed (.inr ⟨name, rfl, some, stem⟩) filled (by
        rw [contentBehind, if_neg (by simp)]
        exact content)
      simpa using stemmed
    · simpa using IsVariant.bracketed (.inl rfl) filled content
  · rintro (⟨first, some, later⟩ | _ | ⟨rfl | ⟨name, rfl, some, stem⟩, filled, content⟩)
    · exact ⟨_, [':'], .inl ⟨[_], _, ⟨_, rfl, first⟩, ⟨some, later⟩, rfl⟩, rfl, rfl⟩
    · exact ⟨['*'], [':'], .inr (.inl rfl), rfl, rfl⟩
    · exact ⟨_, [':'], .inr (.inr (.inr ⟨_, ⟨filled, content⟩, rfl⟩)), rfl, by simp⟩
    · rw [contentBehind, if_neg (by simp)] at content
      exact ⟨_, [':'], .inr (.inr (.inl ⟨name, _, ⟨some, stem⟩, ⟨['-'], _, rfl, ⟨_, ⟨filled, content⟩, rfl⟩,
        rfl⟩, rfl⟩)), rfl, by simp⟩

theorem isAmong_of_isLowerOrHyphen {c : Char} (h : isLowerOrHyphen c = true) : isAmong ['-'] c = true := by
  simp only [isLowerOrHyphen, Bool.or_eq_true, beq_iff_eq] at h
  rcases h with lower | rfl
  · simp [isAmong, isLowerOrDigit, lower]
  · rfl

theorem isAmong_of_isStem {stem : List Char} (h : IsStem stem) : ∀ c ∈ stem, isAmong ['-'] c = true := by
  rcases h with rfl | ⟨name, rfl, -, named⟩
  · simp
  · intro c member
    rcases List.mem_append.mp member with old | last
    · exact isAmong_of_isLowerOrHyphen (named c old)
    · rw [List.mem_singleton.mp last]
      rfl

theorem isAmong_of_named {c : Char} {name : List Char} (first : isLowerOrDigit c = true)
    (later : ∀ c ∈ name, isAmong ['-'] c = true) : ∀ x ∈ c :: name, isAmong ['-'] x = true :=
  List.forall_mem_cons.mpr ⟨by rw [isAmong, first, Bool.true_or], later⟩

/-- A variant has a colon, the child mark or a bracket behind the name it may start with. -/
theorem exists_stop (h : IsVariant v) : ∃ front stop behind, v = front ++ stop :: behind ∧
    (∀ c ∈ front, isAmong ['-'] c = true) ∧ isAmong ['-'] stop = false ∧
      (stop = ':' ∧ behind = [] ∨ stop = '*' ∧ behind = [':'] ∨ stop = '[' ∧ IsStem front ∧
        ∃ value, value ≠ [] ∧ (∀ c ∈ value, contentBehind front c = true) ∧ behind = value ++ [']', ':']) := by
  cases h with
  | @named c name first _ later =>
    exact ⟨c :: name, ':', [], rfl, isAmong_of_named first later, rfl, .inl ⟨rfl, rfl⟩⟩
  | child => exact ⟨[], '*', [':'], rfl, by simp, rfl, .inr (.inl ⟨rfl, rfl⟩)⟩
  | @bracketed stem value isStem filled content =>
    exact ⟨stem, '[', _, rfl, isAmong_of_isStem isStem, rfl,
      .inr (.inr ⟨rfl, isStem, value, filled, content, rfl⟩)⟩

/-- A text that starts with a variant without brackets starts with no other one. -/
theorem rest_eq_of_bare (isVariant : IsVariant v) (isVariant' : IsVariant v') (bare : '[' ∉ v)
    (same : v ++ r = v' ++ r') : r = r' := by
  obtain ⟨front, stop, behind, rfl, among, outside, kind⟩ := exists_stop isVariant
  obtain ⟨front', stop', behind', rfl, among', outside', kind'⟩ := exists_stop isVariant'
  rw [List.append_assoc, List.append_assoc] at same
  obtain ⟨rfl, rfl, rests⟩ := eq_of_append_cons_eq same among among' outside outside'
  have unbracketed : stop ≠ '[' := fun bracket => bare (by rw [bracket]; simp)
  rcases kind with ⟨rfl, rfl⟩ | ⟨rfl, rfl⟩ | ⟨bracket, -⟩
  · rcases kind' with ⟨-, rfl⟩ | ⟨other, -⟩ | ⟨other, -⟩
    · exact rests
    · exact absurd other (by decide)
    · exact absurd other (by decide)
  · rcases kind' with ⟨other, -⟩ | ⟨-, rfl⟩ | ⟨other, -⟩
    · exact absurd other (by decide)
    · exact List.append_cancel_left rests
    · exact absurd other (by decide)
  · exact absurd bracket unbracketed

/-- The variants that a text starts with have the same stem in front of their brackets. -/
theorem bracketed_of_append_eq {stem rest : List Char} (isStem : IsStem stem) (isVariant : IsVariant v)
    (same : v ++ r = stem ++ '[' :: rest) :
    ∃ value, value ≠ [] ∧ (∀ c ∈ value, contentBehind stem c = true) ∧ rest = value ++ ']' :: ':' :: r := by
  obtain ⟨front, stop, behind, rfl, among, outside, kind⟩ := exists_stop isVariant
  rw [List.append_assoc] at same
  obtain ⟨rfl, rfl, rests⟩ := eq_of_append_cons_eq same among (isAmong_of_isStem isStem) outside rfl
  rcases kind with ⟨other, -⟩ | ⟨other, -⟩ | ⟨-, -, value, filled, content, rfl⟩
  · exact absurd other (by decide)
  · exact absurd other (by decide)
  · exact ⟨value, filled, content, by rw [← rests]; simp⟩

/-! ### The order of variants -/

def namedColon : Pattern :=
  .seq (.seq (.one isLowerOrDigit) (.plus (isAmong ['-']))) (.char ':')

def childColon : Pattern :=
  .seq (.char '*') (.char ':')

def stemmedColon : Pattern :=
  .seq (.seq (.plus isLowerOrHyphen) (.seq (.char '-') (.between '[' ']' (.plus isDynamicContent)))) (.char ':')

def selectorColon : Pattern :=
  .seq (.between '[' ']' (.plus isSelectorContent)) (.char ':')

theorem rests_variantColon (cs : List Char) :
    variantColon.rests cs = (alt namedColon (alt childColon (alt stemmedColon selectorColon))).rests cs := by
  simp only [variantColon, variant, namedColon, childColon, stemmedColon, selectorColon, rests,
    List.flatMap_append]

/-- Whether a text starts with a name, and what stands behind that. -/
def opening (cs : List Char) : Bool × Option Char :=
  ((cs.takeWhile (isAmong ['-'])).isEmpty, (cs.dropWhile (isAmong ['-'])).head?)

theorem opening_eq {front behind : List Char} {stop : Char} (among : ∀ c ∈ front, isAmong ['-'] c = true)
    (outside : isAmong ['-'] stop = false) : opening (front ++ stop :: behind) = (front.isEmpty, some stop) := by
  unfold opening
  rw [List.takeWhile_append_of_pos among, List.dropWhile_append_of_pos among, List.takeWhile_cons,
    List.dropWhile_cons, outside]
  simp

variable {cs : List Char}

theorem opening_of_named (h : r ∈ namedColon.rests cs) : opening cs = (false, some ':') := by
  obtain ⟨w, described, rfl⟩ := mem_rests_iff.mp h
  simp only [namedColon, matches_seq_iff, matches_one_iff, matches_plus_iff, matches_char_iff] at described
  obtain ⟨_, _, ⟨_, name, ⟨c, rfl, first⟩, ⟨-, later⟩, rfl⟩, rfl, rfl⟩ := described
  rw [List.append_assoc]
  exact opening_eq (isAmong_of_named first later) rfl

theorem opening_of_child (h : r ∈ childColon.rests cs) : opening cs = (true, some '*') := by
  obtain ⟨w, described, rfl⟩ := mem_rests_iff.mp h
  simp only [childColon, matches_seq_iff, matches_char_iff] at described
  obtain ⟨_, _, rfl, rfl, rfl⟩ := described
  exact @opening_eq [] _ '*' (by simp) rfl

theorem opening_of_stemmed (h : r ∈ stemmedColon.rests cs) : opening cs = (false, some '[') := by
  obtain ⟨w, described, rfl⟩ := mem_rests_iff.mp h
  simp only [stemmedColon, matches_seq_iff, matches_plus_iff, matches_char_iff, matches_between_iff] at described
  obtain ⟨_, _, ⟨name, _, ⟨some, named⟩, ⟨_, _, rfl, ⟨value, -, rfl⟩, rfl⟩, rfl⟩, rfl, rfl⟩ := described
  have among := isAmong_of_isStem (.inr ⟨name, rfl, some, named⟩)
  have text : name ++ (['-'] ++ '[' :: (value ++ [']'])) ++ [':'] ++ r =
      (name ++ ['-']) ++ '[' :: (value ++ [']', ':'] ++ r) := by simp
  rw [text, opening_eq among rfl]
  simp

theorem opening_of_selector (h : r ∈ selectorColon.rests cs) : opening cs = (true, some '[') := by
  obtain ⟨w, described, rfl⟩ := mem_rests_iff.mp h
  simp only [selectorColon, matches_seq_iff, matches_plus_iff, matches_char_iff, matches_between_iff] at described
  obtain ⟨_, _, ⟨value, -, rfl⟩, rfl, rfl⟩ := described
  exact @opening_eq [] _ '[' (by simp) rfl

/-- Behind one name only there is a hyphen and a bracket. -/
theorem greedy_stemmedColon : Greedy stemmedColon := by
  refine greedy_seq_one (greedy_seq greedy_plus (greedy_one_seq (greedy_between greedy_plus)) ?_)
  have bracketed : ∀ a, ((char '-').seq (between '[' ']' (plus isDynamicContent))).rests a ≠ [] →
      ∃ rest, a = '-' :: '[' :: rest := by
    intro a some
    obtain ⟨x, member⟩ := List.exists_mem_of_ne_nil _ some
    obtain ⟨w, described, rfl⟩ := mem_rests_iff.mp member
    simp only [matches_seq_iff, matches_char_iff, matches_between_iff] at described
    obtain ⟨_, _, rfl, ⟨value, -, rfl⟩, rfl⟩ := described
    exact ⟨_, rfl⟩
  intro cs a b ha hb asome bsome
  obtain ⟨a, rfl⟩ := bracketed a asome
  obtain ⟨b, rfl⟩ := bracketed b bsome
  obtain ⟨m, hm, text⟩ := mem_rests_iff.mp ha
  obtain ⟨n, hn, rfl⟩ := mem_rests_iff.mp hb
  have among : ∀ m, (plus isLowerOrHyphen).Matches m → ∀ c ∈ m ++ ['-'], isLowerOrHyphen c = true := by
    intro m hm c member
    rcases List.mem_append.mp member with old | last
    · exact (matches_plus_iff.mp hm).2 c old
    · rw [List.mem_singleton.mp last]
      rfl
  rw [List.append_cons n, List.append_cons m] at text
  rw [(eq_of_append_cons_eq text (among n hn) (among m hm) rfl rfl).2.2]

theorem greedy_variantColon : Greedy variantColon := by
  intro cs
  rw [rests_variantColon]
  refine greedy_alt (greedy_seq_one (greedy_one_seq greedy_plus)) (greedy_alt (greedy_one_seq greedy_one)
    (greedy_alt greedy_stemmedColon (greedy_seq_one (greedy_between greedy_plus)) ?_) ?_) ?_ cs
  · intro cs a b stemmed selector
    exact absurd ((opening_of_stemmed stemmed).symm.trans (opening_of_selector selector)) (by decide)
  · intro cs a b child other
    rcases List.mem_append.mp other with stemmed | selector
    · exact absurd ((opening_of_child child).symm.trans (opening_of_stemmed stemmed)) (by decide)
    · exact absurd ((opening_of_child child).symm.trans (opening_of_selector selector)) (by decide)
  · intro cs a b named other
    rcases List.mem_append.mp other with child | other
    · exact absurd ((opening_of_named named).symm.trans (opening_of_child child)) (by decide)
    rcases List.mem_append.mp other with stemmed | selector
    · exact absurd ((opening_of_named named).symm.trans (opening_of_stemmed stemmed)) (by decide)
    · exact absurd ((opening_of_named named).symm.trans (opening_of_selector selector)) (by decide)

/-! ### Utilities -/

/-- What may stand in front of a utility. -/
def IsMark (mark : List Char) : Prop :=
  mark = ['!'] ∨ mark = []

/-- A utility of a rule has no colon in it and does not start with a bracket. A property stands in brackets. -/
inductive IsUtility : List Char → Prop
  | rule {mark body : List Char} {c : Char} : IsMark mark → (c = '-' ∨ isLower c = true) → ':' ∉ c :: body →
      IsUtility (mark ++ c :: body)
  | property {mark name value : List Char} : IsMark mark → name ≠ [] → (∀ c ∈ name, isLowerOrHyphen c = true) →
      ':' ∉ value → IsUtility (mark ++ '[' :: (name ++ ':' :: (value ++ [']'])))

theorem starts_of_matches (h : (alt plainUtility bracketUtility).Matches v) :
    ∃ c body, v = c :: body ∧ isLower c = true := by
  simp only [plainUtility, bracketUtility, matches_alt_iff, matches_seq_iff, matches_one_iff] at h
  rcases h with ⟨_, body, ⟨c, rfl, lower⟩, -, rfl⟩ | ⟨_, body, ⟨c, rfl, lower⟩, -, rfl⟩
  · exact ⟨c, body, rfl, lower⟩
  · exact ⟨c, body, rfl, lower⟩

theorem isUtility_of_matches (h : utility.Matches u) : IsUtility u := by
  simp only [utility, matches_seq_iff, matches_opt_iff, matches_alt_iff, matches_char_iff] at h
  obtain ⟨mark, _, isMark, ⟨hyphen, _, sign, ⟨v, w, described, modified, rfl⟩, rfl⟩ | property, rfl⟩ := h
  · have colons : ':' ∉ hyphen ++ (v ++ w) := by
      simp only [List.mem_append, not_or]
      refine ⟨?_, not_mem_of_matches (matches_alt_iff.mpr described) rfl,
        not_mem_of_matches (matches_opt_iff.mpr modified) rfl⟩
      rcases sign with rfl | rfl <;> decide
    obtain ⟨c, body, rfl, lower⟩ := starts_of_matches (matches_alt_iff.mpr described)
    rcases sign with rfl | rfl
    · exact .rule isMark (.inl rfl) colons
    · exact .rule isMark (.inr lower) colons
  · simp only [Token.property, matches_between_iff, matches_seq_iff, matches_one_iff, matches_char_iff] at property
    obtain ⟨_, ⟨_, _, ⟨c, rfl, lower⟩, ⟨name, _, named, ⟨_, value, rfl, valued, rfl⟩, rfl⟩, rfl⟩, rfl⟩ := property
    have all : ∀ x ∈ c :: name, isLowerOrHyphen x = true :=
      List.forall_mem_cons.mpr ⟨by rw [isLowerOrHyphen, lower, Bool.true_or], (matches_plus_iff.mp named).2⟩
    have colons : ':' ∉ value := not_mem_of_matches valued rfl
    simpa using IsUtility.property isMark (List.cons_ne_nil c name) all colons

theorem colon_not_mem_mark {mark : List Char} (h : IsMark mark) : ':' ∉ mark := by
  rcases h with rfl | rfl <;> decide

/-- What stands in front of the colon of a property. -/
def IsProperty (a : List Char) : Prop :=
  ∃ mark name last, IsMark mark ∧ a = mark ++ '[' :: (name ++ [last]) ∧ isLowerOrHyphen last = true ∧ ':' ∉ a

theorem isProperty_of_colon {a b : List Char} (isUtility : IsUtility (a ++ ':' :: b)) : IsProperty a := by
  generalize text : a ++ ':' :: b = u at isUtility
  cases isUtility with
  | rule isMark _ colons =>
    have member : ':' ∈ a ++ ':' :: b := by simp
    rw [text] at member
    exact absurd member (List.not_mem_append (colon_not_mem_mark isMark) colons)
  | @property mark name value isMark some named colons =>
    obtain ⟨name, last, rfl⟩ : ∃ init last, name = init ++ [last] :=
      ⟨_, _, (List.dropLast_concat_getLast some).symm⟩
    have front : ':' ∉ mark ++ '[' :: (name ++ [last]) := by
      have unnamed : ':' ∉ name ++ [last] := fun member => Bool.false_ne_true (named ':' member)
      simp only [List.mem_append, List.mem_cons, not_or] at unnamed ⊢
      exact ⟨colon_not_mem_mark isMark, by decide, unnamed⟩
    have once : (a ++ ':' :: b).count ':' = 1 := by
      rw [text]
      have written : mark ++ '[' :: (name ++ [last] ++ ':' :: (value ++ [']'])) =
          (mark ++ '[' :: (name ++ [last])) ++ ':' :: (value ++ [']']) := by simp
      rw [written, List.count_append, List.count_eq_zero.mpr front, List.count_cons_self,
        List.count_append, List.count_eq_zero.mpr colons]
      rfl
    have before : ':' ∉ a := by
      rw [List.count_append, List.count_cons_self] at once
      exact List.count_eq_zero.mp (by omega)
    have same : a ++ ':' :: b = (mark ++ '[' :: (name ++ [last])) ++ ':' :: (value ++ [']']) := by
      rw [text]
      simp
    have plain : ∀ {x : List Char}, ':' ∉ x → ∀ c ∈ x, (c != ':') = true := by
      intro x none c member
      rw [bne_iff_ne]
      rintro rfl
      exact none member
    obtain ⟨rfl, -⟩ := eq_of_append_cons_eq same (plain before) (plain front) rfl rfl
    exact ⟨mark, name, last, isMark, rfl, named last (by simp), before⟩

/-- A property does not end in a bracket in front of its colon. -/
theorem isProperty_bracket {a : List Char} (h : IsProperty (a ++ [']'])) : False := by
  obtain ⟨mark, name, last, -, text, lower, -⟩ := h
  have same : a ++ [']'] = (mark ++ '[' :: name) ++ [last] := by
    rw [text]
    simp
  obtain ⟨-, final⟩ := List.append_inj' same rfl
  obtain rfl := (List.cons.inj final).1
  exact absurd lower (by decide)

theorem rests_eq_nil_of_utility (isUtility : IsUtility u) : variantColon.rests u = [] := by
  refine List.eq_nil_iff_forall_not_mem.mpr fun r member => ?_
  obtain ⟨v, described, rfl⟩ := mem_rests_iff.mp member
  cases matches_iff_isVariant.mp described with
  | @named c name first _ later =>
    rw [List.append_assoc] at isUtility
    obtain ⟨mark, _, _, _, text, -⟩ := isProperty_of_colon isUtility
    have bracket : '[' ∈ c :: name := by
      rw [text]
      simp
    rcases List.mem_cons.mp bracket with rfl | inside
    · exact absurd first (by decide)
    · exact absurd (later _ inside) (by decide)
  | child =>
    obtain ⟨mark, _, _, _, text, -⟩ := @isProperty_of_colon ['*'] _ isUtility
    have bracket : '[' ∈ ['*'] := by
      rw [text]
      simp
    exact absurd bracket (by decide)
  | @bracketed stem value _ _ _ =>
    have text : stem ++ '[' :: (value ++ [']', ':']) ++ r = (stem ++ '[' :: value ++ [']']) ++ ':' :: r := by simp
    rw [text] at isUtility
    exact isProperty_bracket (isProperty_of_colon isUtility)

theorem rule_ne_bracket {mark mark' body rest : List Char} {c : Char} (isMark : IsMark mark)
    (isMark' : IsMark mark') (starts : c = '-' ∨ isLower c = true) :
    mark ++ c :: body ≠ mark' ++ '[' :: rest := by
  have other : c ≠ '[' ∧ c ≠ '!' := by
    rcases starts with rfl | lower
    · decide
    · exact ⟨fun same => absurd lower (by rw [same]; decide), fun same => absurd lower (by rw [same]; decide)⟩
  intro same
  rcases isMark with rfl | rfl
  · rcases isMark' with rfl | rfl
    · exact other.1 (List.cons.inj (List.append_cancel_left same)).1
    · exact absurd (List.cons.inj same).1 (by decide)
  · rcases isMark' with rfl | rfl
    · exact other.2 (List.cons.inj same).1
    · exact other.1 (List.cons.inj same).1

/-- Of a whole utility nothing is left. -/
theorem utilityRest?_eq (h : utility.Matches u) : utilityRest? u = some [] := by
  have whole : [] ∈ utility.rests u := mem_rests_iff.mpr ⟨u, h, (List.append_nil u).symm⟩
  unfold utilityRest?
  cases found : (utility.rests u).find? endsHere with
  | none => exact absurd rfl (List.find?_eq_none.mp found [] whole)
  | some rest =>
    obtain ⟨w, described, rfl⟩ := mem_rests_iff.mp (List.mem_of_find?_eq_some found)
    have ends := List.find?_some found
    cases rest with
    | nil => rfl
    | cons c rest =>
      rw [endsHere, Bool.or_eq_true, beq_iff_eq, beq_iff_eq] at ends
      rcases ends with rfl | rfl
      · obtain ⟨mark, name, last, isMark, text, -, colons⟩ := isProperty_of_colon (isUtility_of_matches h)
        -- The property would end in front of its colon, so it would be a rule, but that starts without a bracket.
        cases isUtility_of_matches described with
        | rule isMark' starts _ => exact absurd text (rule_ne_bracket isMark' isMark starts)
        | property => exact absurd (by simp) colons
      · exact absurd (admits_of_matches h '$' (by simp)) (by decide)

/-! ### Characters -/

theorem isAmong_mono {xs ys : List Char} {c : Char} (sub : xs ⊆ ys) (h : isAmong xs c = true) :
    isAmong ys c = true := by
  simp only [isAmong, Bool.or_eq_true, List.contains_iff_mem] at h ⊢
  exact h.imp_right fun other => sub other

/-- Every variant could stand in the brackets of a selector. -/
theorem isSelectorContent_of_isVariant (h : IsVariant v) : ∀ c ∈ v, isSelectorContent c = true := by
  have among : ∀ {c}, isAmong ['-'] c = true → isSelectorContent c = true := isAmong_mono (by decide)
  have content : ∀ {stem c}, contentBehind stem c = true → isSelectorContent c = true := by
    intro stem c held
    unfold contentBehind at held
    split at held
    · exact held
    · exact isAmong_mono (by decide) held
  obtain ⟨front, stop, behind, rfl, named, -, kind⟩ := exists_stop h
  intro c member
  rcases List.mem_append.mp member with inside | member
  · exact among (named c inside)
  rcases kind with ⟨rfl, rfl⟩ | ⟨rfl, rfl⟩ | ⟨rfl, -, value, -, valued, rfl⟩
  · rw [List.mem_singleton.mp member]
    rfl
  · simp only [List.mem_cons, List.not_mem_nil, or_false] at member
    rcases member with rfl | rfl <;> rfl
  · simp only [List.mem_cons, List.mem_append, List.not_mem_nil, or_false] at member
    rcases member with rfl | inside | rfl | rfl
    · rfl
    · exact content (valued c inside)
    · rfl
    · rfl

/-- The characters of utilities besides small letters and digits. -/
def utilityMarks : List Char :=
  ['!', '-', '.', '%', '/', '[', ']', '(', ')', '+', '*', '#', '_', ',', ':', singleQuote]

theorem isAmong_of_admits {c : Char} (h : utility.admits c = true) : isAmong utilityMarks c = true := by
  simp only [utility, plainUtility, bracketUtility, Token.property, modifier, plus, between, char, admits,
    isAmong, isLowerOrHyphen, isLowerOrDigit, isModifierContent, isValueContent, utilityMarks, Bool.or_eq_true,
    beq_iff_eq, List.contains_cons] at h ⊢
  grind

/-- Quotes are borders of tokens, and yet they may stand in them. -/
def isQuote (c : Char) : Bool :=
  c == '"' || c == singleQuote

theorem isBorder_of_isQuote {c : Char} (h : isQuote c = true) : isBorder c = true := by
  simp only [isQuote, isBorder, Bool.or_eq_true] at h ⊢
  rcases h with h | h
  · exact .inl (.inl (.inl (.inr h)))
  · exact .inl (.inl (.inr h))

theorem isBorder_of_isLowerOrDigit {c : Char} (h : isLowerOrDigit c = true) : isBorder c = false := by
  have bounds : 0x30 ≤ c.toNat ∧ c.toNat ≤ 0x7A ∧ c.toNat ≠ 0x60 := by
    simp only [isLowerOrDigit, isLower, Bool.or_eq_true, Bool.and_eq_true, decide_eq_true_eq, Char.le_def,
      UInt32.le_iff_toNat_le] at h
    have code : c.val.toNat = c.toNat := rfl
    simp only [code, Char.reduceVal, UInt32.reduceToNat] at h
    omega
  have unblank : isBlank c = false := by
    have outside : c.toNat ∉ blankCodes := by
      simp only [blankCodes, List.mem_cons, List.not_mem_nil, or_false, not_or]
      omega
    rw [isBlank_eq_contains]
    simp [outside]
  have other : ∀ d : Char, (d.toNat < 0x30 ∨ 0x7A < d.toNat ∨ d.toNat = 0x60) → (c == d) = false := by
    intro d code
    rw [beq_eq_false_iff_ne]
    rintro rfl
    omega
  rw [isBorder, unblank, other _ (by decide), other _ (by decide), other _ (by decide), other _ (by decide)]
  rfl

theorem isQuote_of_isBorder {c : Char} {others : List Char} (h : isAmong others c = true)
    (inked : others.filter isBorder ⊆ ['"', singleQuote]) (border : isBorder c = true) : isQuote c = true := by
  simp only [isAmong, Bool.or_eq_true, List.contains_iff_mem] at h
  rcases h with plain | other
  · exact absurd (isBorder_of_isLowerOrDigit plain) (by simp [border])
  · have quote := inked (List.mem_filter.mpr ⟨other, border⟩)
    simpa [isQuote] using quote

/-- No border stands in a text of the shape of a token, quotes apart. -/
theorem isQuote_of_shape {w : List Char} (h : Shape w) : ∀ c ∈ w, isBorder c = true → isQuote c = true := by
  induction h with
  | utility described =>
    intro c member
    exact isQuote_of_isBorder (isAmong_of_admits (admits_of_matches described c member)) (by decide)
  | variant described _ ih =>
    intro c member
    rcases List.mem_append.mp member with front | behind
    · exact isQuote_of_isBorder (isSelectorContent_of_isVariant (matches_iff_isVariant.mp described) c front)
        (by decide)
    · exact ih c behind

end UtilityCss.Token
