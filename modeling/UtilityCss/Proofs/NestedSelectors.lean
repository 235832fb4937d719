import UtilityCss.Proofs.ScreenNames
import UtilityCss.Proofs.SelectorLists

/-!
# Selectors of nested blocks

A directive nests the block of a utility in the rule that it stands in, under the selector that the utility makes of
`&`. There every `&` stands for the selector of the rule, while in a sheet the class selector takes one place only. So
the two agree as long as the nested selector has one `&`: `nested_selector_iff`. A template in brackets can have more.
-/

namespace UtilityCss

namespace Text

/-- A text with a selector in the place of every `&`. -/
def nest (selector cs : List Char) : List Char :=
  cs.flatMap fun c => if c = '&' then selector else [c]

variable {selector cs front back xs ys : List Char}

theorem nest_append (selector front back : List Char) :
    nest selector (front ++ back) = nest selector front ++ nest selector back := List.flatMap_append

theorem nest_append_eq_iff (dotted : selector.head? = some '.') :
    nest selector cs ++ xs = cs ++ ys ↔ '&' ∉ cs ∧ xs = ys := by
  induction cs with
  | nil => simp [nest]
  | cons c cs ih =>
    by_cases place : c = '&'
    · obtain ⟨name, rfl⟩ := List.head?_eq_some_iff.mp dotted
      subst place
      refine iff_of_false (fun same => ?_) fun clear => clear.1 List.mem_cons_self
      exact absurd (List.cons.inj same).1 (by decide)
    · have kept : nest selector (c :: cs) = c :: nest selector cs := by simp [nest, place]
      rw [kept, List.cons_append, List.cons_append, List.cons_inj_right, ih, List.mem_cons, not_or]
      exact and_congr_left' (and_iff_right (Ne.symm place)).symm

/-- Filling every place does what filling one of them does if there is no other. -/
theorem nest_eq_iff (dotted : selector.head? = some '.') :
    nest selector (front ++ '&' :: back) = front ++ selector ++ back ↔ '&' ∉ front ∧ '&' ∉ back := by
  have own : nest selector ('&' :: back) = selector ++ nest selector back := rfl
  have rest := @nest_append_eq_iff selector back [] [] dotted
  rw [List.append_nil, List.append_nil, and_iff_left rfl] at rest
  rw [nest_append, own, List.append_assoc, nest_append_eq_iff dotted, List.append_cancel_left_eq, rest]

theorem exchangeFirst_of_notMem {new : List Char} (absent : '&' ∉ cs) : exchangeFirst '&' new cs = cs := by
  induction cs with
  | nil => rfl
  | cons c cs ih =>
    rw [List.mem_cons, not_or] at absent
    rw [exchangeFirst, if_neg (Ne.symm absent.1), ih absent.2]

theorem exists_exchangeFirst (member : '&' ∈ cs) : ∃ front back, cs = front ++ '&' :: back ∧
    ∀ new, exchangeFirst '&' new cs = front ++ new ++ back := by
  induction cs with
  | nil => cases member
  | cons c cs ih =>
    by_cases place : c = '&'
    · subst place
      exact ⟨[], cs, rfl, fun new => if_pos rfl⟩
    · obtain ⟨front, back, cut, exchanged⟩ := ih ((List.mem_cons.mp member).resolve_left (Ne.symm place))
      refine ⟨c :: front, back, congrArg (c :: ·) cut, fun new => ?_⟩
      rw [exchangeFirst, if_neg place, exchanged]
      rfl

end Text

/-! ### What changes put around a selector -/

namespace SelectorChange

variable {change : SelectorChange} {changes : List SelectorChange}

/-- How many `&` the text of a change has besides the place that the selector takes. -/
def spare : SelectorChange → Nat
  | suffix text => text.toList.count '&'
  | ancestor text => text.toList.count '&'
  | sibling text => text.toList.count '&'
  | template text => text.toList.count '&' - 1

/-- A change that keeps the selector puts two texts around it, with its spare `&` in them. -/
theorem exists_around (keeps : change.Keeps) : ∃ front back : List Char,
    (∀ selector, (change.apply selector).toList = front ++ selector.toList ++ back) ∧
      front.count '&' + back.count '&' = change.spare := by
  cases change with
  | suffix text => exact ⟨[], text.toList, fun selector => String.toList_append, Nat.zero_add _⟩
  | ancestor text =>
    refine ⟨text.toList ++ [' '], [], fun selector => ?_, by simp [spare]⟩
    simp [apply]
  | sibling text =>
    refine ⟨text.toList ++ [' ', '~', ' '], [], fun selector => ?_, by simp [spare]⟩
    simp [apply]
  | template text =>
    -- The place that is filled is one of the `&`, the others stay.
    obtain ⟨front, back, cut, exchanged⟩ := Text.exists_exchangeFirst keeps
    refine ⟨front, back, fun selector => ?_, ?_⟩
    · rw [apply, String.toList_ofList, exchanged]
    · rw [spare, cut, List.count_append, List.count_cons_self]
      omega

theorem exists_around_all (keep : ∀ change ∈ changes, change.Keeps) : ∃ front back : List Char,
    (∀ selector, (applyAll changes selector).toList = front ++ selector.toList ++ back) ∧
      (front.count '&' + back.count '&' = 0 ↔ ∀ change ∈ changes, change.spare = 0) := by
  induction changes with
  | nil => exact ⟨[], [], fun selector => (List.append_nil _).symm, iff_of_true rfl (by simp)⟩
  | cons change changes ih =>
    obtain ⟨keeps, keep⟩ := List.forall_mem_cons.mp keep
    obtain ⟨front, back, inner, none⟩ := ih keep
    obtain ⟨outerFront, outerBack, outer, more⟩ := exists_around keeps
    refine ⟨outerFront ++ front, back ++ outerBack, fun selector => ?_, ?_⟩
    · have step : applyAll (change :: changes) selector = change.apply (applyAll changes selector) := rfl
      rw [step, outer, inner]
      simp only [List.append_assoc]
    · rw [List.forall_mem_cons, ← none, ← more, List.count_append, List.count_append]
      omega

end SelectorChange

/-! ### Variants that are read -/

namespace VariantTable

variable {theme : Theme} {name text : String} {cs : List Char} {variant : Variant}

/-- If the variant is a template, it has a place for the selector. -/
def HasPlace (variant : Variant) : Prop :=
  ∀ change, variant.selectorChange? = some change → change.Keeps

theorem hasPlace_scope (scope : Scope) (state : String) : HasPlace (.onSelector (scope.change state)) := by
  rintro change ⟨⟩
  cases scope <;> trivial

theorem hasPlace_of_mem_ranked {start : Nat} {make : Rank → String → Variant} {pairs : List (String × String)}
    (each : ∀ rank text, (make rank text).selectorChange? = none) : ∀ pair ∈ ranked start make pairs, HasPlace pair.2 := by
  intro pair listed change own
  obtain ⟨_, -, rfl⟩ := List.mem_map.mp listed
  rw [each] at own
  cases own

theorem hasPlace_of_mem_stateOf (name state : String) : ∀ pair ∈ stateOf name state, HasPlace pair.2 := by
  intro pair listed
  obtain ⟨scope, -, rfl⟩ := List.mem_map.mp listed
  exact hasPlace_scope scope state

theorem hasPlace_of_mem_attributes (theme : Theme) (name : String) :
    ∀ pair ∈ attributes theme name, HasPlace pair.2 := by
  intro pair listed
  obtain ⟨_, -, listed⟩ := List.mem_flatMap.mp listed
  exact hasPlace_of_mem_stateOf _ _ pair listed

theorem hasPlace_of_mem_later : ∀ pair ∈ later theme, HasPlace pair.2 := by
  unfold later
  simp only [List.forall_mem_append]
  refine ⟨⟨⟨⟨⟨⟨⟨hasPlace_of_mem_ranked fun _ _ => rfl, ?named⟩, ?elements⟩, ?classes⟩,
    hasPlace_of_mem_ranked fun _ _ => rfl⟩, hasPlace_of_mem_ranked fun _ _ => rfl⟩, hasPlace_of_mem_attributes _ _⟩,
    hasPlace_of_mem_attributes _ _⟩
  case named =>
    intro pair listed change own
    rcases List.mem_pair.mp listed with rfl | rfl
    · cases own
      trivial
    · cases own
      exact List.mem_cons_self
  case elements =>
    intro pair listed change own
    obtain ⟨_, -, rfl⟩ := List.mem_map.mp listed
    cases own
    trivial
  case classes =>
    intro pair listed
    obtain ⟨_, -, listed⟩ := List.mem_flatMap.mp listed
    exact hasPlace_of_mem_stateOf _ _ pair listed

theorem hasPlace_of_get? (found : (ofTheme theme).get? name = some variant) : HasPlace variant := by
  rw [get?, statics_ofTheme] at found
  rcases Table.mem_of_get?_insertAll found with listed | wide
  · exact hasPlace_of_mem_later _ listed
  · exact hasPlace_of_mem_ranked (fun _ _ => rfl) _ (Table.mem_of_get?_ofList wide)

theorem hasPlace_dynamic (dynamic : DynamicVariant) (content : String) : HasPlace (dynamic.resolve content) := by
  cases dynamic with
  | attr name scope => exact hasPlace_scope scope _
  | _ => exact fun _ none => nomatch none

theorem mem_exchange {old new c : Char} (apart : c ≠ old) (member : c ∈ cs) : c ∈ Text.exchange old new cs :=
  List.mem_map.mpr ⟨c, member, if_neg apart⟩

theorem hasPlace_bracketed (read : bracketed? cs = some variant) : HasPlace variant := by
  unfold bracketed? at read
  split at read
  · rename_i place
    cases read
    rintro change ⟨⟩
    rw [SelectorChange.Keeps, String.toList_ofList]
    exact mem_exchange (by decide) (List.contains_iff_mem.mp place)
  · -- What has no `&` is an at-rule.
    split at read
    · dsimp only at read
      split at read
      · cases read
      · cases read
        rintro change ⟨⟩
    · split at read
      · dsimp only at read
        split at read
        · cases read
        · cases read
          rintro change ⟨⟩
      · cases read

theorem hasPlace_of_resolve? (read : (ofTheme theme).resolve? cs = some variant) : HasPlace variant := by
  unfold resolve? at read
  split at read
  · obtain ⟨_, -, read⟩ := Option.bind_eq_some_iff.mp read
    exact hasPlace_bracketed read
  · split at read
    · obtain ⟨content, -, read⟩ := Option.bind_eq_some_iff.mp read
      split at read
      · cases read
      · obtain ⟨dynamic, -, made⟩ := Option.bind_eq_some_iff.mp read
        cases made
        exact hasPlace_dynamic dynamic _
    · exact hasPlace_of_get? read

end VariantTable

/-! ### One place and more -/

namespace Variant

variable {theme : Theme} {parts : List (List Char)} {variants : List Variant} {own : Option SelectorChange}
  {base : String}

/-- A selector with another one in the place of every `&`. -/
def nested (outer selector : String) : String :=
  String.ofList (Text.nest outer.toList selector.toList)

/-- The changes of a selector under variants, the outermost first. -/
def changes (variants : List Variant) (own : Option SelectorChange) : List SelectorChange :=
  own.toList ++ variants.filterMap selectorChange?

theorem selector_eq_applyAll (variants : List Variant) (own : Option SelectorChange) (base : String) :
    selector variants own base = SelectorChange.applyAll (changes variants own) base := by
  cases own <;> rfl

theorem keeps_of_anchored {change : SelectorChange}
    (anchored : (change.apply base).toList.head? = some '&') : change.Keeps := by
  cases change with
  | template text =>
    by_contra absent
    rw [SelectorChange.apply, String.toList_ofList, Text.exchangeFirst_of_notMem absent] at anchored
    exact absent (List.mem_of_head? anchored)
  | _ => trivial

theorem exists_read_of_mem {α β : Type} {f : α → Option β} {xs : List α} {ys : List β} {y : β}
    (done : xs.mapM f = some ys) (member : y ∈ ys) : ∃ x, f x = some y := by
  induction xs generalizing ys with
  | nil =>
    cases done
    cases member
  | cons x xs ih =>
    rw [List.mapM_cons] at done
    simp only [Option.bind_eq_bind, Option.bind_eq_some_iff, Option.pure_def] at done
    obtain ⟨first, read, rest, later, same⟩ := done
    cases same
    rcases List.mem_cons.mp member with rfl | member
    · exact ⟨x, read⟩
    · exact ih later member

theorem keep_changes (read : parts.mapM (VariantTable.ofTheme theme).resolve? = some variants)
    (anchored : (selector variants own "&").toList.head? = some '&') : ∀ change ∈ changes variants own, change.Keeps := by
  intro change member
  rcases List.mem_append.mp member with ruled | varied
  · cases own with
    | none => cases ruled
    | some change' =>
      obtain rfl := List.mem_singleton.mp ruled
      exact keeps_of_anchored anchored
  · obtain ⟨variant, listed, changed⟩ := List.mem_filterMap.mp varied
    obtain ⟨_, resolved⟩ := exists_read_of_mem read listed
    exact VariantTable.hasPlace_of_resolve? resolved change changed

theorem exists_selector_eq (read : parts.mapM (VariantTable.ofTheme theme).resolve? = some variants)
    (anchored : (selector variants own "&").toList.head? = some '&') : ∃ front back : List Char,
    (∀ base, (selector variants own base).toList = front ++ base.toList ++ back) ∧
      (front.count '&' + back.count '&' = 0 ↔ ∀ change ∈ changes variants own, change.spare = 0) := by
  simp only [selector_eq_applyAll]
  exact SelectorChange.exists_around_all (keep_changes read anchored)

/-- A nested selector anchored on `&` stands for the selector in the sheet just when it has no other `&`, and it has
others just when a text of the variants or of the rule has an `&` besides the place of a template. -/
theorem nested_selector_iff (read : parts.mapM (VariantTable.ofTheme theme).resolve? = some variants)
    (dotted : base.toList.head? = some '.') (anchored : (selector variants own "&").toList.head? = some '&') :
    (nested base (selector variants own "&") = selector variants own base ↔
      (selector variants own "&").toList.count '&' = 1) ∧
    ((selector variants own "&").toList.count '&' = 1 ↔ ∀ change ∈ changes variants own, change.spare = 0) := by
  obtain ⟨front, back, made, spare⟩ := exists_selector_eq read anchored
  have anchor : (selector variants own "&").toList = front ++ '&' :: back := by
    rw [made, List.append_assoc]
    rfl
  have single : (selector variants own "&").toList.count '&' = 1 ↔ '&' ∉ front ∧ '&' ∉ back := by
    rw [anchor, List.count_append, List.count_cons_self, ← List.count_eq_zero, ← List.count_eq_zero]
    omega
  constructor
  · rw [single, nested, ← String.toList_inj, String.toList_ofList, anchor, made]
    exact Text.nest_eq_iff dotted
  · rw [single, ← List.count_eq_zero, ← List.count_eq_zero, ← Nat.add_eq_zero_iff, spare]

/-! ### Templates with one and with two places -/

def blankTheme : Theme :=
  ⟨∅, ∅, {}⟩

/-- Under a rule for the children, a selector in brackets and a pseudo class. -/
def childVariants : List Variant :=
  [.onSelector (.template "&:hover"), .onSelector (.template "& p")]

theorem nested_selector_of_children :
    ["[&:hover]".toList, "[&_p]".toList].mapM (VariantTable.ofTheme blankTheme).resolve? = some childVariants ∧
      nested ".space" (selector childVariants (some (.suffix " > *")) "&") =
        selector childVariants (some (.suffix " > *")) ".space" :=
  have read : ["[&:hover]".toList, "[&_p]".toList].mapM (VariantTable.ofTheme blankTheme).resolve? =
      some childVariants := rfl
  ⟨read, (nested_selector_iff read (by decide) (by decide)).1.mpr (by decide)⟩

/-- The template `& &` reports no at-rule and a selector anchored on `&`, but nested it asks for an element inside
another one, and in the sheet for an element with a second `&` that nothing fills. -/
theorem nested_twice : ∃ variants,
    ["[&_&]".toList].mapM (VariantTable.ofTheme blankTheme).resolve? = some variants ∧
      hasWrapping variants = false ∧ (selector variants none "&").toList.head? = some '&' ∧
      nested ".x" (selector variants none "&") = ".x .x" ∧ selector variants none ".x" = ".x &" ∧
      nested ".x" (selector variants none "&") ≠ selector variants none ".x" :=
  ⟨[.onSelector (.template "& &")], rfl, rfl, by decide, by decide, by decide, by decide⟩

end Variant

end UtilityCss
