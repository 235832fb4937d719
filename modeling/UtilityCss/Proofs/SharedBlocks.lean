import UtilityCss.Proofs.Levels

/-!
# Shared blocks

A selector without a block of its own is meant for the block behind it. It gets there unless the neighbour that it
is left to is of the container class: that one has a block with other lines outside all at-rules, and none inside.
-/

namespace UtilityCss

namespace Printer

variable {p : Printer} {atRoot : Bool} {us rest : List Utility} {u v w : Utility}
  {behind : List (Utility × SheetItem)}

/-- What stands behind a selector printed for `u`: at most further selectors without a block, and then the block of a
utility that has the lines of `u` and is not of the container class. -/
inductive Completed (p : Printer) (u : Utility) : List (Utility × SheetItem) → Prop
  | block {v : Utility} {rest : List (Utility × SheetItem)} : v.isContainer = false → p.lines v = p.lines u →
      Completed p u ((v, .block v.selector (p.lines v)) :: rest)
  | shared {v : Utility} {rest : List (Utility × SheetItem)} : Completed p u rest →
      Completed p u ((v, .shared v.selector) :: rest)

/-- Every selector without a block of its own is completed. -/
def AllCompleted (p : Printer) (items : List (Utility × SheetItem)) : Prop :=
  ∀ front u selector behind, items = front ++ (u, .shared selector) :: behind → p.Completed u behind

/-- Among utilities that stand in order, one leaves its block to one of the container class. Outside all at-rules
that is printed at once; inside, the next utility that is printed has other lines, or there is none. -/
def Strays (p : Printer) (atRoot : Bool) (us : List Utility) : Prop :=
  ∃ front u v rest, us = front ++ u :: v :: rest ∧ u.isContainer = false ∧ v.isContainer = true ∧
    shares (p.printed u) (p.printed v) = true ∧
    (atRoot = false → ∀ w, rest.find? (!·.isContainer) = some w → p.lines w ≠ p.lines u)

theorem lines_eq_of_shares (sharing : shares (p.printed u) (p.printed v) = true) : p.lines u = p.lines v := by
  simp only [shares, Bool.and_eq_true, decide_eq_true_eq] at sharing
  exact sharing.1.1

/-! ### Parts of what is printed -/

/-- Where an item stands, its utility stands, and behind it is what the utilities behind that print. -/
theorem exists_split_of_itemsFor {front : List (Utility × SheetItem)} {item : SheetItem}
    (cut : p.itemsFor atRoot us = front ++ (u, item) :: behind) :
    ∃ before rest, us = before ++ u :: rest ∧ behind = p.itemsFor atRoot rest ∧
      p.itemOf atRoot (p.printed u) (rest.head?.map p.printed) = some item := by
  induction us generalizing front with
  | nil => exact absurd cut.symm (List.append_ne_nil_of_right_ne_nil _ (List.cons_ne_nil _ _))
  | cons first rest ih =>
    have later : ∀ {front}, p.itemsFor atRoot rest = front ++ (u, item) :: behind →
        ∃ before after, first :: rest = before ++ u :: after ∧ behind = p.itemsFor atRoot after ∧
          p.itemOf atRoot (p.printed u) (after.head?.map p.printed) = some item := by
      intro front cut
      obtain ⟨before, after, same, found⟩ := ih cut
      exact ⟨first :: before, after, by rw [same, List.cons_append], found⟩
    rw [itemsFor_cons] at cut
    cases own : p.itemOf atRoot (p.printed first) (rest.head?.map p.printed) with
    | none =>
      rw [own] at cut
      exact later cut
    | some printed =>
      rw [own] at cut
      cases front with
      | nil =>
        obtain ⟨same, after⟩ := List.cons_eq_cons.mp cut
        cases same
        exact ⟨[], rest, rfl, after.symm, own⟩
      | cons x front => exact later (List.cons_eq_cons.mp cut).2

theorem itemsFor_of_find? (first : us.find? (!·.isContainer) = some w) :
    ∃ rest, p.itemsFor false us = p.itemsFor false (w :: rest) := by
  induction us with
  | nil => cases first
  | cons u us ih =>
    cases container : u.isContainer with
    | true =>
      rw [List.find?_cons_of_neg (by simp [container])] at first
      rw [itemsFor_container container]
      exact ih first
    | false =>
      rw [List.find?_cons_of_pos (by simp [container])] at first
      obtain rfl := Option.some.inj first
      exact ⟨us, rfl⟩

theorem itemsFor_of_find?_eq_none (none : us.find? (!·.isContainer) = none) : p.itemsFor false us = [] := by
  induction us with
  | nil => rfl
  | cons u us ih =>
    have container : u.isContainer = true := by simpa using List.find?_eq_none.mp none u List.mem_cons_self
    rw [List.find?_cons_of_neg (by simp [container])] at none
    rw [itemsFor_container container, ih none]
    rfl

/-! ### Completion -/

theorem lines_eq_of_completed (hu : p.Completed u behind) (hv : p.Completed v behind) :
    p.lines u = p.lines v := by
  induction hu with
  | block _ ulines =>
    cases hv with
    | block _ vlines => exact ulines.symm.trans vlines
  | shared _ ih =>
    cases hv with
    | shared hv => exact ih hv

theorem not_completed_containerBlock (container : v.isContainer = true) :
    ¬p.Completed u ((v, containerBlock p.theme.container) :: behind) := by
  intro completed
  generalize same : (v, containerBlock p.theme.container) :: behind = items at completed
  cases completed with
  | block plain _ =>
    obtain rfl : v = _ := congrArg Prod.fst (List.cons_eq_cons.mp same).1
    exact Bool.false_ne_true (plain.symm.trans container)
  | shared _ => cases congrArg Prod.snd (List.cons_eq_cons.mp same).1

theorem allCompleted_append {front items : List (Utility × SheetItem)} (h : p.AllCompleted (front ++ items)) :
    p.AllCompleted items :=
  fun before u selector behind same => h (front ++ before) u selector behind (by rw [same, List.append_assoc])

/-! ### Utilities that stand in order -/

theorem strays_append (front : List Utility) (h : p.Strays atRoot us) : p.Strays atRoot (front ++ us) := by
  obtain ⟨before, u, v, rest, rfl, stray⟩ := h
  exact ⟨front ++ before, u, v, rest, (List.append_assoc ..).symm, stray⟩

/-- Where nothing strays, the next item behind a selector is for a utility with the same lines. -/
theorem first_of_shares (orderly : ¬p.Strays atRoot (u :: rest)) (plain : u.isContainer = false)
    (sharing : (rest.head?.map p.printed).any (shares (p.printed u)) = true) :
    ∃ w, rest.find? (!·.isContainer) = some w ∧ (atRoot = true → rest.head? = some w) ∧
      p.lines w = p.lines u := by
  cases rest with
  | nil => exact absurd sharing Bool.false_ne_true
  | cons v rest =>
    change shares (p.printed u) (p.printed v) = true at sharing
    cases container : v.isContainer with
    | false =>
      exact ⟨v, List.find?_cons_of_pos (by simp [container]), fun _ => rfl, (lines_eq_of_shares sharing).symm⟩
    | true =>
      rw [List.find?_cons_of_neg (by simp [container])]
      by_contra none
      refine orderly ⟨[], u, v, rest, rfl, plain, container, sharing, fun inside w first same => none ?_⟩
      exact ⟨w, first, fun root => absurd (inside.symm.trans root) Bool.false_ne_true, same⟩

/-- Where nothing strays, what is printed completes a selector with the lines of the first utility printed. -/
theorem completed_of_first (orderly : ¬p.Strays atRoot us) (first : us.find? (!·.isContainer) = some w)
    (head : atRoot = true → us.head? = some w) (same : p.lines w = p.lines u) :
    p.Completed u (p.itemsFor atRoot us) := by
  -- The utility whose lines count changes along the way: it is the next one that is printed.
  induction us generalizing w with
  | nil => cases first
  | cons v rest ih =>
    have later : ¬p.Strays atRoot rest := fun stray => orderly (strays_append [v] stray)
    cases container : v.isContainer with
    | true =>
      rw [List.find?_cons_of_neg (by simp [container])] at first
      have inside : ¬atRoot = true := by
        intro root
        obtain rfl := Option.some.inj (head root)
        simpa [container] using List.find?_some first
      rw [itemsFor_container container, if_neg inside]
      exact ih later first (fun root => absurd root inside) same
    | false =>
      rw [List.find?_cons_of_pos (by simp [container])] at first
      obtain rfl := Option.some.inj first
      cases sharing : (rest.head?.map p.printed).any (shares (p.printed v)) with
      | false =>
        rw [itemsFor_block container sharing]
        exact .block container same
      | true =>
        obtain ⟨next, found, head, lines⟩ := first_of_shares orderly container sharing
        rw [itemsFor_shared container sharing]
        exact .shared (ih later found head (lines.trans same))

theorem lines_eq_of_completed_itemsFor (plain : w.isContainer = false)
    (all : p.AllCompleted (p.itemsFor atRoot (w :: rest))) (h : p.Completed u (p.itemsFor atRoot (w :: rest))) :
    p.lines w = p.lines u := by
  cases sharing : (rest.head?.map p.printed).any (shares (p.printed w)) with
  | false =>
    rw [itemsFor_block plain sharing] at h
    cases h with
    | block _ lines => exact lines
  | true =>
    rw [itemsFor_shared plain sharing] at h all
    cases h with
    | shared later => exact lines_eq_of_completed (all [] w _ _ rfl) later

theorem not_allCompleted_of_strays (stray : p.Strays atRoot us) : ¬p.AllCompleted (p.itemsFor atRoot us) := by
  intro all
  obtain ⟨front, u, v, rest, rfl, plain, container, sharing, other⟩ := stray
  obtain ⟨before, -, same⟩ := @exists_itemsFor_append p atRoot front (u :: v :: rest)
  have own : p.itemsFor atRoot (u :: v :: rest) = (u, .shared u.selector) :: p.itemsFor atRoot (v :: rest) :=
    itemsFor_shared plain sharing
  rw [same, own] at all
  have completed : p.Completed u (p.itemsFor atRoot (v :: rest)) := all before u _ _ rfl
  have others : p.AllCompleted (p.itemsFor atRoot (v :: rest)) :=
    @allCompleted_append p (before ++ [(u, .shared u.selector)]) _ (by rwa [List.append_assoc])
  rw [itemsFor_container container] at completed others
  cases atRoot with
  | true =>
    exact not_completed_containerBlock container completed
  | false =>
    rw [if_neg Bool.false_ne_true, List.nil_append] at completed others
    cases first : rest.find? (!·.isContainer) with
    | none =>
      rw [itemsFor_of_find?_eq_none first] at completed
      cases completed
    | some w =>
      obtain ⟨after, printed⟩ := @itemsFor_of_find? p _ _ first
      rw [printed] at completed others
      have plain : w.isContainer = false := by simpa using List.find?_some first
      exact other rfl w first (lines_eq_of_completed_itemsFor plain others completed)

/-- The selectors of utilities that stand in order are completed if and only if none of them strays. -/
theorem allCompleted_itemsFor_iff : p.AllCompleted (p.itemsFor atRoot us) ↔ ¬p.Strays atRoot us := by
  constructor
  · exact fun all stray => not_allCompleted_of_strays stray all
  · intro orderly front u selector behind cut
    obtain ⟨before, rest, rfl, rfl, printed⟩ := exists_split_of_itemsFor cut
    have later : ¬p.Strays atRoot (u :: rest) := fun stray => orderly (strays_append before stray)
    rcases itemOf_cases printed with ⟨-, -, other⟩ | ⟨plain, sharing, -⟩ | ⟨-, -, other⟩
    · cases other
    · obtain ⟨w, first, head, same⟩ := first_of_shares later plain sharing
      exact completed_of_first (fun stray => later (strays_append [u] stray)) first head same
    · cases other

/-! ### Whole sheets -/

/-- On the level of a node every selector without a block of its own is completed if and only if none of the
utilities of the node strays. -/
theorem selectors_completed_iff (p : Printer) (c : Cascade) :
    p.PrintsNodes c ∧ ∀ conditions node, c.NodeAt conditions node →
      (p.AllCompleted (p.itemsAt conditions node) ↔
        ¬p.Strays conditions.isEmpty (inOrder node.utilities)) :=
  ⟨printsNodes p c, fun _ _ _ => allCompleted_itemsFor_iff⟩

/-- The container class as the neighbour, outside all at-rules and inside. -/
example (p : Printer) :
    p.itemsInOrder true [⟨".x-1", [], false⟩, ⟨".container", [], true⟩] =
      [.shared ".x-1", containerBlock p.theme.container] ∧
    p.itemsInOrder false [⟨".x-1", [], false⟩, ⟨".container", [], true⟩] = [.shared ".x-1"] := ⟨rfl, rfl⟩

end Printer

end UtilityCss
