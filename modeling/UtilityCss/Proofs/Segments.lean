import UtilityCss.Directive.Apply

/-!
# Texts cut at directives

What is found at the start of a text stands there as it was written. So the pieces of a text, each written out, are the
text again, and behind a directive the text is cut as if nothing stood in front of it.
-/

namespace UtilityCss.Directive
open Text

/-! ### Pieces -/

section Pieces
variable {δ : Type} {find? : List Char → Option (δ × Nat)} {written : δ → List Char}
  {c : Char} {cs : List Char} {d : δ}

/-- The text starts with what is found, which is as long as is said. -/
def Finds (find? : List Char → Option (δ × Nat)) (written : δ → List Char) : Prop :=
  ∀ ⦃cs d length⦄, find? cs = some (d, length) → length = (written d).length ∧ written d <+: cs ∧ written d ≠ []

def Segment.text (written : δ → List Char) : Segment δ → List Char
  | .char c => [c]
  | .directive d => written d

/-- The directive is one of those that a text is cut at, and `rest` stands behind it. -/
def Stands (find? : List Char → Option (δ × Nat)) (written : δ → List Char) (cs : List Char)
    (front : List (Segment δ)) (d : δ) (rest : List Char) : Prop :=
  segments find? cs = front ++ .directive d :: segments find? rest ∧
    cs = front.flatMap (Segment.text written) ++ (written d ++ rest)

theorem Stands.mem {front : List (Segment δ)} {rest : List Char} (stands : Stands find? written cs front d rest) :
    .directive d ∈ segments find? cs := by
  rw [stands.1]
  exact List.mem_append_right _ List.mem_cons_self

theorem segmentsFrom_append (a cs : List Char) : segmentsFrom find? a.length (a ++ cs) = segments find? cs := by
  induction a with
  | nil => cases cs <;> rfl
  | cons x a ih => exact ih

theorem segments_char (unfound : find? (c :: cs) = none) : segments find? (c :: cs) = .char c :: segments find? cs := by
  rw [segments, segmentsFrom, unfound]
  rfl

theorem segments_directive {rest : List Char}
    (found : find? (written d ++ rest) = some (d, (written d).length)) (some : written d ≠ []) :
    segments find? (written d ++ rest) = .directive d :: segments find? rest := by
  cases text : written d with
  | nil => exact absurd text some
  | cons x a =>
    rw [text] at found
    rw [List.cons_append] at found ⊢
    rw [segments, segmentsFrom, found]
    exact congrArg _ (segmentsFrom_append a rest)

/-- A text is empty, or starts with a character outside all directives, or with a directive. -/
@[elab_as_elim]
theorem segments_induction {motive : List Char → Prop} (finds : Finds find? written) (nil : motive [])
    (char : ∀ c cs, find? (c :: cs) = none → motive cs → motive (c :: cs))
    (directive : ∀ d rest, find? (written d ++ rest) = some (d, (written d).length) → written d ≠ [] →
      motive rest → motive (written d ++ rest)) (cs : List Char) : motive cs := by
  induction size : cs.length using Nat.strongRecOn generalizing cs with
  | ind n ih =>
    cases cs with
    | nil => exact nil
    | cons c cs =>
      cases found : find? (c :: cs) with
      | none => exact char c cs found (ih cs.length (by rw [← size, List.length_cons]; omega) cs rfl)
      | some answer =>
        obtain ⟨d, length⟩ := answer
        obtain ⟨rfl, ⟨rest, text⟩, some⟩ := finds found
        have shorter : rest.length < n := by
          have lengths := congrArg List.length text
          rw [List.length_append, size] at lengths
          have positive := List.length_pos_iff.mpr some
          omega
        rw [← text] at found ⊢
        exact directive d rest found some (ih _ shorter rest rfl)

theorem flatMap_segments (finds : Finds find? written) (cs : List Char) :
    (segments find? cs).flatMap (Segment.text written) = cs := by
  induction cs using segments_induction finds with
  | nil => rfl
  | char c cs unfound ih => rw [segments_char unfound, List.flatMap_cons, ih]; rfl
  | directive d rest found some ih => rw [segments_directive found some, List.flatMap_cons, ih]; rfl

section Stands
variable {front : List (Segment δ)} {rest : List Char}

theorem stands_char_iff (unfound : find? (c :: cs) = none) :
    Stands find? written (c :: cs) front d rest ↔
      ∃ more, front = .char c :: more ∧ Stands find? written cs more d rest := by
  unfold Stands
  rw [segments_char unfound]
  constructor
  · rintro ⟨cut, text⟩
    obtain ⟨rfl, later⟩ | ⟨more, rfl, later⟩ := List.cons_eq_append_iff.mp cut
    · cases later
    · exact ⟨more, rfl, later, (List.cons.inj text).2⟩
  · rintro ⟨more, rfl, cut, text⟩
    refine ⟨by rw [cut, List.cons_append], ?_⟩
    rw [List.flatMap_cons, List.append_assoc, ← text]
    rfl

theorem stands_directive_iff {b : δ} (found : find? (written b ++ cs) = some (b, (written b).length))
    (some : written b ≠ []) :
    Stands find? written (written b ++ cs) front d rest ↔
      front = [] ∧ d = b ∧ rest = cs ∨ ∃ more, front = .directive b :: more ∧ Stands find? written cs more d rest := by
  unfold Stands
  rw [segments_directive found some]
  constructor
  · rintro ⟨cut, text⟩
    obtain ⟨rfl, later⟩ | ⟨more, rfl, later⟩ := List.cons_eq_append_iff.mp cut
    · cases (List.cons.inj later).1
      exact .inl ⟨rfl, rfl, (List.append_cancel_left text).symm⟩
    · refine .inr ⟨more, rfl, later, ?_⟩
      rw [List.flatMap_cons, List.append_assoc] at text
      exact List.append_cancel_left text
  · rintro (⟨rfl, rfl, rfl⟩ | ⟨more, rfl, cut, text⟩)
    · exact ⟨rfl, rfl⟩
    · refine ⟨by rw [cut, List.cons_append], ?_⟩
      rw [List.flatMap_cons, List.append_assoc, ← text]
      rfl

end Stands

/-- A directive of the text has a property, and every directive in front of it has passed. -/
inductive Reaches (passed here : δ → Prop) : List (Segment δ) → Prop
  | char {c : Char} {rest : List (Segment δ)} : Reaches passed here rest → Reaches passed here (.char c :: rest)
  | here {d : δ} {rest : List (Segment δ)} : here d → Reaches passed here (.directive d :: rest)
  | later {d : δ} {rest : List (Segment δ)} :
      passed d → Reaches passed here rest → Reaches passed here (.directive d :: rest)

theorem reaches_iff {passed here : δ → Prop} {pieces : List (Segment δ)} :
    Reaches passed here pieces ↔ ∃ front d behind, pieces = front ++ .directive d :: behind ∧
      (∀ b, .directive b ∈ front → passed b) ∧ here d := by
  constructor
  · intro reaches
    induction reaches with
    | @char c rest _ ih =>
      obtain ⟨front, d, behind, rfl, before, found⟩ := ih
      refine ⟨.char c :: front, d, behind, rfl, fun b member => ?_, found⟩
      rcases List.mem_cons.mp member with isChar | inside
      · cases isChar
      · exact before b inside
    | @here d rest found => exact ⟨[], d, rest, rfl, by simp, found⟩
    | @later b rest passes _ ih =>
      obtain ⟨front, d, behind, rfl, before, found⟩ := ih
      refine ⟨.directive b :: front, d, behind, rfl, fun x member => ?_, found⟩
      rcases List.mem_cons.mp member with same | inside
      · cases same
        exact passes
      · exact before x inside
  · rintro ⟨front, d, behind, rfl, before, found⟩
    induction front with
    | nil => exact .here found
    | cons piece front ih =>
      have later := ih fun b inside => before b (List.mem_cons_of_mem _ inside)
      cases piece with
      | char c => exact .char later
      | directive b => exact .later (before b List.mem_cons_self) later

theorem Reaches.exists_mem {passed here : δ → Prop} {pieces : List (Segment δ)} (reaches : Reaches passed here pieces) :
    ∃ d, .directive d ∈ pieces ∧ here d := by
  obtain ⟨front, d, behind, rfl, -, found⟩ := reaches_iff.mp reaches
  exact ⟨d, List.mem_append_right _ List.mem_cons_self, found⟩

end Pieces

/-! ### Directives -/

section Directives
variable {cs rest : List Char} {length : Nat}

/-- A directive as the pattern has it: no token holds a character that could end it. -/
structure Apply.Fits (a : Apply) : Prop where
  opening : (a.opening = '\x7b' || isBlank a.opening) = true
  some : a.tokens ≠ []
  tokens : ∀ c ∈ a.tokens, isApplyEnd c = false
  closing : isApplyEnd a.closing = true

def Apply.written (a : Apply) : List Char :=
  a.opening :: (applyMark ++ (a.tokens ++ [a.closing]))

theorem Apply.toList_text (a : Apply) : a.text.toList = a.written := by
  rw [Apply.text, String.toList_ofList, List.cons_append, List.cons_append, List.append_assoc, Apply.written]

theorem Apply.written_append (a : Apply) (rest : List Char) :
    a.written ++ rest = a.opening :: (applyMark ++ (a.tokens ++ a.closing :: rest)) := by
  rw [Apply.written, List.cons_append, List.append_assoc, List.append_assoc, List.singleton_append]

theorem applyAt?_of_fits {a : Apply} (fits : a.Fits) (rest : List Char) :
    applyAt? (a.written ++ rest) = some (a, a.written.length) := by
  have tokens : (a.tokens ++ a.closing :: rest).takeWhile (!isApplyEnd ·) = a.tokens := by
    rw [List.takeWhile_append_of_pos fun c member => by rw [fits.tokens c member]; rfl,
      List.takeWhile_cons_of_neg (by simp [fits.closing]), List.append_nil]
  have some : a.tokens.isEmpty = false := by simp [fits.some]
  have behind : ((a.tokens ++ a.closing :: rest).drop a.tokens.length).head? = .some a.closing := by
    rw [List.drop_left, List.head?_cons]
  have length : a.written.length = applyMark.length + a.tokens.length + 2 := by
    rw [Apply.written, List.length_cons, List.length_append, List.length_append, List.length_singleton]
    omega
  rw [length, Apply.written_append]
  unfold applyAt?
  dsimp only
  rw [if_pos fits.opening, isPrefixOf?_append]
  dsimp only [Option.bind_eq_bind, Option.bind_some]
  rw [tokens, some, behind]
  rfl

theorem fits_of_applyAt? {a : Apply} (found : applyAt? cs = some (a, length)) :
    a.Fits ∧ a.written <+: cs := by
  unfold applyAt? at found
  cases cs with
  | nil => cases found
  | cons opening rest =>
    dsimp only at found
    split at found
    · rename_i opens
      obtain ⟨behind, isMark, found⟩ := Option.bind_eq_some_iff.mp found
      split at found
      · cases found
      · rename_i some
        obtain ⟨closing, ended, found⟩ := Option.bind_eq_some_iff.mp found
        cases found
        have cut := List.takeWhile_append_dropWhile (p := (!isApplyEnd ·)) (l := behind)
        rw [drop_length_takeWhile] at ended
        obtain ⟨more, left⟩ := List.head?_eq_some_iff.mp ended
        have tokens : ∀ c ∈ behind.takeWhile (!isApplyEnd ·), isApplyEnd c = false := fun c member => by
          simpa using List.all_eq_true.mp List.all_takeWhile c member
        have closes : isApplyEnd closing = true := by
          have stopped := List.head?_dropWhile_not (!isApplyEnd ·) behind
          rw [left] at stopped
          simpa using stopped
        refine ⟨⟨opens, fun none => some (List.isEmpty_iff.mpr none), tokens, closes⟩, more, ?_⟩
        rw [left] at cut
        rw [Apply.written_append, eq_append_of_isPrefixOf? isMark]
        dsimp only
        rw [cut]
    · cases found

theorem applyAt?_eq_some_iff {a : Apply} :
    applyAt? cs = some (a, length) ↔ a.Fits ∧ length = a.written.length ∧ a.written <+: cs := by
  constructor
  · intro found
    obtain ⟨fits, rest, rfl⟩ := fits_of_applyAt? found
    cases found.symm.trans (applyAt?_of_fits fits rest)
    exact ⟨fits, rfl, List.prefix_append _ _⟩
  · rintro ⟨fits, rfl, rest, rfl⟩
    exact applyAt?_of_fits fits rest

theorem finds_applyAt? : Finds applyAt? Apply.written := by
  intro cs a length found
  obtain ⟨-, same, start⟩ := applyAt?_eq_some_iff.mp found
  exact ⟨same, start, List.cons_ne_nil _ _⟩

end Directives

end UtilityCss.Directive
