/-!
# Cutting text

A text is cut in two at the first place where a mark stands, and closed text loses its last character.
The two halves with the mark between them are the text again.
-/

namespace UtilityCss.Text

/-- The text before the first `mark` and the text behind it. -/
def cut? (mark : List Char) : List Char → Option (List Char × List Char)
  | [] => if mark.isEmpty then some ([], []) else none
  | c :: cs =>
    match mark.isPrefixOf? (c :: cs) with
    | some rest => some ([], rest)
    | none => (cut? mark cs).map fun halves => (c :: halves.1, halves.2)

theorem isPrefixOf?_cons_cons (x y : Char) (a b : List Char) :
    (x :: a).isPrefixOf? (y :: b) = if x == y then a.isPrefixOf? b else none := rfl

theorem eq_append_of_isPrefixOf? {a b r : List Char} (h : a.isPrefixOf? b = some r) :
    b = a ++ r := by
  induction a generalizing b with
  | nil => exact Option.some.inj h
  | cons x a ih =>
    cases b with
    | nil => cases h
    | cons y b =>
      rw [isPrefixOf?_cons_cons] at h
      split at h
      · rename_i hxy
        rw [ih h, beq_iff_eq.1 hxy, List.cons_append]
      · exact absurd h (by simp)

theorem isPrefixOf?_append (a r : List Char) : a.isPrefixOf? (a ++ r) = some r := by
  induction a with
  | nil => rfl
  | cons x a ih => rw [List.cons_append, isPrefixOf?_cons_cons, beq_self_eq_true, if_pos rfl, ih]

/-- The halves and the mark make up the text. -/
theorem eq_of_cut? {mark cs a b : List Char} (h : cut? mark cs = some (a, b)) :
    cs = a ++ mark ++ b := by
  induction cs generalizing a b with
  | nil =>
    unfold cut? at h
    split at h
    · rename_i hm
      simp only [Option.some.injEq, Prod.mk.injEq] at h
      simp [← h.1, ← h.2, List.isEmpty_iff.1 hm]
    · exact absurd h (by simp)
  | cons c cs ih =>
    unfold cut? at h
    split at h
    · rename_i rest hr
      simp only [Option.some.injEq, Prod.mk.injEq] at h
      rw [← h.1, ← h.2, List.nil_append]
      exact eq_append_of_isPrefixOf? hr
    · obtain ⟨halves, hh, he⟩ := Option.map_eq_some_iff.1 h
      simp only [Prod.mk.injEq] at he
      rw [← he.1, ← he.2, ih (a := halves.1) (b := halves.2) hh]
      simp

theorem drop_length_takeWhile (p : Char → Bool) (cs : List Char) :
    cs.drop (cs.takeWhile p).length = cs.dropWhile p := by
  conv => lhs; rw [← List.takeWhile_append_dropWhile (p := p) (l := cs), List.drop_left' (by simp)]

/-- The text before the closing character `close`, if it ends in that. -/
def unclose? (close : Char) (cs : List Char) : Option (List Char) :=
  if cs.getLast? = some close then some cs.dropLast else none

theorem unclose?_eq_some_iff {close : Char} {cs inner : List Char} :
    unclose? close cs = some inner ↔ cs = inner ++ [close] := by
  unfold unclose?
  constructor
  · intro h
    split at h
    · rename_i hl
      simp only [Option.some.injEq] at h
      obtain ⟨ys, rfl⟩ := List.getLast?_eq_some_iff.1 hl
      simpa using h
    · exact absurd h (by simp)
  · rintro rfl
    simp

/-- Every `old` becomes `new`. -/
def exchange (old new : Char) (cs : List Char) : List Char :=
  cs.map fun c => if c = old then new else c

/-- The first `old` gives way to the text `new`. -/
def exchangeFirst (old : Char) (new : List Char) : List Char → List Char
  | [] => []
  | c :: cs => if c = old then new ++ cs else c :: exchangeFirst old new cs

def hasMark (mark cs : List Char) : Bool :=
  (cut? mark cs).isSome

theorem hasMark_iff_infix {mark cs : List Char} : hasMark mark cs = true ↔ mark <:+: cs := by
  unfold hasMark
  induction cs with
  | nil =>
    rw [cut?, List.infix_nil, ← List.isEmpty_iff]
    cases mark.isEmpty <;> simp
  | cons c cs ih =>
    rw [cut?, List.infix_cons_iff, ← ih]
    cases found : mark.isPrefixOf? (c :: cs) with
    | some rest =>
      have start : mark <+: c :: cs := ⟨rest, (eq_append_of_isPrefixOf? found).symm⟩
      exact iff_of_true rfl (.inl start)
    | none =>
      rw [Option.isSome_map]
      refine (or_iff_right ?_).symm
      rintro ⟨rest, same⟩
      rw [← same, isPrefixOf?_append] at found
      cases found

end UtilityCss.Text
