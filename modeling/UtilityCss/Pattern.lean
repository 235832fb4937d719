/-!
# Patterns

Patterns over characters whose choices have an order of preference. `Pattern.rests` lists what a pattern
can leave of a text, the preferred rest first. `Pattern.Matches` says which texts a pattern describes, and
`mem_rests_iff` that the rests are the ends of the texts it describes.
-/

namespace UtilityCss

inductive Pattern
  | one (accepts : Char → Bool)
  | seq (first second : Pattern)
  | alt (preferred other : Pattern)
  /-- The pattern, or else nothing. -/
  | opt (body : Pattern)
  /-- Any number of characters of a class, as many as can be. -/
  | many (accepts : Char → Bool)

namespace Pattern

/-- What is left of a text when more and more characters of a class are taken from its start, in front of
`taken`: the shortest rest comes first. -/
def shrink (accepts : Char → Bool) : List Char → List (List Char) → List (List Char)
  | [], taken => [] :: taken
  | c :: cs, taken =>
    if accepts c then shrink accepts cs ((c :: cs) :: taken) else (c :: cs) :: taken

/-- What the pattern can leave of a text, the preferred rest first. -/
def rests : Pattern → List Char → List (List Char)
  | one _, [] => []
  | one accepts, c :: cs => if accepts c then [cs] else []
  | seq first second, cs => (first.rests cs).flatMap second.rests
  | alt preferred other, cs => preferred.rests cs ++ other.rests cs
  | opt body, cs => body.rests cs ++ [cs]
  | many accepts, cs => shrink accepts cs []

/-- The texts that a pattern describes. -/
inductive Matches : Pattern → List Char → Prop
  | one {accepts : Char → Bool} {c : Char} : accepts c = true → Matches (.one accepts) [c]
  | seq {p q : Pattern} {v w : List Char} : Matches p v → Matches q w → Matches (.seq p q) (v ++ w)
  | preferred {p q : Pattern} {w : List Char} : Matches p w → Matches (.alt p q) w
  | other {p q : Pattern} {w : List Char} : Matches q w → Matches (.alt p q) w
  | body {p : Pattern} {w : List Char} : Matches p w → Matches (.opt p) w
  | nothing {p : Pattern} : Matches (.opt p) []
  | many {accepts : Char → Bool} {w : List Char} : (∀ c ∈ w, accepts c = true) →
      Matches (.many accepts) w

/-- One or more characters of a class, as many as can be. -/
def plus (accepts : Char → Bool) : Pattern :=
  .seq (.one accepts) (.many accepts)

def char (c : Char) : Pattern :=
  .one (· == c)

/-- A pattern between two characters. -/
def between (opening closing : Char) (body : Pattern) : Pattern :=
  .seq (char opening) (.seq body (char closing))

/-! ### The rests are the ends of the texts described -/

theorem mem_shrink_iff {accepts : Char → Bool} {cs rest : List Char} {taken : List (List Char)} :
    rest ∈ shrink accepts cs taken ↔
      rest ∈ taken ∨ ∃ w, (∀ c ∈ w, accepts c = true) ∧ cs = w ++ rest := by
  induction cs generalizing taken with
  | nil =>
    simp only [shrink, List.mem_cons]
    constructor
    · rintro (rfl | h)
      · exact .inr ⟨[], by simp, rfl⟩
      · exact .inl h
    · rintro (h | ⟨w, _, hw⟩)
      · exact .inr h
      · exact .inl (List.append_eq_nil_iff.1 hw.symm).2
  | cons c cs ih =>
    unfold shrink
    split
    · rename_i hc
      rw [ih, List.mem_cons, or_right_comm]
      constructor
      · rintro ((rfl | ⟨w, hw, rfl⟩) | h)
        · exact .inr ⟨[], by simp, rfl⟩
        · exact .inr ⟨c :: w, by simpa using ⟨hc, hw⟩, rfl⟩
        · exact .inl h
      · rintro (h | ⟨w, hw, he⟩)
        · exact .inr h
        · cases w with
          | nil => exact .inl (.inl he.symm)
          | cons d w =>
            obtain ⟨rfl, rfl⟩ := List.cons.inj he
            exact .inl (.inr ⟨w, fun x hx => hw x (List.mem_cons_of_mem _ hx), rfl⟩)
    · rename_i hc
      rw [List.mem_cons]
      constructor
      · rintro (rfl | h)
        · exact .inr ⟨[], by simp, rfl⟩
        · exact .inl h
      · rintro (h | ⟨w, hw, he⟩)
        · exact .inr h
        · cases w with
          | nil => exact .inl he.symm
          | cons d w =>
            obtain ⟨rfl, rfl⟩ := List.cons.inj he
            exact absurd (hw c List.mem_cons_self) hc

theorem mem_rests_iff {p : Pattern} {cs rest : List Char} :
    rest ∈ p.rests cs ↔ ∃ w, p.Matches w ∧ cs = w ++ rest := by
  induction p generalizing cs rest with
  | one accepts =>
    cases cs with
    | nil =>
      simp only [rests, List.not_mem_nil, false_iff, not_exists, not_and]
      rintro w ⟨⟩ h
      simp at h
    | cons c cs =>
      simp only [rests]
      split
      · rename_i hc
        rw [List.mem_singleton]
        constructor
        · intro h
          exact ⟨[c], .one hc, by rw [h]; rfl⟩
        · rintro ⟨w, ⟨⟩, h⟩
          exact (List.cons.inj h).2.symm
      · rename_i hc
        simp only [List.not_mem_nil, false_iff, not_exists, not_and]
        rintro w ⟨hd⟩ h
        exact hc ((List.cons.inj h).1 ▸ hd)
  | seq p q ihp ihq =>
    simp only [rests, List.mem_flatMap, ihp, ihq]
    constructor
    · rintro ⟨_, ⟨v, hv, rfl⟩, w, hw, rfl⟩
      exact ⟨v ++ w, .seq hv hw, (List.append_assoc ..).symm⟩
    · rintro ⟨_, ⟨⟩, h⟩
      rename_i v w hv hw
      exact ⟨w ++ rest, ⟨v, hv, by rw [h, List.append_assoc]⟩, w, hw, rfl⟩
  | alt p q ihp ihq =>
    simp only [rests, List.mem_append, ihp, ihq]
    constructor
    · rintro (⟨w, hw, h⟩ | ⟨w, hw, h⟩)
      · exact ⟨w, .preferred hw, h⟩
      · exact ⟨w, .other hw, h⟩
    · rintro ⟨w, hw, h⟩
      cases hw with
      | preferred hw => exact .inl ⟨w, hw, h⟩
      | other hw => exact .inr ⟨w, hw, h⟩
  | opt p ih =>
    simp only [rests, List.mem_append, ih, List.mem_singleton]
    constructor
    · rintro (⟨w, hw, h⟩ | rfl)
      · exact ⟨w, .body hw, h⟩
      · exact ⟨[], .nothing, rfl⟩
    · rintro ⟨w, hw, h⟩
      cases hw with
      | body hw => exact .inl ⟨w, hw, h⟩
      | nothing => exact .inr h.symm
  | many accepts =>
    simp only [rests, mem_shrink_iff, List.not_mem_nil, false_or]
    exact ⟨fun ⟨w, hw, h⟩ => ⟨w, .many hw, h⟩, fun ⟨w, hw, h⟩ => ⟨w, by cases hw; assumption, h⟩⟩

end Pattern

end UtilityCss
