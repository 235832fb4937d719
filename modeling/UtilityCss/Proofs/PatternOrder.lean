import UtilityCss.Pattern

/-!
# What patterns describe

The texts of each kind of pattern, the characters that may stand in them, and the order of the rests. A
pattern is greedy if its rests get longer and longer, so that the most it can describe comes first.
-/

namespace UtilityCss.Pattern

variable {p q : Pattern} {accepts : Char → Bool} {c : Char} {w cs : List Char}

/-! ### Texts -/

theorem matches_one_iff : (one accepts).Matches w ↔ ∃ c, w = [c] ∧ accepts c = true := by
  constructor
  · rintro ⟨⟩
    exact ⟨_, rfl, ‹_›⟩
  · rintro ⟨c, rfl, accepted⟩
    exact .one accepted

theorem matches_seq_iff : (seq p q).Matches w ↔ ∃ v u, p.Matches v ∧ q.Matches u ∧ w = v ++ u := by
  constructor
  · rintro ⟨⟩
    exact ⟨_, _, ‹_›, ‹_›, rfl⟩
  · rintro ⟨v, u, first, second, rfl⟩
    exact .seq first second

theorem matches_alt_iff : (alt p q).Matches w ↔ p.Matches w ∨ q.Matches w := by
  constructor
  · rintro (_ | _)
    · exact .inl ‹_›
    · exact .inr ‹_›
  · rintro (preferred | other)
    · exact .preferred preferred
    · exact .other other

theorem matches_opt_iff : (opt p).Matches w ↔ p.Matches w ∨ w = [] := by
  constructor
  · rintro (_ | _)
    · exact .inl ‹_›
    · exact .inr rfl
  · rintro (body | rfl)
    · exact .body body
    · exact .nothing

theorem matches_many_iff : (many accepts).Matches w ↔ ∀ c ∈ w, accepts c = true := by
  constructor
  · rintro ⟨⟩
    assumption
  · exact .many

theorem matches_char_iff : (char c).Matches w ↔ w = [c] := by
  simp [char, matches_one_iff]

theorem matches_plus_iff : (plus accepts).Matches w ↔ w ≠ [] ∧ ∀ c ∈ w, accepts c = true := by
  simp only [plus, matches_seq_iff, matches_one_iff, matches_many_iff]
  constructor
  · rintro ⟨_, u, ⟨c, rfl, first⟩, later, rfl⟩
    exact ⟨List.cons_ne_nil _ _, List.forall_mem_cons.mpr ⟨first, later⟩⟩
  · rintro ⟨some, all⟩
    obtain ⟨c, u, rfl⟩ := List.exists_cons_of_ne_nil some
    obtain ⟨first, later⟩ := List.forall_mem_cons.mp all
    exact ⟨[c], u, ⟨c, rfl, first⟩, later, rfl⟩

theorem matches_between_iff {opening closing : Char} :
    (between opening closing p).Matches w ↔ ∃ v, p.Matches v ∧ w = opening :: (v ++ [closing]) := by
  simp only [between, matches_seq_iff, matches_char_iff]
  constructor
  · rintro ⟨_, _, rfl, ⟨v, _, body, rfl, rfl⟩, rfl⟩
    exact ⟨v, body, rfl⟩
  · rintro ⟨v, body, rfl⟩
    exact ⟨[opening], v ++ [closing], rfl, ⟨v, [closing], body, rfl, rfl⟩, rfl⟩

/-! ### Characters -/

/-- The character is in a class that the pattern asks for. -/
def admits : Pattern → Char → Bool
  | one accepts, c => accepts c
  | seq p q, c => p.admits c || q.admits c
  | alt p q, c => p.admits c || q.admits c
  | opt p, c => p.admits c
  | many accepts, c => accepts c

theorem admits_of_matches (h : p.Matches w) : ∀ c ∈ w, p.admits c = true := by
  induction h with
  | one accepted => simpa [admits] using accepted
  | seq _ _ first second =>
    intro c member
    rw [admits, Bool.or_eq_true]
    exact (List.mem_append.mp member).imp (first c) (second c)
  | preferred _ ih => exact fun c member => Bool.or_eq_true_iff.mpr (.inl (ih c member))
  | other _ ih => exact fun c member => Bool.or_eq_true_iff.mpr (.inr (ih c member))
  | body _ ih => exact ih
  | nothing => exact fun c member => absurd member List.not_mem_nil
  | many accepted => exact accepted

theorem not_mem_of_matches (h : p.Matches w) (refused : p.admits c = false) : c ∉ w := fun member =>
  Bool.false_ne_true (refused.symm.trans (admits_of_matches h c member))

/-! ### Order -/

/-- The rests of the pattern get longer and longer: it prefers to describe more of a text. -/
def Greedy (p : Pattern) : Prop :=
  ∀ cs, (p.rests cs).Pairwise (·.length < ·.length)

theorem shrink_pairwise {taken : List (List Char)} (ordered : taken.Pairwise (·.length < ·.length))
    (longer : ∀ rest ∈ taken, cs.length < rest.length) :
    (shrink accepts cs taken).Pairwise (·.length < ·.length) := by
  induction cs generalizing taken with
  | nil => exact List.pairwise_cons.mpr ⟨longer, ordered⟩
  | cons c cs ih =>
    have more : ((c :: cs) :: taken).Pairwise (·.length < ·.length) := List.pairwise_cons.mpr ⟨longer, ordered⟩
    unfold shrink
    split
    · refine ih more fun rest member => ?_
      rcases List.mem_cons.mp member with rfl | old
      · exact Nat.lt_succ_self _
      · exact Nat.lt_of_succ_lt (longer rest old)
    · exact more

theorem greedy_one : Greedy (one accepts) := by
  intro cs
  cases cs with
  | nil => exact .nil
  | cons c cs =>
    unfold rests
    split
    · exact List.pairwise_singleton _ _
    · exact .nil

theorem greedy_many : Greedy (many accepts) := fun _ =>
  shrink_pairwise .nil fun _ member => absurd member List.not_mem_nil

/-- Behind a single character there is nothing to choose before the rest. -/
theorem greedy_one_seq (h : Greedy q) : Greedy (seq (one accepts) q) := by
  intro cs
  cases cs with
  | nil => exact .nil
  | cons c cs =>
    unfold rests rests
    split
    · rw [List.flatMap_singleton]
      exact h cs
    · exact .nil

theorem greedy_seq_one (h : Greedy p) : Greedy (seq p (one accepts)) := by
  intro cs
  have behind : ∀ a x, x ∈ (one accepts).rests a → a.length = x.length + 1 := by
    intro a x member
    obtain ⟨v, described, rfl⟩ := mem_rests_iff.mp member
    obtain ⟨c, rfl, -⟩ := matches_one_iff.mp described
    rfl
  refine List.pairwise_flatMap.mpr ⟨fun a _ => greedy_one a, (h cs).imp fun shorter x hx y hy => ?_⟩
  have := behind _ x hx
  have := behind _ y hy
  omega

theorem greedy_plus : Greedy (plus accepts) :=
  greedy_one_seq greedy_many

theorem greedy_between {opening closing : Char} (h : Greedy p) : Greedy (between opening closing p) :=
  greedy_one_seq (greedy_seq_one h)

/-- Where at most one rest of the first pattern can be followed by the second one, the second one chooses. -/
theorem greedy_seq (first : Greedy p) (second : Greedy q)
    (apart : ∀ cs a b, a ∈ p.rests cs → b ∈ p.rests cs → q.rests a ≠ [] → q.rests b ≠ [] → a = b) :
    Greedy (seq p q) := by
  intro cs
  refine List.pairwise_flatMap.mpr ⟨fun a _ => second a, ?_⟩
  refine (first cs).imp_of_mem fun {a b} ha hb shorter x hx y hy => ?_
  have same := apart cs a b ha hb (List.ne_nil_of_mem hx) (List.ne_nil_of_mem hy)
  rw [same] at shorter
  exact absurd shorter (Nat.lt_irrefl _)

/-- Where at most one of two patterns has a rest, that one chooses. -/
theorem greedy_alt (first : Greedy p) (second : Greedy q)
    (apart : ∀ cs a b, a ∈ p.rests cs → b ∉ q.rests cs) : Greedy (alt p q) := fun cs =>
  List.pairwise_append.mpr ⟨first cs, second cs, fun a ha b hb => absurd hb (apart cs a b ha)⟩

end UtilityCss.Pattern
