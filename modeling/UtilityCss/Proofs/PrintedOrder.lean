import UtilityCss.Sheet.Printer

/-!
# Printed order

Utilities and groups are printed by rank and, at one rank, by text. This is a total order of the keys, so a
sorted list is known once it is known what stands at each key: `mergeSort_eq_of_filter`. Of several ranks
the earliest one counts, whatever their order.
-/

namespace UtilityCss

namespace Rank

/-! ### The order of keys -/

theorem leWith_trans {a b c : Rank × String} (hab : leWith a b = true) (hbc : leWith b c = true) :
    leWith a c = true := by
  unfold leWith at *
  by_cases ab : a.1 = b.1
  · by_cases bc : b.1 = c.1
    · rw [if_pos ab, decide_eq_true_iff] at hab
      rw [if_pos bc, decide_eq_true_iff] at hbc
      rw [if_pos (ab.trans bc), decide_eq_true_iff]
      exact String.le_trans hab hbc
    · rw [if_neg bc] at hbc
      rw [ab, if_neg bc]
      exact hbc
  · rw [if_neg ab] at hab
    by_cases bc : b.1 = c.1
    · rw [← bc, if_neg ab]
      exact hab
    · rw [if_neg bc] at hbc
      have ac : a.1 ≠ c.1 := fun same => ab (le_antisymm hab (same ▸ hbc))
      rw [if_neg ac]
      exact le_trans hab hbc

theorem leWith_total (a b : Rank × String) : (leWith a b || leWith b a) = true := by
  unfold leWith
  by_cases same : a.1 = b.1
  · simpa [same] using String.le_total a.2 b.2
  · simpa [same, Ne.symm same] using le_total a.1 b.1

theorem leWith_antisymm {a b : Rank × String} (hab : leWith a b = true) (hba : leWith b a = true) :
    a = b := by
  unfold leWith at hab hba
  by_cases same : a.1 = b.1
  · rw [if_pos same, decide_eq_true_iff] at hab
    rw [if_pos same.symm, decide_eq_true_iff] at hba
    exact Prod.ext same (String.le_antisymm hab hba)
  · rw [if_neg same] at hab
    rw [if_neg (Ne.symm same)] at hba
    exact absurd (le_antisymm hab hba) same

/-! ### The earliest rank -/

/-- The earliest one of some ranks, the last one if there are none. -/
def least (ranks : List Rank) : Rank :=
  ranks.foldr min last

theorem min_last (a : Rank) : min a last = a := by
  cases a <;> rfl

theorem min_comm (a b : Rank) : min a b = min b a := by
  unfold min
  by_cases hab : a.le b = true
  · by_cases hba : b.le a = true
    · rw [if_pos hab, if_pos hba, le_antisymm hab hba]
    · rw [if_pos hab, if_neg hba]
  · have hba := (le_total a b).resolve_left hab
    rw [if_neg hab, if_pos hba]

theorem min_le_left (a b : Rank) : (min a b).le a = true := by
  unfold min
  split
  · exact le_refl a
  · rename_i hab
    exact (le_total a b).resolve_left hab

theorem min_le_right (a b : Rank) : (min a b).le b = true := by
  rw [min_comm]
  exact min_le_left b a

theorem le_min {a b c : Rank} (ha : c.le a = true) (hb : c.le b = true) : c.le (min a b) = true := by
  unfold min
  split
  · exact ha
  · exact hb

theorem min_left_comm (a b c : Rank) : min a (min b c) = min b (min a c) := by
  apply le_antisymm
  · exact le_min (le_trans (min_le_right _ _) (min_le_left _ _))
      (le_min (min_le_left _ _) (le_trans (min_le_right _ _) (min_le_right _ _)))
  · exact le_min (le_trans (min_le_right _ _) (min_le_left _ _))
      (le_min (min_le_left _ _) (le_trans (min_le_right _ _) (min_le_right _ _)))

theorem least_singleton (a : Rank) : least [a] = a :=
  min_last a

theorem least_cons_cons (a b : Rank) (ranks : List Rank) :
    least (a :: b :: ranks) = min (least (a :: ranks)) b := by
  simp only [least, List.foldr_cons]
  rw [min_comm _ b, min_left_comm]

theorem least_perm {ranks others : List Rank} (h : ranks.Perm others) : least ranks = least others :=
  h.foldr_eq' (fun a _ b _ c => min_left_comm b a c) last

end Rank

/-! ### Sorted lists -/

section Sorted
variable {α : Type} {key : α → Rank × String} {xs ys : List α}

theorem pairwise_mergeSort_key (xs : List α) :
    (xs.mergeSort fun a b => Rank.leWith (key a) (key b)).Pairwise
      fun a b => Rank.leWith (key a) (key b) = true := by
  apply List.pairwise_mergeSort
  · intro a b c hab hbc
    exact Rank.leWith_trans hab hbc
  · intro a b
    exact Rank.leWith_total _ _

/-- Sorted lists that agree at each key are the same. -/
theorem eq_of_pairwise_of_filter (hx : xs.Pairwise fun a b => Rank.leWith (key a) (key b) = true)
    (hy : ys.Pairwise fun a b => Rank.leWith (key a) (key b) = true)
    (agree : ∀ k, xs.filter (key · = k) = ys.filter (key · = k)) : xs = ys := by
  induction xs generalizing ys with
  | nil =>
    cases ys with
    | nil => rfl
    | cons y ys => simpa using agree (key y)
  | cons x xs ih =>
    cases ys with
    | nil => simpa using agree (key x)
    | cons y ys =>
      have xmem : x ∈ y :: ys := by
        have : x ∈ (x :: xs).filter (key · = key x) := by simp
        exact (List.mem_filter.mp (agree (key x) ▸ this)).1
      have ymem : y ∈ x :: xs := by
        have : y ∈ (y :: ys).filter (key · = key y) := by simp
        exact (List.mem_filter.mp (agree (key y) ▸ this)).1
      have keys : key x = key y := by
        rcases List.mem_cons.mp xmem with rfl | xlater
        · rfl
        · rcases List.mem_cons.mp ymem with rfl | ylater
          · rfl
          · exact Rank.leWith_antisymm (List.rel_of_pairwise_cons hx ylater)
              (List.rel_of_pairwise_cons hy xlater)
      have heads := agree (key x)
      rw [List.filter_cons_of_pos (by simp), List.filter_cons_of_pos (by simp [keys])] at heads
      obtain ⟨rfl, -⟩ := List.cons.inj heads
      have tails : ∀ k, xs.filter (key · = k) = ys.filter (key · = k) := by
        intro k
        have both := agree k
        by_cases hk : key x = k
        · rw [List.filter_cons_of_pos (by simpa using hk), List.filter_cons_of_pos (by simpa using hk)] at both
          exact (List.cons.inj both).2
        · rwa [List.filter_cons_of_neg (by simpa using hk), List.filter_cons_of_neg (by simpa using hk)] at both
      exact congrArg (x :: ·) (ih hx.tail hy.tail tails)

/-- Sorting leaves the elements at one key in their order. -/
theorem filter_mergeSort_key (xs : List α) (k : Rank × String) :
    (xs.mergeSort fun a b => Rank.leWith (key a) (key b)).filter (key · = k) = xs.filter (key · = k) := by
  have sorted : (xs.filter (key · = k)).Pairwise fun a b => Rank.leWith (key a) (key b) = true := by
    apply List.pairwise_of_forall_mem_list
    intro a ha b hb
    have ka : key a = k := by simpa using (List.mem_filter.mp ha).2
    have kb : key b = k := by simpa using (List.mem_filter.mp hb).2
    have total := Rank.leWith_total k k
    rw [ka, kb]
    simpa using total
  have stable : (xs.filter (key · = k)).Sublist (xs.mergeSort fun a b => Rank.leWith (key a) (key b)) := by
    refine List.sublist_mergeSort ?_ ?_ sorted List.filter_sublist
    · intro a b c hab hbc
      exact Rank.leWith_trans hab hbc
    · intro a b
      exact Rank.leWith_total _ _
  have inside := stable.filter (key · = k)
  simp only [List.filter_filter, Bool.and_self] at inside
  exact (inside.eq_of_length ((List.mergeSort_perm xs _).filter _).length_eq.symm).symm

/-- Lists that agree at each key are sorted in the same way. -/
theorem mergeSort_eq_of_filter (agree : ∀ k, xs.filter (key · = k) = ys.filter (key · = k)) :
    (xs.mergeSort fun a b => Rank.leWith (key a) (key b)) =
      ys.mergeSort fun a b => Rank.leWith (key a) (key b) := by
  apply eq_of_pairwise_of_filter (pairwise_mergeSort_key xs) (pairwise_mergeSort_key ys)
  intro k
  rw [filter_mergeSort_key, filter_mergeSort_key, agree]

/-- Leaving out elements of a sorted list leaves it sorted. -/
theorem filter_mergeSort (keep : α → Bool) (xs : List α) :
    (xs.mergeSort fun a b => Rank.leWith (key a) (key b)).filter keep =
      (xs.filter keep).mergeSort fun a b => Rank.leWith (key a) (key b) := by
  apply eq_of_pairwise_of_filter ((pairwise_mergeSort_key xs).sublist List.filter_sublist)
    (pairwise_mergeSort_key (xs.filter keep))
  intro k
  rw [filter_mergeSort_key, List.filter_filter, List.filter_filter]
  have swapped : ∀ ys : List α, ys.filter (fun a => decide (key a = k) && keep a) =
      (ys.filter (key · = k)).filter keep := by
    intro ys
    rw [List.filter_filter]
    exact List.filter_congr fun a _ => Bool.and_comm _ _
  rw [swapped, filter_mergeSort_key, ← swapped]

theorem mergeSort_map_key {β : Type} (f : β → α) (zs : List β) :
    ((zs.map f).mergeSort fun a b => Rank.leWith (key a) (key b)) =
      (zs.mergeSort fun a b => Rank.leWith (key (f a)) (key (f b))).map f := by
  symm
  apply List.map_mergeSort
  intro a _ b _
  rfl

end Sorted

end UtilityCss
