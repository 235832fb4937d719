/-!
# Ranks

The place of a variant or a utility in the printed order. What is written in brackets alone has no place
in the vocabulary and comes last.
-/

namespace UtilityCss

inductive Rank
  | nth (n : Nat)
  | last
  deriving DecidableEq, Repr

namespace Rank

/-- Whether `a` comes before `b` or at the same place. -/
def le : Rank → Rank → Bool
  | _, last => true
  | nth m, nth n => m ≤ n
  | last, nth _ => false

def min (a b : Rank) : Rank :=
  if a.le b then a else b

theorem le_refl (a : Rank) : a.le a = true := by
  cases a <;> simp [le]

theorem le_trans {a b c : Rank} (hab : a.le b = true) (hbc : b.le c = true) : a.le c = true := by
  cases a <;> cases b <;> cases c <;> simp_all [le]
  omega

theorem le_total (a b : Rank) : a.le b = true ∨ b.le a = true := by
  cases a <;> cases b <;> simp [le]
  omega

theorem le_antisymm {a b : Rank} (hab : a.le b = true) (hba : b.le a = true) : a = b := by
  cases a <;> cases b <;> simp_all [le]
  omega

/-- Whether one rank and text come before another or are the same: earlier ranks come first, and texts in
alphabetical order at one rank. -/
def leWith (a b : Rank × String) : Bool :=
  if a.1 = b.1 then a.2 ≤ b.2 else a.1.le b.1

end Rank

end UtilityCss
