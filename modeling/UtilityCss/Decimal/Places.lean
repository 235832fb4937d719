/-!
# Decimal places

Fractions written with a fixed number of decimal places, and the same text without the zeros it ends in.
-/

namespace UtilityCss.Decimal

/-- `num / den` to the nearest whole number, a half rounded up. -/
def roundDiv (num den : Nat) : Nat :=
  (2 * num + den) / (2 * den)

/-- The last `places` digits of `n`, zeros in front included. -/
def lastDigits (n : Nat) : Nat → List Char
  | 0 => []
  | places + 1 => lastDigits (n / 10) places ++ [Nat.digitChar (n % 10)]

@[simp] theorem length_lastDigits (n places : Nat) : (lastDigits n places).length = places := by
  induction places generalizing n with
  | zero => rfl
  | succ k ih => simp [lastDigits, ih]

def dropTrailingZeros (cs : List Char) : List Char :=
  (cs.reverse.dropWhile (· = '0')).reverse

/-- `num / den` rounded to `places` decimals, without trailing zeros, and without a point when no
decimal is left. -/
def trimmed (num den places : Nat) : List Char :=
  let scaled := roundDiv (num * Nat.pow 10 places) den
  let whole := Nat.toDigits 10 (scaled / Nat.pow 10 places)
  match dropTrailingZeros (lastDigits scaled places) with
  | [] => whole
  | decimals => whole ++ '.' :: decimals

example : String.ofList (trimmed 200 3 6) = "66.666667" := by decide
example : String.ofList (trimmed 100 2 6) = "50" := by decide

end UtilityCss.Decimal
