import UtilityCss.Decimal.Places

/-!
# Shortest decimals

A fraction below one is rounded to a binary floating-point number of 53 bits, and that number is written
with the fewest decimal places that read back as it. Of two such decimals the nearer one is written.
-/

namespace UtilityCss.Decimal

/-- The number `mantissa / 2 ^ shift`, with a mantissa of 53 bits. -/
structure Binary where
  mantissa : Nat
  shift : Nat
  deriving DecidableEq, Repr

/-- `num / den` to the nearest whole number, a half to the even neighbour. -/
def roundDivEven (num den : Nat) : Nat :=
  let q := num / den
  let r := num % den
  if den < 2 * r || (2 * r == den && q % 2 == 1) then q + 1 else q

/-- The binary number nearest to `num / den`, for `0 < num < den`. -/
def Binary.nearest (num den : Nat) : Binary :=
  let k := den.log2 - num.log2
  let shift := (if num * Nat.pow 2 k < den then k + 1 else k) + 52
  let mantissa := roundDivEven (num * Nat.pow 2 shift) den
  if mantissa = Nat.pow 2 53 then ⟨Nat.pow 2 52, shift - 1⟩ else ⟨mantissa, shift⟩

/-- Whether `digits / 10 ^ places` is read as the number `b`: it lies no further from `b` than half
the way to the neighbour on its side, and not at half the way itself when the mantissa is odd. -/
def Binary.readsAs (b : Binary) (digits places : Nat) : Bool :=
  let decimal := digits * Nat.pow 2 b.shift
  let exact := b.mantissa * Nat.pow 10 places
  let near (distance room : Nat) : Bool := distance < room || (distance == room && b.mantissa % 2 == 0)
  if exact ≤ decimal then near (2 * (decimal - exact)) (Nat.pow 10 places)
  else if b.mantissa = Nat.pow 2 52 then near (4 * (exact - decimal)) (Nat.pow 10 places)
  else near (2 * (exact - decimal)) (Nat.pow 10 places)

/-- The decimal of so many places that is read as `b`, the nearer one if there are two. -/
def Binary.decimal? (b : Binary) (places : Nat) : Option Nat :=
  let below := b.mantissa * Nat.pow 10 places / Nat.pow 2 b.shift
  let rest := b.mantissa * Nat.pow 10 places % Nat.pow 2 b.shift
  match b.readsAs below places, b.readsAs (below + 1) places with
  | true, true => if 2 * rest ≤ Nat.pow 2 b.shift then some below else some (below + 1)
  | true, false => some below
  | false, true => some (below + 1)
  | false, false => none

/-- The decimals of a number below one behind the point, the fewest that read back. -/
def Binary.decimals (b : Binary) : List Char :=
  ((List.range 1100).findSome? fun places =>
    (b.decimal? (places + 1)).map (lastDigits · (places + 1))).getD []

/-- `n / whole` as the shortest decimal text of a floating-point number, for `n ≤ whole`. -/
def shortestRatio (n whole : Nat) : String :=
  if n = 0 then "0"
  else if whole ≤ n then "1"
  else String.ofList ('0' :: '.' :: (Binary.nearest n whole).decimals)

example : shortestRatio 51 255 = "0.2" := by decide +kernel
example : shortestRatio 128 255 = "0.5019607843137255" := by decide +kernel
example : shortestRatio 1 255 = "0.00392156862745098" := by decide +kernel

end UtilityCss.Decimal
