import PlayerCommands.Score.Basic

/-!
# Scores in decimal

Two ways of writing a score.  `toFixed` rounds the exact value to a number of decimal places, a
half to the even last digit.  `toShortest` writes the fewest digits that read back as the same
number, as the documents of the `:json` switch do.

A decimal is searched on the grids of one, two, … seventeen significant digits; the first grid on
which a neighbour of the value reads back wins, and of two such neighbours the nearer.
-/

namespace PlayerCommands.Score

/-! ## A fixed number of places -/

/-- A digit string with a point before its last `places` digits. -/
def withPoint (places : Nat) (digits : List Char) : List Char :=
  let padded := List.replicate (places + 1 - digits.length) '0' ++ digits
  let whole := padded.take (padded.length - places)
  if places = 0 then whole else whole ++ '.' :: padded.drop (padded.length - places)

/-- The value rounded to `places` decimal places, always with its point and all its places. -/
def toFixed (places : Nat) (x : Score) : String :=
  let scaled := (nearestInt (magnitude x.value * (10 : Rat) ^ places)).natAbs
  (if x.isNegative then "-" else "") ++ String.ofList (withPoint places (Nat.toDigits 10 scaled))

/-! ## The fewest digits that read back -/

/-- The `k` with `10 ^ (k - 1) ≤ q < 10 ^ k`, for a positive `q`. -/
def decimalExponent (q : Rat) : Int :=
  let e : Int := ((Nat.toDigits 10 q.num.natAbs).length : Int) - (Nat.toDigits 10 q.den).length
  if (10 : Rat) ^ e ≤ q then e + 1 else e

/-- A decimal significand with the exponent of its last digit: `digits * 10 ^ exponent`. -/
structure Decimal where
  digits : Nat
  exponent : Int
deriving DecidableEq

/-- The number that a decimal stands for. -/
def Decimal.toRat (d : Decimal) : Rat := (d.digits : Rat) * (10 : Rat) ^ d.exponent

/-- The neighbour of `q` on the grid of multiples of `10 ^ exponent` that reads back as `q`, the
nearer one when both do. -/
def readBackOn (q : Rat) (exponent : Int) : Option Decimal :=
  let lower := (q / (10 : Rat) ^ exponent).floor.natAbs
  let below : Decimal := ⟨lower, exponent⟩
  let above : Decimal := ⟨lower + 1, exponent⟩
  let nearerFirst := if above.toRat - q < q - below.toRat then [above, below] else [below, above]
  nearerFirst.find? fun d => roundRat d.toRat = q

/-- The shortest decimal that reads back as the positive number `q`. -/
def shortest (q : Rat) : Decimal :=
  let k := decimalExponent q
  ((List.range 17).findSome? fun n => readBackOn q (k - (n + 1 : Nat))).getD
    ⟨(q / (10 : Rat) ^ (k - 17)).floor.natAbs, k - 17⟩

/-- The digits of a decimal without the zeros at their end, and the place of the point counted
from the first digit. -/
def Decimal.significant (d : Decimal) : List Char × Int :=
  let digits := Nat.toDigits 10 d.digits
  ((digits.reverse.dropWhile (· = '0')).reverse, digits.length + d.exponent)

/-- Digits with the point at `point`: positional up to sixteen digits before the point and up to
four zeros after it, with an exponent beyond; never without a fraction when positional. -/
def layOut (digits : List Char) (point : Int) : List Char :=
  if digits.length ≤ point ∧ point ≤ 16 then
    digits ++ List.replicate (point.toNat - digits.length) '0' ++ ['.', '0']
  else if 0 < point ∧ point ≤ 16 then
    digits.take point.toNat ++ '.' :: digits.drop point.toNat
  else if -5 < point ∧ point ≤ 0 then
    ['0', '.'] ++ List.replicate (-point).toNat '0' ++ digits
  else
    let mantissa := match digits with
      | [] => []
      | [d] => [d]
      | d :: rest => d :: '.' :: rest
    mantissa ++ 'e' :: (toString (point - 1)).toList

/-- The shortest decimal text that reads back as the score. -/
def toShortest (x : Score) : String :=
  (if x.isNegative then "-" else "") ++
    if x.value = 0 then "0.0"
    else
      let (digits, point) := (shortest (magnitude x.value)).significant
      String.ofList (layOut digits point)

/-! ## Examples -/

example : (0.125 : Score).toFixed 2 = "0.12" := by decide +kernel
example : (0.375 : Score).toFixed 2 = "0.38" := by decide +kernel
example : (-0.25 : Score).toFixed 6 = "-0.250000" := by decide +kernel
example : (0.9725 : Score).toShortest = "0.9725" := by decide +kernel
example : (0.1 + 0.2 : Score).toShortest = "0.30000000000000004" := by decide +kernel
example : (1 : Score).toShortest = "1.0" := by decide +kernel

end PlayerCommands.Score
