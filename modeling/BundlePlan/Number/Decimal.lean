import BundlePlan.Number.Rounding

/-!
# Decimal text with a limited number of significant digits

A positive quotient is rounded to a number of significant digits (`Decimal.significant`) and
written in the general layout: positional when the decimal exponent is at least -4 and smaller
than the number of digits, and with an exponent otherwise. Zeros at the end of a fraction are
left out, and so is a point that nothing follows.
-/

namespace BundlePlan.Number

/-- The decimal number `coefficient * 10 ^ (exponent + 1 - places)`, where the coefficient has
`places` digits: `exponent` is that of the first digit. -/
structure Decimal where
  /-- How many digits the coefficient has. -/
  places : Nat
  /-- The digits. -/
  coefficient : Nat
  /-- The exponent of the first digit. -/
  exponent : Int
  deriving DecidableEq, Repr

namespace Decimal

/-- How many decimal digits a number has; zero has none. -/
def digitCount (n : Nat) : Nat := if n = 0 then 0 else (Nat.toDigits 10 n).length

/-- The exponent of the first decimal digit of `num / den`, both positive. -/
def leadingExponent (num den : Nat) : Int :=
  if den ≤ num then (digitCount (num / den) : Int) - 1
  else -(digitCount ((den - 1) / num) : Int)

/-- The quotient `num / den`, both positive, rounded to `places` significant digits; a tie goes
to the even last digit. -/
def significant (places num den : Nat) : Decimal :=
  let exponent := leadingExponent num den
  let shift : Int := (places : Int) - 1 - exponent
  let coefficient := roundDiv (num * Nat.pow 10 shift.toNat) (den * Nat.pow 10 (-shift).toNat)
  if coefficient = Nat.pow 10 places then ⟨places, Nat.pow 10 (places - 1), exponent + 1⟩
  else ⟨places, coefficient, exponent⟩

/-- The digits without the zeros at their end. -/
def dropZeros (ds : List Char) : List Char := (ds.reverse.dropWhile (· == '0')).reverse

/-- A fraction with its point; nothing if there are only zeros. -/
def fraction (ds : List Char) : List Char :=
  match dropZeros ds with
  | [] => []
  | d :: rest => '.' :: d :: rest

/-- An exponent with its sign and at least two digits. -/
def exponentText (e : Int) : List Char :=
  let ds := Nat.toDigits 10 e.natAbs
  'e' :: (if e < 0 then '-' else '+') :: (if ds.length < 2 then '0' :: ds else ds)

/-- The number in the general layout. -/
def general (d : Decimal) : List Char :=
  let ds := Nat.toDigits 10 d.coefficient
  if d.exponent < -4 ∨ (d.places : Int) ≤ d.exponent then
    ds.take 1 ++ fraction (ds.drop 1) ++ exponentText d.exponent
  else if d.exponent < 0 then
    '0' :: fraction (List.replicate (-d.exponent - 1).toNat '0' ++ ds)
  else
    let whole := d.exponent.toNat + 1
    ds.take whole ++ fraction (ds.drop whole)

end Decimal

end BundlePlan.Number
