import BundlePlan.Number.Rounding

/-!
# Binary numbers of 53 significant bits

`Binary.nearest` is the number `m · 2 ^ e` with `m` of at most 53 bits that is nearest to a
quotient of natural numbers, of two equally near ones the one with the even `m`. The exponent is
not bounded, so the result is that of double precision wherever that has neither overflow nor
subnormal numbers. `num` and `den` give the exact value back as a quotient.
-/

namespace BundlePlan.Number

/-- The number `mantissa * 2 ^ exponent`. -/
structure Binary where
  /-- The significant bits. -/
  mantissa : Nat
  /-- The power of two that they are multiplied with. -/
  exponent : Int
  deriving DecidableEq, Repr

namespace Binary

/-- The numerator of the exact value. -/
def num (b : Binary) : Nat := b.mantissa * Nat.pow 2 b.exponent.toNat

/-- The denominator of the exact value, a power of two. -/
def den (b : Binary) : Nat := Nat.pow 2 (-b.exponent).toNat

/-- The mantissa of `num / den` for a given exponent, rounded. -/
def mantissaAt (num den : Nat) (exponent : Int) : Nat :=
  roundDiv (num * Nat.pow 2 (-exponent).toNat) (den * Nat.pow 2 exponent.toNat)

/-- The exponent for which the quotient `num / den` has a mantissa of 53 bits. The lengths of the
two numbers leave two candidates, and the larger one is right if the mantissa reaches `2 ^ 52`
with it. -/
def exponentFor (num den : Nat) : Int :=
  let larger : Int := (num.log2 : Int) - den.log2 - 52
  if den * Nat.pow 2 larger.toNat * Nat.pow 2 52 ≤ num * Nat.pow 2 (-larger).toNat then larger
  else larger - 1

/-- The nearest number of 53 significant bits to `num / den`. -/
def nearest (num den : Nat) : Binary :=
  let exponent := exponentFor num den
  ⟨mantissaAt num den exponent, exponent⟩

/-- Whether the value is an integer. -/
def isWhole (b : Binary) : Bool := b.num % b.den == 0

theorem den_pos (b : Binary) : 0 < b.den := Nat.two_pow_pos _

end Binary

end BundlePlan.Number
