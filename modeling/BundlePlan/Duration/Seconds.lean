import BundlePlan.Duration.Basic
import BundlePlan.Number.Binary
import BundlePlan.Number.Decimal

/-!
# Durations as a number of seconds

A duration is written for a command that takes seconds: the number of seconds is first rounded
to 53 significant bits, and then written as an integer if it is one, and with six significant
decimal digits otherwise.
-/

namespace BundlePlan.Duration

/-- How many significant digits a fractional number of seconds has. -/
def secondsDigits : Nat := 6

/-- The number of seconds of so many microseconds, without a sign. -/
def secondsMagnitude (microseconds : Nat) : List Char :=
  let b := Number.Binary.nearest microseconds 1000000
  if b.isWhole then Nat.toDigits 10 (b.num / b.den)
  else (Number.Decimal.significant secondsDigits b.num b.den).general

/-- The duration in seconds, with the unit `s`. -/
def secondsText (d : Duration) : String :=
  let digits := secondsMagnitude d.microseconds.natAbs
  String.ofList ((if d.microseconds < 0 then '-' :: digits else digits) ++ ['s'])

end BundlePlan.Duration
