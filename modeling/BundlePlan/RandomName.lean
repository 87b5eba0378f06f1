/-!
# Random names

Names that must be fresh end in random lower-case letters and digits. `Randomness` is a source of
such choices: an endless sequence of numbers and how many of them have been used.
-/

namespace BundlePlan

/-- A source of random choices. -/
structure Randomness where
  /-- The number behind each choice. -/
  choice : Nat → Nat
  /-- How many choices have been made. -/
  used : Nat

namespace Randomness

/-- A source that repeats the given numbers over and over, of which none has been used. -/
def cycling (numbers : List Nat) : Randomness where
  choice n := numbers.getD (n % numbers.length) 0
  used := 0

/-- The characters of random text: the letters from `a` to `z` and the digits from `0` to `9`. -/
def alphabet : List Char := "abcdefghijklmnopqrstuvwxyz0123456789".toList

/-- The character for a number; numbers beyond the alphabet start it again. -/
def letter (n : Nat) : Char := alphabet.getD (n % alphabet.length) 'a'

/-- Random text of a given length, empty for a negative one. -/
def text (length : Int) (r : Randomness) : String × Randomness :=
  (String.ofList ((List.range length.toNat).map fun i => letter (r.choice (r.used + i))),
    { r with used := r.used + length.toNat })

/-- How every fresh namespace name starts. -/
def namespaceStem : String := "openshift-must-gather-"

/-- How many random characters a fresh namespace name has. -/
def namespaceSuffixLength : Nat := 6

/-- A fresh namespace name. -/
def namespaceName (r : Randomness) : String × Randomness :=
  let (suffix, r) := r.text namespaceSuffixLength
  (namespaceStem ++ suffix, r)

end Randomness

end BundlePlan
