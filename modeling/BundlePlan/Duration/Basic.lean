/-!
# Durations and their units

A duration is a whole number of microseconds. The units in which one can be written are counted
in nanoseconds, so that a written amount is exact before it is cut to microseconds.
-/

namespace BundlePlan

/-- A span of time, negative for one that points backwards. -/
structure Duration where
  /-- The length in microseconds. -/
  microseconds : Int
  deriving DecidableEq, Repr

/-- The units of a written duration. -/
inductive TimeUnit where
  | nanosecond
  | microsecond
  | millisecond
  | second
  | minute
  | hour
  deriving DecidableEq, Repr

namespace TimeUnit

/-- The length of one unit in nanoseconds. -/
def nanoseconds : TimeUnit → Nat
  | nanosecond => 1
  | microsecond => 1000
  | millisecond => 1000000
  | second => 1000000000
  | minute => 60 * 1000000000
  | hour => 3600 * 1000000000

/-- The written forms of the units. The microsecond has three: with the letter u, with the micro
sign and with the Greek mu. -/
def spellings : List (List Char × TimeUnit) :=
  [(['n', 's'], nanosecond), (['u', 's'], microsecond), (['\u00b5', 's'], microsecond),
   (['\u03bc', 's'], microsecond), (['m', 's'], millisecond), (['s'], second), (['m'], minute),
   (['h'], hour)]

/-- The unit with a given written form. -/
def ofSpelling? (s : List Char) : Option TimeUnit := spellings.lookup s

end TimeUnit

end BundlePlan
