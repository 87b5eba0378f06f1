import BundlePlan.Duration.Basic
import BundlePlan.Text.Quoted

/-!
# Reading durations

A written duration is an optional sign followed by `0` or by components, each a decimal number
with a unit: `30s`, `-1.5h`, `2h10m30s`. `Duration.parse` reads one. Each component is cut to
whole nanoseconds, their sum must fit a signed 64-bit count of nanoseconds, and the sum is cut
to whole microseconds before the sign is put on.
-/

namespace BundlePlan

namespace Duration

/-- Why a text is not a duration. -/
inductive ParseError where
  /-- The text does not consist of components. -/
  | malformed
  /-- A component has a unit that does not exist. -/
  | unknownUnit (unit : String)
  /-- A run of digits is longer than `digitLimit`. -/
  | tooManyDigits (count : Nat)
  /-- The duration is longer than `maxNanoseconds`. -/
  | outOfRange
  deriving DecidableEq, Repr

/-- How many digits a number may have on each side of its point. -/
def digitLimit : Nat := 4300

/-- The longest duration, in nanoseconds. -/
def maxNanoseconds : Nat := Nat.pow 2 63 - 1

/-- The wording of an error about a given text. -/
def ParseError.message (text : String) : ParseError → String
  | malformed => s!"invalid duration {Text.quoted text}"
  | unknownUnit unit => s!"unknown unit {Text.quoted unit} in duration {Text.quoted text}"
  | tooManyDigits count =>
    s!"Exceeds the limit ({digitLimit} digits) for integer string conversion: "
      ++ s!"value has {count} digits; use sys.set_int_max_str_digits() to increase the limit"
  | outOfRange => s!"duration {Text.quoted text} is out of range"

/-! ### Components -/

/-- One component as written: the digits before and after the point, and the unit. -/
structure Component where
  /-- The digits before the point. -/
  whole : List Char
  /-- The digits after the point. -/
  fraction : List Char
  /-- The written unit. -/
  unit : List Char
  deriving DecidableEq, Repr

/-- Whether a character can stand in a unit: any but a digit and a point. -/
def isUnitChar (c : Char) : Bool := !c.isDigit && c != '.'

/-- The digits after a point and what follows them; without a point there are none. -/
def splitFraction : List Char → List Char × List Char
  | '.' :: rest => (rest.takeWhile Char.isDigit, rest.dropWhile Char.isDigit)
  | rest => ([], rest)

/-- The component at the start of a text and what follows it. A number has a digit on at least
one side of its point, and a unit has at least one character. -/
def Component.read? (s : List Char) : Option (Component × List Char) :=
  let whole := s.takeWhile Char.isDigit
  let (fraction, afterNumber) := splitFraction (s.dropWhile Char.isDigit)
  let unit := afterNumber.takeWhile isUnitChar
  if (whole = [] ∧ fraction = []) ∨ unit = [] then none
  else some (⟨whole, fraction, unit⟩, afterNumber.dropWhile isUnitChar)

/-- The length of a component in nanoseconds, parts of a nanosecond cut off. -/
def Component.nanoseconds (c : Component) : Except ParseError Nat :=
  match TimeUnit.ofSpelling? c.unit with
  | none => .error (.unknownUnit (String.ofList c.unit))
  | some unit =>
    if digitLimit < c.whole.length then .error (.tooManyDigits c.whole.length)
    else if digitLimit < c.fraction.length then .error (.tooManyDigits c.fraction.length)
    else
      .ok (Nat.ofDigitChars 10 c.whole 0 * unit.nanoseconds
        + Nat.ofDigitChars 10 c.fraction 0 * unit.nanoseconds / Nat.pow 10 c.fraction.length)

theorem length_splitFraction_le (s : List Char) : (splitFraction s).2.length ≤ s.length := by
  unfold splitFraction
  split
  · exact Nat.le_succ_of_le (List.dropWhile_sublist _).length_le
  · exact Nat.le_refl _

/-- A component takes at least one character, that of its unit. -/
theorem Component.length_lt_of_read? {s rest : List Char} {c : Component}
    (h : Component.read? s = some (c, rest)) : rest.length < s.length := by
  unfold Component.read? at h
  simp only at h
  split at h
  · cases h
  · rename_i hne
    obtain ⟨-, rfl⟩ := Prod.mk.inj (Option.some.inj h)
    have hunit : (splitFraction (s.dropWhile Char.isDigit)).2.takeWhile isUnitChar ≠ [] :=
      fun hu => hne (Or.inr hu)
    have hsplit := congrArg List.length
      (List.takeWhile_append_dropWhile (p := isUnitChar)
        (l := (splitFraction (s.dropWhile Char.isDigit)).2))
    rw [List.length_append] at hsplit
    have hpos := List.length_pos_iff.2 hunit
    have hle := length_splitFraction_le (s.dropWhile Char.isDigit)
    have hdrop := (List.dropWhile_sublist (l := s) Char.isDigit).length_le
    omega

/-! ### Whole durations -/

/-- The sum of the components of a text in nanoseconds, added to `sum`. The first component that
is at fault decides the error. -/
def total (sum : Nat) (s : List Char) : Except ParseError Nat :=
  if s = [] then .ok sum
  else
    match _h : Component.read? s with
    | none => .error .malformed
    | some (c, rest) =>
      match c.nanoseconds with
      | .error e => .error e
      | .ok n => if maxNanoseconds < sum + n then .error .outOfRange else total (sum + n) rest
termination_by s.length
decreasing_by exact Component.length_lt_of_read? _h

/-- A duration without a sign, in microseconds. -/
def magnitude (s : List Char) : Except ParseError Nat :=
  if s = ['0'] then .ok 0
  else if s = [] then .error .malformed
  else (total 0 s).map (· / 1000)

/-- The duration that a text denotes. -/
def parse (text : String) : Except ParseError Duration :=
  match text.toList with
  | '-' :: rest => (magnitude rest).map fun n => ⟨-n⟩
  | '+' :: rest => (magnitude rest).map fun n => ⟨n⟩
  | rest => (magnitude rest).map fun n => ⟨n⟩

end Duration

end BundlePlan
