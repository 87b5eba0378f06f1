/-!
# Captured streams

What a stream holds that is not a terminal. It has no control sequences: an escape character
and an opening bracket, any number of parameter characters and then of intermediate ones, and
one final character. Every line break in it is a single line feed: a carriage return right
before a line feed is left out.
-/

namespace BundlePlan.CommandLine

/-- Whether a character is a parameter of a control sequence: a digit or one of `:;<=>?`. -/
def isControlParameter (c : Char) : Bool := 0x30 ≤ c.toNat && c.toNat ≤ 0x3F

/-- Whether a character can stand between the parameters and the end of a control sequence: a
space or one of the signs before the digit zero. -/
def isControlIntermediate (c : Char) : Bool := 0x20 ≤ c.toNat && c.toNat ≤ 0x2F

/-- Whether a character ends a control sequence: a letter or one of the signs around them. -/
def isControlFinal (c : Char) : Bool := 0x40 ≤ c.toNat && c.toNat ≤ 0x7E

/-- How many characters belong to the control sequence after an escape character, if there is
one. -/
def controlLength? : List Char → Option Nat
  | '[' :: rest =>
    let parameters := rest.takeWhile isControlParameter
    let afterParameters := rest.dropWhile isControlParameter
    let intermediates := afterParameters.takeWhile isControlIntermediate
    match afterParameters.dropWhile isControlIntermediate with
    | c :: _ =>
      if isControlFinal c then some (parameters.length + intermediates.length + 2) else none
    | [] => none
  | _ => none

/-- The text after so many characters, without control sequences. -/
def withoutControlsFrom : Nat → List Char → List Char
  | _, [] => []
  | skipped + 1, _ :: rest => withoutControlsFrom skipped rest
  | 0, c :: rest =>
    match (if c = '\x1b' then controlLength? rest else none) with
    | some n => withoutControlsFrom n rest
    | none => c :: withoutControlsFrom 0 rest

/-- The text without control sequences. -/
def withoutControls (s : List Char) : List Char := withoutControlsFrom 0 s

/-- The text without the carriage returns right before line feeds. -/
def withLineFeeds : List Char → List Char
  | [] => []
  | c :: rest =>
    if c = '\r' ∧ rest.head? = some '\n' then withLineFeeds rest else c :: withLineFeeds rest

/-- What a stream holds after a text has been written to it. -/
def captured (s : String) : String := String.ofList (withLineFeeds (withoutControls s.toList))

end BundlePlan.CommandLine
