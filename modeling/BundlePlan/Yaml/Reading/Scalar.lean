import BundlePlan.Yaml.Style

/-!
# Reading scalars

The rules of YAML 1.1 for plain, single-quoted and double-quoted scalars in texts of printable
ASCII and line feeds. Every reader takes the text from the scalar on and returns the text after it.

White space inside a scalar is a `Gap`. Spaces count as they are, but not next to a line break: one
line break is a space, and `n + 1` in a row are `n` line breaks.
-/

namespace BundlePlan.Yaml

/-- White space inside a scalar. -/
structure Gap where
  /-- The spaces since the last line break, or since the last word if there is no line break. -/
  spaces : Nat := 0
  /-- The line breaks. -/
  breaks : Nat := 0
  /-- Whether the first line break is escaped. -/
  joins : Bool := false
  deriving DecidableEq, Repr

namespace Gap

/-- The gap with one more space. -/
def space (g : Gap) : Gap := { g with spaces := g.spaces + 1 }

/-- The gap with one more line break. -/
def newline (g : Gap) : Gap := { g with spaces := 0, breaks := g.breaks + 1 }

/-- The gap of an escaped line break. -/
def escapedBreak : Gap := { breaks := 1, joins := true }

/-- What a gap stands for. -/
def text (g : Gap) : List Char :=
  if g.breaks = 0 then List.replicate g.spaces ' '
  else if g.breaks = 1 ∧ g.joins = false then [' ']
  else List.replicate (g.breaks - 1) '\n'

end Gap

/-- Whether a word ends before the text. -/
def endsWord : List Char → Bool
  | [] => true
  | c :: _ => c == ' ' || c == '\n'

/-! ### Plain scalars -/

/-- Whether a plain scalar cannot go on with `c` and `rest` after a gap: before a colon that ends
a word, before a comment, and on a line that is indented by less than `least`. -/
def stopsPlain (least : Nat) (g : Gap) (c : Char) (rest : List Char) : Bool :=
  (c == ':' && endsWord rest) || (c == '#' && (g.spaces != 0 || g.breaks != 0))
    || (g.breaks != 0 && g.spaces < least)

/-- Reads on in a plain scalar after a gap that starts where `start` is the text. White space at
the end is not part of the scalar. -/
def readPlain (least : Nat) (g : Gap) (start : List Char) : List Char → List Char × List Char
  | [] => ([], start)
  | c :: rest =>
    if c = ' ' then readPlain least g.space start rest
    else if c = '\n' then readPlain least g.newline start rest
    else if stopsPlain least g c rest then ([], start)
    else
      let (text, after) := readPlain least {} rest rest
      (g.text ++ c :: text, after)

/-- The characters that have another meaning at the start of a scalar, whatever comes after. -/
def indicators : List Char := ",[]\x7b\x7d#&*!|>'\"%@\x60".toList

/-- Whether a plain scalar starts here. -/
def startsPlain : List Char → Bool
  | [] => false
  | c :: rest =>
    if c = '-' ∨ c = '?' ∨ c = ':' then !endsWord rest
    else c != ' ' && c != '\n' && !indicators.contains c

/-! ### Quoted scalars -/

/-- Puts characters before a text that was read. -/
def prepend (s : List Char) (r : Option (List Char × List Char)) :
    Option (List Char × List Char) :=
  r.map fun (text, after) => (s ++ text, after)

/-- Reads on in single quotes after a gap. Two quotes stand for one, and one is the end. -/
def readSingle (g : Gap) : List Char → Option (List Char × List Char)
  | [] => none
  | c :: rest =>
    if c = ' ' then readSingle g.space rest
    else if c = '\n' then readSingle g.newline rest
    else if c = '\'' then
      match rest with
      | '\'' :: rest => prepend (g.text ++ ['\'']) (readSingle {} rest)
      | _ => some (g.text, rest)
    else prepend (g.text ++ [c]) (readSingle {} rest)

/-- The escapes of one letter. -/
def letterEscapes : List (Char × Char) :=
  [('0', '\x00'), ('a', '\x07'), ('b', '\x08'), ('t', '\t'), ('n', '\n'), ('v', '\x0b'),
   ('f', '\x0c'), ('r', '\r'), ('e', '\x1b'), (' ', ' '), ('"', '"'), ('/', '/'), ('\\', '\\'),
   ('N', '\u0085'), ('_', '\u00a0'), ('L', '\u2028'), ('P', '\u2029')]

/-- How many digits follow the letter of a numbered escape. -/
def escapeWidth? : Char → Option Nat
  | 'x' => some 2
  | 'u' => some 4
  | 'U' => some 8
  | _ => none

/-- The value of a hexadecimal digit. -/
def hexValue? (c : Char) : Option Nat :=
  if c.isDigit then some (c.toNat - '0'.toNat)
  else if 'a' ≤ c ∧ c ≤ 'f' then some (c.toNat - 'a'.toNat + 10)
  else if 'A' ≤ c ∧ c ≤ 'F' then some (c.toNat - 'A'.toNat + 10)
  else none

/-- Where a reader is inside double quotes. -/
inductive DoubleState where
  /-- After a gap. -/
  | after (g : Gap)
  /-- After the backslash of an escape. -/
  | escape
  /-- In a numbered escape with so many digits to come, after those of a number. -/
  | digits (left : Nat) (number : Nat)

/-- Reads on in double quotes. -/
def readDouble : DoubleState → List Char → Option (List Char × List Char)
  | _, [] => none
  | .after g, c :: rest =>
    if c = ' ' then readDouble (.after g.space) rest
    else if c = '\n' then readDouble (.after g.newline) rest
    else if c = '"' then some (g.text, rest)
    else if c = '\\' then prepend g.text (readDouble .escape rest)
    else prepend (g.text ++ [c]) (readDouble (.after {}) rest)
  | .escape, c :: rest =>
    if c = '\n' then readDouble (.after .escapedBreak) rest
    else
      match letterEscapes.lookup c, escapeWidth? c with
      | some d, _ => prepend [d] (readDouble (.after {}) rest)
      | none, some width => readDouble (.digits width 0) rest
      | none, none => none
  | .digits left number, c :: rest =>
    match hexValue? c with
    | none => none
    | some digit =>
      let number := 16 * number + digit
      if left ≤ 1 then
        if number.isValidChar then prepend [Char.ofNat number] (readDouble (.after {}) rest)
        else none
      else readDouble (.digits (left - 1) number) rest

/-! ### Scalars -/

/-- A scalar as it is written, before it gets a type. -/
structure Scalar where
  /-- How it is written. -/
  style : Style
  /-- Its text. -/
  text : List Char
  deriving DecidableEq, Repr

/-- Reads a scalar whose lines after the first are indented by at least `least`. -/
def readScalar (least : Nat) : List Char → Option (Scalar × List Char)
  | '"' :: rest => (readDouble (.after {}) rest).map fun (text, after) => (⟨.double, text⟩, after)
  | '\'' :: rest => (readSingle {} rest).map fun (text, after) => (⟨.single, text⟩, after)
  | s =>
    if startsPlain s then
      let (text, after) := readPlain least {} s s
      some (⟨.plain, text⟩, after)
    else none

end BundlePlan.Yaml
