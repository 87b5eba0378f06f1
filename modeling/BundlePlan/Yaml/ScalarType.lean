import BundlePlan.Text.Pattern

/-!
# The types of plain scalars

A scalar that is written without quotes gets its type from its spelling, by the patterns of
YAML 1.1. What no pattern matches is a text.
-/

namespace BundlePlan.Yaml

open Text

/-- The types that a plain scalar can have. -/
inductive ScalarType where
  | bool
  | float
  | int
  | merge
  | null
  | timestamp
  | value
  | directive
  | text
  deriving DecidableEq, Repr

namespace ScalarType

/-- An optional sign. -/
def sign : Pattern := .optional (.oneOf "-+")

/-- Any number of digits and underscores. -/
def digits : Pattern := .many (.oneOf "0123456789_")

/-- The parts of a number to the base 60 after its first, each with a colon before it. -/
def sexagesimalParts : Pattern :=
  .atLeastOnce (.inOrder [.char ':', .optional (.oneOf "012345"), .digit])

/-- An optional decimal exponent with its sign. -/
def exponent : Pattern :=
  .optional (.inOrder [.oneOf "eE", .oneOf "-+", .atLeastOnce .digit])

/-- The spellings of truth values. -/
def boolPattern : Pattern :=
  .anyOf (["yes", "Yes", "YES", "no", "No", "NO", "true", "True", "TRUE", "false", "False", "FALSE",
    "on", "On", "ON", "off", "Off", "OFF"].map .word)

/-- The spellings of floating-point numbers. -/
def floatPattern : Pattern :=
  .anyOf [
    .inOrder [sign, .digit, digits, .char '.', digits, exponent],
    .inOrder [.char '.', .digit, digits, exponent],
    .inOrder [sign, .digit, digits, sexagesimalParts, .char '.', digits],
    .inOrder [sign, .char '.', .anyOf [.word "inf", .word "Inf", .word "INF"]],
    .inOrder [.char '.', .anyOf [.word "nan", .word "NaN", .word "NAN"]]]

/-- The spellings of integers. -/
def intPattern : Pattern :=
  .anyOf [
    .inOrder [sign, .word "0b", .atLeastOnce (.oneOf "01_")],
    .inOrder [sign, .char '0', .atLeastOnce (.oneOf "01234567_")],
    .inOrder [sign, .either (.char '0') (.andThen (.oneOf "123456789") digits)],
    .inOrder [sign, .word "0x", .atLeastOnce (.oneOf "0123456789abcdefABCDEF_")],
    .inOrder [sign, .oneOf "123456789", digits, sexagesimalParts]]

/-- The spellings of the null value. -/
def nullPattern : Pattern :=
  .anyOf (["~", "null", "Null", "NULL", ""].map .word)

/-- One or two digits. -/
def oneOrTwoDigits : Pattern := .andThen .digit (.optional .digit)

/-- Any number of spaces and tabs. -/
def spaces : Pattern := .many (.oneOf " \t")

/-- The spellings of dates and of points in time. -/
def timestampPattern : Pattern :=
  .anyOf [
    .inOrder [.times 4 .digit, .char '-', .times 2 .digit, .char '-', .times 2 .digit],
    .inOrder [.times 4 .digit, .char '-', oneOrTwoDigits, .char '-', oneOrTwoDigits,
      .either (.oneOf "Tt") (.atLeastOnce (.oneOf " \t")),
      oneOrTwoDigits, .char ':', .times 2 .digit, .char ':', .times 2 .digit,
      .optional (.andThen (.char '.') (.many .digit)),
      .optional (.andThen spaces (.either (.char 'Z')
        (.inOrder [.oneOf "-+", oneOrTwoDigits,
          .optional (.andThen (.char ':') (.times 2 .digit))])))]]

/-- The patterns in the order in which they are tried. -/
def patterns : List (ScalarType × Pattern) :=
  [(bool, boolPattern), (float, floatPattern), (int, intPattern), (merge, .word "<<"),
   (null, nullPattern), (timestamp, timestampPattern), (value, .word "="),
   (directive, .oneOf "!&*")]

/-- The type of a plain scalar. -/
def ofPlain (s : List Char) : ScalarType :=
  match patterns.find? (·.2.accepts s) with
  | some (type, _) => type
  | none => text

end ScalarType

end BundlePlan.Yaml
