import BundlePlan.Yaml.ScalarType

/-!
# The style of a scalar

A text is written plain where that is possible and reads back as a text, between single quotes
otherwise, and between double quotes when it has a character outside printable ASCII or a space
next to a line break.
-/

namespace BundlePlan.Yaml

/-- The ways to write a scalar. -/
inductive Style where
  | plain
  | single
  | double
  deriving DecidableEq, Repr

/-- Whether a character is printable ASCII. -/
def isPlainAscii (c : Char) : Bool := 0x20 ≤ c.toNat && c.toNat ≤ 0x7E

/-- Whether a text has a space right before or right after a line break. -/
def spaceMeetsBreak : List Char → Bool
  | [] => false
  | [_] => false
  | a :: b :: rest =>
    (a == ' ' && b == '\n') || (a == '\n' && b == ' ') || spaceMeetsBreak (b :: rest)

/-- Whether only double quotes can hold the text. -/
def needsEscapes (s : List Char) : Bool :=
  s.any (fun c => c != '\n' && !isPlainAscii c) || spaceMeetsBreak s

/-- Whether a text ends here or goes on with a space. -/
def endsOrSpaces : List Char → Bool
  | [] => true
  | c :: _ => c == ' '

/-- Whether a colon in the text is at its end or before a space. -/
def hasValueIndicator : List Char → Bool
  | [] => false
  | c :: rest => (c == ':' && endsOrSpaces rest) || hasValueIndicator rest

/-- Whether a number sign in the text comes after a space. -/
def hasCommentIndicator : List Char → Bool
  | [] => false
  | c :: rest => (c == ' ' && rest.head? == some '#') || hasCommentIndicator rest

/-- The characters that have a meaning at the start of a plain scalar. -/
def leadingIndicators : List Char := "#,[]\x7b\x7d&*!|>'\"%@\x60".toList

/-- Whether the text starts with what has a meaning there. -/
def hasLeadingIndicator : List Char → Bool
  | [] => false
  | c :: rest =>
    leadingIndicators.contains c || ((c == '?' || c == '-') && endsOrSpaces rest)

/-- Whether the text starts like a document marker. -/
def hasDocumentMarker (s : List Char) : Bool :=
  s.take 3 == ['-', '-', '-'] || s.take 3 == ['.', '.', '.']

/-- Whether the text, of printable ASCII and line breaks, can be written without quotes. -/
def allowsPlain (s : List Char) : Bool :=
  !s.isEmpty && !s.contains '\n' && s.head? != some ' ' && s.getLast? != some ' '
    && !hasDocumentMarker s && !hasLeadingIndicator s && !hasValueIndicator s
    && !hasCommentIndicator s

/-- The style in which a text is written. -/
def Style.ofText (s : List Char) : Style :=
  if needsEscapes s then .double
  else if allowsPlain s && ScalarType.ofPlain s == .text then .plain
  else .single

end BundlePlan.Yaml
