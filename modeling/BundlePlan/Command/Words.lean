/-!
# Splitting a command into words

A command line is split into words by the quoting rules of a shell, without any expansion.
Words are separated by spaces, tabs, carriage returns and newlines. Between single quotes every
character stands for itself; between double quotes a backslash escapes a double quote and a
backslash, and stands for itself before any other character; outside quotes a backslash escapes
whatever follows it. Quoted parts join what touches them, so `''` is a word of its own.

The splitter is a machine over characters: `Mode.step` says for each state and character which
state follows and what the character adds to the current word.
-/

namespace BundlePlan.Command

/-- Why a text cannot be split into words. -/
inductive WordError where
  /-- The text ends between quotes. -/
  | unclosedQuote
  /-- The text ends after a backslash that escapes. -/
  | danglingEscape
  deriving DecidableEq, Repr

/-- The wording of an error. -/
def WordError.message : WordError → String
  | unclosedQuote => "No closing quotation"
  | danglingEscape => "No escaped character"

/-- Where the splitter is. -/
inductive Mode where
  /-- Between two words. -/
  | gap
  /-- In a word, outside quotes. -/
  | bare
  /-- In a word, between single quotes. -/
  | single
  /-- In a word, between double quotes. -/
  | double
  /-- After a backslash outside quotes. -/
  | escaped
  /-- After a backslash between double quotes. -/
  | doubleEscaped
  deriving DecidableEq, Repr

/-- Whether a character separates words. -/
def isSeparator (c : Char) : Bool := c == ' ' || c == '\t' || c == '\r' || c == '\n'

/-- The state after a character outside quotes, and what the character adds to its word. -/
def Mode.open (c : Char) : Mode × List Char :=
  if isSeparator c then (gap, [])
  else if c = '\'' then (single, [])
  else if c = '"' then (double, [])
  else if c = '\\' then (escaped, [])
  else (bare, [c])

/-- The state after a character, and what the character adds to its word. -/
def Mode.step : Mode → Char → Mode × List Char
  | gap, c => Mode.open c
  | bare, c => Mode.open c
  | single, c => if c = '\'' then (bare, []) else (single, [c])
  | double, c =>
    if c = '"' then (bare, []) else if c = '\\' then (doubleEscaped, []) else (double, [c])
  | escaped, c => (bare, [c])
  | doubleEscaped, c => if c = '"' ∨ c = '\\' then (double, [c]) else (double, ['\\', c])

/-- What is wrong with a text that ends in a state. -/
def Mode.endError? : Mode → Option WordError
  | gap | bare => none
  | single | double => some .unclosedQuote
  | escaped | doubleEscaped => some .danglingEscape

/-- Reads on from a state: the rest of the word that the state is in, which is empty in a gap,
and the words after it. -/
def scan : Mode → List Char → Except WordError (List Char × List (List Char))
  | mode, [] =>
    match mode.endError? with
    | none => .ok ([], [])
    | some e => .error e
  | mode, c :: cs =>
    let (next, added) := mode.step c
    match scan next cs with
    | .error e => .error e
    | .ok (rest, words) =>
      if mode = .gap ∧ next ≠ .gap then .ok ([], (added ++ rest) :: words)
      else .ok (added ++ rest, words)

/-- The words of a command line. -/
def words (line : String) : Except WordError (List String) :=
  (scan .gap line.toList).map fun (_, ws) => ws.map String.ofList

end BundlePlan.Command
