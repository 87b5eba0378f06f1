import BundlePlan.Text.Quoted
import BundlePlan.Yaml.Style
import BundlePlan.Value.Basic

/-!
# Writing scalars

A scalar starts at a column and continues on indented lines. A line that is longer than
`lineWidth` is folded: in plain and single-quoted text a single space between two words becomes a
line break, in double-quoted text a backslash ends the line and a second one keeps a space at
the start of the next. In single quotes a quote is written twice and every run of line breaks
gets one more; in double quotes line breaks are escaped like all characters that are not
printable ASCII.
-/

namespace BundlePlan.Yaml

/-- The column after which lines are folded. -/
def lineWidth : Nat := 80

/-- Where a scalar is written. -/
structure Margin where
  /-- The indentation of the lines after the first. -/
  indent : Nat
  /-- The column at which the scalar starts. -/
  column : Nat
  /-- Whether lines may be folded. -/
  folds : Bool
  deriving DecidableEq, Repr

/-- A line break and the indentation of the next line. -/
def breakLine (indent : Nat) : List Char := '\n' :: List.replicate indent ' '

/-- Whether the space before `rest` is between two words, one of which ends right before it. -/
def isWordGap (afterSpace : Bool) (rest : List Char) : Bool :=
  !afterSpace && !rest.isEmpty && rest.head? != some ' '

/-- Plain text from a column on; `afterSpace` tells whether a space or nothing is before it. -/
def plainFrom (m : Margin) (afterSpace : Bool) (column : Nat) : List Char → List Char
  | [] => []
  | c :: rest =>
    if c = ' ' then
      if m.folds && isWordGap afterSpace rest && lineWidth < column then
        breakLine m.indent ++ plainFrom m true m.indent rest
      else c :: plainFrom m true (column + 1) rest
    else c :: plainFrom m false (column + 1) rest

/-- A scalar without quotes. -/
def plain (m : Margin) (s : List Char) : List Char := plainFrom m true m.column s

/-- The inside of single quotes from a column on, where `previous` is the character before it,
a space at the start. -/
def singleFrom (m : Margin) (previous : Char) (column : Nat) : List Char → List Char
  | [] => []
  | c :: rest =>
    if c = ' ' then
      if m.folds && isWordGap (previous == ' ') rest && lineWidth < column then
        breakLine m.indent ++ singleFrom m c m.indent rest
      else c :: singleFrom m c (column + 1) rest
    else if c = '\n' then
      (if previous = '\n' then ['\n'] else ['\n', '\n'])
        ++ (if rest.head? = some '\n' then [] else List.replicate m.indent ' ')
        ++ singleFrom m c m.indent rest
    else if c = '\'' then '\'' :: '\'' :: singleFrom m c (column + 2) rest
    else c :: singleFrom m c (column + 1) rest

/-- A scalar in single quotes. -/
def single (m : Margin) (s : List Char) : List Char :=
  '\'' :: (singleFrom m ' ' (m.column + 1) s ++ ['\''])

/-- The escapes of one letter in double quotes. -/
def shortEscapes : List (Char × Char) :=
  [('\x00', '0'), ('\x07', 'a'), ('\x08', 'b'), ('\t', 't'), ('\n', 'n'), ('\x0b', 'v'),
   ('\x0c', 'f'), ('\r', 'r'), ('\x1b', 'e'), ('"', '"'), ('\\', '\\'), ('\u0085', 'N'),
   ('\u00a0', '_'), ('\u2028', 'L'), ('\u2029', 'P')]

/-- How a character is escaped in double quotes; `none` if it stands for itself. -/
def escape? (c : Char) : Option (List Char) :=
  match shortEscapes.lookup c with
  | some letter => some ['\\', letter]
  | none => if isPlainAscii c then none else some (Text.numberedEscape Text.upperHexDigit c)

/-- A folded line in double quotes: the backslash that ends the line, and one more that keeps
the space at the start of the next line if there is one. -/
def foldDouble (indent : Nat) (keepsSpace : Bool) : List Char :=
  '\\' :: breakLine indent ++ if keepsSpace then ['\\'] else []

/-- The column after `foldDouble`. -/
def columnAfterFold (indent : Nat) (keepsSpace : Bool) : Nat :=
  if keepsSpace then indent + 1 else indent

/-- The inside of double quotes from a column on. A line can be folded after an escape, before a
space, and before a character that follows an escape, but neither around the first character
nor around the last. -/
def doubleFrom (m : Margin) (isFirst afterEscape : Bool) (column : Nat) :
    List Char → List Char
  | [] => []
  | c :: rest =>
    let inside := m.folds && !isFirst && !rest.isEmpty
    match escape? c with
    | some escape =>
      let column := column + escape.length
      let keepsSpace := rest.head? == some ' '
      if inside && lineWidth + 1 < column then
        escape ++ foldDouble m.indent keepsSpace
          ++ doubleFrom m false true (columnAfterFold m.indent keepsSpace) rest
      else escape ++ doubleFrom m false true column rest
    | none =>
      if inside && (c == ' ' || afterEscape) && lineWidth < column then
        foldDouble m.indent (c == ' ')
          ++ c :: doubleFrom m false false (columnAfterFold m.indent (c == ' ') + 1) rest
      else c :: doubleFrom m false false (column + 1) rest

/-- A scalar in double quotes. -/
def double (m : Margin) (s : List Char) : List Char :=
  '"' :: (doubleFrom m true false (m.column + 1) s ++ ['"'])

/-- A text as a scalar. -/
def textScalar (m : Margin) (s : List Char) : List Char :=
  match Style.ofText s with
  | .plain => plain m s
  | .single => single m s
  | .double => double m s

end BundlePlan.Yaml
