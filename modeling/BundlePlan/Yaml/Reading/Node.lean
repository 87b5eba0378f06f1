import BundlePlan.Value.Basic
import BundlePlan.Yaml.Reading.Scalar

/-!
# Nodes and their values

A document is read as a tree of nodes first. A node keeps the style of its scalars, because a
quoted scalar is always a text and a plain one has the type of its spelling. `Node.value?` gives
the tree its types. Numbers with a fraction, points in time and keys that are not texts have no
value here.
-/

namespace BundlePlan.Yaml

/-- A node of a document. -/
inductive Node where
  /-- A scalar. -/
  | scalar (s : Scalar)
  /-- Nodes in a row. -/
  | list (items : List Node)
  /-- Nodes under keys, in the order in which they stand. -/
  | mapping (entries : List (Scalar × Node))

/-- The spellings of truth. -/
def trueWords : List (List Char) :=
  ["yes", "Yes", "YES", "true", "True", "TRUE", "on", "On", "ON"].map String.toList

/-- The number that decimal digits denote. A zero before other digits is refused, because it would
make the number octal. -/
def decimal? (s : List Char) : Option Nat :=
  if s.isEmpty || !s.all Char.isDigit || (s.head? == some '0' && s != ['0']) then none
  else some (Nat.ofDigitChars 10 s 0)

/-- The integer that a plain scalar denotes. Only decimal numbers without underscores are read. -/
def integer? : List Char → Option Int
  | '-' :: s => (decimal? s).map fun n => -(n : Int)
  | '+' :: s => (decimal? s).map fun n => (n : Int)
  | s => (decimal? s).map fun n => (n : Int)

/-- The value of a plain scalar, if it has one of the types that values have. -/
def plainValue? (s : List Char) : Option Value :=
  match ScalarType.ofPlain s with
  | .text => some (.text (String.ofList s))
  | .null => some .null
  | .bool => some (.bool (trueWords.contains s))
  | .int => (integer? s).map .int
  | _ => none

/-- The value of a scalar. -/
def Scalar.value? (s : Scalar) : Option Value :=
  match s.style with
  | .plain => plainValue? s.text
  | .single | .double => some (.text (String.ofList s.text))

/-- The key that a scalar is, if it is a text. -/
def Scalar.key? (s : Scalar) : Option String :=
  match s.value? with
  | some (.text key) => some key
  | _ => none

namespace Node

mutual

/-- The value of a node. -/
def value? : Node → Option Value
  | scalar s => s.value?
  | list items => (itemValues? items).map .list
  | mapping entries => (entryValues? entries).map .mapping

/-- The values of nodes in a row. -/
def itemValues? : List Node → Option (List Value)
  | [] => some []
  | item :: items =>
    match value? item, itemValues? items with
    | some v, some vs => some (v :: vs)
    | _, _ => none

/-- The values of nodes under keys. -/
def entryValues? : List (Scalar × Node) → Option (List (String × Value))
  | [] => some []
  | (key, node) :: entries =>
    match key.key?, value? node, entryValues? entries with
    | some k, some v, some es => some ((k, v) :: es)
    | _, _, _ => none

end

end Node

end BundlePlan.Yaml
