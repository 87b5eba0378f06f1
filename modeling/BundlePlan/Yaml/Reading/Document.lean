import BundlePlan.Text.Split
import BundlePlan.Yaml.Reading.Node

/-!
# Reading documents

The rules of YAML 1.1 for block documents of printable ASCII and line feeds: lists and mappings
are told by their indentation, a list that is the value of a key may stand in the column of the
key, a key stands before its colon on one line or after a question mark, and a missing value is
null. What these rules do not cover is refused: comments, tags, anchors, block scalars,
collections in brackets other than the empty ones, keys that are not texts.

Reading a nested block takes fuel, one unit for each block and each entry that is entered. The
length of the text is always enough.
-/

namespace BundlePlan.Yaml

/-- The next text that is not white space, and its column if the text starts at `column`. -/
def nextText (column : Nat) : List Char → Nat × List Char
  | [] => (column, [])
  | c :: rest =>
    if c = ' ' then nextText (column + 1) rest
    else if c = '\n' then nextText 0 rest
    else (column, c :: rest)

/-- What follows an indicator that stands alone. -/
def afterMark? (mark : Char) : List Char → Option (List Char)
  | [] => none
  | c :: rest => if c = mark ∧ endsWord rest then some rest else none

/-- Whether nothing more stands on the line. -/
def endsLine (s : List Char) : Bool :=
  match s.dropWhile (· == ' ') with
  | [] => true
  | c :: _ => c == '\n'

/-- Reads a scalar or an empty collection. -/
def readInline (least : Nat) : List Char → Option (Node × List Char)
  | '[' :: ']' :: rest => some (.list [], rest)
  | '\x7b' :: '\x7d' :: rest => some (.mapping [], rest)
  | s => (readScalar least s).map fun (scalar, after) => (.scalar scalar, after)

/-- Reads a node that is no block and ends its line. -/
def readLeaf (least : Nat) (s : List Char) : Option (Node × List Char) :=
  (readInline least s).filter fun (_, after) => endsLine after

/-- Reads a key and its colon on one line. -/
def readKey? (s : List Char) : Option (Scalar × List Char) :=
  let line := s.takeWhile (· != '\n')
  let rest := s.dropWhile (· != '\n')
  (readScalar 0 line).bind fun (key, after) =>
    (afterMark? ':' after).map fun after => (key, after ++ rest)

/-- A reader of nodes: it takes the least indentation of lines after the first, the column of the
node and the text. -/
abbrev NodeReader := Nat → Nat → List Char → Option (Node × List Char)

/-- A reader of lists: it takes the column of the list and the text. -/
abbrev ListReader := Nat → List Char → Option (List Node × List Char)

/-- The node where a value is missing. -/
def missing : Node := .scalar ⟨.plain, []⟩

/-- Reads the value after an indicator at column `i`. -/
def readAfterMark (node : NodeReader) (i : Nat) (s : List Char) : Option (Node × List Char) :=
  let (j, t) := nextText (i + 1) s
  if t.isEmpty || j ≤ i then some (missing, s) else node (i + 1) j t

/-- Reads the value after the colon of a key at column `i`. Only a scalar or an empty collection
stands on the line of the key. -/
def readAfterColon (node : NodeReader) (items : ListReader) (i : Nat) (s : List Char) :
    Option (Node × List Char) :=
  if endsLine s then
    let (j, t) := nextText 0 s
    if (afterMark? '-' t).isSome && j == i then
      (items i t).map fun (nodes, after) => (.list nodes, after)
    else if t.isEmpty || j ≤ i then some (missing, s)
    else node (i + 1) j t
  else readLeaf (i + 1) (s.dropWhile (· == ' '))

/-- Reads the key and the value after a question mark at column `i`. The value has to come next,
after a colon in the same column. -/
def readMarkedEntry (node : NodeReader) (i : Nat) (s : List Char) :
    Option ((Scalar × Node) × List Char) :=
  match readAfterMark node i s with
  | some (.scalar key, after) =>
    let (j, t) := nextText 0 after
    if j = i then
      (afterMark? ':' t).bind fun s =>
        (readAfterMark node i s).map fun (value, after) => ((key, value), after)
    else none
  | _ => none

/-- Reads an entry of a mapping at column `i`. -/
def readEntry (node : NodeReader) (items : ListReader) (i : Nat) (s : List Char) :
    Option ((Scalar × Node) × List Char) :=
  match afterMark? '?' s with
  | some s => readMarkedEntry node i s
  | none =>
    (readKey? s).bind fun (key, s) =>
      (readAfterColon node items i s).map fun (value, after) => ((key, value), after)

mutual

/-- Reads a node at a column, whose lines after the first are indented by at least `least`. -/
def readNode (fuel : Nat) (least column : Nat) (s : List Char) : Option (Node × List Char) :=
  match fuel with
  | 0 => none
  | fuel + 1 =>
    if (afterMark? '-' s).isSome then
      (readItems fuel column s).map fun (nodes, after) => (.list nodes, after)
    else if (afterMark? '?' s).isSome || (readKey? s).isSome then
      (readEntries fuel column s).map fun (entries, after) => (.mapping entries, after)
    else readLeaf least s

/-- Reads the items of a list at column `i`. -/
def readItems (fuel : Nat) (i : Nat) (s : List Char) : Option (List Node × List Char) :=
  match fuel with
  | 0 => none
  | fuel + 1 =>
    (afterMark? '-' s).bind fun s =>
      (readAfterMark (readNode fuel) i s).bind fun (node, after) =>
        let (j, t) := nextText 0 after
        if (afterMark? '-' t).isSome && j == i then
          (readItems fuel i t).map fun (nodes, after) => (node :: nodes, after)
        else some ([node], after)

/-- Reads the entries of a mapping at column `i`. -/
def readEntries (fuel : Nat) (i : Nat) (s : List Char) :
    Option (List (Scalar × Node) × List Char) :=
  match fuel with
  | 0 => none
  | fuel + 1 =>
    (readEntry (readNode fuel) (readItems fuel) i s).bind fun (entry, after) =>
      let (j, t) := nextText 0 after
      if !t.isEmpty && j == i then
        (readEntries fuel i t).map fun (entries, after) => (entry :: entries, after)
      else some ([entry], after)

end

/-- Reads the text of a document without its markers. -/
def readBody (s : List Char) : Option Node :=
  let (j, t) := nextText 0 s
  if t.isEmpty then some missing
  else (readNode t.length 0 j t).bind fun (node, after) =>
    if (nextText 0 after).2.isEmpty then some node else none

/-- Whether a line is a document marker. -/
def isMarker (line : List Char) : Bool := hasDocumentMarker line && endsOrSpaces (line.drop 3)

/-- Whether a character can be read. -/
def isReadable (c : Char) : Bool := c == '\n' || isPlainAscii c

/-- Reads a text as one document, which a line of three dots may end. -/
def readTree (s : List Char) : Option Node :=
  let lines := Text.pieces '\n' s
  let rest := lines.dropWhile (!isMarker ·)
  if s.all isReadable && (rest == [] || rest == [['.', '.', '.'], []]) then
    readBody (Text.joined '\n' (lines.takeWhile (!isMarker ·)))
  else none

/-- The value of the document that a text is. -/
def read (s : String) : Option Value := (readTree s.toList).bind Node.value?

end BundlePlan.Yaml
