import BundlePlan.Yaml.Scalar

/-!
# Writing documents

A value is written as a block document: lists and mappings span lines, and only empty ones are
written as `[]` and `{}`. The entries of a mapping come in the order of their keys. Nested
blocks are indented by two columns, except for a list that is the value of a key, whose items
stand in the column of the key. A key that is short and has no line break is written before its
colon; any other key takes an entry of the form `? key` and `: value`.
-/

namespace BundlePlan.Yaml

/-- The longest key that is written before its colon. -/
def simpleKeyLimit : Nat := 122

/-- Whether a character breaks a line. -/
def isLineBreak (c : Char) : Bool :=
  c == '\n' || c == '\u0085' || c == '\u2028' || c == '\u2029'

/-- Whether a key is written before its colon. -/
def isSimpleKey (key : List Char) : Bool :=
  !key.isEmpty && !key.any isLineBreak && key.length ≤ simpleKeyLimit

/-- The text of a truth value. -/
def boolText (b : Bool) : List Char := if b then "true".toList else "false".toList

/-- A short key and its colon, in the block at column `i`. -/
def simpleKeyText (i : Nat) (key : List Char) : List Char :=
  textScalar ⟨i + 2, i, false⟩ key ++ [':']

/-- Any other key with its indicator, and the indicator of its value on the next line, in the
block at column `i`. -/
def complexKeyText (i : Nat) (key : List Char) : List Char :=
  '?' :: ' ' :: textScalar ⟨i + 2, i + 2, true⟩ key ++ breakLine i ++ [':']

mutual

/-- A value after the indicator of an entry in the block at column `i`. A nested block starts on
the line of the indicator. -/
def afterIndicator (i : Nat) : Value → List Char
  | .null => " null".toList
  | .bool b => ' ' :: boolText b
  | .int n => ' ' :: plain ⟨i + 2, i + 2, true⟩ (Value.intText n)
  | .text s => ' ' :: textScalar ⟨i + 2, i + 2, true⟩ s.toList
  | .list [] => " []".toList
  | .list items => ' ' :: listItems (i + 2) items
  | .mapping [] => [' ', '\x7b', '\x7d']
  | .mapping entries => ' ' :: mappingEntries (i + 2) entries

/-- A value after a key in the block at column `i`, where the colon ends at `column`. A nested
block starts on the next line. -/
def afterKey (i column : Nat) : Value → List Char
  | .null => " null".toList
  | .bool b => ' ' :: boolText b
  | .int n => ' ' :: plain ⟨i + 2, column + 1, true⟩ (Value.intText n)
  | .text s => ' ' :: textScalar ⟨i + 2, column + 1, true⟩ s.toList
  | .list [] => " []".toList
  | .list items => breakLine i ++ listItems i items
  | .mapping [] => [' ', '\x7b', '\x7d']
  | .mapping entries => breakLine (i + 2) ++ mappingEntries (i + 2) entries

/-- The items of a list, in a block at column `i`. -/
def listItems (i : Nat) : List Value → List Char
  | [] => []
  | item :: items =>
    '-' :: afterIndicator i item
      ++ match items with
        | [] => []
        | _ :: _ => breakLine i ++ listItems i items

/-- The entries of a mapping, in a block at column `i`. -/
def mappingEntries (i : Nat) : List (String × Value) → List Char
  | [] => []
  | (key, value) :: entries =>
    (if isSimpleKey key.toList then
      simpleKeyText i key.toList ++ afterKey i (i + (simpleKeyText i key.toList).length) value
    else complexKeyText i key.toList ++ afterIndicator i value)
      ++ match entries with
        | [] => []
        | _ :: _ => breakLine i ++ mappingEntries i entries

end

/-- What follows a document whose whole value is written without quotes. -/
def openEnd : List Char := ['\n', '.', '.', '.']

/-- A value as a document of its own, whose mappings are in order. -/
def documentText : Value → List Char
  | .null => "null".toList ++ openEnd
  | .bool b => boolText b ++ openEnd
  | .int n => plain ⟨2, 0, true⟩ (Value.intText n) ++ openEnd
  | .text s =>
    textScalar ⟨2, 0, true⟩ s.toList ++ if Style.ofText s.toList = .plain then openEnd else []
  | .list [] => "[]".toList
  | .list items => listItems 0 items
  | .mapping [] => ['\x7b', '\x7d']
  | .mapping entries => mappingEntries 0 entries

/-- A value as a document, its mappings in the order of their keys and its last line ended. -/
def document (v : Value) : String := String.ofList (documentText v.sortKeys ++ ['\n'])

end BundlePlan.Yaml
