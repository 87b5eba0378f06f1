import BundlePlan.Text.Quoted
import BundlePlan.Value.Basic

/-!
# Values as JSON

`Value.json` writes a value as JSON text over several lines, each level indented by two columns
more. Only printable ASCII is written; every other character of a text is escaped, those beyond
U+FFFF as a surrogate pair.
-/

namespace BundlePlan.Value

/-- A number below `2 ^ 16` as an escape. -/
def jsonUnit (n : Nat) : List Char := '\\' :: 'u' :: Text.hexDigits Nat.digitChar 4 n

/-- One character of a JSON text. -/
def jsonChar (c : Char) : List Char :=
  if c = '"' ∨ c = '\\' then ['\\', c]
  else if c = '\n' then ['\\', 'n']
  else if c = '\r' then ['\\', 'r']
  else if c = '\t' then ['\\', 't']
  else if c = '\x08' then ['\\', 'b']
  else if c = '\x0c' then ['\\', 'f']
  else if 0x20 ≤ c.toNat ∧ c.toNat ≤ 0x7E then [c]
  else if c.toNat < 0x10000 then jsonUnit c.toNat
  else
    let rest := c.toNat - 0x10000
    jsonUnit (0xD800 + rest / 0x400) ++ jsonUnit (0xDC00 + rest % 0x400)

/-- A text as JSON. -/
def jsonText (s : String) : List Char := '"' :: (s.toList.flatMap jsonChar ++ ['"'])

/-- A line break and the indentation of the next line. -/
def jsonBreak (indent : Nat) : List Char := '\n' :: List.replicate indent ' '

mutual

/-- A value in lines that are indented by `indent`. -/
def jsonLines (indent : Nat) : Value → List Char
  | null => "null".toList
  | bool b => if b then "true".toList else "false".toList
  | int n => intText n
  | text s => jsonText s
  | list [] => ['[', ']']
  | list items =>
    '[' :: jsonBreak (indent + 2) ++ jsonItems (indent + 2) items ++ jsonBreak indent ++ [']']
  | mapping [] => ['\x7b', '\x7d']
  | mapping entries =>
    '\x7b' :: jsonBreak (indent + 2) ++ jsonEntries (indent + 2) entries ++ jsonBreak indent
      ++ ['\x7d']

/-- The items of a list, each on its own lines. -/
def jsonItems (indent : Nat) : List Value → List Char
  | [] => []
  | [item] => jsonLines indent item
  | item :: items => jsonLines indent item ++ ',' :: jsonBreak indent ++ jsonItems indent items

/-- The entries of a mapping, each on its own lines. -/
def jsonEntries (indent : Nat) : List (String × Value) → List Char
  | [] => []
  | [(key, value)] => jsonText key ++ ':' :: ' ' :: jsonLines indent value
  | (key, value) :: entries =>
    jsonText key ++ ':' :: ' ' :: jsonLines indent value ++ ',' :: jsonBreak indent
      ++ jsonEntries indent entries

end

/-- A value as JSON text. -/
def json (v : Value) : String := String.ofList (jsonLines 0 v)

end BundlePlan.Value
