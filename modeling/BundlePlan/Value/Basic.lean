/-!
# Structured values

The values that documents are made of: null, booleans, integers, texts, lists, and mappings from
texts to values. A mapping keeps its entries in the order in which they were given.
-/

namespace BundlePlan

/-- A structured value. -/
inductive Value where
  /-- No value. -/
  | null
  /-- A truth value. -/
  | bool (b : Bool)
  /-- An integer. -/
  | int (n : Int)
  /-- A text. -/
  | text (s : String)
  /-- Values in a row. -/
  | list (items : List Value)
  /-- Values under keys. -/
  | mapping (entries : List (String × Value))
  deriving Repr, Inhabited

namespace Value

/-- The entry put into a list of entries that is ordered by key, before the first key that is
not smaller. -/
def insertByKey (entry : String × Value) : List (String × Value) → List (String × Value)
  | [] => [entry]
  | other :: rest =>
    if other.1 < entry.1 then other :: insertByKey entry rest else entry :: other :: rest

mutual

/-- The value with the entries of every mapping in it, at any depth, in the order of their
keys. -/
def sortKeys : Value → Value
  | null => null
  | bool b => bool b
  | int n => int n
  | text s => text s
  | list items => list (sortItems items)
  | mapping entries => mapping (sortEntries entries)

/-- `sortKeys` on the items of a list. -/
def sortItems : List Value → List Value
  | [] => []
  | item :: items => item.sortKeys :: sortItems items

/-- `sortKeys` on the entries of a mapping, which are put in order as well. -/
def sortEntries : List (String × Value) → List (String × Value)
  | [] => []
  | (key, value) :: entries => insertByKey (key, value.sortKeys) (sortEntries entries)

end

/-- The decimal text of an integer. -/
def intText (n : Int) : List Char :=
  if n < 0 then '-' :: Nat.toDigits 10 n.natAbs else Nat.toDigits 10 n.natAbs

end Value

end BundlePlan
