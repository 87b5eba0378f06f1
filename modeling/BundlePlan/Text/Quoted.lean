import BundlePlan.Text.Printable

/-!
# Quoted text in messages

A message shows a text that came from outside as a literal: between single quotes, or between
double quotes when it holds a single quote and no double quote. The quote that is used, the
backslash and the three common control characters have a short escape, every other character
that is not printable is written by its number in lower-case hexadecimal with the smallest of
the three widths 2, 4 and 8 that fits.
-/

namespace BundlePlan.Text

/-- The last `width` digits of `n` in base 16, with the given digit characters. -/
def hexDigits (digit : Nat → Char) : (width : Nat) → (n : Nat) → List Char
  | 0, _ => []
  | width + 1, n => hexDigits digit width (n / 16) ++ [digit (n % 16)]

/-- The digit for a number below 16, a capital letter from ten on. -/
def upperHexDigit (n : Nat) : Char := n.digitChar.toUpper

/-- A numbered escape: `\x`, `\u` or `\U` and two, four or eight digits. -/
def numberedEscape (digit : Nat → Char) (c : Char) : List Char :=
  let n := c.toNat
  if n < 0x100 then '\\' :: 'x' :: hexDigits digit 2 n
  else if n < 0x10000 then '\\' :: 'u' :: hexDigits digit 4 n
  else '\\' :: 'U' :: hexDigits digit 8 n

/-- The quote that a text is shown in. -/
def quoteFor (s : List Char) : Char :=
  if '\'' ∈ s ∧ '"' ∉ s then '"' else '\''

/-- How one character is shown between two of `quote`. -/
def quotedChar (quote c : Char) : List Char :=
  if c = quote ∨ c = '\\' then ['\\', c]
  else if c = '\n' then ['\\', 'n']
  else if c = '\r' then ['\\', 'r']
  else if c = '\t' then ['\\', 't']
  else if isPrintable c then [c]
  else numberedEscape Nat.digitChar c

/-- A text as a quoted literal. -/
def quoted (s : String) : String :=
  let quote := quoteFor s.toList
  String.ofList (quote :: (s.toList.flatMap (quotedChar quote) ++ [quote]))

theorem length_hexDigits (digit : Nat → Char) (width n : Nat) :
    (hexDigits digit width n).length = width := by
  induction width generalizing n with
  | zero => rfl
  | succ w ih => simp [hexDigits, ih]

end BundlePlan.Text
