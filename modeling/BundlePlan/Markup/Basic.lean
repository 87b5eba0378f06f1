/-!
# Console markup

Messages carry markup: a tag is an opening bracket, one of the letters `a` to `z` or `#`, `/` or
`@`, and then anything but an opening bracket up to the first closing one. A tag with an odd
number of backslashes before it is not a tag but text. `escape` makes a text safe to put into a
message: it doubles the backslashes before each tag and adds one.
-/

namespace BundlePlan.Markup

/-- Whether a tag can start with this character after its bracket. -/
def startsTagName (c : Char) : Bool :=
  ('a' ≤ c && c ≤ 'z') || c == '#' || c == '/' || c == '@'

/-- Whether the next bracket closes. -/
def closesNext : List Char → Bool
  | [] => false
  | c :: rest => c == ']' || (c != '[' && closesNext rest)

/-- Whether what follows an opening bracket makes it a tag. -/
def isTagAfterBracket : List Char → Bool
  | [] => false
  | c :: rest => startsTagName c && closesNext rest

/-- Whether the text starts with a tag. -/
def startsWithTag : List Char → Bool
  | [] => false
  | c :: rest => c == '[' && isTagAfterBracket rest

/-- The text with the backslashes before each tag doubled and one more before the tag. -/
def escapeTags : List Char → List Char
  | [] => []
  | c :: rest =>
    if c = '\\' && startsWithTag (rest.dropWhile (· == '\\')) then
      '\\' :: '\\' :: escapeTags rest
    else if c = '[' && isTagAfterBracket rest then '\\' :: '[' :: escapeTags rest
    else c :: escapeTags rest

/-- Whether the text ends with exactly one backslash, so that it would escape what follows. -/
def endsWithLoneBackslash (s : List Char) : Bool :=
  match s.reverse with
  | '\\' :: '\\' :: _ => false
  | '\\' :: _ => true
  | _ => false

/-- The text with its tags turned into text. -/
def escape (s : String) : String :=
  let escaped := escapeTags s.toList
  String.ofList (if endsWithLoneBackslash escaped then escaped ++ ['\\'] else escaped)

end BundlePlan.Markup
