import BundlePlan.Markup.Basic

/-!
# Reading markup

`read` takes a message apart into text and tags, and `plainText` is what a console without
styles shows of it. Backslashes right before a tag come in pairs, each of which stands for one;
one left over makes the tag text. Backslashes elsewhere stand for themselves.
-/

namespace BundlePlan.Markup

/-- A part of a message. -/
inductive Piece where
  /-- One character that is shown. -/
  | char (c : Char)
  /-- A tag, without its brackets. -/
  | tag (name : List Char)
  deriving DecidableEq, Repr

/-- Characters that are shown. -/
def shown (s : List Char) : List Piece := s.map .char

/-- Reads on after so many characters that belong to a tag already read. `pending` backslashes
stand right before the text. -/
def readFrom : (skipped : Nat) → (pending : Nat) → List Char → List Piece
  | _, pending, [] => shown (List.replicate pending '\\')
  | skipped + 1, pending, _ :: rest => readFrom skipped pending rest
  | 0, pending, c :: rest =>
    if c = '\\' then readFrom 0 (pending + 1) rest
    else if c = '[' ∧ isTagAfterBracket rest then
      shown (List.replicate (pending / 2) '\\') ++
        if pending % 2 = 0 then
          let name := rest.takeWhile (· != ']')
          .tag name :: readFrom (name.length + 1) 0 rest
        else .char c :: readFrom 0 0 rest
    else shown (List.replicate pending '\\') ++ .char c :: readFrom 0 0 rest

/-- The parts of a message. -/
def read (s : String) : List Piece := readFrom 0 0 s.toList

/-- The tags of a message, in order. -/
def tags (s : String) : List (List Char) :=
  (read s).filterMap fun
    | .tag name => some name
    | .char _ => none

/-- What is shown of a message. -/
def plainText (s : String) : String :=
  String.ofList ((read s).filterMap fun
    | .char c => some c
    | .tag _ => none)

end BundlePlan.Markup
