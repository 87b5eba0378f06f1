import BundlePlan.Text.Split

/-!
# Paths

A path is absolute or relative and goes through a list of segments. Reading resolves the
segments that do not name anything: empty ones and `.` are left out, and `..` takes away the
segment before it. Where there is none to take away, an absolute path drops the `..` and a
relative one keeps it. Every text is a path, and `Path.normalize` is its shortest form.
-/

namespace BundlePlan

/-- A path after its segments have been resolved. -/
structure Path where
  /-- Whether the path starts at the root. -/
  isAbsolute : Bool
  /-- The segments from left to right. -/
  segments : List (List Char)
  deriving DecidableEq, Repr

namespace Path

/-- The segment that leads to the parent. -/
def parent : List Char := ['.', '.']

/-- One segment more. The segments so far are given from right to left. -/
def visit (isAbsolute : Bool) (visited : List (List Char)) (segment : List Char) :
    List (List Char) :=
  if segment = [] ∨ segment = ['.'] then visited
  else if segment = parent then
    match visited with
    | [] => if isAbsolute then [] else [parent]
    | last :: before => if last = parent then parent :: visited else before
  else segment :: visited

/-- The path that a text denotes. -/
def read (s : List Char) : Path :=
  let isAbsolute := s.head? == some '/'
  ⟨isAbsolute, ((Text.pieces '/' s).foldl (visit isAbsolute) []).reverse⟩

/-- The text of a path. The relative path without segments is `.`. -/
def text (p : Path) : List Char :=
  if p.isAbsolute then '/' :: Text.joined '/' p.segments
  else if p.segments = [] then ['.']
  else Text.joined '/' p.segments

/-- The shortest text for the path that a text denotes. -/
def normalize (s : String) : String := String.ofList (read s.toList).text

end Path

end BundlePlan
