import BundlePlan.Manifest.Instructions
import BundlePlan.Yaml.Document

/-!
# The text of a plan

The text of a plan is its instructions and, between the lines of a fence, a document for each
resource. The documents are written by a `Serializer`, which counts its calls and can have a
fault that makes one of them fail. If a document cannot be written there is no text.
-/

namespace BundlePlan

/-- A fault of the serializer. -/
structure SerializerFault where
  /-- The number of the call that fails, from zero. -/
  call : Nat
  /-- What the failure says. -/
  message : String
  deriving DecidableEq, Repr

/-- What writes documents. -/
structure Serializer where
  /-- How many documents have been asked for. -/
  calls : Nat := 0
  /-- The fault, if there is one. -/
  fault : Option SerializerFault := none
  deriving DecidableEq, Repr

/-- A document that could not be written. -/
structure DocumentError where
  /-- The kind of the value. -/
  kind : String
  /-- What the failure says. -/
  cause : String
  deriving DecidableEq, Repr

/-- The wording of the error. -/
def DocumentError.message (e : DocumentError) : String :=
  s!"failed to marshal {e.kind} to yaml: {e.cause}"

namespace Serializer

/-- Writes a value of a given kind as a document. -/
def write (s : Serializer) (kind : String) (v : Value) :
    Except DocumentError String × Serializer :=
  let next := { s with calls := s.calls + 1 }
  match s.fault with
  | some fault =>
    if fault.call = s.calls then (.error ⟨kind, fault.message⟩, next)
    else (.ok (Yaml.document v), next)
  | none => (.ok (Yaml.document v), next)

/-- Writes documents in order and stops at the first that cannot be written. -/
def writeAll (s : Serializer) :
    List (String × Value) → Except DocumentError (List String) × Serializer
  | [] => (.ok [], s)
  | (kind, v) :: rest =>
    match s.write kind v with
    | (.error e, s) => (.error e, s)
    | (.ok text, s) =>
      match s.writeAll rest with
      | (.error e, s) => (.error e, s)
      | (.ok texts, s) => (.ok (text :: texts), s)

end Serializer

namespace Manifest

/-- The line that starts a document. -/
def documentMark : String := "---\n"

/-- The line that opens the fence. -/
def fenceOpen : String := "\x60\x60\x60yaml\n"

/-- What closes the fence. -/
def fenceClose : String := "\x60\x60\x60"

/-- Documents between the lines of a fence. -/
def fenced (texts : List String) : String :=
  fenceOpen ++ String.join (texts.map (documentMark ++ ·)) ++ fenceClose

/-- The text of a plan. -/
def text (m : Manifest) (h : Handling) (s : Serializer) :
    Except DocumentError String × Serializer :=
  match s.writeAll m.documents with
  | (.error e, s) => (.error e, s)
  | (.ok texts, s) => (.ok (m.instructions h ++ "\n" ++ fenced texts), s)

end Manifest

end BundlePlan
