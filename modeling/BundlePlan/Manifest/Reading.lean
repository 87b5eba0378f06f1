import BundlePlan.Manifest.Text
import BundlePlan.Yaml.Reading.Document

/-!
# Reading plans

What is found in the text of a plan by someone who has only the text: the header, which ends at
the first empty line, with the commands in it that delete something, and the documents between the
lines of the fence, with the resources that they describe.
-/

namespace BundlePlan

namespace Value

/-- The value under a key, the first if there are several. -/
def field? (key : String) : Value → Option Value
  | mapping entries => entries.lookup key
  | _ => none

/-- The text that a value is, if it is one. -/
def text? : Value → Option String
  | text s => some s
  | _ => none

/-- The kind and the name of the resource that a value describes, if it has both. -/
def resource? (v : Value) : Option (String × String) :=
  ((v.field? "kind").bind text?).bind fun kind =>
    (((v.field? "metadata").bind (field? "name")).bind text?).map fun name => (kind, name)

end Value

namespace PlanText

/-- The lines of a text. -/
def lines (t : String) : List (List Char) := Text.pieces '\n' t.toList

/-- Lines as a text, every line ended. -/
def unlines (ls : List (List Char)) : String := String.ofList (ls.flatMap (· ++ ['\n']))

/-! ### Documents -/

/-- The line that opens the fence. -/
def openLine : List Char := "\x60\x60\x60yaml".toList

/-- The line that closes the fence. -/
def closeLine : List Char := "\x60\x60\x60".toList

/-- The line before a document. -/
def markLine : List Char := "---".toList

/-- The lines after the first that opens the fence, up to the last line, which has to close it. -/
def fencedLines? (t : String) : Option (List (List Char)) :=
  match (lines t).dropWhile (· != openLine) with
  | [] => none
  | _ :: rest => if rest.getLast? = some closeLine then some rest.dropLast else none

/-- The documents between the lines of the fence, each after a mark. -/
def documentTexts? (t : String) : Option (List String) :=
  match (fencedLines? t).map (List.splitOn markLine) with
  | some ([] :: documents) => some (documents.map unlines)
  | _ => none

/-- The resources that are described, each with its kind and its name. -/
def resources (t : String) : List (String × String) :=
  ((documentTexts? t).getD []).filterMap fun d => (Yaml.read d).bind Value.resource?

/-! ### Header -/

/-- Whether a line is a comment. -/
def IsComment (line : List Char) : Prop := ['#', ' '] <+: line

instance (line : List Char) : Decidable (IsComment line) :=
  inferInstanceAs (Decidable (['#', ' '] <+: line))

/-- The lines before the first empty one. -/
def header (t : String) : List (List Char) := (lines t).takeWhile (· != [])

/-- How a comment starts that gives a command to delete something. -/
def deleteStart : List Char := "# kubectl delete ".toList

/-- The words for kinds of resources in commands. -/
def kindWords : List (List Char × String) :=
  [("ns".toList, "Namespace"), ("clusterrolebinding".toList, "ClusterRoleBinding")]

/-- The kind and the name of the resource that a line says how to delete. -/
def deletion? (line : List Char) : Option (String × String) :=
  if deleteStart <+: line then
    (Text.cutFirst ' ' (line.drop deleteStart.length)).map fun (word, name) =>
      ((kindWords.lookup word).getD (String.ofList word), String.ofList name)
  else none

/-- The resources that the header says how to delete. -/
def deletions (t : String) : List (String × String) := (header t).filterMap deletion?

end PlanText

end BundlePlan
