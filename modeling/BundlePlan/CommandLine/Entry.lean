import BundlePlan.CommandLine.Occurrence
import BundlePlan.Registry.Definition

/-!
# Writing a request on a command line

The other direction of reading: an `Entry` is one option for a parameter in one of the forms in
which it can be written, and `Entry.arguments` says what a line of such options asks for. An option
is called like its parameter, with dashes for the underscores; images are given one at a time.
-/

namespace BundlePlan

namespace Parameter

/-- All parameters. -/
def all : List Parameter := announced ++ [imageStream]

/-- The name of the option for a parameter. -/
def optionName : Parameter → String
  | images => "--image"
  | p => String.ofList ('-' :: '-' :: p.name.toList.map fun c => if c = '_' then '-' else c)

/-- The letter of the option for a parameter. -/
def optionLetter? : Parameter → Option Char
  | namespaceName => some 'n'
  | images => some 'i'
  | _ => none

end Parameter

namespace CommandLine

/-- One option for a parameter, as it is written. -/
inductive Entry where
  /-- The name, and the value as the next argument. -/
  | separate (p : Parameter) (value : String) (h : p.kind ≠ .flag)
  /-- The name and the value, joined by an equals sign. -/
  | joined (p : Parameter) (value : String) (h : p.kind ≠ .flag)
  /-- The letter, and the value as the next argument. -/
  | letter (p : Parameter) (c : Char) (value : String) (h : p.optionLetter? = some c)
  /-- The letter and right after it the value, which is not empty. -/
  | attached (p : Parameter) (c : Char) (value : String) (h : p.optionLetter? = some c)
    (hvalue : value ≠ "")
  /-- The name of a flag. -/
  | flag (p : Parameter) (h : p.kind = .flag)

namespace Entry

/-- The arguments that the option takes up on the line. -/
def words : Entry → List String
  | separate p value _ => [p.optionName, value]
  | joined p value _ => [p.optionName ++ "=" ++ value]
  | letter _ c value _ => [String.ofList ['-', c], value]
  | attached _ c value _ _ => [String.ofList ('-' :: c :: value.toList)]
  | flag p _ => [p.optionName]

/-- The parameter that the option is for. -/
def parameter : Entry → Parameter
  | separate p .. | joined p .. | letter p .. | attached p .. | flag p _ => p

/-- The value that is given. -/
def value? : Entry → Option String
  | separate _ value _ | joined _ value _ | letter _ _ value _ | attached _ _ value _ _ =>
    some value
  | flag .. => none

/-- The values that are given for a parameter, in order. -/
def values (entries : List Entry) (p : Parameter) : List String :=
  entries.filterMap fun e => if e.parameter = p then e.value? else none

/-- What is asked for by the options for a parameter: the last text, all texts of a list, true for
a flag; nothing without such an option. -/
def argument? (entries : List Entry) (p : Parameter) : Option Argument :=
  match p.kind with
  | .text => (values entries p).getLast?.map .text
  | .texts => if values entries p = [] then none else some (.list ((values entries p).map .text))
  | .flag => if entries.any (·.parameter = p) then some (.bool true) else none

/-- The arguments that a line of options asks for. -/
def arguments (entries : List Entry) : Arguments :=
  Parameter.all.filterMap fun p => (argument? entries p).map (p.name, ·)

end Entry

end CommandLine

end BundlePlan
