/-!
# Arguments of a request

A request names its parameters and gives each a value of any kind. `Argument` is such a value,
`Parameter` lists the parameters that are understood, each with its name and the kind of value
that it takes, and the readers `text?`, `flag?` and `texts?` give the value of a parameter or say
that it has the wrong kind. A missing parameter and one with the value null are the same.
-/

namespace BundlePlan

/-- The value of a parameter as it was given. -/
inductive Argument where
  /-- No value. -/
  | null
  /-- A truth value. -/
  | bool (b : Bool)
  /-- An integer. -/
  | int (n : Int)
  /-- A number with a fraction or an exponent, as written. -/
  | decimal (written : String)
  /-- A text. -/
  | text (s : String)
  /-- Values in a row. -/
  | list (items : List Argument)
  /-- Values under keys. -/
  | mapping (entries : List (String × Argument))
  deriving Inhabited

/-- The values of a request by the names of their parameters. -/
abbrev Arguments := List (String × Argument)

/-- The kinds of value that a parameter can take. -/
inductive ParameterKind where
  | text
  | flag
  | texts
  deriving DecidableEq, Repr

/-- The parameters of a request. -/
inductive Parameter where
  | nodeName
  | nodeSelector
  | hostNetwork
  | gatherCommand
  | allComponentImages
  | images
  | sourceDir
  | timeout
  | namespaceName
  | keepNamespace
  | since
  | imageStream
  deriving DecidableEq, Repr

/-- Why a value cannot be that of a parameter. -/
inductive KindError where
  /-- The value is of another kind, which is named. -/
  | wrongKind (expected : ParameterKind) (found : String)
  /-- The value is a list, but not all of its items are texts. -/
  | itemNotText
  deriving DecidableEq, Repr

/-- The name of a kind in messages. -/
def ParameterKind.description : ParameterKind → String
  | text => "a string"
  | flag => "a boolean"
  | texts => "a list of strings"

/-- The wording of an error about the value of a named parameter. -/
def KindError.message (name : String) : KindError → String
  | wrongKind expected found => s!"{name} must be {expected.description}, got {found}"
  | itemNotText => s!"{name} must be {ParameterKind.texts.description}"

namespace Argument

/-- The name of a value's kind in messages. -/
def kindName : Argument → String
  | null => "NoneType"
  | bool _ => "bool"
  | int _ => "int"
  | decimal _ => "float"
  | text _ => "str"
  | list _ => "list"
  | mapping _ => "dict"

/-- The text that a value is, if it is one. -/
def text? : Argument → Option String
  | text s => some s
  | _ => none

/-- All texts of a list, if its items are texts. -/
def texts? : List Argument → Option (List String)
  | [] => some []
  | item :: items =>
    match item.text?, texts? items with
    | some s, some ss => some (s :: ss)
    | _, _ => none

end Argument

namespace Parameter

/-- The name of a parameter in a request. -/
def name : Parameter → String
  | nodeName => "node_name"
  | nodeSelector => "node_selector"
  | hostNetwork => "host_network"
  | gatherCommand => "gather_command"
  | allComponentImages => "all_component_images"
  | images => "images"
  | sourceDir => "source_dir"
  | timeout => "timeout"
  | namespaceName => "namespace"
  | keepNamespace => "keep_namespace"
  | since => "since"
  | imageStream => "image_stream"

/-- The kind of value that a parameter takes. -/
def kind : Parameter → ParameterKind
  | hostNetwork | allComponentImages | keepNamespace => .flag
  | images => .texts
  | _ => .text

/-- The value of a parameter, if it has one other than null. -/
def value? (p : Parameter) (args : Arguments) : Option Argument :=
  match args.lookup p.name with
  | some .null => none
  | found => found

/-- The text that a parameter has, if it is set. -/
def text? (p : Parameter) (args : Arguments) : Except KindError (Option String) :=
  match p.value? args with
  | none => .ok none
  | some (.text s) => .ok (some s)
  | some v => .error (.wrongKind .text v.kindName)

/-- The truth value that a parameter has, if it is set. -/
def flag? (p : Parameter) (args : Arguments) : Except KindError (Option Bool) :=
  match p.value? args with
  | none => .ok none
  | some (.bool b) => .ok (some b)
  | some v => .error (.wrongKind .flag v.kindName)

/-- The texts that a parameter has, if it is set. -/
def texts? (p : Parameter) (args : Arguments) : Except KindError (Option (List String)) :=
  match p.value? args with
  | none => .ok none
  | some (.list items) =>
    match Argument.texts? items with
    | some ss => .ok (some ss)
    | none => .error .itemNotText
  | some v => .error (.wrongKind .texts v.kindName)

end Parameter

end BundlePlan
