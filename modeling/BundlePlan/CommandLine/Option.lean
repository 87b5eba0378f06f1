import BundlePlan.Request.Arguments

/-!
# Options of the command line

The options are five of the program itself and one for each parameter of a request. An option
has a long name, some have a short one, and an option either takes a value or is a flag.
-/

namespace BundlePlan.CommandLine

/-- An option of the command line. -/
inductive CommandOption where
  /-- Prints the version. -/
  | version
  /-- Prints more about what is done. -/
  | debug
  /-- Lets the user choose the context. -/
  | select
  /-- Prints the definition of the tool. -/
  | schema
  /-- Prints how the program is used. -/
  | help
  /-- Sets a parameter of the request. -/
  | parameter (p : Parameter)
  deriving DecidableEq, Repr

namespace CommandOption

/-- All options, in the order in which they are explained. -/
def all : List CommandOption :=
  [version, debug, select, schema, parameter .nodeName, parameter .nodeSelector,
    parameter .hostNetwork, parameter .gatherCommand, parameter .allComponentImages,
    parameter .images, parameter .sourceDir, parameter .timeout, parameter .namespaceName,
    parameter .keepNamespace, parameter .since, parameter .imageStream, help]

/-- The long name with its dashes. -/
def longName : CommandOption → String
  | version => "--version"
  | debug => "--debug"
  | select => "--select"
  | schema => "--schema"
  | help => "--help"
  | parameter .nodeName => "--node-name"
  | parameter .nodeSelector => "--node-selector"
  | parameter .hostNetwork => "--host-network"
  | parameter .gatherCommand => "--gather-command"
  | parameter .allComponentImages => "--all-component-images"
  | parameter .images => "--image"
  | parameter .sourceDir => "--source-dir"
  | parameter .timeout => "--timeout"
  | parameter .namespaceName => "--namespace"
  | parameter .keepNamespace => "--keep-namespace"
  | parameter .since => "--since"
  | parameter .imageStream => "--image-stream"

/-- The letter of the short name. -/
def letter? : CommandOption → Option Char
  | version => some 'v'
  | parameter .images => some 'i'
  | parameter .namespaceName => some 'n'
  | _ => none

/-- Whether the option takes a value. -/
def takesValue : CommandOption → Bool
  | parameter p => p.kind != .flag
  | _ => false

/-- The option with a given long name. -/
def ofLongName? (name : String) : Option CommandOption := all.find? (·.longName == name)

/-- The option with a given letter. -/
def ofLetter? (c : Char) : Option CommandOption := all.find? (·.letter? == some c)

end CommandOption

end BundlePlan.CommandLine
