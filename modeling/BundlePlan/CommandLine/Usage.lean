import BundlePlan.CommandLine.Occurrence
import BundlePlan.Text.Quoted

/-!
# Usage

The help text, which explains each option in two columns, and the report of an error in the use
of the command line.
-/

namespace BundlePlan.CommandLine

/-- What an option does; `none` for one that the help does not mention. -/
def CommandOption.explanation? : CommandOption → Option String
  | version => some "print version"
  | debug => some "print debug information"
  | select => some "prompt for context select"
  | schema => some "print the tool definition and exit"
  | help => some "Show this message and exit."
  | parameter .nodeName => some "node to run the must-gather pod on"
  | parameter .nodeSelector => some "node label selector, e.g. key=value,key2=value2"
  | parameter .hostNetwork => some "run the pod in the host network"
  | parameter .gatherCommand => some "gather command to run in each gather container"
  | parameter .allComponentImages => some "gather for all annotated components"
  | parameter .images => some "gather image, may be repeated"
  | parameter .sourceDir => some "directory the gather containers write to"
  | parameter .timeout => some "timeout of the gather process, e.g. 30s or 2h10m30s"
  | parameter .namespaceName => some "existing namespace to run the pod in"
  | parameter .keepNamespace => some "omit the cleanup instructions"
  | parameter .since => some "only collect logs newer than a duration, e.g. 5s"
  | parameter .imageStream => none

/-- How an option is written: its names and whether a value follows. -/
def CommandOption.form (o : CommandOption) : String :=
  (o.letter?.map fun c => String.ofList ['-', c, ',', ' ']).getD "" ++ o.longName
    ++ if o.takesValue then " TEXT" else ""

/-- The line that says how the program is called. -/
def usageLine : String := "Usage: cli [OPTIONS]\n"

/-- How wide the column of the options is. -/
def formWidth : Nat := 24

/-- The line that explains an option. -/
def helpLine (o : CommandOption) (explanation : String) : String :=
  s!"  {o.form}" ++ String.ofList (List.replicate (formWidth - o.form.length) ' ')
    ++ explanation ++ "\n"

/-- The help text. -/
def helpText : String :=
  usageLine ++ "\n  Plan the collection of a must-gather bundle from an OpenShift cluster\n\n"
    ++ "Options:\n"
    ++ String.join (CommandOption.all.filterMap fun o => o.explanation?.map (helpLine o))

namespace UsageError

/-- The wording of an error. -/
def message : UsageError → String
  | unknownOption name => s!"No such option {Text.quoted name}."
  | missingValue name => s!"Option {Text.quoted name} requires an argument."
  | unexpectedValue name => s!"Option {Text.quoted name} does not take a value."
  | extraArguments [argument] => s!"Got unexpected extra argument ({argument})"
  | extraArguments arguments =>
    "Got unexpected extra arguments (" ++ " ".intercalate arguments ++ ")"

/-- Whether the report of an error reminds of the usage. -/
def remindsOfUsage : UsageError → Bool
  | unknownOption _ | extraArguments _ => true
  | missingValue _ | unexpectedValue _ => false

/-- The report of an error. -/
def report (e : UsageError) : String :=
  (if e.remindsOfUsage then usageLine ++ "Try 'cli --help' for help.\n\n" else "")
    ++ s!"Error: {e.message}\n"

end UsageError

end BundlePlan.CommandLine
