import BundlePlan.CommandLine.Terminal
import BundlePlan.CommandLine.Usage
import BundlePlan.Planning.Plan
import BundlePlan.Registry.Definition
import BundlePlan.Value.Json

/-!
# The command line program

`run` reads a command line and does what it asks for: it prints the help, the version or the
definition of the tool, or plans a collection with the parameters on the line. The text of a
plan goes to the standard output, messages go to the console, and the exit code is 0 on success,
1 if there is no plan, and 2 if the command line cannot be used.
-/

namespace BundlePlan

/-- Whether an argument says anything: null, false and the empty list do not. -/
def Argument.isGiven : Argument → Bool
  | null => false
  | bool b => b
  | list [] => false
  | _ => true

/-- The arguments that say anything. -/
def Arguments.given (args : Arguments) : Arguments := args.filter (·.2.isGiven)

namespace CommandLine

/-- The version of the program. -/
def version : String := "0.1.0"

/-- What a run of the program leads to. -/
structure RunResult where
  /-- The exit code. -/
  exitCode : Nat
  /-- What was written to the standard output. -/
  stdout : String
  /-- What was written to the standard error output, console messages apart. -/
  stderr : String
  /-- The events on the way, console messages among them. -/
  events : List Event
  deriving DecidableEq, Repr

/-- A run that writes to the standard output. -/
def RunResult.printed (text : String) (events : List Event) : RunResult :=
  ⟨0, captured text, "", events⟩

/-- A run that fails. -/
def RunResult.failed (exitCode : Nat) (stderr : String) (events : List Event) : RunResult :=
  ⟨exitCode, "", captured stderr, events⟩

/-- Whether a flag is on the line. -/
def hasFlag (occurrences : List Occurrence) (o : CommandOption) : Bool :=
  occurrences.contains (.flag o)

/-- The values of an option, in order. -/
def values (occurrences : List Occurrence) (o : CommandOption) : List String :=
  occurrences.filterMap fun
    | .value o' v => if o' = o then some v else none
    | _ => none

/-- The arguments that belong to no option, in order. -/
def extras (occurrences : List Occurrence) : List String :=
  occurrences.filterMap fun
    | .extra a => some a
    | _ => none

/-- What the line says about a parameter: the last value of a text, all values of a list, and
whether a flag is there. -/
def argument (occurrences : List Occurrence) (p : Parameter) : Argument :=
  match p.kind with
  | .text => (((values occurrences (.parameter p)).getLast?).map .text).getD .null
  | .flag => .bool (hasFlag occurrences (.parameter p))
  | .texts => .list ((values occurrences (.parameter p)).map .text)

/-- The parameters that have an option. -/
def optionParameters : List Parameter := Parameter.announced ++ [.imageStream]

/-- What the line says about all parameters. -/
def options (occurrences : List Occurrence) : Arguments :=
  optionParameters.map fun p => (p.name, argument occurrences p)

/-- The request that the line makes. -/
def request (occurrences : List Occurrence) : Arguments := (options occurrences).given

/-- The message after a plan. -/
def doneMessage : String := Markup.message .success "Must-gather plan generated"

/-- The message about a request that has no plan. -/
def failureMessage (failure : PlanFailure) : String :=
  Markup.message .error (Markup.escape failure.message)

/-- The message about a connection that failed. -/
def connectionMessage (e : PlannerError) : String :=
  Markup.message .error s!"Cluster connection failed: {Markup.escape e.message}"

/-- The end of a run that planned a collection. -/
def finish : Outcome PlanResult → RunResult
  | ⟨.ok (.ok text), _, events⟩ =>
    .printed (text ++ "\n") (events ++ [.print doneMessage])
  | ⟨.ok (.error failure), _, events⟩ =>
    .failed 1 "" (events ++ [.print (failureMessage failure)])
  | ⟨.error (.connect .cancelled), _, events⟩ => .failed 1 "Aborted!\n" events
  | ⟨.error (.render e), _, events⟩ => .failed 1 s!"Error: {e.message}\n" events
  | ⟨.error e, _, events⟩ => .failed 1 "" (events ++ [.print (connectionMessage e)])

/-- Whether a line lets the user choose the context. -/
def selectsContext (line : List String) : Bool :=
  match readArguments line with
  | .ok occurrences => hasFlag occurrences .select
  | .error _ => false

/-- A planner for a run in a given world. -/
def planner (env : Environment) (r : Randomness) (s : Serializer)
    (occurrences : List Occurrence) : Planner where
  selectsContext := hasFlag occurrences .select
  environment := env
  randomness := r
  serializer := s

/-- Runs the program on a command line. -/
def run (env : Environment) (r : Randomness) (s : Serializer) (line : List String) : RunResult :=
  match readArguments line with
  | .error e => .failed 2 e.report []
  | .ok occurrences =>
    if hasFlag occurrences .help then .printed helpText []
    else if extras occurrences ≠ [] then
      .failed 2 (UsageError.extraArguments (extras occurrences)).report []
    else if hasFlag occurrences .version then .printed (version ++ "\n") []
    else if hasFlag occurrences .schema then .printed (Registry.definition.json ++ "\n") []
    else finish ((planner env r s occurrences).plan (request occurrences))

end CommandLine

end BundlePlan
