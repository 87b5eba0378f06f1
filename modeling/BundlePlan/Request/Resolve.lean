import BundlePlan.Command.Argv
import BundlePlan.Duration.Limit
import BundlePlan.Path
import BundlePlan.RandomName
import BundlePlan.Request.Arguments
import BundlePlan.Request.Config

/-!
# From arguments to a configuration

`resolve` checks the arguments of a request and fills in what is missing. It works in two steps:
`Placement.ofArguments` reads where the plan belongs, `Placement.config` reads all the rest.
Between them a namespace name is drawn if none was asked for, so the drawn characters are used up
even if the second step finds a fault. The first fault in the order of the steps is reported.
-/

namespace BundlePlan

/-- Why the arguments of a request are refused. -/
inductive RequestError where
  /-- A parameter has a value of the wrong kind. -/
  | kind (parameter : Parameter) (cause : KindError)
  /-- A parameter that is no longer supported has a value. -/
  | imageStream
  /-- A parameter is not a time limit. -/
  | duration (parameter : Parameter) (value : String) (cause : Duration.LimitError)
  /-- The gather command is no command. -/
  | command (cause : Command.ArgvError)

/-- The wording of an error. -/
def RequestError.message : RequestError → String
  | kind parameter cause => cause.message parameter.name
  | imageStream =>
    "the image_stream parameter is not supported, please use the images parameter instead"
  | duration parameter value cause => cause.message parameter.name value
  | command cause => cause.message

namespace Request

/-- The text of a parameter, where the empty text counts as not set. -/
def nonEmpty : Option String → Option String
  | some s => if s = "" then none else some s
  | none => none

/-- The text that a parameter has, if it is set. -/
def text? (args : Arguments) (p : Parameter) : Except RequestError (Option String) :=
  (p.text? args).mapError (.kind p)

/-- Whether a parameter is set to true. -/
def flag (args : Arguments) (p : Parameter) : Except RequestError Bool :=
  ((p.flag? args).mapError (.kind p)).map (·.getD false)

/-- The texts of a parameter, none if it is not set. -/
def texts (args : Arguments) (p : Parameter) : Except RequestError (List String) :=
  ((p.texts? args).mapError (.kind p)).map (·.getD [])

/-- The seconds of a time limit, if it is set. -/
def limit? (p : Parameter) : Option String → Except RequestError (Option String)
  | none => .ok none
  | some value => ((Duration.limitSeconds value).mapError (.duration p value)).map some

/-- A command line, ended after a number of seconds if there is a limit. -/
def limitedCommand (seconds : Option String) (command : String) : String :=
  match seconds with
  | none => command
  | some seconds => s!"{timeoutCommand} {seconds} {command}"

end Request

open Request

/-- Where a plan belongs. -/
structure Placement where
  /-- The labels of the nodes that the pod may run on. -/
  nodeSelector : Labels
  /-- The directory that the gather containers write to. -/
  sourceDir : String
  /-- The namespace that was asked for. -/
  namespaceName : Option String

namespace Placement

/-- Reads where a plan belongs. -/
def ofArguments (args : Arguments) : Except RequestError Placement := do
  if (nonEmpty (← text? args .imageStream)).isSome then throw .imageStream
  let selector ← text? args .nodeSelector
  let sourceDir ← text? args .sourceDir
  let namespaceName ← text? args .namespaceName
  return {
    nodeSelector := ((nonEmpty selector).map Labels.ofSelector).getD Labels.empty
    sourceDir := Path.normalize ((nonEmpty sourceDir).getD defaultSourceDir)
    namespaceName := nonEmpty namespaceName }

/-- The namespace of the plan: the one that was asked for or a fresh one. -/
def chooseNamespace (p : Placement) (r : Randomness) : String × Randomness :=
  match p.namespaceName with
  | some name => (name, r)
  | none => r.namespaceName

/-- Reads the rest of the arguments, for a plan in a given namespace. -/
def config (p : Placement) (namespaceName : String) (args : Arguments) :
    Except RequestError Config := do
  let asked ← text? args .gatherCommand
  let images ← texts args .images
  let timeout ← text? args .timeout
  let seconds ← limit? .timeout timeout
  let gatherCommand := limitedCommand seconds ((nonEmpty asked).getD defaultGatherCommand)
  let command ← (Command.argv gatherCommand).mapError .command
  let since ← text? args .since
  let _ ← limit? .since since
  let nodeName ← text? args .nodeName
  let hostNetwork ← flag args .hostNetwork
  let keepNamespace ← flag args .keepNamespace
  let allComponentImages ← flag args .allComponentImages
  return {
    namespaceName, gatherCommand, command, images, timeout, since, hostNetwork, keepNamespace,
    allComponentImages
    sourceDir := p.sourceDir
    nodeName := nonEmpty nodeName
    nodeSelector := p.nodeSelector }

end Placement

/-- The configuration that the arguments of a request ask for. -/
def resolve (args : Arguments) (r : Randomness) : Except RequestError Config × Randomness :=
  match Placement.ofArguments args with
  | .error e => (.error e, r)
  | .ok placement =>
    let (namespaceName, r) := placement.chooseNamespace r
    (placement.config namespaceName args, r)

end BundlePlan
