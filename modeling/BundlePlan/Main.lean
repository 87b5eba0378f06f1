import BundlePlan.CommandLine.Run
import BundlePlan.Markup.Reading

/-!
# The program

Reads the command line, the environment variables that describe the cluster and, if the context
is to be chosen, a line of the standard input; everything else is `CommandLine.run`.

`BUNDLE_PLAN_CONTEXTS` holds the names of the contexts, the current one first, and
`BUNDLE_PLAN_NAMESPACES` the names of the namespaces in the cluster, one name in each line.
-/

namespace BundlePlan.Main

/-- The lines of an environment variable that are not empty. -/
def variableLines (name : String) : IO (Option (List String)) := do
  let value ← IO.getEnv name
  return value.map fun v => (v.splitOn "\n").filter (· != "")

/-- Asks for a context. -/
def askContext (names : List String) : IO (Option String) := do
  IO.eprintln s!"? {Cluster.contextPrompt}"
  for name in names do IO.eprintln s!"> {name}"
  let line ← (← IO.getStdin).getLine
  let answer := line.trimAsciiEnd.toString
  return if names.contains answer then some answer else none

/-- What the environment variables and the user say about the cluster. -/
def environment (asks : Bool) : IO Environment := do
  let names ← variableLines "BUNDLE_PLAN_CONTEXTS"
  let namespaces ← variableLines "BUNDLE_PLAN_NAMESPACES"
  let contexts := names.getD []
  let contextsError :=
    if contexts.isEmpty then some "Invalid kube-config file. No configuration found." else none
  let answer ← if asks && contextsError.isNone then askContext contexts else pure none
  return {
    contexts := contexts.map .text
    current := .text (contexts.headD "")
    contextsError
    answer
    namespaces := (namespaces.getD []).map some }

/-- Numbers for random names. -/
def randomness : IO Randomness := do
  let bytes ← IO.getRandomBytes (8 * Randomness.namespaceSuffixLength.toUSize)
  return .cycling ((List.range Randomness.namespaceSuffixLength).map fun i =>
    ((bytes.toList.drop (8 * i)).take 8).foldl (fun n b => 256 * n + b.toNat) 0)

/-- Shows the messages on the console. -/
def showEvents (events : List Event) : IO Unit := do
  for event in events do
    match event with
    | .print message | .status message => IO.eprintln (Markup.plainText message)
    | _ => pure ()

end BundlePlan.Main

open BundlePlan in
/-- Runs the program. -/
def main (arguments : List String) : IO UInt32 := do
  let env ← Main.environment (CommandLine.selectsContext arguments)
  let result := CommandLine.run env (← Main.randomness) {} arguments
  Main.showEvents result.events
  IO.eprint result.stderr
  IO.print result.stdout
  return result.exitCode.toUInt32
