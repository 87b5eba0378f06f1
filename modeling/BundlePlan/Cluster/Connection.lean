import BundlePlan.Cluster.Environment
import BundlePlan.Markup.Message
import BundlePlan.Text.Quoted

/-!
# Clusters

A `Cluster` is a context whose configuration has been loaded. `Cluster.connect` makes one: it
lists the contexts, takes the current one or asks the user for one, and loads its configuration.
`Cluster.namespaceExists` asks the cluster for a namespace. Both give their result together with
the events on the way.
-/

namespace BundlePlan

/-- A cluster that can be asked. -/
structure Cluster where
  /-- The name of its context. -/
  context : String
  deriving DecidableEq, Repr

/-- Why there is no connection to a cluster. -/
inductive ConnectError where
  /-- The contexts could not be listed. -/
  | noContexts (cause : String)
  /-- The configuration of the context could not be loaded. -/
  | loadFailed (context cause : String)
  /-- The user chose no context. -/
  | cancelled
  deriving DecidableEq, Repr

/-- The wording of an error; a cancelled choice has none. -/
def ConnectError.message : ConnectError → String
  | noContexts cause => s!"Invalid or missing kubeconfig: {cause}"
  | loadFailed context cause => s!"Failed to load context {Text.quoted context}: {cause}"
  | cancelled => ""

namespace Cluster

/-- The question for a context. -/
def contextPrompt : String := "Select context to plan the must-gather for"

/-- The message about the context that is used. -/
def contextMessage (context : String) : String :=
  Markup.message .action s!"Working with {Markup.highlight (Markup.escape context)} cluster"

/-- The message about a choice that was cancelled. -/
def cancelledMessage : String := Markup.message .warning "Context selection cancelled."

/-- Loads the configuration of a context that has been chosen. -/
def load (env : Environment) (context : String) : Except ConnectError Cluster × List Event :=
  let events := [.print (contextMessage context), .load context]
  match env.loadError with
  | some cause => (.error (.loadFailed context cause), events)
  | none => (.ok ⟨context⟩, events)

/-- Asks the user for a context. -/
def choose (env : Environment) : Except ConnectError Cluster × List Event :=
  let asked := Event.select contextPrompt env.contexts
  match env.answer with
  | none => (.error .cancelled, [asked, .print cancelledMessage])
  | some context =>
    let (result, events) := load env context
    (result, asked :: events)

/-- Connects to the cluster of the current context, or of one that the user chooses. -/
def connect (env : Environment) (selects : Bool) : Except ConnectError Cluster × List Event :=
  match env.contextsError with
  | some cause => (.error (.noContexts cause), [.contexts])
  | none =>
    let (result, events) := if selects then choose env else load env env.current.toText
    (result, .contexts :: events)

/-- Whether a namespace exists. Listing the namespaces is an event even if it fails. -/
def namespaceExists (env : Environment) (name : String) :
    Except QueryError Bool × List Event :=
  match env.queryError with
  | some e => (.error e, [.list])
  | none => (.ok (env.namespaces.contains (some name)), [.list])

/-- The cluster as it is shown to a developer. -/
def describe (c : Cluster) : String := s!"Cluster(context={Text.quoted c.context})"

end Cluster

end BundlePlan
