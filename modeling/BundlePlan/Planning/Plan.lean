import BundlePlan.Planning.Basic

/-!
# Planning a collection

The steps of a planner. A request that is refused never reaches the cluster; one that is
accepted is turned into the text of a plan, in which the namespace is left out if it exists in
the cluster already. Every step is a function from the state of the planner to an `Outcome`.
-/

namespace BundlePlan

namespace Planner

/-- The message about images that cannot be discovered. -/
def discoveryMessage : String :=
  Markup.message .warning (
    "Discovery of images annotated with operators.openshift.io/must-gather-image "
      ++ "is not available yet, only the configured images will be used")

/-- The message that is shown while the cluster is asked for a namespace. -/
def checkingMessage (name : String) : String :=
  Markup.progress s!"Checking for namespace {Markup.escape name}..."

/-- The message about a namespace that exists already. -/
def reusedMessage (name : String) : String :=
  Markup.message .info
    s!"Namespace {Markup.highlight (Markup.escape name)} already exists, it will be reused"

/-- The cluster of the planner, connected to if there is none yet. -/
def connected (p : Planner) : Outcome Cluster :=
  match p.cluster with
  | some c => ⟨.ok c, p, []⟩
  | none =>
    match Cluster.connect p.environment p.selectsContext with
    | (.ok c, events) => ⟨.ok c, { p with cluster := some c }, events⟩
    | (.error e, events) => ⟨.error (.connect e), p, events⟩

/-- Whether a namespace exists in the cluster of the planner. -/
def namespaceExists (p : Planner) (name : String) : Outcome Bool :=
  match p.connected with
  | ⟨.error e, p, events⟩ => ⟨.error e, p, events⟩
  | ⟨.ok _, p, events⟩ =>
    let (answer, more) := Cluster.namespaceExists p.environment name
    ⟨answer.mapError .query, p, events ++ more⟩

/-- Writes the text of a plan whose namespace exists or does not. -/
def render (p : Planner) (c : Config) (found : Bool) : Outcome String :=
  let manifest := Manifest.ofConfig c
  let manifest := if found then manifest.withoutNamespace else manifest
  let events := if found then [Event.print (reusedMessage c.namespaceName)] else []
  let (text, serializer) := manifest.text ⟨c.keepNamespace, c.sourceDir⟩ p.serializer
  ⟨text.mapError .render, { p with serializer }, events⟩

/-- The events before the cluster is asked about a configuration. -/
def announcements (c : Config) : List Event :=
  (if c.allComponentImages then [Event.print discoveryMessage] else [])
    ++ [.status (checkingMessage c.namespaceName)]

/-- Plans a collection with a given configuration. -/
def planConfig (p : Planner) (c : Config) : Outcome PlanResult :=
  match p.namespaceExists c.namespaceName with
  | ⟨.error (.query e), p, events⟩ =>
    ⟨.ok (.error (.query e)), p, announcements c ++ events⟩
  | ⟨.error e, p, events⟩ => ⟨.error e, p, announcements c ++ events⟩
  | ⟨.ok found, p, events⟩ =>
    match p.render c found with
    | ⟨text, p, more⟩ => ⟨text.map .ok, p, announcements c ++ events ++ more⟩

/-- Answers a request. -/
def plan (p : Planner) (args : Arguments) : Outcome PlanResult :=
  let (resolved, randomness) := resolve args p.randomness
  let p := { p with randomness }
  match resolved with
  | .error e => ⟨.ok (.error (.request e)), p, []⟩
  | .ok c => p.planConfig c

end Planner

end BundlePlan
