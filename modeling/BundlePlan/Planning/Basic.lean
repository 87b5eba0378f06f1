import BundlePlan.Cluster.Connection
import BundlePlan.Manifest.Text
import BundlePlan.Request.Resolve

/-!
# Planners

A planner answers requests one after the other. It connects to a cluster when it first needs
one and keeps the connection. This module has its state, the ways in which it can fail, and
`Outcome`, what one step of it leads to.

A step can end in two ways without a plan. A request that is refused and a cluster that does not
answer are answers of their own, `PlanFailure`; everything else that goes wrong ends the step
with a `PlannerError`.
-/

namespace BundlePlan

/-- The state of a planner and of the world around it. -/
structure Planner where
  /-- Whether the user chooses the context. -/
  selectsContext : Bool
  /-- What the outside world answers. -/
  environment : Environment
  /-- The source of random names. -/
  randomness : Randomness
  /-- What writes the documents. -/
  serializer : Serializer
  /-- The cluster, once the planner has connected to it. -/
  cluster : Option Cluster := none

/-- Why a step ends without an answer. -/
inductive PlannerError where
  /-- There is no connection to a cluster. -/
  | connect (cause : ConnectError)
  /-- The cluster did not answer. -/
  | query (cause : QueryError)
  /-- A document could not be written. -/
  | render (cause : DocumentError)
  deriving DecidableEq, Repr

/-- The wording of an error. -/
def PlannerError.message : PlannerError → String
  | connect cause => cause.message
  | query cause => cause.message
  | render cause => cause.message

/-- Why a request is answered without a plan. -/
inductive PlanFailure where
  /-- The arguments are refused. -/
  | request (cause : RequestError)
  /-- The cluster did not answer. -/
  | query (cause : QueryError)

/-- The wording of a failure. -/
def PlanFailure.message : PlanFailure → String
  | request cause => cause.message
  | query cause => cause.message

/-- The answer to a request: the text of a plan, or why there is none. -/
abbrev PlanResult := Except PlanFailure String

/-- What a step of the planner leads to. -/
structure Outcome (α : Type) where
  /-- The answer, or why the step ended without one. -/
  result : Except PlannerError α
  /-- The state afterwards. -/
  planner : Planner
  /-- The events on the way. -/
  events : List Event

end BundlePlan
