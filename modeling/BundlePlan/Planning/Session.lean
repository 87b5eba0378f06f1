import BundlePlan.Planning.Plan

/-!
# Sessions

A session is a sequence of steps that one planner goes through: requests, questions, and changes
of the world around it. A step that ends without an answer does not end the session.
-/

namespace BundlePlan

/-- A step of a session. -/
inductive Step where
  /-- A request for a plan. -/
  | plan (args : Arguments)
  /-- The question whether a namespace exists. -/
  | namespaceExists (name : String)
  /-- The question for the cluster. -/
  | cluster
  /-- The world changes. -/
  | world (env : Environment)

/-- The answer to a step. -/
inductive Answer where
  | plan (result : PlanResult)
  | namespaceExists (found : Bool)
  | cluster (c : Cluster)
  | world

namespace Outcome

/-- The outcome with another form of its answer. -/
def map {α β : Type} (f : α → β) (o : Outcome α) : Outcome β :=
  ⟨o.result.map f, o.planner, o.events⟩

end Outcome

namespace Planner

/-- Goes through one step. -/
def step (p : Planner) : Step → Outcome Answer
  | .plan args => (p.plan args).map .plan
  | .namespaceExists name => (p.namespaceExists name).map .namespaceExists
  | .cluster => p.connected.map .cluster
  | .world env => ⟨.ok .world, { p with environment := env }, []⟩

/-- Goes through the steps of a session. -/
def session (p : Planner) : List Step → List (Outcome Answer)
  | [] => []
  | step :: steps =>
    let outcome := p.step step
    outcome :: outcome.planner.session steps

end Planner

end BundlePlan
