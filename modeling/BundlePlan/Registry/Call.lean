import BundlePlan.Planning.Plan

/-!
# Calls of the tool

A call of the tool is answered by a planner of its own, which uses the current context. The
caller can also make the connection to the cluster beforehand and hand it over.
-/

namespace BundlePlan.Registry

/-- A planner for one call in a given world. -/
def planner (env : Environment) (r : Randomness) (s : Serializer) (cluster : Option Cluster) :
    Planner where
  selectsContext := false
  environment := env
  randomness := r
  serializer := s
  cluster := cluster

/-- Answers a call. -/
def call (env : Environment) (r : Randomness) (s : Serializer) (cluster : Option Cluster)
    (args : Arguments) : Outcome PlanResult :=
  (planner env r s cluster).plan args

/-- Answers a call on a connection that is made first. -/
def callConnected (env : Environment) (r : Randomness) (s : Serializer) (args : Arguments) :
    Outcome PlanResult :=
  match Cluster.connect env false with
  | (.error e, events) => ⟨.error (.connect e), planner env r s none, events⟩
  | (.ok cluster, events) =>
    match call env r s (some cluster) args with
    | ⟨result, p, more⟩ => ⟨result, p, events ++ more⟩

end BundlePlan.Registry
