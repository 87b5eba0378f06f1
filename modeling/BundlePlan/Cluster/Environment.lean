import BundlePlan.Event

/-!
# The environment

What the outside world answers when it is asked: the contexts that are configured, the choice of
the user, and the namespaces of the cluster. Each question can fail.
-/

namespace BundlePlan

/-- Why the namespaces of a cluster cannot be listed. -/
inductive QueryError where
  /-- The cluster refused, with a status and a reason where it gave them. -/
  | refused (status : Option Int) (reason : Option String)
  /-- The cluster could not be reached. -/
  | unreachable (reason : String)
  deriving DecidableEq, Repr

/-- The wording of an error. -/
def QueryError.message (e : QueryError) : String :=
  let cause := match e with
    | refused status reason =>
      (status.map toString).getD "None" ++ " " ++ reason.getD "None"
    | unreachable reason => reason
  "failed to list namespaces: " ++ cause

/-- The answers of the outside world. -/
structure Environment where
  /-- The names of the configured contexts. -/
  contexts : List ContextName
  /-- The name of the current context. -/
  current : ContextName
  /-- Why the contexts cannot be listed, if they cannot. -/
  contextsError : Option String := none
  /-- Why the configuration of a context cannot be loaded, if it cannot. -/
  loadError : Option String := none
  /-- The context that the user chooses; none if the choice is cancelled. -/
  answer : Option String := none
  /-- The names of the namespaces in the cluster. -/
  namespaces : List (Option String) := []
  /-- Why the namespaces cannot be listed, if they cannot. -/
  queryError : Option QueryError := none
  deriving DecidableEq, Repr

end BundlePlan
