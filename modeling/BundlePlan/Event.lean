/-!
# Events

What a program asks of the outside world and tells it, in order: the questions to the
configuration of the clusters, to the user and to a cluster, and the messages on the console.
-/

namespace BundlePlan

/-- The name of a context. Configurations normally have texts here, but do not have to. -/
inductive ContextName where
  | text (s : String)
  | int (n : Int)
  | bool (b : Bool)
  deriving DecidableEq, Repr

/-- The name as text. -/
def ContextName.toText : ContextName → String
  | text s => s
  | int n => toString n
  | bool b => if b then "True" else "False"

/-- One thing that was asked or told. -/
inductive Event where
  /-- The contexts were listed. -/
  | contexts
  /-- The user was asked to choose one of the contexts. -/
  | select (prompt : String) (names : List ContextName)
  /-- The configuration of a context was loaded. -/
  | load (context : String)
  /-- The namespaces of the cluster were listed. -/
  | list
  /-- A message was printed. -/
  | print (message : String)
  /-- A message was shown while something was done. -/
  | status (message : String)
  deriving DecidableEq, Repr

end BundlePlan
