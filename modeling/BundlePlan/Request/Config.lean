import BundlePlan.Labels

/-!
# Configurations

What a plan is built from, once every parameter of a request has its value.
-/

namespace BundlePlan

/-- The command that gathers, unless another one is asked for. -/
def defaultGatherCommand : String := "/usr/bin/gather"

/-- The directory that is gathered into, unless another one is asked for. -/
def defaultSourceDir : String := "/must-gather"

/-- The timeout that is announced as the default. -/
def defaultTimeout : String := "10m"

/-- The command that ends another one after a given time. -/
def timeoutCommand : String := "/usr/bin/timeout"

/-- The parameters of a plan. -/
structure Config where
  /-- The namespace of all resources. -/
  namespaceName : String
  /-- The command that each gather container runs, with its time limit. -/
  gatherCommand : String := defaultGatherCommand
  /-- The words of the command. -/
  command : List String := [defaultGatherCommand]
  /-- The directory that the gather containers write to. -/
  sourceDir : String := defaultSourceDir
  /-- The images of the gather containers; none for the default image. -/
  images : List String := []
  /-- The node that the pod is bound to. -/
  nodeName : Option String := none
  /-- The labels of the nodes that the pod may run on. -/
  nodeSelector : Labels := Labels.empty
  /-- Whether the pod uses the network of its node. -/
  hostNetwork : Bool := false
  /-- The time limit as it was asked for. -/
  timeout : Option String := none
  /-- The age of the oldest logs to collect, as it was asked for. -/
  since : Option String := none
  /-- Whether the resources are kept after the collection. -/
  keepNamespace : Bool := false
  /-- Whether the images of all components were asked for. -/
  allComponentImages : Bool := false

/-- The name of the cluster role binding that belongs to a namespace. -/
def roleBindingName (namespaceName : String) : String :=
  "must-gather-collector-" ++ namespaceName

end BundlePlan
