import BundlePlan.Manifest.Basic

/-!
# Instructions

The comment lines that come before the resources of a plan and say how to use them: how to
create the resources, follow the logs, copy the results and, unless the resources are to be
kept, delete them.
-/

namespace BundlePlan

/-- What the instructions depend on besides the resources. -/
structure Handling where
  /-- Whether the resources are kept. -/
  keepNamespace : Bool
  /-- The directory that the gather containers write to. -/
  sourceDir : String
  deriving DecidableEq, Repr

namespace Manifest

/-- The file that a plan is saved to. -/
def planFile : String := "must-gather-plan.yaml"

/-- The directory that results are copied to. -/
def resultsDir : String := "./must-gather-output"

/-- How to follow the logs of one gather container. -/
def logsLine (namespaceName container : String) : String :=
  s!"# kubectl logs -f -n {namespaceName} <pod-name> -c {container}"

/-- How to delete the resources. -/
def cleanupLines (m : Manifest) : List String :=
  ["# Finally, clean up the resources with:",
    s!"# kubectl delete ns {m.namespaceName}",
    s!"# kubectl delete clusterrolebinding {m.roleBinding.name}"]

/-- The instructions, one text for each line. -/
def instructionLines (m : Manifest) (h : Handling) : List String :=
  [s!"# Save the following content to a file (e.g., {planFile}) "
      ++ s!"and apply it with 'kubectl create -f {planFile}'",
    "# Monitor the pod's logs to see when the must-gather process is complete:"]
    ++ m.gatherNames.map (logsLine m.namespaceName)
    ++ [s!"# The gather containers write to {h.sourceDir}, "
        ++ s!"the {waitName} container exposes the same volume at {waitPath}",
      "# Once the logs indicate completion, copy the results with:",
      s!"# kubectl cp -n {m.namespaceName} <pod-name>:{waitPath} {resultsDir} -c {waitName}"]
    ++ if h.keepNamespace then [] else m.cleanupLines

/-- The instructions, every line ended. -/
def instructions (m : Manifest) (h : Handling) : String :=
  String.join ((m.instructionLines h).map (· ++ "\n"))

end Manifest

end BundlePlan
