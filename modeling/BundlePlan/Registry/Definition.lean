import BundlePlan.Request.Arguments
import BundlePlan.Request.Config
import BundlePlan.Value.Basic

/-!
# The definition of the tool

What a registry of tools publishes about the planner: its name, what it does, the schema of its
arguments and hints about its effects.
-/

namespace BundlePlan

namespace Parameter

/-- The parameters that the tool announces, in order. -/
def announced : List Parameter :=
  [nodeName, nodeSelector, hostNetwork, gatherCommand, allComponentImages, images, sourceDir,
    timeout, namespaceName, keepNamespace, since]

/-- What a parameter is for; nothing is said about one that is not announced. -/
def purpose : Parameter → String
  | nodeName =>
    "Optional node to run the mustgather pod. "
      ++ "If not provided, a random control-plane node will be selected automatically"
  | nodeSelector =>
    "Optional node label selector to use, only relevant when specifying a command and "
      ++ "image which needs to capture data on a set of cluster nodes simultaneously"
  | hostNetwork =>
    "Optionally run the must-gather pods in the host network of the node. "
      ++ "This is only relevant if a specific gather image needs to capture host-level data"
  | gatherCommand =>
    "Optionally specify a custom gather command to run a specialized script, "
      ++ "eg. /usr/bin/gather_audit_logs"
  | allComponentImages =>
    "Optional when enabled, collects and runs multiple must gathers for all operators and "
      ++ "components on the cluster that have an annotated must-gather image available"
  | images =>
    "Optional list of images to use for gathering custom information about specific "
      ++ "operators or cluster components. If not specified, OpenShift's default must-gather image "
      ++ "will be used by default"
  | sourceDir =>
    "Optional to set a specific directory where the pod will copy gathered data from"
  | timeout => "Timeout of the gather process eg. 30s, 6m20s, or 2h10m30s"
  | namespaceName =>
    "Optional to specify an existing privileged namespace where must-gather pods should "
      ++ "run. If not provided, a temporary namespace will be created"
  | keepNamespace =>
    "Optional to retain all temporary resources when the mustgather completes, "
      ++ "otherwise temporary resources created will be cleaned up"
  | since =>
    "Optional to collect logs newer than a relative duration like 5s, 2m5s, or 3h6m10s. "
      ++ "If unspecified, all available logs will be collected"
  | imageStream => ""

/-- The default that is announced for a parameter. -/
def announcedDefault? : Parameter → Option String
  | gatherCommand => some defaultGatherCommand
  | sourceDir => some defaultSourceDir
  | timeout => some defaultTimeout
  | _ => none

end Parameter

/-- The name of a kind in the schema. -/
def ParameterKind.schemaType : ParameterKind → String
  | text => "string"
  | flag => "boolean"
  | texts => "array"

/-- The schema of the items of a kind, for lists. -/
def ParameterKind.schemaItems : ParameterKind → List (String × Value)
  | texts => [("items", .mapping [("type", .text "string")])]
  | _ => []

/-- The schema of a parameter. -/
def Parameter.schema (p : Parameter) : Value :=
  .mapping (
    [("type", .text p.kind.schemaType), ("description", .text p.purpose)]
      ++ (p.announcedDefault?.map fun d => ("default", Value.text d)).toList
      ++ p.kind.schemaItems)

namespace Registry

/-- The schema of the arguments. -/
def inputSchema : Value :=
  .mapping [("type", .text "object"),
    ("properties", .mapping (Parameter.announced.map fun p => (p.name, p.schema)))]

/-- Hints about the effects of the tool. -/
def annotations : Value :=
  .mapping [("title", .text "MustGather: Plan"), ("readOnlyHint", .bool true),
    ("destructiveHint", .bool false), ("idempotentHint", .bool false),
    ("openWorldHint", .bool true)]

/-- The definition of the tool. -/
def definition : Value :=
  .mapping [("name", .text "plan_mustgather"),
    ("description", .text (
      "Plan for collecting a must-gather archive from an OpenShift cluster, "
        ++ "must-gather is a tool for collecting cluster data related to debugging and "
        ++ "troubleshooting like logs, kubernetes resources, etc.")),
    ("inputSchema", inputSchema),
    ("annotations", annotations)]

end Registry

end BundlePlan
