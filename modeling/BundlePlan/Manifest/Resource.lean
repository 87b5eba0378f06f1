import BundlePlan.Labels
import BundlePlan.Value.Basic

/-!
# Kubernetes resources

The resources that a plan creates, with the fields that a plan sets, and the structured value
that describes each. A field that is not set is left out of the value.
-/

namespace BundlePlan

/-- An environment variable of a container. -/
structure EnvVar where
  name : String
  value : String
  deriving DecidableEq, Repr

/-- A volume at a path of a container. -/
structure VolumeMount where
  /-- The name of the volume. -/
  volume : String
  path : String
  deriving DecidableEq, Repr

/-- A container of a pod. Its image is pulled unless it is there already. -/
structure Container where
  name : String
  image : String
  command : List String
  env : List EnvVar := []
  mounts : List VolumeMount
  deriving DecidableEq, Repr

/-- A pod that runs once, tolerates all taints and has a name that starts with a given text. -/
structure Pod where
  /-- How the name starts that the cluster generates. -/
  nameStem : String
  namespaceName : String
  serviceAccount : String
  nodeName : Option String
  nodeSelector : Labels
  hostNetwork : Bool
  priorityClass : String
  /-- The names of the volumes, which are empty directories at first. -/
  volumes : List String
  containers : List Container

/-- A namespace. -/
structure NamespaceResource where
  name : String
  deriving DecidableEq, Repr

/-- A service account. -/
structure ServiceAccount where
  name : String
  namespaceName : String
  deriving DecidableEq, Repr

/-- A binding of service accounts to a cluster role. -/
structure ClusterRoleBinding where
  name : String
  clusterRole : String
  /-- The accounts that are bound. -/
  subjects : List ServiceAccount
  deriving DecidableEq, Repr

/-- The API group of roles and their bindings. -/
def accessControlGroup : String := "rbac.authorization.k8s.io"

/-- Texts as a list value. -/
def textList (ss : List String) : Value := .list (ss.map .text)

/-- An entry for each value that is there. -/
def optionalEntry (key : String) : Option Value → List (String × Value)
  | none => []
  | some v => [(key, v)]

/-- A list value, if there are items. -/
def nonEmptyList : List Value → Option Value
  | [] => none
  | items => some (.list items)

namespace EnvVar

/-- The description of an environment variable. -/
def toValue (e : EnvVar) : Value := .mapping [("name", .text e.name), ("value", .text e.value)]

end EnvVar

namespace VolumeMount

/-- The description of a mount. -/
def toValue (m : VolumeMount) : Value :=
  .mapping [("mountPath", .text m.path), ("name", .text m.volume)]

end VolumeMount

namespace Container

/-- The description of a container. -/
def toValue (c : Container) : Value :=
  .mapping (
    [("command", textList c.command)]
      ++ optionalEntry "env" (nonEmptyList (c.env.map EnvVar.toValue))
      ++ [("image", .text c.image), ("imagePullPolicy", .text "IfNotPresent"),
        ("name", .text c.name), ("volumeMounts", .list (c.mounts.map VolumeMount.toValue))])

end Container

namespace Labels

/-- The labels as a mapping. -/
def toValue (labels : Labels) : Value :=
  .mapping (labels.entries.map fun (key, value) => (key, .text value))

end Labels

namespace Pod

/-- The description of what a pod runs. -/
def specValue (p : Pod) : Value :=
  .mapping (
    [("containers", .list (p.containers.map Container.toValue))]
      ++ optionalEntry "hostNetwork" (if p.hostNetwork then some (.bool true) else none)
      ++ optionalEntry "nodeName" (p.nodeName.map .text)
      ++ optionalEntry "nodeSelector"
        (if p.nodeSelector.isEmpty then none else some p.nodeSelector.toValue)
      ++ [("priorityClassName", .text p.priorityClass), ("restartPolicy", .text "Never"),
        ("serviceAccountName", .text p.serviceAccount),
        ("tolerations", .list [.mapping [("operator", .text "Exists")]]),
        ("volumes", .list (p.volumes.map fun name =>
          .mapping [("emptyDir", .mapping []), ("name", .text name)]))])

/-- The description of a pod. -/
def toValue (p : Pod) : Value :=
  .mapping [("apiVersion", .text "v1"), ("kind", .text "Pod"),
    ("metadata", .mapping [("generateName", .text p.nameStem),
      ("namespace", .text p.namespaceName)]),
    ("spec", p.specValue)]

end Pod

namespace NamespaceResource

/-- The description of a namespace. -/
def toValue (n : NamespaceResource) : Value :=
  .mapping [("apiVersion", .text "v1"), ("kind", .text "Namespace"),
    ("metadata", .mapping [("name", .text n.name)])]

end NamespaceResource

namespace ServiceAccount

/-- The description of a service account. -/
def toValue (a : ServiceAccount) : Value :=
  .mapping [("apiVersion", .text "v1"), ("kind", .text "ServiceAccount"),
    ("metadata", .mapping [("name", .text a.name), ("namespace", .text a.namespaceName)])]

/-- How a binding refers to a service account. -/
def subjectValue (a : ServiceAccount) : Value :=
  .mapping [("kind", .text "ServiceAccount"), ("name", .text a.name),
    ("namespace", .text a.namespaceName)]

end ServiceAccount

namespace ClusterRoleBinding

/-- The description of a binding. -/
def toValue (b : ClusterRoleBinding) : Value :=
  .mapping [("apiVersion", .text (accessControlGroup ++ "/v1")),
    ("kind", .text "ClusterRoleBinding"),
    ("metadata", .mapping [("name", .text b.name)]),
    ("roleRef", .mapping [("apiGroup", .text accessControlGroup), ("kind", .text "ClusterRole"),
      ("name", .text b.clusterRole)]),
    ("subjects", .list (b.subjects.map ServiceAccount.subjectValue))]

end ClusterRoleBinding

end BundlePlan
