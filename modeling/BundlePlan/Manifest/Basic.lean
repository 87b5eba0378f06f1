import BundlePlan.Manifest.Resource
import BundlePlan.Request.Config

/-!
# The resources of a plan

A `Manifest` holds everything that has to be created for a collection: the namespace, unless it
exists already, a service account in it, a binding that makes the account an administrator, and
the pod that gathers. `Manifest.ofConfig` builds it: the pod runs one gather container for each
image, one with the default image if none is configured, and then a container that waits, so
that the results can be copied from the volume that all of them share.
-/

namespace BundlePlan

/-- The resources of a plan. -/
structure Manifest where
  /-- The namespace; `none` if it exists already. -/
  namespaceResource : Option NamespaceResource
  serviceAccount : ServiceAccount
  roleBinding : ClusterRoleBinding
  pod : Pod

namespace Manifest

/-- The image that gathers, unless others are configured. -/
def defaultImage : String := "registry.redhat.io/openshift4/ose-must-gather:latest"

/-- The name of the service account. -/
def serviceAccountName : String := "must-gather-collector"

/-- The volume that the containers share. -/
def volumeName : String := "must-gather-collection"

/-- The name of the container that waits. -/
def waitName : String := "wait"

/-- Where the container that waits has the shared volume. -/
def waitPath : String := "/must-gather"

/-- The names of the gather containers: `gather` for the first, and `gather-` with its number for
each one after it. -/
def gatherName (index : Nat) : String :=
  if index = 0 then "gather" else "gather-" ++ toString index

/-- The environment of the gather containers. -/
def gatherEnv (since : Option String) : List EnvVar :=
  match since with
  | none => []
  | some since => if since = "" then [] else [⟨"MUST_GATHER_SINCE", since⟩]

/-- The gather container with a given number and image. -/
def gatherContainer (c : Config) (index : Nat) (image : String) : Container where
  name := gatherName index
  image := image
  command := c.command
  env := gatherEnv c.since
  mounts := [⟨volumeName, c.sourceDir⟩]

/-- The images that gather. -/
def gatherImages (c : Config) : List String :=
  if c.images.isEmpty then [defaultImage] else c.images

/-- The gather containers in the order of their images. -/
def gatherContainers (c : Config) : List Container :=
  (gatherImages c).mapIdx (gatherContainer c)

/-- The container that waits. -/
def waitContainer : Container where
  name := waitName
  image := "registry.redhat.io/ubi9/ubi-minimal"
  command := ["/bin/bash", "-c", "sleep infinity"]
  mounts := [⟨volumeName, waitPath⟩]

/-- The pod of a plan. -/
def podOfConfig (c : Config) : Pod where
  nameStem := "must-gather-"
  namespaceName := c.namespaceName
  serviceAccount := serviceAccountName
  nodeName := c.nodeName
  nodeSelector := c.nodeSelector
  hostNetwork := c.hostNetwork
  priorityClass := "system-cluster-critical"
  volumes := [volumeName]
  containers := gatherContainers c ++ [waitContainer]

/-- The resources of a plan, the namespace included. -/
def ofConfig (c : Config) : Manifest where
  namespaceResource := some ⟨c.namespaceName⟩
  serviceAccount := ⟨serviceAccountName, c.namespaceName⟩
  roleBinding :=
    { name := roleBindingName c.namespaceName
      clusterRole := "cluster-admin"
      subjects := [⟨serviceAccountName, c.namespaceName⟩] }
  pod := podOfConfig c

/-- The resources without the namespace. -/
def withoutNamespace (m : Manifest) : Manifest := { m with namespaceResource := none }

/-- The namespace that the resources are in. -/
def namespaceName (m : Manifest) : String := m.pod.namespaceName

/-- The names of the containers that gather. -/
def gatherNames (m : Manifest) : List String :=
  (m.pod.containers.map (·.name)).filter (· != waitName)

/-- The resources that are described, each with its kind, in the order in which they have to be
created. -/
def documents (m : Manifest) : List (String × Value) :=
  (m.namespaceResource.map fun n => ("Namespace", n.toValue)).toList
    ++ [("ServiceAccount", m.serviceAccount.toValue),
      ("ClusterRoleBinding", m.roleBinding.toValue), ("Pod", m.pod.toValue)]

end Manifest

end BundlePlan
