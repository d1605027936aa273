import ClusterConfig.Cluster.Printing
import ClusterConfig.Network.Url
import ClusterConfig.Secrets.Bundle

/-!
# Base machine configurations

The configuration of a role, from the settings of the cluster and the secrets. Keys that only
control planes need are left out for workers, and the keys of the authorities are empty for them.
-/

set_option autoImplicit false

namespace ClusterConfig.Machine

/-! ## Images -/

def installerRepository : String := "ghcr.io/siderolabs/installer"

def kubeletRepository : String := "ghcr.io/siderolabs/kubelet"

def kubernetesRegistry : String := "registry.k8s.io"

def image (repository version : String) : String := repository ++ ":" ++ version

/-- The installer image of a node, from its own repository if it names one. -/
def installerImage (settings : Settings) (talosVersion : String) : String :=
  image (settings.imageUrl.getD installerRepository) talosVersion

/-! ## Documents -/

/-- What a base configuration is made from. -/
structure Input where
  cluster : Cluster
  role : Role
  bundle : Bundle
  contract : VersionContract

namespace Input

def isControlPlane (input : Input) : Bool := input.role = .controlPlane

/-- A key that only control planes get. -/
def privateKey (input : Input) (key : String) : String := if input.isControlPlane then key else ""

end Input

def enabled (more : List (String × Json)) : Json := .obj (("enabled", .bool true) :: more)

def kubePrismPort : Nat := 7445

def features (contract : VersionContract) : Json :=
  .obj ([("rbac", .bool true), ("stableHostname", .bool true), ("apidCheckExtKeyUsage", .bool true),
    ("diskQuotaSupport", .bool true)] ++
    (if contract.kubePrism then [("kubePrism", enabled [("port", .int kubePrismPort)])] else []) ++
    (if contract.hostDns then [("hostDNS", enabled [("forwardKubeDNSToHost", .bool true)])] else []))

/-- The public and, where it is given, the private part of an authority. -/
def authority (input : Input) (credentials : Credentials) : Json :=
  .obj [("crt", .str credentials.certificate), ("key", .str (input.privateKey credentials.key))]

def defaultInstallDisk : String := "/dev/sda"

def excludeLabel : String := "node.kubernetes.io/exclude-from-external-load-balancers"

/-- Settings of the machine. -/
def machine (input : Input) : Json :=
  .obj ([
    ("type", .str input.role.name),
    ("token", .str input.bundle.trustToken),
    ("ca", authority input input.bundle.machine),
    ("certSANs", .arr []),
    ("kubelet", .obj [
      ("image", .str (image kubeletRepository input.cluster.kubernetesVersion)),
      ("defaultRuntimeSeccompProfileEnabled", .bool true),
      ("disableManifestsDirectory", .bool true)]),
    ("network", .obj []),
    ("install", .obj [
      ("disk", .str defaultInstallDisk),
      ("image", .str (image installerRepository input.cluster.talosVersion)),
      ("wipe", .bool false)]),
    ("features", features input.contract)] ++
    if input.isControlPlane then [("nodeLabels", .obj [(excludeLabel, .str "")])] else [])

def cniJson (cni : Cni) : Json :=
  .obj (("name", .str cni.name.name) ::
    match cni.name with
    | .custom => [("urls", .strings cni.urls)]
    | _ => [])

def clusterNetwork (cluster : Cluster) : Json :=
  .obj ([("dnsDomain", .str cluster.domain), ("podSubnets", .strings cluster.podNets),
    ("serviceSubnets", .strings cluster.serviceNets)] ++
    optionMember "cni" cluster.cni cniJson)

def discovery : Json :=
  enabled [("registries", .obj [("kubernetes", .obj [("disabled", .bool true)]),
    ("service", .obj [])])]

/-- The host of an endpoint, if there is one. -/
def endpointHost? (endpoint : String) : Option String :=
  match Url.parse endpoint with
  | .ok url => url.host.map Host.text
  | .error _ => none

/-- What only control planes need to know of the cluster. -/
def controlPlaneMembers (input : Input) : List (String × Json) :=
  let component := fun (name : String) =>
    ("image", Json.str (image (kubernetesRegistry ++ "/" ++ name) input.cluster.kubernetesVersion))
  [("secretboxEncryptionSecret", .str input.bundle.secretboxSecret),
    ("aggregatorCA", input.bundle.aggregator.toJson),
    ("serviceAccount", .obj [("key", .str input.bundle.serviceAccountKey)]),
    ("apiServer", .obj [component "kube-apiserver",
      ("certSANs", .strings ((endpointHost? input.cluster.endpoint).toList ++
        input.cluster.apiServerCertSans))]),
    ("controllerManager", .obj [component "kube-controller-manager"]),
    ("proxy", .obj [component "kube-proxy"]),
    ("scheduler", .obj [component "kube-scheduler"]),
    ("etcd", .obj [("ca", input.bundle.etcd.toJson)]),
    ("allowSchedulingOnControlPlanes", .bool input.cluster.schedulesOnControlPlaneNodes)]

/-- Settings of the cluster. -/
def clusterSection (input : Input) : Json :=
  .obj ([
    ("id", .str input.bundle.clusterId),
    ("secret", .str input.bundle.clusterSecret),
    ("controlPlane", .obj [("endpoint", .str input.cluster.endpoint)]),
    ("clusterName", .str input.cluster.name),
    ("network", clusterNetwork input.cluster),
    ("token", .str input.bundle.bootstrapToken),
    ("ca", authority input input.bundle.kubernetes),
    ("discovery", discovery)] ++
    if input.isControlPlane then controlPlaneMembers input else [])

def formatVersion : String := "v1alpha1"

/-- The base configuration of a role. -/
def base (input : Input) : Json :=
  .obj [("version", .str formatVersion), ("debug", .bool false), ("persist", .bool true),
    ("machine", machine input), ("cluster", clusterSection input)]

end ClusterConfig.Machine
