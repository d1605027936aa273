import ClusterConfig.Cluster.Merge
import ClusterConfig.Validation.Endpoint
import ClusterConfig.Validation.Settings
import ClusterConfig.Version.Support

/-!
# Checks of a cluster description

Every check is made, whatever the others find. The install target of a node may come from its
role, all other settings are checked where they are given.
-/

set_option autoImplicit false

namespace ClusterConfig

namespace Validation

def endpointIssues (place : Place) (endpoint : String) : List Issue :=
  if (Text.trim endpoint).isEmpty then
    [⟨.required, place, "a control plane endpoint is required"⟩]
  else
    match endpointProblem? endpoint with
    | none => []
    | some problem =>
      [⟨.invalidEndpoint, place, "endpoint " ++ Text.quoted endpoint ++ " " ++ problem.message⟩]

def networkIssues (place : Place) (networks : List String) : List Issue :=
  onItems place networks fun place network =>
    issueOf .invalidCidr place "network" network Network.AddressError.message
      (Network.range network)

def domainIssues (place : Place) (domain : String) : List Issue :=
  match DnsName.problems DnsName.domain domain with
  | [] => []
  | problems =>
    [⟨.invalidDomain, place,
      "domain " ++ Text.quoted domain ++ " " ++ DnsName.messages problems⟩]

def cniIssues (cluster : Cluster) : List Issue :=
  match cluster.cni with
  | some cni =>
    if cni.name = .custom && cni.urls.isEmpty then
      [⟨.required, (Place.root.field "cniConfig").field "urls",
        "a custom CNI requires at least one manifest URL"⟩]
    else []
  | none => []

def checkGeneral (cluster : Cluster) : List Issue :=
  let root := Place.root
  requiredText (root.field "clusterName") "a cluster name" cluster.name ++
    endpointIssues (root.field "endpoint") cluster.endpoint ++
    domainIssues (root.field "domain") cluster.domain ++
    networkIssues (root.field "clusterPodNets") cluster.podNets ++
    networkIssues (root.field "clusterSvcNets") cluster.serviceNets ++
    addressIssues (root.field "additionalMachineCertSans") "certificate SAN"
      cluster.machineCertSans ++
    addressIssues (root.field "additionalApiServerCertSans") "certificate SAN"
      cluster.apiServerCertSans ++
    cniIssues cluster ++
    if cluster.schedulesOnMasters.isSome then
      [⟨.deprecated, root.field "allowSchedulingOnMasters",
        "allowSchedulingOnMasters is deprecated, use allowSchedulingOnControlPlanes instead"⟩]
    else []

def compatibilityIssues (talosPlace kubernetesPlace : Place) (talos kubernetes : Version) :
    List Issue :=
  match Version.compatibility talos kubernetes with
  | .supported => []
  | .unsupported lowest highest =>
    [⟨.unsupportedVersion, kubernetesPlace,
      "Kubernetes " ++ kubernetes.text ++ " is not supported by Talos " ++ talos.text ++
        ", which supports Kubernetes 1." ++ toString lowest ++ " to 1." ++ toString highest⟩]
  | .unknown =>
    [⟨.unknownVersion, talosPlace,
      "Talos " ++ talos.text ++ " is unknown, Kubernetes compatibility can not be checked"⟩]

def versionIssues (place : Place) (text : String) : List Issue :=
  if (Version.ofText? text).isSome then []
  else [⟨.invalidVersion, place, Version.notAVersion text⟩]

def checkVersions (cluster : Cluster) : List Issue :=
  let talosPlace := Place.root.field "talosVersion"
  let kubernetesPlace := Place.root.field "kubernetesVersion"
  versionIssues talosPlace cluster.talosVersion ++
    versionIssues kubernetesPlace cluster.kubernetesVersion ++
    match Version.ofText? cluster.talosVersion, Version.ofText? cluster.kubernetesVersion with
    | some talos, some kubernetes => compatibilityIssues talosPlace kubernetesPlace talos kubernetes
    | _, _ => []

def hostnameIssues (place : Place) (hostname : String) : List Issue :=
  if (Text.trim hostname).isEmpty then [⟨.required, place, "a hostname is required"⟩]
  else
    match DnsName.problems DnsName.subdomain hostname with
    | [] => []
    | problems =>
      [⟨.invalidHostname, place,
        "hostname " ++ Text.quoted hostname ++ " " ++ DnsName.messages problems⟩]

def nodeAddressIssues (place : Place) (addresses : List String) : List Issue :=
  if addresses.isEmpty then [⟨.required, place, "an IP address or DNS name is required"⟩]
  else addresses.flatMap fun address =>
    issueOf .invalidAddress place "address" address Network.AddressError.message
      (Network.checkAddress address)

/-- A node with the settings of its role is installed to a disk, or to one that is selected. -/
def installTargetIssues (place : Place) (settings : Settings) : List Issue :=
  match settings.installDisk, settings.diskSelector with
  | none, none =>
    [⟨.invalidInstallTarget, place.field "installDisk",
      "one of installDisk or installDiskSelector is required"⟩]
  | some _, some _ =>
    [⟨.invalidInstallTarget, place.field "installDiskSelector",
      "installDisk and installDiskSelector are mutually exclusive"⟩]
  | _, _ => []

def checkNode (cluster : Cluster) (place : Place) (node : Node) : List Issue :=
  hostnameIssues (place.field "hostname") node.hostname ++
    nodeAddressIssues (place.field "ipAddress") node.addresses ++
    installTargetIssues place (node.withDefaults (cluster.defaults node.role)).settings ++
    checkSettings node.settings place

def duplicateHostnames (place : Place) (nodes : List Node) : List Issue :=
  (repeatedNames (nodes.map Node.hostname)).map fun (hostname, first, second) =>
    ⟨.duplicateHostname, (place.index second).field "hostname",
      "hostname " ++ Text.quoted hostname ++ " is already used by nodes[" ++ toString first ++ "]"⟩

def checkNodes (cluster : Cluster) : List Issue :=
  let place := Place.root.field "nodes"
  (if cluster.nodes.isEmpty then [⟨.required, place, "at least one node is required"⟩] else []) ++
    onItems place cluster.nodes (checkNode cluster) ++ duplicateHostnames place cluster.nodes

end Validation

open Validation in
/-- All issues of a cluster description, in the order of its parts. -/
def Cluster.issues (cluster : Cluster) : List Issue :=
  checkGeneral cluster ++ checkVersions cluster ++
    checkSettings cluster.controlPlane (Place.root.field "controlPlane") ++
    checkSettings cluster.worker (Place.root.field "worker") ++ checkNodes cluster

def Cluster.validate (cluster : Cluster) : Validation.Report :=
  Validation.Report.ofIssues cluster.issues

end ClusterConfig
