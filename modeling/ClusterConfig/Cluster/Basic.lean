import ClusterConfig.Members
import ClusterConfig.Patch.LooseOp
import ClusterConfig.Text.Blank

/-!
# Cluster descriptions

A cluster has nodes, and settings that are given per role or per node. A node ends up with the
settings of its role under its own.
-/

set_option autoImplicit false

namespace ClusterConfig

inductive Role where
  | controlPlane
  | worker
deriving DecidableEq

def Role.name : Role → String
  | .controlPlane => "controlplane"
  | .worker => "worker"

inductive CniName where
  | flannel
  | custom
  | absent
deriving DecidableEq

/-- The container network and, for a custom one, where its manifests are. -/
structure Cni where
  name : CniName
  urls : List String

structure DiskSelector where
  size : Option String
  name : Option String
  model : Option String
  serial : Option String
  modalias : Option String
  uuid : Option String
  wwid : Option String
  kind : Option String
  busPath : Option String

structure Partition where
  mountpoint : String
  size : Option String

structure MachineDisk where
  device : String
  partitions : List Partition

structure Route where
  network : Option String
  gateway : Option String
  metric : Option Nat

structure Bond where
  interfaces : List String
  mode : Option String

structure Bridge where
  interfaces : List String

structure Vlan where
  id : Nat
  addresses : List String
  dhcp : Option Bool

structure Interface where
  name : Option String
  selector : Option (Members Json)
  addresses : List String
  routes : List Route
  mtu : Option Nat
  dhcp : Option Bool
  bond : Option Bond
  bridge : Option Bridge
  vlans : List Vlan

/-- The name in messages; an interface without a name goes by its place in the list. -/
def Interface.displayName (interface : Interface) (index : Nat) : String :=
  interface.name.getD ("networkInterfaces[" ++ toString index ++ "]")

structure KernelModule where
  name : String
  parameters : List String

structure Volume where
  name : String
  /-- An expression that selects the disk. -/
  selector : Option String
  minSize : Option String
  maxSize : Option String

structure MachineFile where
  /-- The content, or a reference to the file that holds it. -/
  content : String
  path : String
  permissions : Option Nat
  op : String

/-- What the installer image is built with. -/
structure Schematic where
  kernelArguments : List String
  extensions : List String

/-- Settings that a role or a node may have. -/
structure Settings where
  installDisk : Option String := none
  diskSelector : Option DiskSelector := none
  disks : List MachineDisk := []
  interfaces : List Interface := []
  nameservers : List String := []
  labels : Members String := []
  annotations : Members String := []
  taints : Members String := []
  modules : List KernelModule := []
  volumes : List Volume := []
  files : List MachineFile := []
  schematic : Option Schematic := none
  imageUrl : Option String := none
  certSans : List String := []
  extraManifests : List String := []
  /-- Merge patches. -/
  mergePatches : List Json := []
  /-- Patch operations as they are written. -/
  operations : List LooseOp := []
  /-- References to patches, or patches as text. -/
  patches : List String := []
  overridePatches : Bool := false
  overrideExtraManifests : Bool := false
  overrideCertSans : Bool := false

structure Node where
  hostname : String
  /-- Addresses separated by commas. -/
  address : String
  isControlPlane : Bool
  settings : Settings

structure Cluster where
  name : String
  talosVersion : String
  kubernetesVersion : String
  endpoint : String
  domain : String
  schedulesOnControlPlanes : Bool
  /-- An older spelling of the previous setting. -/
  schedulesOnMasters : Option Bool
  machineCertSans : List String
  apiServerCertSans : List String
  podNets : List String
  serviceNets : List String
  cni : Option Cni
  extraManifests : List String
  nodes : List Node
  controlPlane : Settings
  worker : Settings

/-- A list of settings that a node extends or replaces. -/
inductive SharedList where
  | patches
  | extraManifests
  | certSans
deriving DecidableEq

namespace SharedList

def all : List SharedList := [.patches, .extraManifests, .certSans]

def name : SharedList → String
  | .patches => "patches"
  | .extraManifests => "extraManifests"
  | .certSans => "certSANs"

end SharedList

inductive ListMode where
  /-- The entries of the role come first. -/
  | prepend
  /-- The entries of the role do not count. -/
  | replace
deriving DecidableEq

namespace Settings

def list (settings : Settings) : SharedList → List String
  | .patches => settings.patches
  | .extraManifests => settings.extraManifests
  | .certSans => settings.certSans

def mode (settings : Settings) (list : SharedList) : ListMode :=
  let replaces := match list with
    | .patches => settings.overridePatches
    | .extraManifests => settings.overrideExtraManifests
    | .certSans => settings.overrideCertSans
  if replaces then .replace else .prepend

end Settings

namespace Node

def role (node : Node) : Role := if node.isControlPlane then .controlPlane else .worker

/-- The addresses between the commas, without blanks around them and empty ones. -/
def addresses (node : Node) : List String :=
  (((Text.splitAll ',' node.address.toList).map Text.trimChars).filter fun address =>
    !address.isEmpty).map String.ofList

end Node

namespace Cluster

def defaults (cluster : Cluster) : Role → Settings
  | .controlPlane => cluster.controlPlane
  | .worker => cluster.worker

def controlPlaneNodes (cluster : Cluster) : List Node := cluster.nodes.filter Node.isControlPlane

def findNode? (cluster : Cluster) (hostname : String) : Option Node :=
  cluster.nodes.find? fun node => node.hostname = hostname

/-- Whether workloads may run on control plane nodes, by either spelling. -/
def schedulesOnControlPlaneNodes (cluster : Cluster) : Bool :=
  cluster.schedulesOnControlPlanes || cluster.schedulesOnMasters = some true

/-- The name of the file that a node's configuration is written to. -/
def fileName (cluster : Cluster) (hostname : String) : String :=
  cluster.name ++ "-" ++ hostname ++ ".yaml"

def defaultTalosVersion : String := "v1.9.5"

def defaultKubernetesVersion : String := "v1.32.3"

def defaultDomain : String := "cluster.local"

def defaultPodNet : String := "10.244.0.0/16"

def defaultServiceNet : String := "10.96.0.0/12"

def orDefault (text default : String) : String := if text.isEmpty then default else text

/-- Fills in what a description may leave out. -/
def withDefaults (cluster : Cluster) : Cluster :=
  { cluster with
    talosVersion := orDefault cluster.talosVersion defaultTalosVersion
    kubernetesVersion := orDefault cluster.kubernetesVersion defaultKubernetesVersion
    domain := orDefault cluster.domain defaultDomain
    podNets := if cluster.podNets.isEmpty then [defaultPodNet] else cluster.podNets
    serviceNets := if cluster.serviceNets.isEmpty then [defaultServiceNet] else cluster.serviceNets }

end Cluster

end ClusterConfig
