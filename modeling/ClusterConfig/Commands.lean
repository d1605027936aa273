import ClusterConfig.Cluster.Merge
import ClusterConfig.Files.Path
import ClusterConfig.Machine.Base
import ClusterConfig.Network.Address

/-!
# Commands for a cluster

The control program is given one command per address of the selected nodes. Some commands act on
the whole cluster; without a selection they go to the first address of the first control plane.
-/

set_option autoImplicit false

namespace ClusterConfig.Commands

inductive Kind where
  | applyConfig
  | bootstrap
  | reset
  | upgrade
  | upgradeK8s
  | kubeconfig
  | health
deriving DecidableEq

namespace Kind

def all : List Kind :=
  [.applyConfig, .bootstrap, .reset, .upgrade, .upgradeK8s, .kubeconfig, .health]

def name : Kind → String
  | .applyConfig => "apply-config"
  | .bootstrap => "bootstrap"
  | .reset => "reset"
  | .upgrade => "upgrade"
  | .upgradeK8s => "upgrade-k8s"
  | .kubeconfig => "kubeconfig"
  | .health => "health"

def ofName? (name : String) : Option Kind := all.find? fun kind => kind.name == name

/-- Whether a command acts on the cluster through one of its control planes. -/
def isClusterWide : Kind → Bool
  | .bootstrap => true
  | .upgradeK8s => true
  | .kubeconfig => true
  | .health => true
  | _ => false

end Kind

/-- Which nodes the commands are for. -/
inductive Selector where
  | everything
  | address (address : IpAddress)
  | hostname (hostname : String)
deriving DecidableEq

/-- A text that is an address selects it, any other is taken for a hostname. -/
def Selector.ofText (text : String) : Selector :=
  let text := Text.trim text
  match IpAddress.parse? text with
  | some found => .address found
  | none => .hostname text

inductive CommandError where
  | unknownAddress (address : String)
  | unknownHostname (hostname : String)
  | noControlPlane (kind : Kind)
deriving DecidableEq

def CommandError.message : CommandError → String
  | .unknownAddress address => "no node has the address " ++ address
  | .unknownHostname hostname => "no node has the hostname " ++ Text.quoted hostname
  | .noControlPlane kind =>
    "the cluster has no control plane node to run " ++ kind.name ++ " against"

/-- A node and the address that it is reached at. -/
structure Target where
  node : Node
  address : String

/-- The targets of a node, one for each of its addresses. -/
def targetsOf (node : Node) : List Target := node.addresses.map fun address => ⟨node, address⟩

def hasAddress (address : IpAddress) (node : Node) : Bool :=
  node.addresses.any fun candidate => IpAddress.parse? candidate = some address

def targets (cluster : Cluster) (kind : Kind) : Selector → Except CommandError (List Target)
  | .address address =>
    match cluster.mergedNodes.find? (hasAddress address) with
    | some node => .ok [⟨node, address.text⟩]
    | none => .error (.unknownAddress address.text)
  | .hostname hostname =>
    match cluster.mergedNodes.find? fun node => node.hostname = hostname with
    | some node => .ok (targetsOf node)
    | none => .error (.unknownHostname hostname)
  | .everything =>
    if kind.isClusterWide then
      match cluster.mergedNodes.find? Node.isControlPlane with
      | some node => .ok ((targetsOf node).take 1)
      | none => .error (.noControlPlane kind)
    else .ok (cluster.mergedNodes.flatMap targetsOf)

/-- The flags that a command has for a node. -/
def flags (cluster : Cluster) (kind : Kind) (node : Node) (outDirectory : String) : List String :=
  match kind with
  | .applyConfig => ["--file=" ++ Path.join outDirectory (cluster.fileName node.hostname)]
  | .upgrade => ["--image=" ++ Machine.installerImage node.settings cluster.talosVersion]
  | .upgradeK8s => ["--to=" ++ cluster.kubernetesVersion]
  | .reset => ["--graceful=false", "--reboot"]
  | .bootstrap => []
  | .kubeconfig => []
  | .health => []

def controlProgram : String := "talosctl"

/-- The commands for a selection, with further flags at the end of each. -/
def generate (cluster : Cluster) (kind : Kind) (selector : Selector)
    (clientConfig outDirectory : String) (more : List String) :
    Except CommandError (List String) := do
  let targets ← targets cluster kind selector
  return targets.map fun target =>
    String.intercalate " " ([controlProgram, kind.name, "--talosconfig=" ++ clientConfig,
      "--nodes=" ++ target.address] ++ flags cluster kind target.node outDirectory ++ more)

end ClusterConfig.Commands
