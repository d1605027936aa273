import ClusterConfig.Cluster.Basic

/-!
# Documents of cluster descriptions

Fields in a fixed order under the names they are read by. Optional settings and empty lists of
settings are left out.
-/

set_option autoImplicit false

namespace ClusterConfig

/-! ## Fields -/

def optionMember {α : Type} (name : String) (value : Option α) (toJson : α → Json) :
    List (String × Json) :=
  match value with
  | none => []
  | some value => [(name, toJson value)]

def textMember (name : String) (value : Option String) : List (String × Json) :=
  optionMember name value Json.str

def listMember {α : Type} (name : String) (items : List α) (toJson : α → Json) :
    List (String × Json) :=
  if items.isEmpty then [] else [(name, .arr (items.map toJson))]

def textsMember (name : String) (items : List String) : List (String × Json) :=
  listMember name items Json.str

def namesMember (name : String) (members : Members String) : List (String × Json) :=
  if members.isEmpty then [] else [(name, .ofMembers members)]

def flagMember (name : String) (value : Bool) : List (String × Json) :=
  if value then [(name, .bool true)] else []

def numberMember (name : String) (value : Option Nat) : List (String × Json) :=
  optionMember name value fun n => .int n

/-! ## Parts of settings -/

def CniName.name : CniName → String
  | .flannel => "flannel"
  | .custom => "custom"
  | .absent => "none"

def Cni.toJson (cni : Cni) : Json :=
  .obj (("name", .str cni.name.name) :: textsMember "urls" cni.urls)

def DiskSelector.toJson (selector : DiskSelector) : Json :=
  .obj (textMember "size" selector.size ++ textMember "name" selector.name ++
    textMember "model" selector.model ++ textMember "serial" selector.serial ++
    textMember "modalias" selector.modalias ++ textMember "uuid" selector.uuid ++
    textMember "wwid" selector.wwid ++ textMember "type" selector.kind ++
    textMember "busPath" selector.busPath)

def Partition.toJson (partition : Partition) : Json :=
  .obj (("mountpoint", .str partition.mountpoint) :: textMember "size" partition.size)

def MachineDisk.toJson (disk : MachineDisk) : Json :=
  .obj (("device", .str disk.device) :: listMember "partitions" disk.partitions Partition.toJson)

def Route.toJson (route : Route) : Json :=
  .obj (textMember "network" route.network ++ textMember "gateway" route.gateway ++
    numberMember "metric" route.metric)

def Bond.toJson (bond : Bond) : Json :=
  .obj (("interfaces", .strings bond.interfaces) :: textMember "mode" bond.mode)

def Bridge.toJson (bridge : Bridge) : Json := .obj [("interfaces", .strings bridge.interfaces)]

def Vlan.toJson (vlan : Vlan) : Json :=
  .obj (("vlanId", .int vlan.id) :: textsMember "addresses" vlan.addresses ++
    optionMember "dhcp" vlan.dhcp Json.bool)

def Interface.toJson (interface : Interface) : Json :=
  .obj (textMember "interface" interface.name ++
    optionMember "deviceSelector" interface.selector Json.obj ++
    textsMember "addresses" interface.addresses ++
    listMember "routes" interface.routes Route.toJson ++
    numberMember "mtu" interface.mtu ++
    optionMember "dhcp" interface.dhcp Json.bool ++
    optionMember "bond" interface.bond Bond.toJson ++
    optionMember "bridge" interface.bridge Bridge.toJson ++
    listMember "vlans" interface.vlans Vlan.toJson)

def KernelModule.toJson (kernelModule : KernelModule) : Json :=
  .obj (("name", .str kernelModule.name) :: textsMember "parameters" kernelModule.parameters)

def Volume.toJson (volume : Volume) : Json :=
  .obj (("name", .str volume.name) :: textMember "diskSelector" volume.selector ++
    textMember "minSize" volume.minSize ++ textMember "maxSize" volume.maxSize)

def MachineFile.toJson (file : MachineFile) : Json :=
  .obj ([("content", .str file.content), ("path", .str file.path)] ++
    numberMember "permissions" file.permissions ++ [("op", .str file.op)])

def Schematic.toJson (schematic : Schematic) : Json :=
  .obj [("customization", .obj (textsMember "extraKernelArgs" schematic.kernelArguments ++
    [("systemExtensions", .obj (textsMember "officialExtensions" schematic.extensions))]))]

/-! ## Settings, nodes and clusters -/

def Settings.members (s : Settings) : List (String × Json) :=
  textMember "installDisk" s.installDisk ++
    optionMember "installDiskSelector" s.diskSelector DiskSelector.toJson ++
    listMember "machineDisks" s.disks MachineDisk.toJson ++
    listMember "networkInterfaces" s.interfaces Interface.toJson ++
    textsMember "nameservers" s.nameservers ++
    namesMember "nodeLabels" s.labels ++
    namesMember "nodeAnnotations" s.annotations ++
    namesMember "nodeTaints" s.taints ++
    listMember "kernelModules" s.modules KernelModule.toJson ++
    listMember "volumes" s.volumes Volume.toJson ++
    listMember "machineFiles" s.files MachineFile.toJson ++
    optionMember "schematic" s.schematic Schematic.toJson ++
    textMember "talosImageURL" s.imageUrl ++
    textsMember "certSANs" s.certSans ++
    textsMember "extraManifests" s.extraManifests ++
    listMember "inlinePatch" s.mergePatches id ++
    listMember "configPatches" s.operations LooseOp.toJson ++
    textsMember "patches" s.patches ++
    flagMember "overridePatches" s.overridePatches ++
    flagMember "overrideExtraManifests" s.overrideExtraManifests ++
    flagMember "overrideMachineCertSans" s.overrideCertSans

def Settings.toJson (settings : Settings) : Json := .obj settings.members

def Node.toJson (node : Node) : Json :=
  .obj ([("hostname", .str node.hostname), ("ipAddress", .str node.address),
    ("controlPlane", .bool node.isControlPlane)] ++ node.settings.members)

def Cluster.toJson (cluster : Cluster) : Json :=
  .obj ([("clusterName", .str cluster.name), ("talosVersion", .str cluster.talosVersion),
    ("kubernetesVersion", .str cluster.kubernetesVersion), ("endpoint", .str cluster.endpoint),
    ("domain", .str cluster.domain),
    ("allowSchedulingOnControlPlanes", .bool cluster.schedulesOnControlPlanes)] ++
    optionMember "allowSchedulingOnMasters" cluster.schedulesOnMasters Json.bool ++
    textsMember "additionalMachineCertSans" cluster.machineCertSans ++
    textsMember "additionalApiServerCertSans" cluster.apiServerCertSans ++
    [("clusterPodNets", .strings cluster.podNets),
      ("clusterSvcNets", .strings cluster.serviceNets)] ++
    optionMember "cniConfig" cluster.cni Cni.toJson ++
    textsMember "extraManifests" cluster.extraManifests ++
    [("nodes", .arr (cluster.nodes.map Node.toJson)),
      ("controlPlane", cluster.controlPlane.toJson), ("worker", cluster.worker.toJson)])

end ClusterConfig
