import ClusterConfig.Cluster.Basic
import ClusterConfig.Patch.ReferencePaths
import ClusterConfig.Yaml.Source

/-!
# Reading cluster descriptions

A field that is left out is empty, so that a description with gaps can still be read and checked.
Only the name of a container network and the number of a VLAN have to be there.
-/

set_option autoImplicit false

namespace ClusterConfig

open Yaml (Source Fields.option Fields.orElse Fields.required Fields.text Fields.flag
  Fields.optionText Fields.list Fields.texts)

/-- The largest value of a 16-bit and of a 32-bit number. -/
def largestShort : Nat := Nat.pow 2 16 - 1

def largestNumber : Nat := Nat.pow 2 32 - 1

def CniName.ofName? (name : String) : Option CniName :=
  match name with
  | "flannel" => some .flannel
  | "custom" => some .custom
  | "none" => some .absent
  | _ => none

def Cni.ofSource? (source : Source) : Option Cni := do
  let f ← source.fields? ["name", "urls"]
  let name ← Fields.required f "name" fun s => s.choice?.bind CniName.ofName?
  some ⟨name, ← Fields.texts f "urls"⟩

def DiskSelector.ofSource? (source : Source) : Option DiskSelector := do
  let f ← source.fields?
    ["size", "name", "model", "serial", "modalias", "uuid", "wwid", "type", "busPath"]
  some
    { size := ← Fields.optionText f "size"
      name := ← Fields.optionText f "name"
      model := ← Fields.optionText f "model"
      serial := ← Fields.optionText f "serial"
      modalias := ← Fields.optionText f "modalias"
      uuid := ← Fields.optionText f "uuid"
      wwid := ← Fields.optionText f "wwid"
      kind := ← Fields.optionText f "type"
      busPath := ← Fields.optionText f "busPath" }

def Partition.ofSource? (source : Source) : Option Partition := do
  let f ← source.fields? ["mountpoint", "size"]
  some ⟨← Fields.text f "mountpoint", ← Fields.optionText f "size"⟩

def MachineDisk.ofSource? (source : Source) : Option MachineDisk := do
  let f ← source.fields? ["device", "partitions"]
  some ⟨← Fields.text f "device", ← Fields.list f "partitions" Partition.ofSource?⟩

def Route.ofSource? (source : Source) : Option Route := do
  let f ← source.fields? ["network", "gateway", "metric"]
  some
    { network := ← Fields.optionText f "network"
      gateway := ← Fields.optionText f "gateway"
      metric := ← Fields.option f "metric" (Source.natural? largestNumber) }

def Bond.ofSource? (source : Source) : Option Bond := do
  let f ← source.fields? ["interfaces", "mode"]
  some ⟨← Fields.texts f "interfaces", ← Fields.optionText f "mode"⟩

def Bridge.ofSource? (source : Source) : Option Bridge := do
  let f ← source.fields? ["interfaces"]
  some ⟨← Fields.texts f "interfaces"⟩

def Vlan.ofSource? (source : Source) : Option Vlan := do
  let f ← source.fields? ["vlanId", "addresses", "dhcp"]
  some
    { id := ← Fields.required f "vlanId" (Source.natural? largestShort)
      addresses := ← Fields.texts f "addresses"
      dhcp := ← Fields.option f "dhcp" Source.bool? }

def Interface.ofSource? (source : Source) : Option Interface := do
  let f ← source.fields? ["interface", "deviceSelector", "addresses", "routes", "mtu", "dhcp",
    "bond", "bridge", "vlans"]
  some
    { name := ← Fields.optionText f "interface"
      selector := ← Fields.option f "deviceSelector" (Source.members? Source.json?)
      addresses := ← Fields.texts f "addresses"
      routes := ← Fields.list f "routes" Route.ofSource?
      mtu := ← Fields.option f "mtu" (Source.natural? largestNumber)
      dhcp := ← Fields.option f "dhcp" Source.bool?
      bond := ← Fields.option f "bond" Bond.ofSource?
      bridge := ← Fields.option f "bridge" Bridge.ofSource?
      vlans := ← Fields.list f "vlans" Vlan.ofSource? }

def KernelModule.ofSource? (source : Source) : Option KernelModule := do
  let f ← source.fields? ["name", "parameters"]
  some ⟨← Fields.text f "name", ← Fields.texts f "parameters"⟩

def Volume.ofSource? (source : Source) : Option Volume := do
  let f ← source.fields? ["name", "diskSelector", "minSize", "maxSize"]
  some
    { name := ← Fields.text f "name"
      selector := ← Fields.optionText f "diskSelector"
      minSize := ← Fields.optionText f "minSize"
      maxSize := ← Fields.optionText f "maxSize" }

def MachineFile.ofSource? (source : Source) : Option MachineFile := do
  let f ← source.fields? ["content", "path", "permissions", "op"]
  some
    { content := ← Fields.text f "content"
      path := ← Fields.text f "path"
      permissions := ← Fields.option f "permissions" (Source.natural? largestNumber)
      op := ← Fields.text f "op" "create" }

def extensionsOfSource? (source : Source) : Option (List String) := do
  Fields.texts (← source.fields? ["officialExtensions"]) "officialExtensions"

def Schematic.customizationOfSource? (source : Source) : Option Schematic := do
  let f ← source.fields? ["extraKernelArgs", "systemExtensions"]
  some
    { kernelArguments := ← Fields.texts f "extraKernelArgs"
      extensions := ← Fields.orElse f "systemExtensions" [] extensionsOfSource? }

def Schematic.ofSource? (source : Source) : Option Schematic := do
  let f ← source.fields? ["customization"]
  Fields.orElse f "customization" ⟨[], []⟩ customizationOfSource?

def LooseOp.ofSource? (source : Source) : Option LooseOp := do
  let f ← source.fields? fieldOrder
  some
    { op := ← Fields.optionText f "op"
      path := ← Fields.optionText f "path"
      source := ← Fields.optionText f "from"
      value := ← Fields.orElse f "value" none fun s => s.json?.map some }

/-- A single patch or a list of them; null is an empty list. -/
def mergePatchesOfSource? (source : Source) : Option (List Json) := do
  match ← (← source.buffer?).json? with
  | .arr patches => some patches
  | .null => some []
  | patch => some [patch]

namespace Settings

def fieldNames : List String :=
  ["installDisk", "installDiskSelector", "machineDisks", "networkInterfaces", "nameservers",
    "nodeLabels", "nodeAnnotations", "nodeTaints", "kernelModules", "volumes", "machineFiles",
    "schematic", "talosImageURL", "certSANs", "extraManifests", "inlinePatch", "configPatches",
    "patches", "overridePatches", "overrideExtraManifests", "overrideMachineCertSans"]

def ofFields? (f : Members Source) : Option Settings := do
  let texts (name : String) : Option (Members String) :=
    Fields.orElse f name [] (Source.members? Source.string?)
  some
    { installDisk := ← Fields.optionText f "installDisk"
      diskSelector := ← Fields.option f "installDiskSelector" DiskSelector.ofSource?
      disks := ← Fields.list f "machineDisks" MachineDisk.ofSource?
      interfaces := ← Fields.list f "networkInterfaces" Interface.ofSource?
      nameservers := ← Fields.texts f "nameservers"
      labels := ← texts "nodeLabels"
      annotations := ← texts "nodeAnnotations"
      taints := ← texts "nodeTaints"
      modules := ← Fields.list f "kernelModules" KernelModule.ofSource?
      volumes := ← Fields.list f "volumes" Volume.ofSource?
      files := ← Fields.list f "machineFiles" MachineFile.ofSource?
      schematic := ← Fields.option f "schematic" Schematic.ofSource?
      imageUrl := ← Fields.optionText f "talosImageURL"
      certSans := ← Fields.texts f "certSANs"
      extraManifests := ← Fields.texts f "extraManifests"
      mergePatches := ← Fields.orElse f "inlinePatch" [] mergePatchesOfSource?
      operations := ← Fields.list f "configPatches" LooseOp.ofSource?
      patches := ← Fields.texts f "patches"
      overridePatches := ← Fields.flag f "overridePatches"
      overrideExtraManifests := ← Fields.flag f "overrideExtraManifests"
      overrideCertSans := ← Fields.flag f "overrideMachineCertSans" }

def ofSource? (source : Source) : Option Settings := do ofFields? (← source.fields? fieldNames)

/-- Settings from a text that holds nothing else. -/
def ofText? (text : String) : Option Settings := do ofSource? (.text (← Yaml.node? text))

end Settings

namespace Node

/-- A node's own fields share their mapping with its settings. -/
def ofSource? (source : Source) : Option Node := do
  let (own, others) ← source.sharedFields? ["hostname", "ipAddress", "controlPlane"]
  let settings ← (Source.collect Settings.fieldNames [] others).bind Settings.ofFields?
  some
    { hostname := ← Fields.text own "hostname"
      address := ← Fields.text own "ipAddress"
      isControlPlane := ← Fields.flag own "controlPlane"
      settings }

def ofText? (text : String) : Option Node := do ofSource? (.text (← Yaml.node? text))

end Node

namespace Cluster

def ofSource? (source : Source) : Option Cluster := do
  let f ← source.fields? ["clusterName", "talosVersion", "kubernetesVersion", "endpoint", "domain",
    "allowSchedulingOnControlPlanes", "allowSchedulingOnMasters", "additionalMachineCertSans",
    "additionalApiServerCertSans", "clusterPodNets", "clusterSvcNets", "cniConfig",
    "extraManifests", "nodes", "controlPlane", "worker"]
  some
    { name := ← Fields.text f "clusterName"
      talosVersion := ← Fields.text f "talosVersion"
      kubernetesVersion := ← Fields.text f "kubernetesVersion"
      endpoint := ← Fields.text f "endpoint"
      domain := ← Fields.text f "domain"
      schedulesOnControlPlanes := ← Fields.flag f "allowSchedulingOnControlPlanes"
      schedulesOnMasters := ← Fields.option f "allowSchedulingOnMasters" Source.bool?
      machineCertSans := ← Fields.texts f "additionalMachineCertSans"
      apiServerCertSans := ← Fields.texts f "additionalApiServerCertSans"
      podNets := ← Fields.texts f "clusterPodNets"
      serviceNets := ← Fields.texts f "clusterSvcNets"
      cni := ← Fields.option f "cniConfig" Cni.ofSource?
      extraManifests := ← Fields.texts f "extraManifests"
      nodes := ← Fields.list f "nodes" Node.ofSource?
      controlPlane := ← Fields.orElse f "controlPlane" {} Settings.ofSource?
      worker := ← Fields.orElse f "worker" {} Settings.ofSource? }

/-- A description from its text; relative references are taken from a directory. -/
def ofText? (directory text : String) : Option Cluster := do
  let value ← Yaml.Value.ofText? text
  let cluster ← ofSource? (.value (Patch.rootReferences directory value))
  some cluster.withDefaults

end Cluster

end ClusterConfig
