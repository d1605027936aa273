import Mathlib
import ClusterConfig.Proofs.Cluster.WrittenFields

/-!
# Cluster descriptions are read as they are written

Each part of a description is written as its fields and read from them again. What is left out, an
empty list, an empty map, a flag that is off or a missing setting, is what a missing field is read
as, and a list of one patch is read as that list. So a description loses nothing by being written;
only its text is refused where a patch or a value in it nests too deep for a reader of texts.
-/

set_option autoImplicit false

namespace ClusterConfig

open Yaml (Fields.flag Fields.text Medium Source Value.ofText? nested nested_shape nestingLimit node?
  writeDocuments)

/-! ## Members -/

theorem optionMember_slot {α : Type} (name : String) (value : Option α) (toJson : α → Json) :
    optionMember name value toJson = slot name (value.map toJson) := by
  cases value <;> rfl

theorem textMember_slot (name : String) (value : Option String) :
    textMember name value = slot name (value.map .str) := optionMember_slot name value _

theorem numberMember_slot (name : String) (value : Option Nat) :
    numberMember name value = slot name (value.map fun n : Nat => Json.int n) :=
  optionMember_slot name value _

theorem listMember_slot {α : Type} (name : String) (items : List α) (toJson : α → Json) :
    listMember name items toJson =
      slot name (if items.isEmpty then none else some (.arr (items.map toJson))) := by
  rw [listMember]
  split <;> rfl

theorem textsMember_slot (name : String) (items : List String) :
    textsMember name items = slot name (if items.isEmpty then none else some (.strings items)) :=
  listMember_slot name items _

theorem namesMember_slot (name : String) (members : Members String) :
    namesMember name members =
      slot name (if members.isEmpty then none else some (.ofMembers members)) := by
  rw [namesMember]
  split <;> rfl

theorem flagMember_slot (name : String) (value : Bool) :
    flagMember name value = slot name (if !value then none else some (.bool value)) := by
  cases value <;> rfl

theorem LooseOp.optional_slot (name : String) (doc? : Option Json) :
    optional name doc? = slot name doc? := by
  cases doc? <;> rfl

/-! ## Parts of settings -/

theorem CniName.readBack (name : CniName) :
    ReadBack (fun name : CniName => .str name.name)
      (fun source => source.choice?.bind CniName.ofName?) name := by
  refine ⟨⟨trivial, trivial⟩, fun medium => ?_⟩
  rw [Source.choice?_written, Option.bind_some]
  cases name <;> rfl

theorem Cni.readBack (cni : Cni) : ReadBack toJson ofSource? cni :=
  FieldsBack.readBack
    (.cons (.required (CniName.readBack cni.name)) (.cons (.texts cni.urls) (.nil cni)))
    (by decide) (by simp [toJson, textsMember_slot]) fun _ => rfl

theorem DiskSelector.readBack (selector : DiskSelector) : ReadBack toJson ofSource? selector :=
  FieldsBack.readBack
    (.cons (.optionText selector.size) <|
      .cons (.optionText selector.name) <|
      .cons (.optionText selector.model) <|
      .cons (.optionText selector.serial) <|
      .cons (.optionText selector.modalias) <|
      .cons (.optionText selector.uuid) <|
      .cons (.optionText selector.wwid) <|
      .cons (.optionText selector.kind) <|
      .cons (.optionText selector.busPath) <|
      .nil selector)
    (by decide) (by simp [toJson, textMember_slot]) fun _ => rfl

theorem Partition.readBack (partition : Partition) : ReadBack toJson ofSource? partition :=
  FieldsBack.readBack
    (.cons (.text partition.mountpoint "") (.cons (.optionText partition.size) (.nil partition)))
    (by decide) (by simp [toJson, textMember_slot]) fun _ => rfl

theorem MachineDisk.readBack (disk : MachineDisk) : ReadBack toJson ofSource? disk :=
  FieldsBack.readBack
    (.cons (.text disk.device "")
      (.cons (.list fun partition _ => partition.readBack) (.nil disk)))
    (by decide) (by simp [toJson, listMember_slot]) fun _ => rfl

/-- The metric is a number of 32 bits. -/
def Route.Fits (route : Route) : Prop := ∀ metric ∈ route.metric, metric ≤ largestNumber

theorem Route.readBack {route : Route} (h : route.Fits) : ReadBack toJson ofSource? route :=
  FieldsBack.readBack
    (.cons (.optionText route.network) (.cons (.optionText route.gateway)
      (.cons (.number h le_rfl) (.nil route))))
    (by decide) (by simp [toJson, textMember_slot, numberMember_slot]) fun _ => rfl

theorem Bond.readBack (bond : Bond) : ReadBack toJson ofSource? bond :=
  FieldsBack.readBack (.cons (.allTexts bond.interfaces) (.cons (.optionText bond.mode) (.nil bond)))
    (by decide) (by simp [toJson, textMember_slot]) fun _ => rfl

theorem Bridge.readBack (bridge : Bridge) : ReadBack toJson ofSource? bridge :=
  FieldsBack.readBack (.cons (.allTexts bridge.interfaces) (.nil bridge))
    (by decide) (by simp [toJson]) fun _ => rfl

/-- The number of a VLAN is one of 16 bits. -/
def Vlan.Fits (vlan : Vlan) : Prop := vlan.id ≤ largestShort

theorem Vlan.readBack {vlan : Vlan} (h : vlan.Fits) : ReadBack toJson ofSource? vlan :=
  FieldsBack.readBack
    (.cons (.required (.number h (by decide))) (.cons (.texts vlan.addresses)
      (.cons (.optionFlag vlan.dhcp) (.nil vlan))))
    (by decide) (by simp [toJson, textsMember_slot, optionMember_slot]) fun _ => rfl

/-- What the parts of an interface can hold. -/
structure Interface.Fits (interface : Interface) : Prop where
  selector : ∀ members ∈ interface.selector, (Json.obj members).Sound
  routes : ∀ route ∈ interface.routes, route.Fits
  mtu : ∀ mtu ∈ interface.mtu, mtu ≤ largestNumber
  vlans : ∀ vlan ∈ interface.vlans, vlan.Fits

theorem Interface.readBack {interface : Interface} (h : interface.Fits) :
    ReadBack toJson ofSource? interface :=
  FieldsBack.readBack
    (.cons (.optionText interface.name) <|
      .cons (.option fun members hm => ⟨.jsonMembers (h.selector members hm), Json.noConfusion⟩) <|
      .cons (.texts interface.addresses) <|
      .cons (.list fun route hm => Route.readBack (h.routes route hm)) <|
      .cons (.number h.mtu le_rfl) <|
      .cons (.optionFlag interface.dhcp) <|
      .cons (.option fun bond _ => ⟨bond.readBack, Json.noConfusion⟩) <|
      .cons (.option fun bridge _ => ⟨bridge.readBack, Json.noConfusion⟩) <|
      .cons (.list fun vlan hm => Vlan.readBack (h.vlans vlan hm)) <|
      .nil interface)
    (by decide) (by simp [toJson, textMember_slot, textsMember_slot, numberMember_slot,
      optionMember_slot, listMember_slot]) fun _ => rfl

theorem KernelModule.readBack (kernelModule : KernelModule) :
    ReadBack toJson ofSource? kernelModule :=
  FieldsBack.readBack
    (.cons (.text kernelModule.name "") (.cons (.texts kernelModule.parameters) (.nil kernelModule)))
    (by decide) (by simp [toJson, textsMember_slot]) fun _ => rfl

theorem Volume.readBack (volume : Volume) : ReadBack toJson ofSource? volume :=
  FieldsBack.readBack
    (.cons (.text volume.name "") (.cons (.optionText volume.selector)
      (.cons (.optionText volume.minSize) (.cons (.optionText volume.maxSize) (.nil volume)))))
    (by decide) (by simp [toJson, textMember_slot]) fun _ => rfl

/-- The permissions are a number of 32 bits. -/
def MachineFile.Fits (file : MachineFile) : Prop :=
  ∀ permissions ∈ file.permissions, permissions ≤ largestNumber

theorem MachineFile.readBack {file : MachineFile} (h : file.Fits) :
    ReadBack toJson ofSource? file :=
  FieldsBack.readBack
    (.cons (.text file.content "") (.cons (.text file.path "")
      (.cons (.number h le_rfl) (.cons (.text file.op "create") (.nil file)))))
    (by decide) (by simp [toJson, numberMember_slot]) fun _ => rfl

theorem Schematic.extensions_readBack (extensions : List String) :
    ReadBack (fun extensions => .obj (textsMember "officialExtensions" extensions))
      extensionsOfSource? extensions :=
  FieldsBack.readBack (.last (.texts extensions)) (by decide) (by simp [textsMember_slot]) fun _ => rfl

/-- What a schematic is written as under its only name. -/
def Schematic.customization (schematic : Schematic) : Json :=
  .obj (textsMember "extraKernelArgs" schematic.kernelArguments ++
    [("systemExtensions", .obj (textsMember "officialExtensions" schematic.extensions))])

theorem Schematic.customization_readBack (schematic : Schematic) :
    ReadBack customization customizationOfSource? schematic :=
  FieldsBack.readBack
    (.cons (.texts schematic.kernelArguments)
      (.cons (.orElse (extensions_readBack schematic.extensions) []) (.nil schematic)))
    (by decide) (by simp [customization, textsMember_slot]) fun _ => rfl

theorem Schematic.readBack (schematic : Schematic) : ReadBack toJson ofSource? schematic :=
  FieldsBack.readBack (.last (.orElse schematic.customization_readBack ⟨[], []⟩)) (by decide)
    rfl fun _ => rfl

/-- The value of an operation is a sound document. -/
def LooseOp.Fits (spec : LooseOp) : Prop := ∀ value ∈ spec.value, value.Sound

/-- An operation with a null value is not read as one without a value. -/
theorem LooseOp.readBack {spec : LooseOp} (h : spec.Fits) : ReadBack toJson ofSource? spec :=
  FieldsBack.readBack
    (.cons (.optionText spec.op) (.cons (.optionText spec.path)
      (.cons (.optionText spec.source) (.cons (.present h) (.nil spec)))))
    (by decide) (by simp [toJson, optional_slot]) fun _ => rfl

/-- Patches are written as a list and read as it, also if the only one is a list. -/
theorem mergePatches_readBack {patches : List Json} (h : ∀ patch ∈ patches, patch.Sound) :
    ReadBack (fun patches => .arr (patches.map id)) mergePatchesOfSource? patches := by
  have hsound : (Json.arr (patches.map id)).Sound := by
    rw [List.map_id]
    exact Json.sound_arr.mpr h
  obtain ⟨hw, hn⟩ := hsound
  refine ⟨⟨hw, hn⟩, fun medium => ?_⟩
  rw [mergePatchesOfSource?, Source.buffer?_written medium hw hn, Option.bind_eq_bind,
    Option.bind_some, Source.json?_written .buffered hw hn, List.map_id]
  rfl

/-- A patch in place of a list of patches, unless it is a list itself or null. -/
theorem mergePatches_single {patch : Json} (h : patch.Sound) (harray : patch.isArray = false)
    (hnull : patch.isNull = false) (medium : Medium) :
    mergePatchesOfSource? (.written medium patch) = some [patch] := by
  obtain ⟨hw, hn⟩ := h
  rw [mergePatchesOfSource?, Source.buffer?_written medium hw hn, Option.bind_eq_bind,
    Option.bind_some, Source.json?_written .buffered hw hn]
  cases patch with
  | null => cases hnull
  | arr items => cases harray
  | _ => rfl

/-! ## Settings -/

/-- What settings can hold: numbers of their size, maps in which no name comes twice, and sound
documents. -/
structure Settings.Fits (settings : Settings) : Prop where
  interfaces : ∀ interface ∈ settings.interfaces, interface.Fits
  labels : settings.labels.keys.Nodup
  annotations : settings.annotations.keys.Nodup
  taints : settings.taints.keys.Nodup
  files : ∀ file ∈ settings.files, file.Fits
  mergePatches : ∀ patch ∈ settings.mergePatches, patch.Sound
  operations : ∀ spec ∈ settings.operations, spec.Fits

/-- The documents of the fields of settings, in the order of their names. -/
def Settings.docs (s : Settings) : List (Option Json) :=
  [s.installDisk.map .str, s.diskSelector.map DiskSelector.toJson,
    if s.disks.isEmpty then none else some (.arr (s.disks.map MachineDisk.toJson)),
    if s.interfaces.isEmpty then none else some (.arr (s.interfaces.map Interface.toJson)),
    if s.nameservers.isEmpty then none else some (.strings s.nameservers),
    if s.labels.isEmpty then none else some (.ofMembers s.labels),
    if s.annotations.isEmpty then none else some (.ofMembers s.annotations),
    if s.taints.isEmpty then none else some (.ofMembers s.taints),
    if s.modules.isEmpty then none else some (.arr (s.modules.map KernelModule.toJson)),
    if s.volumes.isEmpty then none else some (.arr (s.volumes.map Volume.toJson)),
    if s.files.isEmpty then none else some (.arr (s.files.map MachineFile.toJson)),
    s.schematic.map Schematic.toJson, s.imageUrl.map .str,
    if s.certSans.isEmpty then none else some (.strings s.certSans),
    if s.extraManifests.isEmpty then none else some (.strings s.extraManifests),
    if s.mergePatches.isEmpty then none else some (.arr (s.mergePatches.map id)),
    if s.operations.isEmpty then none else some (.arr (s.operations.map LooseOp.toJson)),
    if s.patches.isEmpty then none else some (.strings s.patches),
    if !s.overridePatches then none else some (.bool s.overridePatches),
    if !s.overrideExtraManifests then none else some (.bool s.overrideExtraManifests),
    if !s.overrideCertSans then none else some (.bool s.overrideCertSans)]

theorem Settings.members_eq (s : Settings) : s.members = slots fieldNames s.docs := by
  -- an equation for so long an append takes too long to make
  delta members fieldNames docs
  simp only [optionMember_slot, textMember_slot, listMember_slot, textsMember_slot,
    namesMember_slot, flagMember_slot, slots_cons, slots_nil, List.append_assoc, List.append_nil]

theorem Settings.fieldsBack {s : Settings} (h : s.Fits) :
    FieldsBack fieldNames s.docs ofFields? s := by
  refine .cons (.optionText s.installDisk) ?_
  refine .cons (.option fun selector _ => ⟨selector.readBack, Json.noConfusion⟩) ?_
  refine .cons (.list fun disk _ => disk.readBack) ?_
  refine .cons (.list fun interface hm => Interface.readBack (h.interfaces interface hm)) ?_
  refine .cons (.texts s.nameservers) ?_
  refine .cons (.names h.labels) ?_
  refine .cons (.names h.annotations) ?_
  refine .cons (.names h.taints) ?_
  refine .cons (.list fun kernelModule _ => kernelModule.readBack) ?_
  refine .cons (.list fun volume _ => volume.readBack) ?_
  refine .cons (.list fun file hm => MachineFile.readBack (h.files file hm)) ?_
  refine .cons (.option fun schematic _ => ⟨schematic.readBack, Json.noConfusion⟩) ?_
  refine .cons (.optionText s.imageUrl) ?_
  refine .cons (.texts s.certSans) ?_
  refine .cons (.texts s.extraManifests) ?_
  refine .cons (.skipped (mergePatches_readBack h.mergePatches) List.isEmpty_iff.mp) ?_
  refine .cons (.list fun spec hm => LooseOp.readBack (h.operations spec hm)) ?_
  refine .cons (.texts s.patches) ?_
  refine .cons (.flag s.overridePatches) ?_
  refine .cons (.flag s.overrideExtraManifests) ?_
  refine .cons (.flag s.overrideCertSans) ?_
  exact .nil s

theorem Settings.readBack {settings : Settings} (h : settings.Fits) :
    ReadBack toJson ofSource? settings :=
  (fieldsBack h).readBack (by decide) (congrArg Json.obj settings.members_eq) fun _ => rfl

/-! ## Nodes -/

namespace Node

/-- The names of the fields that are a node's own. -/
def ownNames : List String := ["hostname", "ipAddress", "controlPlane"]

def ownDocs (node : Node) : List (Option Json) :=
  [some (.str node.hostname), some (.str node.address), some (.bool node.isControlPlane)]

theorem toJson_eq (node : Node) :
    node.toJson =
      .obj (slots ownNames node.ownDocs ++ slots Settings.fieldNames node.settings.docs) := by
  rw [toJson, Settings.members_eq]
  rfl

theorem own_fieldsBack (node : Node) :
    FieldsBack ownNames node.ownDocs
      (fun own => do
        some
          { hostname := ← Fields.text own "hostname"
            address := ← Fields.text own "ipAddress"
            isControlPlane := ← Fields.flag own "controlPlane"
            settings := node.settings })
      node := by
  refine .cons (.text node.hostname "") ?_
  refine .cons (.text node.address "") ?_
  refine .cons (.givenFlag node.isControlPlane) ?_
  exact .nil node

/-- The fields of a node and those of its settings have different names. -/
theorem names_apart : (ownNames ++ Settings.fieldNames).Nodup := by decide

theorem readBack {node : Node} (h : node.settings.Fits) : ReadBack toJson ofSource? node := by
  have hown := own_fieldsBack node
  have hsettings := Settings.fieldsBack h
  have hownKeys := keys_slots ownNames node.ownDocs
  have hsettingsKeys := keys_slots Settings.fieldNames node.settings.docs
  obtain ⟨hownNames, hsettingsNames, hapart⟩ := List.nodup_append.mp names_apart
  have hkeys : (slots ownNames node.ownDocs ++ slots Settings.fieldNames node.settings.docs).keys =
      (slots ownNames node.ownDocs).keys ++ (slots Settings.fieldNames node.settings.docs).keys :=
    List.map_append
  have hothers : ∀ entry ∈ slots Settings.fieldNames node.settings.docs, entry.1 ∉ ownNames := by
    intro entry hm hname
    exact hapart _ hname _ (hsettingsKeys.subset (List.mem_map_of_mem hm)) rfl
  refine ⟨?_, fun medium => ?_⟩
  · rw [toJson_eq, Json.sound_obj, hkeys]
    refine ⟨(hownKeys.append hsettingsKeys).nodup names_apart, fun entry hm => ?_⟩
    exact (List.mem_append.mp hm).elim (hown.sound entry) (hsettings.sound entry)
  · have hshared := @Source.sharedFields?_written medium ownNames _ _
      (fun entry hm => hownKeys.subset (List.mem_map_of_mem hm)) hothers
      (hownKeys.nodup hownNames) hsettings.sound
    have hcollect : Source.collect Settings.fieldNames []
        ((slots Settings.fieldNames node.settings.docs).map (Source.writtenEntry .buffered)) =
          some ((slots Settings.fieldNames node.settings.docs).map
            (Source.namedSource .buffered)) := by
      rw [Source.collect_written, Source.keepOwn_own
        (fun entry hm => hsettingsKeys.subset (List.mem_map_of_mem hm)) []
        (hsettingsKeys.nodup hsettingsNames), List.nil_append]
    have hread := hown.reads hownNames medium
    have hreadSettings := hsettings.reads hsettingsNames .buffered
    rw [toJson_eq]
    show (Source.sharedFields? ownNames _ >>= _) = some node
    simp only [hshared, Option.bind_eq_bind, Option.bind_some, hcollect, hreadSettings]
    exact hread

end Node

/-! ## Clusters -/

/-- What a description can hold. -/
structure Cluster.Fits (cluster : Cluster) : Prop where
  nodes : ∀ node ∈ cluster.nodes, node.settings.Fits
  controlPlane : cluster.controlPlane.Fits
  worker : cluster.worker.Fits

theorem Cluster.readBack {cluster : Cluster} (h : cluster.Fits) :
    ReadBack toJson ofSource? cluster :=
  FieldsBack.readBack
    (.cons (.text cluster.name "") <|
      .cons (.text cluster.talosVersion "") <|
      .cons (.text cluster.kubernetesVersion "") <|
      .cons (.text cluster.endpoint "") <|
      .cons (.text cluster.domain "") <|
      .cons (.givenFlag cluster.schedulesOnControlPlanes) <|
      .cons (.optionFlag cluster.schedulesOnMasters) <|
      .cons (.texts cluster.machineCertSans) <|
      .cons (.texts cluster.apiServerCertSans) <|
      .cons (.allTexts cluster.podNets) <|
      .cons (.allTexts cluster.serviceNets) <|
      .cons (.option fun cni _ => ⟨cni.readBack, Json.noConfusion⟩) <|
      .cons (.texts cluster.extraManifests) <|
      .cons (.allItems fun node hm => Node.readBack (h.nodes node hm)) <|
      .cons (.orElse (Settings.readBack h.controlPlane) {}) <|
      .cons (.orElse (Settings.readBack h.worker) {}) <|
      .nil cluster)
    (by decide) (by simp [toJson, optionMember_slot, textsMember_slot]) fun _ => rfl

namespace Cluster

/-- What is read of a text, through its value as a description is loaded. -/
def throughValue? (text : String) : Option Cluster := do ofSource? (.value (← Value.ofText? text))

/-- What is read of a text directly. -/
def directly? (text : String) : Option Cluster := do ofSource? (.text (← node? text))

/-- A description is read back from its document. It is read back from its text too, unless the
document nests deeper than a reader of texts follows. One patch may stand in place of a list. -/
theorem written_reads_back {cluster : Cluster} (h : cluster.Fits) :
    (∀ medium, ofSource? (.written medium cluster.toJson) = some cluster) ∧
      throughValue? (writeDocuments [cluster.toJson]) =
        (if cluster.toJson.nesting ≤ nestingLimit then some cluster else none) ∧
      (cluster.toJson.nesting ≤ nestingLimit →
        directly? (writeDocuments [cluster.toJson]) = some cluster) ∧
      ∀ patch : Json, patch.Sound → patch.isArray = false → patch.isNull = false →
        ∀ medium, mergePatchesOfSource? (.written medium patch) = some [patch] := by
  obtain ⟨⟨hw, hn⟩, hreads⟩ := readBack h
  refine ⟨hreads, ?_, fun hnesting => ?_, fun _ => mergePatches_single⟩
  · rw [throughValue?, Yaml.Value.ofText?_writeDocuments hw hn, Option.bind_eq_bind]
    split
    case isTrue =>
      rw [Option.bind_some]
      exact hreads .value
    case isFalse => rw [Option.bind_none]
  · rw [directly?, Yaml.node?_writeDocuments hn, Yaml.expand_docGraph hnesting,
      Option.bind_eq_bind, Option.bind_some]
    exact hreads .text

/-- A cluster of workers that share patches. -/
def patched (patches : List Json) : Cluster :=
  { name := "lab"
    talosVersion := defaultTalosVersion
    kubernetesVersion := defaultKubernetesVersion
    endpoint := "https://10.0.0.10:6443"
    domain := defaultDomain
    schedulesOnControlPlanes := false
    schedulesOnMasters := none
    machineCertSans := []
    apiServerCertSans := []
    podNets := [defaultPodNet]
    serviceNets := [defaultServiceNet]
    cni := none
    extraManifests := []
    nodes := []
    controlPlane := {}
    worker := { mergePatches := patches } }

theorem patched_fits {patches : List Json} (h : ∀ patch ∈ patches, patch.Sound) :
    (patched patches).Fits := by
  have hempty : ({} : Settings).Fits := by constructor <;> simp [Members.keys]
  refine ⟨by simp [patched], hempty, ?_⟩
  exact { hempty with mergePatches := h }

/-- Settings with a null value, a list as the only patch, largest numbers and an empty schematic. -/
def crowded : Settings :=
  { interfaces :=
      [{ name := none
         selector := some [("busPath", .str "0*")]
         addresses := []
         routes := [⟨none, none, some largestNumber⟩]
         mtu := some 9000
         dhcp := some false
         bond := none
         bridge := some ⟨[]⟩
         vlans := [⟨largestShort, [], none⟩] }]
    labels := [("rack", "1"), ("zone", "")]
    files := [⟨"", "/etc/motd", some 420, "append"⟩]
    schematic := some ⟨[], []⟩
    mergePatches := [.arr [.null]]
    operations := [{ op := some "test", value := some .null }, { op := some "test" }]
    overridePatches := true }

/-- A cluster of one control plane node with these settings. -/
def crowdedCluster : Cluster :=
  { patched [.obj []] with
    schedulesOnMasters := some false
    cni := some ⟨.absent, []⟩
    nodes := [⟨"cp", "10.0.0.11", true, crowded⟩] }

theorem crowded_fits : crowded.Fits where
  interfaces := by
    refine List.forall_mem_singleton.mpr ⟨?_, ?_, ?_, ?_⟩
    · simp [Json.Sound, Json.WellFormed, Json.WellFormedMembers, Members.keys, Yaml.NumbersFit,
        Yaml.NumbersFitMembers]
    · simp [Route.Fits]
    · simp [largestNumber]
    · simp [Vlan.Fits]
  labels := by decide
  annotations := by decide
  taints := by decide
  files := by simp [crowded, MachineFile.Fits, largestNumber]
  mergePatches := by
    simp [crowded, Json.Sound, Json.WellFormed, Json.WellFormedItems, Yaml.NumbersFit,
      Yaml.NumbersFitItems]
  operations := by simp [crowded, LooseOp.Fits, Json.Sound, Json.WellFormed, Yaml.NumbersFit]

theorem crowded_cluster_reads_back :
    crowdedCluster.Fits ∧
      (∀ medium, ofSource? (.written medium crowdedCluster.toJson) = some crowdedCluster) ∧
      throughValue? (writeDocuments [crowdedCluster.toJson]) = some crowdedCluster ∧
      directly? (writeDocuments [crowdedCluster.toJson]) = some crowdedCluster ∧
      ∀ medium, mergePatchesOfSource? (.written medium (.obj [])) = some [.obj []] := by
  have hempty : (Json.obj []).Sound := Json.sound_obj.mpr ⟨List.nodup_nil, fun _ hm => (nomatch hm)⟩
  have hpatched : (patched [.obj []]).Fits := patched_fits (List.forall_mem_singleton.mpr hempty)
  have hfits : crowdedCluster.Fits :=
    ⟨List.forall_mem_singleton.mpr crowded_fits, hpatched.controlPlane, hpatched.worker⟩
  have hnesting : crowdedCluster.toJson.nesting ≤ nestingLimit := by decide
  obtain ⟨hmedia, hvalue, hdirectly, hsingle⟩ := written_reads_back hfits
  exact ⟨hfits, hmedia, hvalue.trans (if_pos hnesting), hdirectly hnesting,
    hsingle _ hempty rfl rfl⟩

theorem nesting_patched (patch : Json) : (patched [patch]).toJson.nesting = patch.nesting + 3 := by
  simp [toJson, optionMember_slot, textsMember_slot, Settings.toJson, Settings.members_eq,
    Settings.fieldNames, Settings.docs, patched, slot, Json.strings, Json.nesting,
    Json.nestingOfItems, Json.nestingOfMembers]

/-- A patch may nest so deep that the text of its cluster is refused. -/
theorem nested_patch_refused :
    (patched [nested 126]).Fits ∧
      throughValue? (writeDocuments [(patched [nested 126]).toJson]) = none ∧
      directly? (writeDocuments [(patched [nested 126]).toJson]) = none := by
  obtain ⟨hw, hn, hnesting⟩ := nested_shape 126
  have hfits : (patched [nested 126]).Fits := patched_fits (by simpa using ⟨hw, hn⟩)
  obtain ⟨⟨hw, hn⟩, -⟩ := readBack hfits
  have hdeep : ¬ (patched [nested 126]).toJson.nesting ≤ nestingLimit := by
    rw [nesting_patched, hnesting]
    decide
  have hunread : ofSource? (.text (Yaml.docGraph (patched [nested 126]).toJson).expand) = none := by
    decide +kernel
  refine ⟨hfits, ?_, ?_⟩
  · rw [throughValue?, Yaml.Value.ofText?_writeDocuments hw hn, if_neg hdeep]
    rfl
  · rw [directly?, Yaml.node?_writeDocuments hn, Option.bind_eq_bind, Option.bind_some, hunread]

end Cluster

end ClusterConfig
