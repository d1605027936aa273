import ClusterConfig.Cluster.Basic
import ClusterConfig.Labels
import ClusterConfig.Network.Range
import ClusterConfig.Patch.Reference
import ClusterConfig.Patch.Shape
import ClusterConfig.Template.Fields
import ClusterConfig.Validation.Issue
import ClusterConfig.Yaml.Document

/-!
# Checks of settings

The settings of a role and those of a node are checked alike, each for itself.
-/

set_option autoImplicit false

namespace ClusterConfig.Validation

/-- The issue of a text that breaks a rule. -/
def issueOf {ε α : Type} (kind : Kind) (place : Place) (what text : String) (message : ε → String)
    (checked : Except ε α) : List Issue :=
  match checked with
  | .ok _ => []
  | .error error => [⟨kind, place, what ++ " " ++ Text.quoted text ++ " " ++ message error⟩]

/-- The issues of the items of a list, each with its place. -/
def onItems {α : Type} (place : Place) (items : List α) (issues : Place → α → List Issue) :
    List Issue :=
  items.zipIdx.flatMap fun (item, index) => issues (place.index index) item

/-- Adds a place to those of a name. -/
def addPosition (name : String) (index : Nat) : List (String × List Nat) → List (String × List Nat)
  | [] => [(name, [index])]
  | (other, indices) :: rest =>
    if other = name then (other, indices ++ [index]) :: rest
    else (other, indices) :: addPosition name index rest

/-- The places of each name that is not blank, in order of first appearance. Blanks around a name
do not count. -/
def positionsByName (names : List String) : List (String × List Nat) :=
  names.zipIdx.foldl (fun groups (name, index) =>
    let name := Text.trim name
    if name.isEmpty then groups else addPosition name index groups) []

/-- Each name that occurs again, with its first and its second place. -/
def repeatedNames (names : List String) : List (String × Nat × Nat) :=
  (positionsByName names).filterMap fun (name, indices) =>
    match indices with
    | first :: second :: _ => some (name, first, second)
    | _ => none

/-- The issues of names that occur again, at their second place. -/
def duplicates (kind : Kind) (what : String) (place : Nat → Place) (names : List String) :
    List Issue :=
  (repeatedNames names).map fun (name, first, second) =>
    ⟨kind, place second, what ++ " " ++ Text.quoted name ++
      " is declared more than once (first at index " ++ toString first ++ ")"⟩

def requiredText (place : Place) (what text : String) : List Issue :=
  if (Text.trim text).isEmpty then [⟨.required, place, what ++ " is required"⟩] else []

def addressIssues (place : Place) (what : String) (addresses : List String) : List Issue :=
  onItems place addresses fun place address =>
    issueOf .invalidAddress place what address Network.AddressError.message
      (Network.checkAddress address)

def isDevicePath (text : String) : Bool := (Text.afterStart? "/dev/".toList text.toList).isSome

def checkDisks (settings : Settings) (place : Place) : List Issue :=
  let install := match settings.installDisk with
    | none => []
    | some disk =>
      if isDevicePath disk then []
      else [⟨.invalidInstallTarget, place.field "installDisk",
        "install disk " ++ Text.quoted disk ++ " must be a device path like /dev/sda"⟩]
  install ++ onItems (place.field "machineDisks") settings.disks fun place disk =>
    if isDevicePath disk.device then []
    else [⟨.invalidInstallTarget, place.field "device",
      "machine disk " ++ Text.quoted disk.device ++ " must be a device path"⟩]

def interfaceAddressIssues (place : Place) (addresses : List String) : List Issue :=
  onItems place addresses fun place address =>
    issueOf .invalidCidr place "address" address Network.AddressError.message
      (Network.checkInterfaceAddress address)

def routeIssues (place : Place) (route : Route) : List Issue :=
  let network := match route.network with
    | none => []
    | some network =>
      issueOf .invalidCidr (place.field "network") "route network" network
        Network.AddressError.message (Network.checkRoute network)
  let gateway := match route.gateway with
    | none => []
    | some gateway =>
      issueOf .invalidAddress (place.field "gateway") "gateway" gateway
        Network.AddressError.message (Network.ipAddress gateway)
  network ++ gateway

def interfaceIssues (place : Place) (interface : Interface) : List Issue :=
  interfaceAddressIssues (place.field "addresses") interface.addresses ++
    onItems (place.field "routes") interface.routes routeIssues ++
    onItems (place.field "vlans") interface.vlans fun place vlan =>
      interfaceAddressIssues (place.field "addresses") vlan.addresses

/-- What joins interfaces to one. -/
inductive AggregateKind where
  | bond
  | bridge
deriving DecidableEq

def AggregateKind.name : AggregateKind → String
  | .bond => "bond"
  | .bridge => "bridge"

/-- The bond or bridge that has an interface as its member. -/
structure Aggregate where
  kind : AggregateKind
  owner : String
deriving DecidableEq

def Aggregate.name (aggregate : Aggregate) : String := aggregate.kind.name ++ " " ++ aggregate.owner

/-- The aggregates of an interface and their members. -/
def Interface.aggregates (interface : Interface) (index : Nat) : List (Aggregate × List String) :=
  let owner := interface.displayName index
  let bond := interface.bond.toList.map fun bond => (⟨.bond, owner⟩, bond.interfaces)
  let bridge := interface.bridge.toList.map fun bridge => (⟨.bridge, owner⟩, bridge.interfaces)
  bond ++ bridge

/-- The first aggregate of each interface that is a member of one. -/
abbrev Memberships := List (String × Aggregate)

/-- Makes an interface a member, unless another aggregate has it. -/
def joinMember (place : Place) (aggregate : Aggregate) (state : Memberships × List Issue)
    (member : String) : Memberships × List Issue :=
  match state.1.lookup member with
  | none => (state.1 ++ [(member, aggregate)], state.2)
  | some previous =>
    if previous = aggregate then state
    else (state.1, state.2 ++ [⟨.interfaceConflict, place,
      "interface " ++ member ++ " is a member of " ++ previous.name ++ " and of " ++
        aggregate.name⟩])

def joinMembers (place : Place) (state : Memberships × List Issue)
    (aggregate : Aggregate × List String) : Memberships × List Issue :=
  aggregate.2.foldl
    (joinMember ((place.field aggregate.1.kind.name).field "interfaces") aggregate.1) state

def bothAggregates (place : Place) (interface : Interface) (index : Nat) : List Issue :=
  if interface.bond.isSome && interface.bridge.isSome then
    [⟨.interfaceConflict, place,
      "interface " ++ interface.displayName index ++ " can not be both a bond and a bridge"⟩]
  else []

def checkInterfaces (place : Place) (interfaces : List Interface) : List Issue :=
  (interfaces.zipIdx.foldl (fun (state : Memberships × List Issue) (interface, index) =>
    let place := place.index index
    let own := interfaceIssues place interface ++ bothAggregates place interface index
    (Interface.aggregates interface index).foldl (joinMembers place)
      (state.1, state.2 ++ own)) ([], [])).2

def checkNetwork (settings : Settings) (place : Place) : List Issue :=
  checkInterfaces (place.field "networkInterfaces") settings.interfaces ++
    onItems (place.field "nameservers") settings.nameservers fun place nameserver =>
      issueOf .invalidAddress place "nameserver" nameserver Network.AddressError.message
        (Network.ipAddress nameserver)

def labelIssue (place : Place) (checked : Except Labels.LabelError Unit) : List Issue :=
  match checked with
  | .ok _ => []
  | .error error => [⟨.invalidLabel, place, error.message⟩]

/-- A template is checked as such, and a literal value by the rule of its map. -/
def valueIssues (place : Place) (value : String) (literal : Except Labels.LabelError Unit) :
    List Issue :=
  if Template.isTemplate value then
    match Template.check value with
    | .ok _ => []
    | .error error => [⟨.invalidTemplate, place, error.message⟩]
  else labelIssue place literal

def checkMetadata (settings : Settings) (place : Place) : List Issue :=
  let labels := settings.labels.flatMap fun (key, value) =>
    let entry := (place.field "nodeLabels").key key
    labelIssue entry (Labels.checkKey key) ++ valueIssues entry value (Labels.checkValue value)
  let annotations := settings.annotations.flatMap fun (key, value) =>
    let entry := (place.field "nodeAnnotations").key key
    labelIssue entry (Labels.checkKey key) ++ valueIssues entry value (.ok ())
  let taints := settings.taints.flatMap fun (key, value) =>
    let entry := (place.field "nodeTaints").key key
    labelIssue entry (Labels.checkKey key) ++ labelIssue entry (Labels.checkTaint value)
  labels ++ annotations ++ taints

def deprecatedField (place : Place) (name : String) (used : Bool) : List Issue :=
  if used then
    [⟨.deprecated, place.field name, name ++ " is deprecated, use patches instead"⟩]
  else []

/-- Patches that stand in the description are read; files are not. -/
def patchIssues (place : Place) (reference : String) : List Issue :=
  match Patch.Reference.parse reference with
  | .inline text =>
    match Yaml.parseJson? text with
    | none => [⟨.invalidPatch, place, "inline patch is not valid YAML: <yaml>"⟩]
    | some (.arr operations) =>
      (Patch.checkAll operations).map fun (index, error) =>
        ⟨.invalidPatch, place.index index, error.message⟩
    | some _ => []
  | _ => []

def checkPatches (settings : Settings) (place : Place) : List Issue :=
  deprecatedField place "inlinePatch" (!settings.mergePatches.isEmpty) ++
    onItems (place.field "inlinePatch") settings.mergePatches (fun place patch =>
      if patch.isObject then []
      else [⟨.invalidPatch, place, "an inline merge patch must be a mapping"⟩]) ++
    deprecatedField place "configPatches" (!settings.operations.isEmpty) ++
    onItems (place.field "configPatches") settings.operations (fun place operation =>
      match Patch.checkOperation operation with
      | .ok _ => []
      | .error error => [⟨.invalidPatch, place, error.message⟩]) ++
    onItems (place.field "patches") settings.patches patchIssues

def checkModules (settings : Settings) (place : Place) : List Issue :=
  let list := place.field "kernelModules"
  onItems list settings.modules (fun place (module : KernelModule) =>
    requiredText (place.field "name") "a kernel module name" module.name) ++
  duplicates .duplicateKernelModule "kernel module" (fun index => (list.index index).field "name")
    (settings.modules.map KernelModule.name)

def checkVolumes (settings : Settings) (place : Place) : List Issue :=
  let list := place.field "volumes"
  onItems list settings.volumes (fun place (volume : Volume) =>
    requiredText (place.field "name") "a volume name" volume.name) ++
  duplicates .duplicateVolume "volume" (fun index => (list.index index).field "name")
    (settings.volumes.map Volume.name)

def checkExtensions (settings : Settings) (place : Place) : List Issue :=
  match settings.schematic with
  | none => []
  | some schematic =>
    let list := (((place.field "schematic").field "customization").field "systemExtensions").field
      "officialExtensions"
    duplicates .duplicateExtension "system extension" list.index schematic.extensions

def checkFiles (settings : Settings) (place : Place) : List Issue :=
  onItems (place.field "machineFiles") settings.files fun place (file : MachineFile) =>
    requiredText (place.field "path") "a machine file path" file.path

/-- The issues of the settings at a place. -/
def checkSettings (settings : Settings) (place : Place) : List Issue :=
  checkDisks settings place ++ checkNetwork settings place ++ checkMetadata settings place ++
    checkPatches settings place ++
    addressIssues (place.field "certSANs") "certificate SAN" settings.certSans ++
    checkModules settings place ++ checkVolumes settings place ++ checkExtensions settings place ++
    checkFiles settings place

end ClusterConfig.Validation
