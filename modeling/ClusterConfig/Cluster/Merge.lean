import ClusterConfig.Cluster.Basic

/-!
# Settings of a role under those of a node

A single setting of the node wins if it is there, and so does a list that is not empty. Labels and
their like are united, the node's value winning. Shared lists and patches of the role come before
those of the node, unless the node replaces the list.
-/

set_option autoImplicit false

namespace ClusterConfig

namespace Settings

def orList {α : Type} (own defaults : List α) : List α := if own.isEmpty then defaults else own

/-- Names of the defaults keep their places, names that are new come after them. -/
def unite (own defaults : Members String) : Members String :=
  if defaults.isEmpty then own else defaults.putAll own

def combine (mode : ListMode) (own defaults : List String) : List String :=
  match mode with
  | .prepend => defaults ++ own
  | .replace => own

/-- The settings with defaults under them. -/
def merge (own defaults : Settings) : Settings :=
  { installDisk := own.installDisk <|> defaults.installDisk
    diskSelector := own.diskSelector <|> defaults.diskSelector
    disks := orList own.disks defaults.disks
    interfaces := orList own.interfaces defaults.interfaces
    nameservers := orList own.nameservers defaults.nameservers
    labels := unite own.labels defaults.labels
    annotations := unite own.annotations defaults.annotations
    taints := unite own.taints defaults.taints
    modules := orList own.modules defaults.modules
    volumes := orList own.volumes defaults.volumes
    files := orList own.files defaults.files
    schematic := own.schematic <|> defaults.schematic
    imageUrl := own.imageUrl <|> defaults.imageUrl
    certSans := combine (own.mode .certSans) own.certSans defaults.certSans
    extraManifests := combine (own.mode .extraManifests) own.extraManifests defaults.extraManifests
    mergePatches := defaults.mergePatches ++ own.mergePatches
    operations := defaults.operations ++ own.operations
    patches := combine (own.mode .patches) own.patches defaults.patches
    overridePatches := own.overridePatches
    overrideExtraManifests := own.overrideExtraManifests
    overrideCertSans := own.overrideCertSans }

end Settings

/-- A node with defaults under its settings. -/
def Node.withDefaults (node : Node) (defaults : Settings) : Node :=
  { node with settings := node.settings.merge defaults }

/-- The nodes with the settings of their roles under their own. -/
def Cluster.mergedNodes (cluster : Cluster) : List Node :=
  cluster.nodes.map fun node => node.withDefaults (cluster.defaults node.role)

end ClusterConfig
