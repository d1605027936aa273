import ClusterConfig.Cluster.Merge
import ClusterConfig.Files.Tree
import ClusterConfig.Json.Path
import ClusterConfig.Machine.Base
import ClusterConfig.Patch.Reference
import ClusterConfig.Template.Fields

/-!
# Configurations of nodes

The settings of a node, merged with those of its role, are put into the base configuration of the
role. Volumes are documents of their own.
-/

set_option autoImplicit false

namespace ClusterConfig.Machine

open Template (Fields TemplateError)

inductive SynthesisError where
  /-- The text is no version that the bundle could be compatible with. -/
  | versionContract (text : String)
  | renderTemplate (field : String) (reason : TemplateError)
  | fileContent (path : String) (reason : FileError)
deriving DecidableEq

namespace SynthesisError

/-- The texts of an error and of what caused it. -/
def messages : SynthesisError → List String
  | .versionContract text =>
    ["failed to determine the version contract", VersionContract.notAContract text]
  | .renderTemplate field reason =>
    ["failed to render the template of " ++ field, reason.message]
  | .fileContent path _ => ["failed to read the content of machine file " ++ Text.quotedPath path]

end SynthesisError

/-- Makes the base configuration of a role. -/
abbrev Generator := Input → Except SynthesisError Json

/-- The documents of a node before it is patched. -/
structure NodeDocuments where
  machine : Json
  /-- Documents that follow the machine configuration. -/
  extra : List Json

/-- The fields that the templates of a node may use. -/
def fieldsOf (node : Node) (cluster : Cluster) : Fields where
  hostname := node.hostname
  ipAddress := node.addresses.headD ""
  installDisk := node.settings.installDisk.getD ""
  talosVersion := cluster.talosVersion
  kubernetesVersion := cluster.kubernetesVersion
  clusterName := cluster.name
  role := node.role.name

/-- Sets a list, unless it is empty. -/
def setList {α : Type} (path : List String) (items : List α) (toJson : α → Json) (doc : Json) :
    Json :=
  if items.isEmpty then doc else doc.setAt path (.arr (items.map toJson))

def setInstall (settings : Settings) (talosVersion : String) (doc : Json) : Json :=
  let doc := match settings.installDisk with
    | none => doc
    | some disk => doc.setAt ["machine", "install", "disk"] (.str disk)
  let doc := match settings.diskSelector with
    | none => doc
    | some selector =>
      (doc.removeAt ["machine", "install", "disk"]).setAt ["machine", "install", "diskSelector"]
        selector.toJson
  let doc := doc.setAt ["machine", "install", "image"] (.str (installerImage settings talosVersion))
  match settings.schematic with
  | none => doc
  | some schematic =>
    setList ["machine", "install", "extraKernelArgs"] schematic.kernelArguments Json.str doc

def setNetwork (settings : Settings) (doc : Json) : Json :=
  setList ["machine", "network", "nameservers"] settings.nameservers Json.str
    (setList ["machine", "network", "interfaces"] settings.interfaces Interface.toJson doc)

/-- Sets the members of a map, each rendered for the node. -/
def setRendered (fields : Fields) (name : String) (entries : Members String) (doc : Json) :
    Except SynthesisError Json :=
  entries.foldlM (fun doc (key, value) =>
    match Template.render fields value with
    | .ok text => .ok (doc.setAt ["machine", name, key] (.str text))
    | .error reason => .error (.renderTemplate (name ++ "[" ++ Text.quoted key ++ "]") reason)) doc

def setMetadata (fields : Fields) (settings : Settings) (doc : Json) :
    Except SynthesisError Json := do
  let doc ← setRendered fields "nodeLabels" settings.labels doc
  let doc ← setRendered fields "nodeAnnotations" settings.annotations doc
  setRendered fields "nodeTaints" settings.taints doc

/-- The content of a machine file, or of the file that it refers to. -/
def fileContent (files : FileTree) (content : String) : Except SynthesisError String :=
  match Patch.Reference.parse content with
  | .inline text => .ok text
  | .literal path => (files.readText path).mapError (.fileContent path)
  | .file path => (files.readText path).mapError (.fileContent path)

def machineFile (files : FileTree) (file : MachineFile) : Except SynthesisError Json := do
  let content ← fileContent files file.content
  return .obj ([("content", .str content), ("path", .str file.path), ("op", .str file.op)] ++
    numberMember "permissions" file.permissions)

def setFiles (tree : FileTree) (files : List MachineFile) (doc : Json) :
    Except SynthesisError Json := do
  if files.isEmpty then return doc
  let items ← files.mapM (machineFile tree)
  return doc.setAt ["machine", "files"] (.arr items)

/-- Puts the settings of a node into a configuration. -/
def applySettings (tree : FileTree) (node : Node) (cluster : Cluster) (doc : Json) :
    Except SynthesisError Json := do
  let settings := node.settings
  let doc := doc.setAt ["machine", "network", "hostname"] (.str node.hostname)
  let doc := setNetwork settings (setInstall settings cluster.talosVersion doc)
  let doc ← setMetadata (fieldsOf node cluster) settings doc
  let doc := setList ["machine", "kernel", "modules"] settings.modules KernelModule.toJson doc
  let names := cluster.machineCertSans ++ settings.certSans
  let doc := setList ["machine", "certSANs"] names Json.str doc
  let doc := setList ["machine", "disks"] settings.disks MachineDisk.toJson doc
  let doc ← setFiles tree settings.files doc
  return setList ["cluster", "extraManifests"] (cluster.extraManifests ++ settings.extraManifests)
    Json.str doc

/-- The document of a volume. -/
def volumeDocument (volume : Volume) : Json :=
  .obj [("apiVersion", .str formatVersion), ("kind", .str "UserVolumeConfig"),
    ("name", .str volume.name),
    ("provisioning", .obj (
      optionMember "diskSelector" volume.selector (fun selector => .obj [("match", .str selector)]) ++
      textMember "minSize" volume.minSize ++ textMember "maxSize" volume.maxSize))]

/-- Volumes are left out where the version does not know them. -/
def volumeDocuments (contract : VersionContract) (settings : Settings) : List Json :=
  if contract.userVolumes then settings.volumes.map volumeDocument else []

/-- The documents of a node that is merged with the settings of its role. -/
def synthesize (generate : Generator) (tree : FileTree) (node : Node) (cluster : Cluster)
    (bundle : Bundle) : Except SynthesisError NodeDocuments := do
  let contract ← (bundle.versionContract cluster.talosVersion).mapError .versionContract
  let doc ← generate ⟨cluster, node.role, bundle, contract⟩
  let machine ← applySettings tree node cluster doc
  return ⟨machine, volumeDocuments contract node.settings⟩

/-- The generator of the built-in configurations, which never fails. -/
def builtIn : Generator := fun input => .ok (base input)

end ClusterConfig.Machine
