import Mathlib
import ClusterConfig.Output.ClientConfig
import ClusterConfig.Proofs.Nodes.Outcomes
import ClusterConfig.Proofs.Nodes.Rendered

/-!
# The identity that nodes share

The settings of a node change its configuration at their own paths only. The base configuration of
either role has the identity of the cluster elsewhere, so all nodes of a cluster show the same, and
the authority of their machines is the one that the client is told of.
-/

set_option autoImplicit false

namespace ClusterConfig.Machine

open Json (Apart ChangedOnlyAt WellFormed changedOnlyAt_removeAt changedOnlyAt_setAt
  setAt_wellFormed wellFormed_arr wellFormed_obj)

variable {cluster : Cluster} {bundle : Bundle} {contract : VersionContract} {node : Node}
  {tree : FileTree} {doc out : Json} {documents : NodeDocuments}

/-! ## Base configurations name nothing twice -/

theorem strings_wellFormed (values : List String) : (Json.strings values).WellFormed :=
  wellFormed_arr.mpr fun item hm => by
    obtain ⟨value, -, rfl⟩ := List.mem_map.mp hm
    trivial

theorem features_wellFormed (contract : VersionContract) : (features contract).WellFormed := by
  unfold features enabled
  split <;> split <;> simp [Members.keys, WellFormed, Json.WellFormedMembers]

theorem machine_wellFormed (input : Input) : (machine input).WellFormed := by
  have hfeatures := features_wellFormed input.contract
  unfold machine authority
  split <;> simp [Members.keys, WellFormed, Json.WellFormedItems, Json.WellFormedMembers, hfeatures]

theorem cniJson_wellFormed (cni : Cni) : (cniJson cni).WellFormed := by
  have hurls := strings_wellFormed cni.urls
  unfold cniJson
  split <;> simp [Members.keys, WellFormed, Json.WellFormedMembers, hurls]

theorem clusterNetwork_wellFormed (cluster : Cluster) : (clusterNetwork cluster).WellFormed := by
  unfold clusterNetwork optionMember
  split <;>
    simp [Members.keys, WellFormed, Json.WellFormedMembers, strings_wellFormed, cniJson_wellFormed]

theorem clusterSection_wellFormed (input : Input) : (clusterSection input).WellFormed := by
  unfold clusterSection controlPlaneMembers authority discovery enabled Credentials.toJson
  split <;>
    simp [Members.keys, WellFormed, Json.WellFormedMembers, strings_wellFormed,
      clusterNetwork_wellFormed]

theorem base_wellFormed (input : Input) : (base input).WellFormed := by
  have hmachine := machine_wellFormed input
  have hcluster := clusterSection_wellFormed input
  simp [base, Members.keys, WellFormed, Json.WellFormedMembers, hmachine, hcluster]

/-! ## What settings change -/

/-- The paths of the installation. -/
def installPaths : List (List String) :=
  [["machine", "install", "disk"], ["machine", "install", "diskSelector"],
    ["machine", "install", "image"], ["machine", "install", "extraKernelArgs"]]

/-- The paths that are set in front of the rendered members. -/
def earlierPaths : List (List String) :=
  [["machine", "network", "hostname"]] ++ installPaths ++
    [["machine", "network", "interfaces"], ["machine", "network", "nameservers"]]

/-- All paths that the settings of a node change. -/
def nodePaths (settings : Settings) : List (List String) :=
  earlierPaths ++ renderedPaths settings ++ laterPaths

/-- Sets the disk of an installation, if there is one. -/
def setDisk (settings : Settings) (doc : Json) : Json :=
  match settings.installDisk with
  | none => doc
  | some disk => doc.setAt ["machine", "install", "disk"] (.str disk)

/-- Sets what selects the disk in place of the disk itself, if there is such a thing. -/
def setSelector (settings : Settings) (doc : Json) : Json :=
  match settings.diskSelector with
  | none => doc
  | some selector =>
    (doc.removeAt ["machine", "install", "disk"]).setAt ["machine", "install", "diskSelector"]
      selector.toJson

def setKernelArguments (settings : Settings) (doc : Json) : Json :=
  match settings.schematic with
  | none => doc
  | some schematic =>
    setList ["machine", "install", "extraKernelArgs"] schematic.kernelArguments Json.str doc

theorem setInstall_eq (settings : Settings) (talosVersion : String) (doc : Json) :
    setInstall settings talosVersion doc =
      setKernelArguments settings ((setSelector settings (setDisk settings doc)).setAt
        ["machine", "install", "image"] (.str (installerImage settings talosVersion))) := rfl

theorem setDisk_changes (hd : doc.WellFormed) (settings : Settings) :
    ChangedOnlyAt installPaths doc (setDisk settings doc) ∧ (setDisk settings doc).WellFormed := by
  unfold setDisk
  cases settings.installDisk with
  | none => exact ⟨.refl _ _, hd⟩
  | some disk =>
    have hdisk : (Json.str disk).WellFormed := trivial
    exact ⟨(changedOnlyAt_setAt _ _ _).mono (by simp [installPaths]), setAt_wellFormed hd hdisk _⟩

theorem setSelector_changes (hd : doc.WellFormed) (settings : Settings) :
    ChangedOnlyAt installPaths doc (setSelector settings doc) := by
  unfold setSelector
  cases settings.diskSelector with
  | none => exact .refl _ _
  | some selector =>
    exact ((changedOnlyAt_removeAt hd _).append (changedOnlyAt_setAt _ _ _)).mono
      (by simp [installPaths])

theorem setKernelArguments_changes (settings : Settings) (doc : Json) :
    ChangedOnlyAt [["machine", "install", "extraKernelArgs"]] doc
      (setKernelArguments settings doc) := by
  unfold setKernelArguments
  cases settings.schematic with
  | none => exact .refl _ _
  | some schematic => exact setList_changes _ _ _ _

theorem setInstall_changes (hd : doc.WellFormed) (settings : Settings) (talosVersion : String) :
    ChangedOnlyAt installPaths doc (setInstall settings talosVersion doc) := by
  obtain ⟨hdisk, hw⟩ := setDisk_changes hd settings
  rw [setInstall_eq]
  exact (hdisk.trans (setSelector_changes hw settings)).trans
    (((changedOnlyAt_setAt _ _ _).append (setKernelArguments_changes settings _)).mono
      (by simp [installPaths]))

theorem setEarlier_changes (hd : doc.WellFormed) (node : Node) (cluster : Cluster) :
    ChangedOnlyAt earlierPaths doc (setEarlier node cluster doc) := by
  have hname : (Json.str node.hostname).WellFormed := trivial
  have hnamed := setAt_wellFormed hd hname ["machine", "network", "hostname"]
  exact ((changedOnlyAt_setAt _ _ _).append (setInstall_changes hnamed _ _)).append
    (setNetwork_changes _ _)

theorem applySettings_changes (hd : doc.WellFormed)
    (h : applySettings tree node cluster doc = .ok out) :
    ChangedOnlyAt (nodePaths node.settings) doc out := by
  obtain ⟨rendered, hrendered, hlater⟩ := applySettings_steps h
  exact ((setEarlier_changes hd node cluster).append (setMetadata_changes hrendered)).append hlater

theorem synthesize_changes (h : synthesize builtIn tree node cluster bundle = .ok documents) :
    ∃ contract, bundle.versionContract cluster.talosVersion = .ok contract ∧
      ChangedOnlyAt (nodePaths node.settings) (base ⟨cluster, node.role, bundle, contract⟩)
        documents.machine := by
  obtain ⟨contract, doc, hcontract, hdoc, hmachine⟩ := synthesize_steps h
  cases hdoc
  exact ⟨contract, hcontract, applySettings_changes (base_wellFormed _) hmachine⟩

/-! ## What is the same for all nodes -/

/-- The identity of a cluster: the paths where all nodes have the same, and what they have there. -/
def identity (cluster : Cluster) (bundle : Bundle) : List (List String × Json) :=
  [(["cluster", "id"], .str bundle.clusterId),
    (["cluster", "secret"], .str bundle.clusterSecret),
    (["cluster", "token"], .str bundle.bootstrapToken),
    (["cluster", "controlPlane"], .obj [("endpoint", .str cluster.endpoint)]),
    (["cluster", "network"], clusterNetwork cluster),
    (["cluster", "ca", "crt"], .str bundle.kubernetes.certificate),
    (["machine", "token"], .str bundle.trustToken),
    (["machine", "ca", "crt"], .str bundle.machine.certificate)]

/-- The paths of the identity. -/
def identityPaths : List (List String) :=
  [["cluster", "id"], ["cluster", "secret"], ["cluster", "token"], ["cluster", "controlPlane"],
    ["cluster", "network"], ["cluster", "ca", "crt"], ["machine", "token"],
    ["machine", "ca", "crt"]]

theorem map_identity (cluster : Cluster) (bundle : Bundle) :
    (identity cluster bundle).map Prod.fst = identityPaths := rfl

theorem base_identity (role : Role) :
    ∀ entry ∈ identity cluster bundle,
      (base ⟨cluster, role, bundle, contract⟩).getPath? entry.1 = some entry.2 := by
  simp only [identity, List.forall_mem_cons, List.not_mem_nil, false_imp_iff, implies_true,
    and_true]
  exact ⟨rfl, rfl, rfl, rfl, rfl, rfl, rfl, rfl⟩

/-- The paths of nodes lead apart from those of the identity, whatever keys they end in. -/
theorem nodePaths_apart (settings : Settings) {path : List String} (hpath : path ∈ identityPaths) :
    ∀ changed ∈ nodePaths settings, Apart changed path := by
  have hplain : ∀ path ∈ identityPaths, ∀ changed ∈ earlierPaths ++ laterPaths,
      Apart changed path := by decide
  have hmaps : ∀ path ∈ identityPaths, ∀ name ∈ ["nodeLabels", "nodeAnnotations", "nodeTaints"],
      ∀ key, Apart ["machine", name, key] path := by simp [identityPaths, Apart]
  obtain ⟨hearlier, hlater⟩ := List.forall_mem_append.mp (hplain path hpath)
  have hrendered : ∀ changed ∈ renderedPaths settings, Apart changed path :=
    forall_mem_renderedPaths.mpr fun map hm key _ =>
      hmaps path hpath map.1 (List.mem_map_of_mem hm) key
  exact List.forall_mem_append.mpr ⟨List.forall_mem_append.mpr ⟨hearlier, hrendered⟩, hlater⟩

theorem synthesize_identity (h : synthesize builtIn tree node cluster bundle = .ok documents) :
    ∀ entry ∈ identity cluster bundle, documents.machine.getPath? entry.1 = some entry.2 := by
  intro entry he
  have hpath : entry.1 ∈ identityPaths := map_identity cluster bundle ▸ List.mem_map_of_mem he
  obtain ⟨contract, -, hchanges⟩ := synthesize_changes h
  rw [hchanges.elsewhere _ (nodePaths_apart _ hpath), base_identity _ entry he]

/-- The settings of a node change the configuration of its role at their own paths only. So all
nodes of a cluster show the same identity, and the authority of their machines is that of the
client. -/
theorem nodes_share_identity (cluster : Cluster) (bundle : Bundle) :
    (∀ (tree : FileTree) (node : Node) (documents : NodeDocuments),
      synthesize builtIn tree node cluster bundle = .ok documents →
        (∃ contract, bundle.versionContract cluster.talosVersion = .ok contract ∧
          ChangedOnlyAt (nodePaths node.settings) (base ⟨cluster, node.role, bundle, contract⟩)
            documents.machine) ∧
        (∀ entry ∈ identity cluster bundle, documents.machine.getPath? entry.1 = some entry.2) ∧
        documents.machine.getPath? ["machine", "ca", "crt"] =
          (ClientConfig.ofBundle cluster bundle).activeContext?.map fun context =>
            .str context.authority) ∧
    ∀ (tree other : FileTree) (node neighbour : Node) (documents others : NodeDocuments),
      synthesize builtIn tree node cluster bundle = .ok documents →
      synthesize builtIn other neighbour cluster bundle = .ok others →
        ∀ path ∈ identityPaths,
          documents.machine.getPath? path = others.machine.getPath? path := by
  refine ⟨fun tree node documents h => ⟨synthesize_changes h, synthesize_identity h, ?_⟩, ?_⟩
  · have hactive : (ClientConfig.ofBundle cluster bundle).activeContext?.map
        (fun context => Json.str context.authority) = some (.str bundle.machine.certificate) := by
      simp [ClientConfig.ofBundle, ClientConfig.activeContext?, Members.get?]
    rw [hactive]
    exact synthesize_identity h (["machine", "ca", "crt"], .str bundle.machine.certificate)
      (by simp [identity])
  · intro tree other node neighbour documents others h h' path hpath
    rw [← map_identity cluster bundle] at hpath
    obtain ⟨entry, he, rfl⟩ := List.mem_map.mp hpath
    rw [synthesize_identity h entry he, synthesize_identity h' entry he]

/-- A worker with a selected disk and labels whose keys look like paths. -/
def oddWorker : Node :=
  ⟨"w", "10.0.0.2", false,
    { diskSelector := some ⟨none, none, some "a", none, none, none, none, none, none⟩
      nameservers := ["10.0.0.3"]
      labels := [("machine/token", "a"), ("", "b"), ("ca.crt", "\x7b\x7b .role \x7d\x7d")]
      files := [⟨"a", "/etc/a", none, "create"⟩]
      extraManifests := ["https://10.0.0.9/a.yaml"] }⟩

theorem oddWorker_shares_identity :
    let cluster := Compiler.smallCluster [Compiler.bareNode "c" true, oddWorker]
    let bundle := Compiler.smallBundle "key"
    ∃ documents others,
      synthesize builtIn {} oddWorker cluster bundle = .ok documents ∧
      synthesize builtIn {} (Compiler.bareNode "c" true) cluster bundle = .ok others ∧
      (∃ contract, bundle.versionContract cluster.talosVersion = .ok contract ∧
        ChangedOnlyAt (nodePaths oddWorker.settings) (base ⟨cluster, .worker, bundle, contract⟩)
          documents.machine) ∧
      (∀ entry ∈ identity cluster bundle, documents.machine.getPath? entry.1 = some entry.2) ∧
      documents.machine.getPath? ["machine", "ca", "crt"] = some (.str "os") ∧
      ∀ path ∈ identityPaths,
        documents.machine.getPath? path = others.machine.getPath? path := by
  intro cluster bundle
  obtain ⟨documents, h⟩ : ∃ documents,
      synthesize builtIn {} oddWorker cluster bundle = .ok documents :=
    synthesized_of_isSome (by decide +kernel)
  obtain ⟨others, h'⟩ : ∃ others,
      synthesize builtIn {} (Compiler.bareNode "c" true) cluster bundle = .ok others :=
    synthesized_of_isSome (by decide +kernel)
  obtain ⟨hone, htwo⟩ := nodes_share_identity cluster bundle
  obtain ⟨hchanges, hidentity, hclient⟩ := hone {} oddWorker documents h
  exact ⟨documents, others, h, h', hchanges, hidentity, hclient,
    htwo {} {} oddWorker (Compiler.bareNode "c" true) documents others h h'⟩

end ClusterConfig.Machine
