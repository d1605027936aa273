import Mathlib
import ClusterConfig.Proofs.CommandLine.UnnamedOptions
import ClusterConfig.Proofs.Commands.Selection
import ClusterConfig.Proofs.Nodes.Rendered
import ClusterConfig.Proofs.Output.Confined

/-!
# What commands refer to

Commands name the files that are written for the nodes and for the client, and the image that is set
in the machine configuration of a node. They are made from the description alone, so each name is
made twice: here they are the same.
-/

set_option autoImplicit false

namespace ClusterConfig

open Patch (bind_eq_ok)

/-- Where the configuration of a node is written. -/
def Cluster.filePath (cluster : Cluster) (directory : String) (node : Node) : String :=
  Path.join directory (cluster.fileName node.hostname)

/-- The image that a node is installed from: its own, or that of its role, or the usual one. -/
def Cluster.installerImage (cluster : Cluster) (node : Node) : String :=
  ((node.settings.imageUrl <|> (cluster.defaults node.role).imageUrl).getD
    "ghcr.io/siderolabs/installer") ++ ":" ++ cluster.talosVersion

/-! ## Images -/

namespace Machine

theorem setInstall_image (settings : Settings) (talosVersion : String) (doc : Json) :
    (setInstall settings talosVersion doc).getPath? ["machine", "install", "image"] =
      some (.str (installerImage settings talosVersion)) := by
  rw [setInstall]
  split
  · exact Json.getPath?_setAt_same _ _ _
  · rw [(setList_changes _ _ _ _).elsewhere _ (by simp [Json.Apart])]
    exact Json.getPath?_setAt_same _ _ _

/-- Nothing that is set later touches the image. -/
theorem applySettings_image {tree : FileTree} {node : Node} {cluster : Cluster} {doc out : Json}
    (h : applySettings tree node cluster doc = .ok out) :
    out.getPath? ["machine", "install", "image"] =
      some (.str (installerImage node.settings cluster.talosVersion)) := by
  obtain ⟨rendered, hrendered, hlater⟩ := applySettings_steps h
  rw [hlater.elsewhere _ (by simp [laterPaths, Json.Apart]),
    (setMetadata_changes hrendered).elsewhere _
      (forall_mem_renderedPaths.mpr (by simp [renderedMaps, Json.Apart])), setEarlier,
    (setNetwork_changes _ _).elsewhere _ (by simp [Json.Apart]), setInstall_image]

theorem synthesize_image {generate : Generator} {tree : FileTree} {node : Node} {cluster : Cluster}
    {bundle : Bundle} {documents : NodeDocuments}
    (h : synthesize generate tree node cluster bundle = .ok documents) :
    documents.machine.getPath? ["machine", "install", "image"] =
      some (.str (installerImage node.settings cluster.talosVersion)) := by
  obtain ⟨contract, doc, -, -, hmachine⟩ := synthesize_steps h
  exact applySettings_image hmachine

theorem installerImage_merged (cluster : Cluster) (node : Node) :
    installerImage (node.withDefaults (cluster.defaults node.role)).settings cluster.talosVersion =
      cluster.installerImage node := rfl

end Machine

/-! ## Files -/

namespace Compiler

/-- The file of an artifact is named for the node at its place. -/
theorem fileName_of_outcome {compiler : Compiler} {cluster : Cluster} {i : Nat} {node : Node}
    {artifact : Artifact} (hnode : cluster.nodes[i]? = some node)
    (hok : (compiler.outcomes cluster)[i]? = some (.ok artifact)) :
    artifact.fileName = cluster.fileName node.hostname := by
  rw [outcomes_of_node hnode, Option.some.injEq] at hok
  obtain ⟨documents, -, rfl⟩ := outcome_eq_ok.mp hok
  rfl

theorem outcomes_named (compiler : Compiler) (cluster : Cluster) :
    List.Forall₂ (fun node o => ∀ artifact, o = .ok artifact →
      artifact.fileName = cluster.fileName node.hostname) cluster.nodes (compiler.outcomes cluster) :=
  List.forall₂_iff_get.mpr ⟨(compiler.length_outcomes cluster).symm, fun _ hi hi' _ hok =>
    fileName_of_outcome (List.getElem?_eq_getElem hi)
      ((List.getElem?_eq_getElem hi').trans (congrArg some hok))⟩

/-- Names that are made from artifacts are made from their nodes, too. -/
theorem map_artifacts_zip {nodes : List Node} {os : List (Except NodeFailure Artifact)}
    (nameOf : Artifact → String) (name : Node → String)
    (h : List.Forall₂ (fun node o => ∀ artifact, o = .ok artifact → nameOf artifact = name node)
      nodes os) :
    (os.filterMap artifact?).map nameOf =
      (nodes.zip os).filterMap fun entry => (artifact? entry.2).map fun _ => name entry.1 := by
  induction h with
  | nil => rfl
  | @cons node o nodes os hname _ ih =>
    rw [List.zip_cons_cons, List.filterMap_cons, List.filterMap_cons]
    cases o with
    | ok artifact =>
      rw [← hname artifact rfl, ← ih]
      rfl
    | error failure => exact ih

end Compiler

namespace Compilation

variable {files later : FileTree} {directory : String} {written : List String}
  {outputs : List (String × String)} {output : String × String}

/-- Nothing is written after the last file. -/
theorem holds_last
    (h : writeOutputs directory files (outputs ++ [output]) = (later, .ok written)) :
    later.Holds (Path.join directory output.1) output.2.toUTF8 := by
  induction outputs generalizing files written with
  | nil =>
    obtain ⟨between, paths, hone, hmore, -⟩ := writeOutputs_parts h
    cases hmore
    exact holds_writeOutput hone
  | cons first rest ih =>
    obtain ⟨between, paths, -, hmore, -⟩ := writeOutputs_parts h
    exact ih hmore

theorem holds_client {compilation : Compilation}
    (h : compilation.write files directory = (later, .ok written)) :
    later.Holds (Path.join directory ClientConfig.fileName) compilation.client.text.toUTF8 := by
  obtain ⟨made, -, h⟩ := write_parts h
  exact (holds_last h :)

end Compilation

namespace Commands

variable {cluster : Cluster} {kind : Kind} {selector : Selector} {found : List Target}

/-! ## Targets -/

/-- A selection is for a node at an address. -/
def Selector.Chooses (node : Node) (address : String) : Selector → Prop
  | .everything => address ∈ node.addresses
  | .hostname name => node.hostname = name ∧ address ∈ node.addresses
  | .address wanted => hasAddress wanted node = true ∧ address = wanted.text

theorem mem_targetsOf {node : Node} {target : Target} (h : target ∈ targetsOf node) :
    target.node = node ∧ target.address ∈ node.addresses := by
  obtain ⟨address, hm, rfl⟩ := List.mem_map.mp h
  exact ⟨rfl, hm⟩

theorem mem_mergedNodes {merged : Node} (h : merged ∈ cluster.mergedNodes) :
    ∃ node ∈ cluster.nodes, merged = node.withDefaults (cluster.defaults node.role) := by
  obtain ⟨node, hm, rfl⟩ := List.mem_map.mp h
  exact ⟨node, hm, rfl⟩

/-- Targets are nodes that are merged with the settings of their roles. -/
theorem chooses_of_targets (h : targets cluster kind selector = .ok found) :
    ∀ target ∈ found, ∃ node ∈ cluster.nodes,
      target.node = node.withDefaults (cluster.defaults node.role) ∧
      selector.Chooses node target.address := by
  cases selector with
  | everything =>
    have hall : ∀ target ∈ cluster.mergedNodes.flatMap targetsOf, ∃ node ∈ cluster.nodes,
        target.node = node.withDefaults (cluster.defaults node.role) ∧
        target.address ∈ node.addresses := by
      intro target ht
      obtain ⟨merged, hm, ht⟩ := List.mem_flatMap.mp ht
      obtain ⟨hnode, haddress⟩ := mem_targetsOf ht
      obtain ⟨node, hn, rfl⟩ := mem_mergedNodes hm
      exact ⟨node, hn, hnode, haddress⟩
    rw [targets] at h
    split at h
    · split at h
      · rename_i merged hfind
        cases h
        exact fun target ht => hall target (List.mem_flatMap.mpr
          ⟨merged, List.mem_of_find?_eq_some hfind, List.mem_of_mem_take ht⟩)
      · cases h
    · cases h
      exact hall
  | address wanted =>
    rw [targets] at h
    split at h
    · rename_i merged hfind
      cases h
      obtain ⟨node, hn, rfl⟩ := mem_mergedNodes (List.mem_of_find?_eq_some hfind)
      have hhas := List.find?_some hfind
      exact List.forall_mem_singleton.mpr ⟨node, hn, rfl, hhas, rfl⟩
    · cases h
  | hostname name =>
    rw [targets] at h
    split at h
    · rename_i merged hfind
      cases h
      obtain ⟨node, hn, rfl⟩ := mem_mergedNodes (List.mem_of_find?_eq_some hfind)
      have hname : node.hostname = name := of_decide_eq_true (List.find?_some hfind :)
      intro target ht
      obtain ⟨hnode, haddress⟩ := mem_targetsOf ht
      exact ⟨node, hn, hnode, hname, haddress⟩
    · cases h

theorem targets_everywhere (cluster : Cluster) (hk : kind.isClusterWide = false) :
    targets cluster kind .everything = .ok (cluster.mergedNodes.flatMap targetsOf) := by
  rw [targets, hk, if_neg Bool.false_ne_true]

/-- The commands for all nodes, one for each of their addresses. -/
theorem generate_everywhere (cluster : Cluster) (hk : kind.isClusterWide = false)
    (clientConfig directory : String) (more : List String) :
    generate cluster kind .everything clientConfig directory more =
      .ok (cluster.nodes.flatMap fun node => node.addresses.map
        (commandTo cluster kind clientConfig directory more
          (node.withDefaults (cluster.defaults node.role)))) := by
  rw [generate_of_targets (targets_everywhere cluster hk), Cluster.mergedNodes, List.flatMap_map,
    List.map_flatMap]
  simp only [targetsOf, List.map_map]
  rfl

/-- Commands refer to what is generated. Those that apply configurations are one for each address of
each node and name the file that is written for the node; those that upgrade name the image that is
set in the machine configuration of the node; and all of them use the client configuration that is
written, unless a word names another one. -/
theorem commands_refer_to_outputs (cluster : Cluster) (directory : String) :
    (∀ (clientConfig : String) (more : List String),
      generate cluster .applyConfig .everything clientConfig directory more =
        .ok (cluster.nodes.flatMap fun node => node.addresses.map fun address =>
          " ".intercalate (["talosctl", "apply-config", "--talosconfig=" ++ clientConfig,
            "--nodes=" ++ address, "--file=" ++ cluster.filePath directory node] ++ more))) ∧
    (∀ (compiler : Compiler) (files later : FileTree) (written : List String),
      (compiler.compile cluster).write files directory = (later, .ok written) →
      written = ((cluster.nodes.zip (compiler.outcomes cluster)).filterMap fun entry =>
          (Compiler.artifact? entry.2).map fun _ => cluster.filePath directory entry.1) ++
        [Path.join directory "talosconfig"] ∧
      (cluster.validate.hasErrors = false → ∀ (i : Nat) (node : Node) (artifact : Artifact),
        cluster.nodes[i]? = some node →
        (compiler.outcomes cluster)[i]? = some (.ok artifact) →
        later.readText (cluster.filePath directory node) = .ok artifact.text)) ∧
    (∀ (selector : Selector) (clientConfig : String) (more commands : List String),
      generate cluster .upgrade selector clientConfig directory more = .ok commands →
      ∀ command ∈ commands, ∃ node ∈ cluster.nodes, ∃ address, selector.Chooses node address ∧
        command = " ".intercalate (["talosctl", "upgrade", "--talosconfig=" ++ clientConfig,
          "--nodes=" ++ address, "--image=" ++ cluster.installerImage node] ++ more)) ∧
    (∀ node ∈ cluster.nodes, ∀ (generate : Machine.Generator) (tree : FileTree) (bundle : Bundle)
      (documents : Machine.NodeDocuments),
      Machine.synthesize generate tree (node.withDefaults (cluster.defaults node.role)) cluster
        bundle = .ok documents →
      documents.machine.getPath? ["machine", "install", "image"] =
        some (.str (cluster.installerImage node))) ∧
    ∀ (words : List String) (vars : Bindings) (options : CommandLine.PrintOptions),
      CommandLine.Request.ofWords? words vars = some (.perform (.printCommands options)) →
      CommandLine.Unnamed "talosconfig" words →
      ∀ (compiler : Compiler) (files later : FileTree) (written : List String),
        (compiler.compile cluster).write files options.outDirectory = (later, .ok written) →
        written.getLast? = some options.clientConfig ∧
        later.readText options.clientConfig = .ok (compiler.compile cluster).client.text := by
  refine ⟨fun clientConfig more => ?_, fun compiler files later written hw => ⟨?_, ?_⟩,
    fun selector clientConfig more commands h => ?_, ?_, ?_⟩
  · rw [generate_everywhere cluster rfl]
    rfl
  · have hzip := Compiler.map_artifacts_zip
      (fun artifact => Path.join directory artifact.fileName) (cluster.filePath directory)
      ((compiler.outcomes_named cluster).imp fun node o hname artifact hok => by
        rw [hname artifact hok, Cluster.filePath])
    rw [← hzip, Compilation.written_write hw, Compilation.outputs, List.map_append, List.map_map]
    rfl
  · intro hvalid i node artifact hnode hok
    have hm : artifact ∈ (compiler.compile cluster).artifacts :=
      List.mem_filterMap.mpr ⟨_, List.mem_of_getElem? hok, rfl⟩
    have hholds := Compilation.holds_write (separate_outputs compiler hvalid) hw
      (artifact.fileName, artifact.text)
      (List.mem_append_left _ (List.mem_map_of_mem hm))
    rw [Cluster.filePath, ← Compiler.fileName_of_outcome hnode hok]
    exact hholds.readText
  · intro command hm
    cases htargets : targets cluster .upgrade selector with
    | error e =>
      rw [generate_of_error htargets] at h
      cases h
    | ok found =>
      rw [generate_of_targets htargets] at h
      obtain rfl := Except.ok.inj h
      obtain ⟨target, ht, rfl⟩ := List.mem_map.mp hm
      obtain ⟨node, hn, hmerged, hchooses⟩ := chooses_of_targets htargets target ht
      refine ⟨node, hn, target.address, hchooses, ?_⟩
      rw [hmerged]
      rfl
  · intro node _ generate tree bundle documents h
    rw [Machine.synthesize_image h, Machine.installerImage_merged]
  · intro words vars options h hwords compiler files later written hw
    rw [CommandLine.clientConfig_unnamed h hwords]
    refine ⟨?_, (Compilation.holds_client hw).readText⟩
    rw [Compilation.written_write hw, Compilation.outputs, List.map_append, List.map_singleton,
      List.getLast?_concat]

/-- A worker with an image of its own. -/
def imagedWorker : Node :=
  { Compiler.bareNode "w" false with settings := { imageUrl := some "lab.example/w" } }

/-- A cluster whose roles have images, too. -/
def imagedCluster : Cluster :=
  { Compiler.smallCluster
      [{ Compiler.bareNode "cp" true with address := "10.0.0.1, 10.0.0.2" }, imagedWorker] with
    controlPlane := { installDisk := some "/dev/sda", imageUrl := some "lab.example/cp" }
    worker := { installDisk := some "/dev/sda", imageUrl := some "lab.example/worker" } }

theorem imaged_cluster_commands :
    let compiler := Compiler.smallCompiler (Compiler.smallBundle "key")
    let words := ["gencommand", "upgrade", "-o", "out"]
    let options : CommandLine.PrintOptions :=
      ⟨⟨"talconfig.yaml", [], "sops"⟩, .upgrade, .everything, "out", "out/talosconfig", []⟩
    imagedCluster.validate.hasErrors = false ∧
    CommandLine.Request.ofWords? words {} = some (.perform (.printCommands options)) ∧
    CommandLine.Unnamed "talosconfig" words ∧
    (∃ later written, (compiler.compile imagedCluster).write {} "out" = (later, .ok written) ∧
      written = ["out/small-cp.yaml", "out/small-w.yaml", "out/talosconfig"] ∧
      (∃ artifact, (compiler.outcomes imagedCluster)[1]? = some (.ok artifact) ∧
        later.readText (imagedCluster.filePath "out" imagedWorker) = .ok artifact.text) ∧
      written.getLast? = some options.clientConfig) ∧
    (∃ documents,
      Machine.synthesize Machine.builtIn {} (imagedWorker.withDefaults imagedCluster.worker)
        imagedCluster (Compiler.smallBundle "key") = .ok documents ∧
      documents.machine.getPath? ["machine", "install", "image"] =
        some (.str "lab.example/w:v1.9.5")) ∧
    ∃ commands, generate imagedCluster .upgrade (.hostname "w") "c" "out" [] = .ok commands ∧
      commands.length = 1 ∧ ∀ command ∈ commands, ∃ node ∈ imagedCluster.nodes,
        ∃ address, node.hostname = "w" ∧ command = " ".intercalate ["talosctl", "upgrade",
          "--talosconfig=c", "--nodes=" ++ address, "--image=" ++ imagedCluster.installerImage node] := by
  intro compiler words options
  obtain ⟨-, hwritten, hupgrade, himage, hclient⟩ := commands_refer_to_outputs imagedCluster "out"
  have hvalid : imagedCluster.validate.hasErrors = false := by decide +kernel
  have hwords : CommandLine.Request.ofWords? words {} = some (.perform (.printCommands options)) := by
    decide +kernel
  have hunnamed : CommandLine.Unnamed "talosconfig" words := by decide +kernel
  refine ⟨hvalid, hwords, hunnamed, ?_, ?_, ?_⟩
  · have hok : ((compiler.compile imagedCluster).write {} "out").2.toOption =
        some ["out/small-cp.yaml", "out/small-w.yaml", "out/talosconfig"] := by decide +kernel
    cases hw : (compiler.compile imagedCluster).write {} "out" with
    | mk later result =>
      rw [hw] at hok
      cases result with
      | error e => cases hok
      | ok written =>
        obtain rfl := Option.some.inj hok
        refine ⟨later, _, rfl, rfl, ?_, (hclient words {} options hwords hunnamed _ _ _ _ hw).1⟩
        have hisOk : ((compiler.outcomes imagedCluster)[1]?.bind Compiler.artifact?).isSome = true := by
          decide +kernel
        obtain ⟨artifact, hartifact⟩ := Option.isSome_iff_exists.mp hisOk
        obtain ⟨o, ho, ha⟩ := Option.bind_eq_some_iff.mp hartifact
        obtain rfl := Compiler.artifact?_eq_some.mp ha
        exact ⟨artifact, ho, (hwritten _ _ _ _ hw).2 hvalid 1 imagedWorker artifact rfl ho⟩
  · cases hs : Machine.synthesize Machine.builtIn {} (imagedWorker.withDefaults imagedCluster.worker)
        imagedCluster (Compiler.smallBundle "key") with
    | error reason =>
      have hok : (Machine.synthesize Machine.builtIn {}
          (imagedWorker.withDefaults imagedCluster.worker) imagedCluster
          (Compiler.smallBundle "key")).toOption.isSome = true := by decide +kernel
      rw [hs] at hok
      cases hok
    | ok documents =>
      have himage := himage imagedWorker (List.mem_cons_of_mem _ List.mem_cons_self) _ _ _ _ hs
      rw [show imagedCluster.installerImage imagedWorker = "lab.example/w:v1.9.5" by decide] at himage
      exact ⟨documents, rfl, himage⟩
  · have hone : (generate imagedCluster .upgrade (.hostname "w") "c" "out" []).toOption.map
        List.length = some 1 := by decide +kernel
    cases hg : generate imagedCluster .upgrade (.hostname "w") "c" "out" [] with
    | error e =>
      rw [hg] at hone
      cases hone
    | ok commands =>
      rw [hg] at hone
      refine ⟨commands, rfl, Option.some.inj hone, fun command hm => ?_⟩
      obtain ⟨node, hn, address, hchosen, hcommand⟩ :=
        hupgrade (.hostname "w") "c" [] commands hg command hm
      exact ⟨node, hn, address, hchosen.1, hcommand⟩

end Commands

end ClusterConfig
