import Mathlib
import ClusterConfig.Proofs.Nodes.Outcomes
import ClusterConfig.Proofs.Nodes.Rendered
import ClusterConfig.Proofs.Validation.CheckedValues
import ClusterConfig.Proofs.Version.Contracts

/-!
# Valid clusters compile

A node fails for its patches, its templates, the files it refers to, or a version that has no
contract. Where the settings hold no patches, templates and references, what is left has been checked
with the cluster: its version has a contract, and its taints are no templates.
-/

set_option autoImplicit false

namespace ClusterConfig

open Template (isTemplate render)
open Machine (synthesize fieldsOf)

variable {cluster : Cluster} {node : Node} {own defaults settings : Settings} {bundle : Bundle}

/-! ## Literal settings -/

/-- Settings that stand for themselves: no patches, no templates and no references to files. -/
structure Settings.IsLiteral (settings : Settings) : Prop where
  merges : settings.mergePatches = []
  operations : settings.operations = []
  references : settings.patches = []
  labels : ∀ entry ∈ settings.labels, isTemplate entry.2 = false
  annotations : ∀ entry ∈ settings.annotations, isTemplate entry.2 = false
  contents : ∀ file ∈ settings.files, file.content.toList.head? ≠ some '@'

/-- Literal settings stay literal over literal defaults. -/
theorem Settings.IsLiteral.merge (ho : own.IsLiteral) (hd : defaults.IsLiteral) :
    (own.merge defaults).IsLiteral where
  merges := by simp [Settings.merge, ho.merges, hd.merges]
  operations := by simp [Settings.merge, ho.operations, hd.operations]
  references := by
    refine List.eq_nil_iff_forall_not_mem.mpr fun reference hm => ?_
    have hlayers := Validation.combine_subset (own.mode .patches) own.patches defaults.patches hm
    simp [ho.references, hd.references] at hlayers
  labels entry hm := by
    obtain hm | hm := List.mem_append.mp (Validation.unite_subset own.labels defaults.labels hm)
    · exact ho.labels entry hm
    · exact hd.labels entry hm
  annotations entry hm := by
    obtain hm | hm :=
      List.mem_append.mp (Validation.unite_subset own.annotations defaults.annotations hm)
    · exact ho.annotations entry hm
    · exact hd.annotations entry hm
  contents file hm := by
    have hm : file ∈ Settings.orList own.files defaults.files := hm
    obtain hfiles | hfiles := Validation.orList_eq own.files defaults.files
    · exact ho.contents file (hfiles ▸ hm)
    · exact hd.contents file (hfiles ▸ hm)

/-! ## Nodes -/

/-- Where the bundle names no version, that of a valid cluster counts. -/
theorem Bundle.versionContract_ok (h : cluster.validate.hasErrors = false)
    (hb : ∀ text, bundle.contract = some text → (VersionContract.ofText? text).isSome) :
    ∃ contract, bundle.versionContract cluster.talosVersion = .ok contract := by
  have hread : (VersionContract.ofText? (bundle.contract.getD cluster.talosVersion)).isSome := by
    cases hcontract : bundle.contract with
    | some text => exact hb text hcontract
    | none =>
      obtain ⟨version, hversion⟩ := Validation.valid_version h
      rw [Option.getD_none, VersionContract.ofText?_of_version hversion]
      rfl
  obtain ⟨contract, hc⟩ := Option.isSome_iff_exists.mp hread
  exact ⟨contract, by rw [Bundle.versionContract, hc]; rfl⟩

/-- The documents of a valid node with literal settings can be made. -/
theorem synthesize_literal {generate : Machine.Generator} {tree : FileTree}
    (hv : (Validation.Report.ofIssues
      (Validation.checkSettings node.settings Validation.Place.root)).hasErrors = false)
    (hl : node.settings.IsLiteral) (hg : ∀ input, ∃ doc, generate input = .ok doc)
    (hc : ∃ contract, bundle.versionContract cluster.talosVersion = .ok contract) :
    ∃ documents, synthesize generate tree node cluster bundle = .ok documents := by
  cases hs : synthesize generate tree node cluster bundle with
  | ok documents => exact ⟨documents, rfl⟩
  | error error =>
    obtain ⟨text, hcontract, -⟩ | ⟨input, hinput⟩ | ⟨name, entries, hname, entry, hm, reason, hr, -⟩ |
      ⟨file, hm, hfile⟩ := Machine.synthesize_error hs
    · obtain ⟨contract, hok⟩ := hc
      cases hok.symm.trans hcontract
    · obtain ⟨doc, hok⟩ := hg input
      cases hok.symm.trans hinput
    · have hliteral : isTemplate entry.2 = false := by
        simp only [List.mem_cons, Prod.mk.injEq, List.not_mem_nil, or_false] at hname
        obtain ⟨-, rfl⟩ | ⟨-, rfl⟩ | ⟨-, rfl⟩ := hname
        · exact hl.labels entry hm
        · exact hl.annotations entry hm
        · exact Labels.isTemplate_of_checkTaint (Validation.valid_taint hv hm)
      cases (Machine.render_literal hliteral).symm.trans hr
    · exact absurd (Machine.fileContent_error hfile).1 (hl.contents file hm)

theorem Patch.apply_literal (hl : settings.IsLiteral) (source : Documents.Source)
    (state : Patch.State) : (Patch.PatchSet.ofSettings settings).apply source state =
      (state, .ok ()) := by
  rw [Patch.PatchSet.apply, Patch.PatchSet.ofSettings, hl.merges, hl.operations, hl.references]
  rfl

namespace Compiler

variable {compiler : Compiler}

theorem compileNode_literal (hl : node.settings.IsLiteral)
    (hs : ∃ documents, synthesize compiler.generate compiler.source.files node cluster
      compiler.bundle = .ok documents) :
    ∃ documents, compiler.compileNode cluster node = .ok documents := by
  obtain ⟨documents, hs⟩ := hs
  refine ⟨documents.machine :: documents.extra, ?_⟩
  simp only [compileNode, hs, Except.mapError, bind, Except.bind, Patch.apply_literal hl]
  rfl

/-- What is made of a node: its own file, with the documents that it is compiled to. -/
structure MadeOf (compiler : Compiler) (cluster : Cluster) (node : Node) (artifact : Artifact) :
    Prop where
  hostname : artifact.hostname = node.hostname
  fileName : artifact.fileName = cluster.fileName node.hostname
  documents : compiler.compileNode cluster (node.withDefaults (cluster.defaults node.role)) =
    .ok artifact.documents

/-- The outcomes of nodes that stand from a place on. -/
def outcomesFrom (compiler : Compiler) (cluster : Cluster) (start : Nat) (nodes : List Node) :
    List (Except NodeFailure Artifact) :=
  ((nodes.map fun node => node.withDefaults (cluster.defaults node.role)).zipIdx start).map
    fun (node, index) => compiler.outcome cluster index node

theorem outcomesFrom_compile (nodes : List Node) (start : Nat)
    (h : ∀ node ∈ nodes, ∃ documents,
      compiler.compileNode cluster (node.withDefaults (cluster.defaults node.role)) =
        .ok documents) :
    (compiler.outcomesFrom cluster start nodes).filterMap failure? = [] ∧
      List.Forall₂ (compiler.MadeOf cluster) nodes
        ((compiler.outcomesFrom cluster start nodes).filterMap artifact?) := by
  induction nodes generalizing start with
  | nil => exact ⟨rfl, .nil⟩
  | cons node rest ih =>
    obtain ⟨documents, hd⟩ := h node List.mem_cons_self
    obtain ⟨hfailures, hartifacts⟩ := ih (start + 1) fun node hm => h node (List.mem_cons_of_mem _ hm)
    have hcons : compiler.outcomesFrom cluster start (node :: rest) =
        .ok ⟨node.hostname, cluster.fileName node.hostname, documents⟩ ::
          compiler.outcomesFrom cluster (start + 1) rest := by
      rw [outcomesFrom, List.map_cons, List.zipIdx_cons, List.map_cons]
      exact congrArg (· :: _) (outcome_eq_ok.mpr ⟨documents, hd, rfl⟩)
    rw [hcons]
    exact ⟨hfailures, .cons ⟨rfl, rfl, hd⟩ hartifacts⟩

end Compiler

/-- A cluster without errors compiles, if its settings hold no patches, templates or references and
the version of the bundle, where it names one, can be read: no node fails, and each has one artifact,
in the order of the nodes. -/
theorem valid_clusters_compile (cluster : Cluster) (h : cluster.validate.hasErrors = false)
    (hdefaults : ∀ role, (cluster.defaults role).IsLiteral)
    (hnodes : ∀ node ∈ cluster.nodes, node.settings.IsLiteral) (bundle : Bundle)
    (hbundle : ∀ text, bundle.contract = some text → (VersionContract.ofText? text).isSome)
    (source : Documents.Source) (vars : Bindings) :
    let compiler : Compiler := ⟨bundle, Machine.builtIn, source, vars⟩
    (compiler.compile cluster).isSuccess = true ∧ (compiler.compile cluster).failures = [] ∧
      List.Forall₂ (compiler.MadeOf cluster) cluster.nodes
        (compiler.compile cluster).artifacts := by
  intro compiler
  have hcompiles : ∀ node ∈ cluster.nodes, ∃ documents,
      compiler.compileNode cluster (node.withDefaults (cluster.defaults node.role)) =
        .ok documents := by
    intro node hn
    have hl := (hnodes node hn).merge (hdefaults node.role)
    have hv := Validation.valid_merged h (List.mem_map_of_mem hn) Validation.Place.root
    exact Compiler.compileNode_literal hl (synthesize_literal hv hl (fun input => ⟨_, rfl⟩)
      (Bundle.versionContract_ok h hbundle))
  obtain ⟨hfailures, hartifacts⟩ := Compiler.outcomesFrom_compile cluster.nodes 0 hcompiles
  have hfailures : (compiler.compile cluster).failures = [] := hfailures
  exact ⟨by rw [Compilation.isSuccess, hfailures]; rfl, hfailures, hartifacts⟩

/-- A cluster whose nodes have literal settings of their own over those of their roles. -/
def literalCluster : Cluster :=
  let files : List MachineFile := [⟨"text", "/etc/motd", some 420, "create"⟩]
  { Compiler.smallCluster [⟨"c", "10.0.0.2", true, { labels := [("zone", "b")], files }⟩,
      ⟨"w", "10.0.0.3", false, { annotations := [("note", "any text")] }⟩] with
    controlPlane :=
      { installDisk := some "/dev/sda", taints := [("dedicated", "infra:NoSchedule")] }
    worker := { installDisk := some "/dev/sdb" } }

theorem literal_cluster_compiles :
    let compiler := Compiler.smallCompiler (Compiler.smallBundle "key")
    literalCluster.validate.hasErrors = false ∧
      (compiler.compile literalCluster).failures = [] ∧
      ∃ first second, (compiler.compile literalCluster).artifacts = [first, second] ∧
        first.fileName = "small-c.yaml" ∧ second.fileName = "small-w.yaml" := by
  have hv : literalCluster.validate.hasErrors = false := by decide +kernel
  have hroles : ∀ role, (literalCluster.defaults role).IsLiteral := by
    rintro (_ | _) <;> constructor <;> decide +kernel
  have hnodes : ∀ node ∈ literalCluster.nodes, node.settings.IsLiteral := by
    intro node hn
    simp only [literalCluster, Compiler.smallCluster, List.mem_cons, List.not_mem_nil,
      or_false] at hn
    obtain rfl | rfl := hn <;> constructor <;> decide +kernel
  obtain ⟨-, hfailures, hartifacts⟩ := valid_clusters_compile literalCluster hv hroles hnodes
    (Compiler.smallBundle "key") (fun _ h => by cases h) ⟨{}, Encryption.Decryptor.unavailable⟩ {}
  refine ⟨hv, hfailures, ?_⟩
  obtain ⟨first, rest, hfirst, hrest, hall⟩ := List.forall₂_cons_left_iff.mp hartifacts
  obtain ⟨second, more, hsecond, hmore, rfl⟩ := List.forall₂_cons_left_iff.mp hrest
  obtain rfl := List.forall₂_nil_left_iff.mp hmore
  refine ⟨first, second, hall, ?_, ?_⟩
  · rw [hfirst.fileName]
    decide +kernel
  · rw [hsecond.fileName]
    decide +kernel

end ClusterConfig
