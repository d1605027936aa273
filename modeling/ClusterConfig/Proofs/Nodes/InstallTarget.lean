import Mathlib
import ClusterConfig.Proofs.Nodes.SharedIdentity
import ClusterConfig.Proofs.Validation.CheckedValues

/-!
# What a node is installed to

A node of a valid cluster is installed either to a named disk or to a selected one. Its own setting
decides if it has one, that of its role otherwise, and the disk of the base configuration never
stays.
-/

set_option autoImplicit false

namespace ClusterConfig

/-- What a system is installed to: a disk that is named, or one that is selected. -/
inductive InstallTarget where
  | disk (path : String)
  | selected (selector : DiskSelector)

/-- The targets that settings name, at most one of each kind. -/
def Settings.installTargets (settings : Settings) : List InstallTarget :=
  settings.installDisk.toList.map .disk ++ settings.diskSelector.toList.map .selected

/-- The targets of a node: its own if it names any, those of its role otherwise. -/
def Cluster.installTargets (cluster : Cluster) (node : Node) : List InstallTarget :=
  Settings.orList node.settings.installTargets (cluster.defaults node.role).installTargets

variable {cluster : Cluster} {node : Node} {settings own defaults : Settings}
  {target : InstallTarget}

/-! ## Valid clusters -/

theorem Validation.installTargetIssues_eq_nil (place : Place) (settings : Settings) :
    installTargetIssues place settings = [] ↔ ∃ target, settings.installTargets = [target] := by
  rw [installTargetIssues, Settings.installTargets]
  cases settings.installDisk <;> cases settings.diskSelector <;> simp

theorem Validation.severity_installTargetIssues (place : Place) (settings : Settings) :
    ∀ issue ∈ installTargetIssues place settings, issue.kind.severity = .error := by
  rw [installTargetIssues]
  split <;> simp [Kind.severity]

/-- Where merged settings name one target, the defaults have not added one of the other kind. -/
theorem Settings.installTargets_merge (h : (own.merge defaults).installTargets = [target]) :
    orList own.installTargets defaults.installTargets = [target] := by
  revert h
  simp only [installTargets, merge]
  cases own.installDisk with
  | none => cases own.diskSelector <;> cases defaults.installDisk <;> simp [orList]
  | some path => cases own.diskSelector <;> cases defaults.diskSelector <;> simp [orList]

theorem Validation.valid_installTarget (h : cluster.validate.hasErrors = false)
    (hn : node ∈ cluster.nodes) :
    ∃ target, (node.withDefaults (cluster.defaults node.role)).settings.installTargets =
      [target] := by
  obtain ⟨i, hi⟩ := List.mem_iff_getElem?.mp hn
  have hs : installTargetIssues ((Place.root.field "nodes").index i)
      (node.withDefaults (cluster.defaults node.role)).settings ⊆ cluster.issues :=
    fun issue hm => node_issues hi (List.mem_append_left _ (List.mem_append_right _ hm))
  exact (installTargetIssues_eq_nil _ _).mp
    (eq_nil_of_valid (severity_installTargetIssues _ _) (hasErrors_of_subset hs h))

namespace Machine

open Json (Apart ChangedOnlyAt changedOnlyAt_setAt getPath?_removeAt_same getPath?_setAt_apart
  getPath?_setAt_same setAt_wellFormed)

variable {tree : FileTree} {bundle : Bundle} {documents : NodeDocuments} {doc out : Json}

def diskPath : List String := ["machine", "install", "disk"]

def selectorPath : List String := ["machine", "install", "diskSelector"]

/-- A configuration names this target and no other one. -/
def InstallsTo (doc : Json) : InstallTarget → Prop
  | .disk path => doc.getPath? diskPath = some (.str path) ∧ doc.getPath? selectorPath = none
  | .selected selector =>
    doc.getPath? diskPath = none ∧ doc.getPath? selectorPath = some selector.toJson

/-! ## Configurations -/

theorem InstallsTo.kept (h : InstallsTo doc target) {paths : List (List String)}
    (hc : ChangedOnlyAt paths doc out)
    (hpaths : ∀ changed ∈ paths, Apart changed diskPath ∧ Apart changed selectorPath) :
    InstallsTo out target := by
  have hdisk := hc.elsewhere diskPath fun changed hm => (hpaths changed hm).1
  have hselector := hc.elsewhere selectorPath fun changed hm => (hpaths changed hm).2
  cases target <;> simpa only [InstallsTo, hdisk, hselector] using h

/-- The disk gives way to the selector that is set behind it. -/
theorem setSelector_installsTo (hd : doc.WellFormed) (hnone : doc.getPath? selectorPath = none)
    (ht : settings.installTargets = [target]) :
    InstallsTo (setSelector settings (setDisk settings doc)) target := by
  have hapart : Apart selectorPath diskPath ∧ Apart diskPath selectorPath := by decide
  rw [setSelector, setDisk]
  cases hdisk : settings.installDisk with
  | none =>
    cases hselector : settings.diskSelector with
    | none => simp [Settings.installTargets, hdisk, hselector] at ht
    | some selector =>
      obtain rfl : InstallTarget.selected selector = target := by
        simpa [Settings.installTargets, hdisk, hselector] using ht
      have hremoved : (doc.removeAt diskPath).getPath? diskPath = none :=
        getPath?_removeAt_same hd (List.cons_ne_nil _ _)
      exact ⟨(getPath?_setAt_apart hapart.1 _ _).trans hremoved, getPath?_setAt_same _ _ _⟩
  | some path =>
    cases hselector : settings.diskSelector with
    | none =>
      obtain rfl : InstallTarget.disk path = target := by
        simpa [Settings.installTargets, hdisk, hselector] using ht
      exact ⟨getPath?_setAt_same _ _ _, (getPath?_setAt_apart hapart.2 _ _).trans hnone⟩
    | some selector => simp [Settings.installTargets, hdisk, hselector] at ht

theorem setInstall_installsTo (hd : doc.WellFormed) (hnone : doc.getPath? selectorPath = none)
    (ht : settings.installTargets = [target]) (talosVersion : String) :
    InstallsTo (setInstall settings talosVersion doc) target := by
  rw [setInstall_eq]
  refine (setSelector_installsTo hd hnone ht).kept
    ((changedOnlyAt_setAt _ _ _).append (setKernelArguments_changes settings _)) ?_
  decide

/-- No later setting of a node touches the target. -/
theorem settled_apart (settings : Settings) :
    ∀ changed ∈ [["machine", "network", "interfaces"], ["machine", "network", "nameservers"]] ++
        renderedPaths settings ++ laterPaths,
      Apart changed diskPath ∧ Apart changed selectorPath := by
  have hplain : ∀ changed ∈ [["machine", "network", "interfaces"],
      ["machine", "network", "nameservers"]] ++ laterPaths,
      Apart changed diskPath ∧ Apart changed selectorPath := by decide
  have hmaps : ∀ name ∈ ["nodeLabels", "nodeAnnotations", "nodeTaints"], ∀ key,
      Apart ["machine", name, key] diskPath ∧ Apart ["machine", name, key] selectorPath := by
    simp [Apart, diskPath, selectorPath]
  obtain ⟨hnetwork, hlater⟩ := List.forall_mem_append.mp hplain
  have hrendered : ∀ changed ∈ renderedPaths settings,
      Apart changed diskPath ∧ Apart changed selectorPath :=
    forall_mem_renderedPaths.mpr fun map hm key _ =>
      hmaps map.1 (List.mem_map_of_mem hm) key
  exact List.forall_mem_append.mpr ⟨List.forall_mem_append.mpr ⟨hnetwork, hrendered⟩, hlater⟩

theorem applySettings_installsTo (hd : doc.WellFormed) (hnone : doc.getPath? selectorPath = none)
    (ht : node.settings.installTargets = [target])
    (h : applySettings tree node cluster doc = .ok out) : InstallsTo out target := by
  obtain ⟨rendered, hrendered, hlater⟩ := applySettings_steps h
  have hname : (Json.str node.hostname).WellFormed := trivial
  have hnamed := setAt_wellFormed hd hname ["machine", "network", "hostname"]
  have hapart : Apart ["machine", "network", "hostname"] selectorPath := by decide
  have hunset := (getPath?_setAt_apart hapart doc (.str node.hostname)).trans hnone
  have hinstalls := setInstall_installsTo hnamed hunset ht cluster.talosVersion
  exact hinstalls.kept (((setNetwork_changes _ _).append (setMetadata_changes hrendered)).append
    hlater) (settled_apart node.settings)

/-- A node of a valid cluster has one install target, its own before that of its role, and its
configuration names that target alone. -/
theorem installs_to_one_target (cluster : Cluster) (h : cluster.validate.hasErrors = false)
    (node : Node) (hn : node ∈ cluster.nodes) (tree : FileTree) (bundle : Bundle)
    (documents : NodeDocuments)
    (hs : synthesize builtIn tree (node.withDefaults (cluster.defaults node.role)) cluster bundle =
      .ok documents) :
    ∃ target, cluster.installTargets node = [target] ∧ InstallsTo documents.machine target := by
  obtain ⟨target, ht⟩ := Validation.valid_installTarget h hn
  obtain ⟨contract, doc, -, hdoc, hmachine⟩ := synthesize_steps hs
  cases hdoc
  exact ⟨target, Settings.installTargets_merge ht,
    applySettings_installsTo (base_wellFormed _) rfl ht hmachine⟩

/-- A control plane that has a disk of its own, and a worker that leaves it to its role. -/
def targetedNodes : List (Node × InstallTarget) :=
  [({ Compiler.bareNode "cp" true with settings := { installDisk := some "/dev/nvme0n1" } },
      .disk "/dev/nvme0n1"),
    (Compiler.bareNode "w" false,
      .selected ⟨none, none, some "Samsung*", none, none, none, none, none, none⟩)]

/-- Their cluster, in which control planes have another disk and workers one that is selected. -/
def targetedCluster : Cluster :=
  { Compiler.smallCluster (targetedNodes.map Prod.fst) with
    controlPlane := { installDisk := some "/dev/sdb" }
    worker :=
      { diskSelector := some ⟨none, none, some "Samsung*", none, none, none, none, none, none⟩ } }

theorem own_disk_and_selected_disk :
    targetedCluster.validate.hasErrors = false ∧
    ∀ entry ∈ targetedNodes, entry.1 ∈ targetedCluster.nodes ∧ ∃ documents,
      synthesize builtIn {} (entry.1.withDefaults (targetedCluster.defaults entry.1.role))
        targetedCluster (Compiler.smallBundle "key") = .ok documents ∧
      InstallsTo documents.machine entry.2 := by
  have h : targetedCluster.validate.hasErrors = false := by decide +kernel
  have hmade : ∀ entry ∈ targetedNodes,
      (synthesize builtIn {} (entry.1.withDefaults (targetedCluster.defaults entry.1.role))
        targetedCluster (Compiler.smallBundle "key")).toOption.isSome = true := by decide +kernel
  have htargets : ∀ entry ∈ targetedNodes,
      targetedCluster.installTargets entry.1 = [entry.2] := by
    simp only [targetedNodes, List.forall_mem_cons, List.not_mem_nil, false_imp_iff, implies_true,
      and_true]
    exact ⟨rfl, rfl⟩
  refine ⟨h, fun entry he => ?_⟩
  have hn : entry.1 ∈ targetedCluster.nodes := List.mem_map_of_mem he
  obtain ⟨documents, hs⟩ := synthesized_of_isSome (hmade entry he)
  obtain ⟨target, htarget, hinstalls⟩ :=
    installs_to_one_target targetedCluster h entry.1 hn {} _ documents hs
  obtain rfl : target = entry.2 :=
    List.singleton_inj.mp (htarget.symm.trans (htargets entry he))
  exact ⟨hn, documents, hs, hinstalls⟩

end Machine

end ClusterConfig
