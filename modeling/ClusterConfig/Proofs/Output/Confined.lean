import Mathlib
import ClusterConfig.Proofs.Output.FileNames

/-!
# Files in the output directory

The name of a cluster is the start of the names of its files and may be any text that is not blank.
Where it holds no slash every file stands in the output directory itself, whatever comes of writing
them; a slash in it leads elsewhere, also out of that directory.
-/

set_option autoImplicit false

namespace ClusterConfig

open FileTree

variable {cluster : Cluster} {tree files later between : FileTree} {directory name : String}
  {place above : List String}

/-! ## Names in a directory -/

namespace Path

theorem IsNormal.isAbsolute_eq_false (h : IsNormal name) : isAbsolute name = false := by
  rw [isAbsolute, decide_eq_false_iff_not]
  exact fun hhead => h.no_slash (List.mem_of_head? hhead)

end Path

/-- The place of a directory that is written to; an empty path stands for the current one. -/
def FileTree.IsPlaceOf (tree : FileTree) (directory : String) (above : List String) : Prop :=
  tree.follow (tree.start directory) (Path.names directory) = .ok above

theorem FileTree.IsPlaceOf.kept {places : Set (List String)} (h : tree.IsPlaceOf directory above)
    (hc : ChangesOnly places tree later) : later.IsPlaceOf directory above := by
  rw [FileTree.IsPlaceOf, hc.start]
  exact hc.follow h

/-- A normal name is found in the directory itself. -/
theorem FileTree.IsPlaceOf.resolve (h : tree.IsPlaceOf directory above) (hn : Path.IsNormal name)
    (hr : tree.resolve (Path.join directory name) = .ok place) : place = above ++ [name] := by
  obtain ⟨found, hfollow, hplace⟩ := resolve_endsIn hr (hn.endsIn.join directory)
  have habsolute := hn.isAbsolute_eq_false
  rw [start, Path.isAbsolute_join directory habsolute, Path.names_join_relative directory habsolute,
    hn.names, List.dropLast_concat] at hfollow
  rw [hplace, Except.ok.inj (hfollow.symm.trans h)]

theorem FileTree.isPlaceOf_of_made (h : MakesDirectory tree directory later) :
    ∃ above, later.IsPlaceOf directory above := by
  by_cases hempty : directory = ""
  · subst hempty
    exact ⟨_, rfl⟩
  · obtain ⟨above, hresolve, -⟩ := h.there hempty
    exact ⟨above, (resolve_eq_ok.mp hresolve).2.2⟩

/-! ## Normal names of outputs -/

theorem isNormal_fileName_iff {hostname : String} (hhost : IsHostname hostname) :
    Path.IsNormal (cluster.fileName hostname) ↔ '/' ∉ cluster.name.toList := by
  rw [fileName_eq]
  have hslash : '/' ∉ (hostSuffix hostname).toList := by
    have hhostname : '/' ∉ hostname.toList := fun hc => (hhost.chars '/' hc).2 rfl
    simp [hostSuffix, hhostname]
  constructor
  · intro h hname
    exact h.no_slash (by rw [String.toList_append]; exact List.mem_append_left _ hname)
  · intro hname
    refine ⟨?_, ?_, ?_, ?_⟩
    · exact ne_hostSuffix cluster.name hostname (by decide)
    · rw [String.toList_append, List.mem_append, not_or]
      exact ⟨hname, hslash⟩
    · exact ne_hostSuffix cluster.name hostname (by decide)
    · exact ne_hostSuffix cluster.name hostname (by decide)

theorem isNormal_outputs (compiler : Compiler) (h : cluster.validate.hasErrors = false)
    (hname : '/' ∉ cluster.name.toList) :
    ∀ output ∈ (compiler.compile cluster).outputs, Path.IsNormal output.1 := by
  intro output hm
  rw [Compilation.outputs, List.mem_append, List.mem_map, List.mem_singleton] at hm
  obtain ⟨artifact, ha, rfl⟩ | rfl := hm
  · rw [compiler.artifact_fileName cluster artifact ha]
    exact (isNormal_fileName_iff (compiler.artifact_isHostname h artifact ha)).mpr hname
  · exact isNormal_client

/-! ## Written files -/

/-- Whatever comes of writing outputs with normal names, the files that change stand in the output
directory itself. -/
theorem Compilation.changes_write {compilation : Compilation}
    (hn : ∀ output ∈ compilation.outputs, Path.IsNormal output.1) (files : FileTree)
    (directory : String) :
    (compilation.write files directory).1 = files ∨
      ∃ above, (compilation.write files directory).1.IsPlaceOf directory above ∧
        ChangesOnly {place | ∃ name ∈ compilation.fileNames, place = above ++ [name]} files
          (compilation.write files directory).1 := by
  rw [Compilation.write]
  split
  · exact .inl rfl
  · rename_i made hmake
    have hmade := makesDirectory_makeDirectories hmake
    obtain ⟨above, habove⟩ := isPlaceOf_of_made hmade
    have hchanges : ChangesOnly {place | ∃ name ∈ compilation.fileNames, place = above ++ [name]}
        made (writeOutputs directory made compilation.outputs).1 :=
      changes_writeOutputs directory made compilation.outputs
        fun output hm between place hbetween hresolve =>
          ⟨output.1, List.mem_map_of_mem hm, (habove.kept hbetween).resolve (hn output hm) hresolve⟩
    refine .inr ⟨above, habove.kept hchanges, ?_⟩
    exact (hmade.changes.mono (Set.empty_subset _)).trans hchanges

theorem Compilation.written_write {compilation : Compilation} {written : List String}
    (hw : compilation.write files directory = (later, .ok written)) :
    written = compilation.outputs.map fun output => Path.join directory output.1 := by
  obtain ⟨made, -, hw⟩ := write_parts hw
  exact written_eq hw

/-- The files of a valid cluster have normal names exactly if there is no slash in the name of the
cluster. Then every path that is written is such a name in the output directory, and no other file
changes, also where writing fails. -/
theorem outputs_confined (cluster : Cluster) (h : cluster.validate.hasErrors = false) :
    ('/' ∉ cluster.name.toList ↔
      ∀ node ∈ cluster.nodes, Path.IsNormal (cluster.fileName node.hostname)) ∧
    ('/' ∉ cluster.name.toList → ∀ (compiler : Compiler) (files : FileTree) (directory : String),
      (∀ (later : FileTree) (written : List String),
        (compiler.compile cluster).write files directory = (later, .ok written) →
        ∀ path ∈ written, ∃ name, Path.IsNormal name ∧ path = Path.join directory name) ∧
      (((compiler.compile cluster).write files directory).1 = files ∨
        ∃ above, ((compiler.compile cluster).write files directory).1.IsPlaceOf directory above ∧
          ChangesOnly
            {place | ∃ name ∈ (compiler.compile cluster).fileNames, place = above ++ [name]} files
            ((compiler.compile cluster).write files directory).1)) := by
  refine ⟨⟨fun hname node hn => ?_, fun hall => ?_⟩, fun hname compiler files directory => ⟨?_, ?_⟩⟩
  · exact (isNormal_fileName_iff (Validation.valid_hostname h hn)).mpr hname
  · obtain ⟨node, hn⟩ := List.exists_mem_of_ne_nil _ (Validation.valid_nodes_ne_nil h)
    exact (isNormal_fileName_iff (Validation.valid_hostname h hn)).mp (hall node hn)
  · intro later written hw path hpath
    rw [Compilation.written_write hw] at hpath
    obtain ⟨output, ho, rfl⟩ := List.mem_map.mp hpath
    exact ⟨output.1, isNormal_outputs compiler h hname output ho, rfl⟩
  · exact Compilation.changes_write (isNormal_outputs compiler h hname) files directory

/-- A valid cluster of two nodes. -/
def namedCluster (name : String) : Cluster := { slashedCluster with name }

theorem plain_cluster_confined :
    (namedCluster "lab").validate.hasErrors = false ∧ '/' ∉ (namedCluster "lab").name.toList ∧
    (let compiler := Compiler.smallCompiler (Compiler.smallBundle "key")
    ((compiler.compile (namedCluster "lab")).write {} "out").2.toOption =
      some ["out/lab-cp.yaml", "out/lab-w.yaml", "out/talosconfig"] ∧
    ∀ (later : FileTree) (written : List String),
      (compiler.compile (namedCluster "lab")).write {} "out" = (later, .ok written) →
      ∀ path ∈ written, ∃ name, Path.IsNormal name ∧ path = Path.join "out" name) := by
  have h : (namedCluster "lab").validate.hasErrors = false := by decide +kernel
  have hname : '/' ∉ (namedCluster "lab").name.toList := by decide
  exact ⟨h, hname, by decide +kernel,
    ((outputs_confined (namedCluster "lab") h).2 hname _ {} "out").1⟩

/-- A cluster whose name leads upwards is valid, and its files are written beside the output
directory. -/
theorem files_beside_directory :
    (namedCluster "../lab").validate.hasErrors = false ∧
    (let compiler := Compiler.smallCompiler (Compiler.smallBundle "key")
    let outcome := (compiler.compile (namedCluster "../lab")).write {} "out"
    outcome.2.toOption = some ["out/../lab-cp.yaml", "out/../lab-w.yaml", "out/talosconfig"] ∧
      outcome.1.isDirectory ["out"] = true ∧
      (outcome.1.find? ["lab-cp.yaml"]).isSome = true) ∧
    ∀ name, Path.IsNormal name → "out/../lab-cp.yaml" ≠ Path.join "out" name := by
  refine ⟨by decide +kernel, ⟨by decide +kernel, by decide +kernel, by decide +kernel⟩, ?_⟩
  intro name hn hjoin
  have hnames := congrArg Path.names hjoin
  rw [Path.names_join_relative "out" hn.isAbsolute_eq_false, hn.names] at hnames
  have hlength := congrArg List.length hnames
  rw [List.length_append, show (Path.names "out/../lab-cp.yaml").length = 3 by decide,
    show (Path.names "out").length = 1 by decide] at hlength
  cases hlength

end ClusterConfig
