import Mathlib
import ClusterConfig.Proofs.Nodes.Outcomes
import ClusterConfig.Proofs.Output.Written
import ClusterConfig.Proofs.Validation.CheckedValues

/-!
# Names of output files

The file of a node is named for the cluster and the host. Host names of a valid cluster differ and
hold no slash, so whatever stands in the name of the cluster, the files of its nodes differ in their
last names, and from the client configuration and the ignore file, which do not end alike.
-/

set_option autoImplicit false

namespace ClusterConfig

open FileTree

variable {cluster : Cluster} {files later : FileTree} {directory : String}

/-! ## Last names -/

/-- The end of the file name of a host. -/
def hostSuffix (hostname : String) : String := "-" ++ hostname ++ ".yaml"

theorem fileName_eq (cluster : Cluster) (hostname : String) :
    cluster.fileName hostname = cluster.name ++ hostSuffix hostname := by
  simp [Cluster.fileName, hostSuffix, String.append_assoc]

theorem getLast?_hostSuffix (stem hostname : String) :
    (stem ++ hostSuffix hostname).toList.getLast? = some 'l' := by
  have hchars : (stem ++ hostSuffix hostname).toList =
      (stem ++ "-" ++ hostname ++ ".yam").toList ++ ['l'] := by
    simp [hostSuffix]
  rw [hchars, List.getLast?_concat]

theorem hostSuffix_injective {stem hostname other : String}
    (h : stem ++ hostSuffix hostname = stem ++ hostSuffix other) : hostname = other := by
  have hchars := congrArg String.toList h
  simp only [hostSuffix, String.toList_append, List.append_assoc, List.append_cancel_left_eq,
    List.append_cancel_right_eq] at hchars
  exact String.toList_inj.mp hchars

/-- A name with another last character than the files of hosts. -/
theorem ne_hostSuffix {name : String} (stem hostname : String)
    (h : name.toList.getLast? ≠ some 'l') : stem ++ hostSuffix hostname ≠ name := by
  rintro rfl
  exact h (getLast?_hostSuffix stem hostname)

/-- The files of one cluster lead into one directory, under names that end in those of the hosts. -/
theorem fileName_endsIn (cluster : Cluster) :
    ∃ stem, ∀ hostname, IsHostname hostname →
      Path.EndsIn (cluster.fileName hostname) (stem ++ hostSuffix hostname) := by
  obtain ⟨above, stem, hnames⟩ := Path.names_extended cluster.name
  refine ⟨stem, fun hostname hhost => ⟨?_, ?_, ?_⟩⟩
  · have hne : hostSuffix hostname ≠ "" := fun hempty => by
      have hlast := getLast?_hostSuffix "" hostname
      rw [hempty] at hlast
      cases hlast
    have hslash : '/' ∉ (hostSuffix hostname).toList := by
      have hhostname : '/' ∉ hostname.toList := fun hc => (hhost.chars '/' hc).2 rfl
      simp [hostSuffix, hhostname]
    rw [fileName_eq, hnames _ hne hslash, List.getLast?_concat]
  · exact ne_hostSuffix stem hostname (by decide)
  · exact ne_hostSuffix stem hostname (by decide)

theorem Path.IsNormal.endsIn {name : String} (h : Path.IsNormal name) : Path.EndsIn name name :=
  ⟨by rw [h.names]; rfl, h.not_here, h.not_above⟩

theorem isNormal_client : Path.IsNormal ClientConfig.fileName :=
  ⟨by decide, by decide, by decide, by decide⟩

theorem isNormal_ignoreFile : Path.IsNormal IgnoreFile.fileName :=
  ⟨by decide, by decide, by decide, by decide⟩

/-! ## Artifacts -/

namespace Compiler

/-- The hosts of the artifacts are some of those of the nodes, in their order. -/
theorem artifact_hosts (compiler : Compiler) (cluster : Cluster) :
    ((compiler.compile cluster).artifacts.map Artifact.hostname).Sublist
      (cluster.nodes.map Node.hostname) := by
  have hnames : (cluster.mergedNodes.zipIdx.map fun entry => entry.1.hostname) =
      cluster.nodes.map Node.hostname := by
    rw [show (fun entry : Node × Nat => entry.1.hostname) = Node.hostname ∘ Prod.fst from rfl,
      ← List.map_map, List.zipIdx_map_fst, Cluster.mergedNodes, List.map_map]
    rfl
  rw [← hnames, compile, outcomes, List.filterMap_map]
  refine map_filterMap_sublist (fun entry artifact h => ?_) _
  obtain ⟨documents, -, rfl⟩ := outcome_eq_ok.mp (artifact?_eq_some.mp h)
  rfl

theorem artifact_fileName (compiler : Compiler) (cluster : Cluster) :
    ∀ artifact ∈ (compiler.compile cluster).artifacts,
      artifact.fileName = cluster.fileName artifact.hostname := by
  intro artifact hm
  obtain ⟨o, ho, hartifact⟩ := List.mem_filterMap.mp hm
  obtain ⟨entry, -, rfl⟩ := List.mem_map.mp ho
  obtain ⟨documents, -, rfl⟩ := outcome_eq_ok.mp (artifact?_eq_some.mp hartifact)
  rfl

theorem artifact_isHostname (compiler : Compiler) (h : cluster.validate.hasErrors = false) :
    ∀ artifact ∈ (compiler.compile cluster).artifacts, IsHostname artifact.hostname := by
  intro artifact hm
  obtain ⟨node, hn, hnode⟩ := List.mem_map.mp
    ((compiler.artifact_hosts cluster).subset (List.mem_map_of_mem hm))
  exact hnode ▸ Validation.valid_hostname h hn

theorem fileNames_eq (compiler : Compiler) (cluster : Cluster) :
    (compiler.compile cluster).fileNames =
      (compiler.compile cluster).artifacts.map (fun artifact =>
        cluster.name ++ "-" ++ artifact.hostname ++ ".yaml") ++ ["talosconfig"] := by
  rw [Compilation.fileNames, Compilation.outputs, List.map_append, List.map_map]
  refine congrArg (· ++ _) (List.map_congr_left fun artifact hm => ?_)
  exact compiler.artifact_fileName cluster artifact hm

end Compiler

/-! ## Files -/

theorem separate_outputs (compiler : Compiler) (h : cluster.validate.hasErrors = false) :
    Compilation.Separate (compiler.compile cluster).outputs := by
  obtain ⟨stem, hends⟩ := fileName_endsIn cluster
  have hartifact : ∀ artifact ∈ (compiler.compile cluster).artifacts,
      Path.EndsIn artifact.fileName (stem ++ hostSuffix artifact.hostname) := fun artifact hm => by
    rw [compiler.artifact_fileName cluster artifact hm]
    exact hends _ (compiler.artifact_isHostname h artifact hm)
  refine ⟨fun output hm => ?_, ?_⟩
  · rw [Compilation.outputs, List.mem_append, List.mem_map, List.mem_singleton] at hm
    obtain ⟨artifact, hm, rfl⟩ | rfl := hm
    · exact ⟨_, hartifact artifact hm⟩
    · exact ⟨_, isNormal_client.endsIn⟩
  · rw [Compilation.outputs, List.pairwise_append]
    refine ⟨?_, List.pairwise_singleton _ _, ?_⟩
    · have hhosts := (Validation.valid_hostnames_nodup h).sublist (compiler.artifact_hosts cluster)
      rw [List.pairwise_map]
      refine (List.pairwise_map.mp hhosts).imp_of_mem fun {a b} ha hb hne leaf hla hlb => hne ?_
      exact hostSuffix_injective
        (((hartifact a ha).unique hla).trans (hlb.unique (hartifact b hb)))
    · intro output hm client hclient leaf hla hlb
      obtain ⟨artifact, ha, rfl⟩ := List.mem_map.mp hm
      obtain rfl := List.mem_singleton.mp hclient
      exact ne_hostSuffix stem artifact.hostname (by decide)
        (((hartifact artifact ha).unique hla).trans (hlb.unique isNormal_client.endsIn))

theorem Compilation.Separate.nodup {outputs : List (String × String)}
    (h : Compilation.Separate outputs) : (outputs.map Prod.fst).Nodup := by
  rw [List.Nodup, List.pairwise_map]
  refine h.apart.imp_of_mem fun {a b} ha _ hne hsame => ?_
  obtain ⟨leaf, hleaf⟩ := h.ends a ha
  exact hne leaf hleaf (hsame ▸ hleaf)

/-- No output has the last name of the ignore file. -/
theorem output_not_ignoreFile (compiler : Compiler) (h : cluster.validate.hasErrors = false) :
    ∀ output ∈ (compiler.compile cluster).outputs,
      ¬Path.EndsIn output.1 IgnoreFile.fileName := by
  intro output hm hignore
  rw [Compilation.outputs, List.mem_append, List.mem_map, List.mem_singleton] at hm
  obtain ⟨artifact, ha, rfl⟩ | rfl := hm
  · obtain ⟨stem, hends⟩ := fileName_endsIn cluster
    have hleaf := hends _ (compiler.artifact_isHostname h artifact ha)
    rw [← compiler.artifact_fileName cluster artifact ha] at hleaf
    exact ne_hostSuffix stem artifact.hostname (by decide) (hleaf.unique hignore)
  · exact absurd (isNormal_client.endsIn.unique hignore) (by decide)

/-- Whatever comes of adding names to the ignore file, at most that file changes. -/
theorem changes_ignoreFile (files : FileTree) (directory : String) (names : List String) :
    ChangesOnly {place | place.getLast? = some IgnoreFile.fileName} files
      (IgnoreFile.update files directory names).1 := by
  rw [IgnoreFile.update]
  split
  · exact .refl _ _
  · split
    · exact .refl _ _
    · split
      · exact .refl _ _
      · rename_i between hmake
        have hbetween := (makesDirectory_makeDirectories hmake).changes
        split
        · exact hbetween.mono (Set.empty_subset _)
        · rename_i last hwrite
          obtain ⟨-, place, hresolve, hlast⟩ := write_holds hwrite
          obtain ⟨above, -, hplace⟩ :=
            resolve_endsIn hresolve (isNormal_ignoreFile.endsIn.join directory)
          refine (hbetween.mono (Set.empty_subset _)).trans
            (hlast.mono (Set.singleton_subset_iff.mpr ?_))
          rw [Set.mem_ofPred_eq, hplace, List.getLast?_concat]

theorem Compilation.holds_write {compilation : Compilation} {written : List String}
    (h : Compilation.Separate compilation.outputs)
    (hw : compilation.write files directory = (later, .ok written)) :
    ∀ output ∈ compilation.outputs,
      later.Holds (Path.join directory output.1) output.2.toUTF8 := by
  obtain ⟨made, -, hw⟩ := write_parts hw
  exact h.holds hw

theorem find?_of_nodup {α : Type} {name : α → String} {l : List α} (h : (l.map name).Nodup) {a : α}
    (ha : a ∈ l) : (l.find? fun b => name b = name a) = some a := by
  induction l with
  | nil => cases ha
  | cons b l ih =>
    obtain ⟨hb, hl⟩ := List.nodup_cons.mp h
    obtain rfl | ha := List.mem_cons.mp ha
    · simp
    · have hne : name b ≠ name a := fun hsame => hb (hsame ▸ List.mem_map_of_mem ha)
      rw [List.find?_cons_of_neg (by simpa using hne), ih hl ha]

/-- The files of the nodes that compile have different names, none of them that of the ignore file:
once they are written without an error each can be read, also after names were added to the ignore
file. Every node of a valid cluster is found by its host name. -/
theorem outputs_kept_apart (cluster : Cluster) (h : cluster.validate.hasErrors = false) :
    (∀ compiler : Compiler,
      (compiler.compile cluster).fileNames =
        (compiler.compile cluster).artifacts.map (fun artifact =>
          cluster.name ++ "-" ++ artifact.hostname ++ ".yaml") ++ ["talosconfig"] ∧
      ((compiler.compile cluster).artifacts.map Artifact.hostname).Sublist
        (cluster.nodes.map Node.hostname) ∧
      (compiler.compile cluster).fileNames.Nodup ∧
      ".gitignore" ∉ (compiler.compile cluster).fileNames ∧
      ∀ (files later : FileTree) (directory : String) (written : List String),
        (compiler.compile cluster).write files directory = (later, .ok written) →
        ∀ output ∈ (compiler.compile cluster).outputs, ∀ names : List String,
          later.readText (Path.join directory output.1) = .ok output.2 ∧
          (IgnoreFile.update later directory names).1.readText (Path.join directory output.1) =
            .ok output.2) ∧
    ∀ node ∈ cluster.nodes, cluster.findNode? node.hostname = some node := by
  refine ⟨fun compiler => ?_, fun node hn =>
    find?_of_nodup (Validation.valid_hostnames_nodup h) hn⟩
  have hseparate := separate_outputs compiler h
  refine ⟨compiler.fileNames_eq cluster, compiler.artifact_hosts cluster, hseparate.nodup, ?_, ?_⟩
  · intro hm
    obtain ⟨output, ho, hname⟩ := List.mem_map.mp hm
    exact output_not_ignoreFile compiler h output ho (hname ▸ isNormal_ignoreFile.endsIn)
  · intro files later directory written hw output ho names
    have hholds := Compilation.holds_write hseparate hw output ho
    refine ⟨hholds.readText,
      (hholds.kept (changes_ignoreFile later directory names) ?_).readText⟩
    intro place hresolve hignore
    obtain ⟨leaf, hleaf⟩ := hseparate.ends output ho
    obtain ⟨above, -, hplace⟩ := resolve_endsIn hresolve (hleaf.join directory)
    rw [Set.mem_ofPred_eq, hplace, List.getLast?_concat, Option.some.injEq] at hignore
    exact output_not_ignoreFile compiler h output ho (hignore ▸ hleaf)

/-- A cluster of two nodes whose name holds a slash. -/
def slashedCluster : Cluster :=
  let settings : Settings := { installDisk := some "/dev/sda" }
  { Compiler.smallCluster [Compiler.bareNode "cp" true, Compiler.bareNode "w" false] with
    name := "lab/north", controlPlane := settings, worker := settings }

theorem slashed_cluster_kept_apart :
    slashedCluster.validate.hasErrors = false ∧
    (let compilation := (Compiler.smallCompiler (Compiler.smallBundle "key")).compile slashedCluster
    compilation.fileNames = ["lab/north-cp.yaml", "lab/north-w.yaml", "talosconfig"] ∧
      (compilation.write {} "out").2.toOption =
        some ["out/lab/north-cp.yaml", "out/lab/north-w.yaml", "out/talosconfig"] ∧
      compilation.fileNames.Nodup ∧ ".gitignore" ∉ compilation.fileNames) := by
  have h : slashedCluster.validate.hasErrors = false := by decide +kernel
  obtain ⟨-, -, hnodup, hignore, -⟩ :=
    (outputs_kept_apart slashedCluster h).1 (Compiler.smallCompiler (Compiler.smallBundle "key"))
  exact ⟨h, by decide +kernel, by decide +kernel, hnodup, hignore⟩

end ClusterConfig
