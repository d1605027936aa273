import Mathlib
import ClusterConfig.CommandLine.Outcome
import ClusterConfig.Proofs.Nodes.Rendered
import ClusterConfig.Proofs.Output.ChangedFiles

/-!
# All or nothing

Everything that can fail before the first file is written leaves the files as they are. Once the
files are written, they are those of the nodes that compile, the client configuration and, where it
lacked names, the ignore file. A file that an earlier run left for a node that fails stays.
-/

set_option autoImplicit false

namespace ClusterConfig

open FileTree
open Machine (bind_eq_error mapError_eq_error mapError_eq_ok)
open Patch (bind_eq_ok)

variable {cluster : Cluster} {compiler : Compiler} {files later : FileTree} {node : Node}

/-! ## Nodes with artifacts -/

/-- Whether a node is among those that have artifacts. -/
def Compilation.hasArtifact (compilation : Compilation) (node : Node) : Bool :=
  (compilation.artifacts.map Artifact.hostname).contains node.hostname

theorem filter_of_sublist {α : Type} [BEq α] [LawfulBEq α] {s l : List α} (hl : l.Nodup)
    (h : s.Sublist l) : l.filter (fun a => s.contains a) = s := by
  induction h with
  | slnil => rfl
  | @cons s l a hs ih =>
    obtain ⟨ha, hl⟩ := List.nodup_cons.mp hl
    rw [List.filter_cons_of_neg fun hc => ha (hs.subset (List.contains_iff_mem.mp hc)), ih hl]
  | @cons_cons s l a hs ih =>
    obtain ⟨ha, hl⟩ := List.nodup_cons.mp hl
    rw [List.filter_cons_of_pos (by simp)]
    refine congrArg (a :: ·) ((List.filter_congr fun b hb => ?_).trans (ih hl))
    have hne : b ≠ a := fun hsame => ha (hsame ▸ hb)
    simp [hne]

namespace Compiler

/-- The artifacts are those of the nodes that have one, in the order of the nodes. -/
theorem hosts_filter (compiler : Compiler) (h : cluster.validate.hasErrors = false) :
    (compiler.compile cluster).artifacts.map Artifact.hostname =
      (cluster.nodes.filter (compiler.compile cluster).hasArtifact).map Node.hostname := by
  have hfilter := filter_of_sublist (Validation.valid_hostnames_nodup h)
    (compiler.artifact_hosts cluster)
  rw [List.filter_map] at hfilter
  exact hfilter.symm

theorem fileNames_filter (compiler : Compiler) (h : cluster.validate.hasErrors = false) :
    (compiler.compile cluster).fileNames =
      (cluster.nodes.filter (compiler.compile cluster).hasArtifact).map
        (fun node => cluster.fileName node.hostname) ++ [ClientConfig.fileName] := by
  rw [compiler.fileNames_eq cluster]
  refine congrArg (· ++ _) ?_
  have hnames := congrArg (List.map cluster.fileName) (compiler.hosts_filter h)
  rwa [List.map_map, List.map_map] at hnames

theorem length_filterMap (os : List (Except NodeFailure Artifact)) :
    (os.filterMap artifact?).length + (os.filterMap failure?).length = os.length := by
  induction os with
  | nil => rfl
  | cons o rest ih =>
    cases o with
    | ok artifact =>
      rw [List.filterMap_cons_some (show artifact? (.ok artifact) = some artifact from rfl),
        List.filterMap_cons_none rfl, List.length_cons, List.length_cons]
      omega
    | error failure =>
      rw [List.filterMap_cons_some (show failure? (.error failure) = some failure from rfl),
        List.filterMap_cons_none rfl, List.length_cons, List.length_cons]
      omega

/-- As many nodes fail as have no artifact. -/
theorem length_failures (compiler : Compiler) (h : cluster.validate.hasErrors = false) :
    (compiler.compile cluster).failures.length =
      (cluster.nodes.filter fun node => !(compiler.compile cluster).hasArtifact node).length := by
  have hall : (compiler.compile cluster).artifacts.length +
      (compiler.compile cluster).failures.length = cluster.nodes.length :=
    (length_filterMap _).trans (length_outcomes compiler cluster)
  have hhosts := congrArg List.length (compiler.hosts_filter h)
  rw [List.length_map, List.length_map] at hhosts
  rw [List.length_eq_length_filter_add (compiler.compile cluster).hasArtifact, hhosts] at hall
  omega

/-- A node of a valid cluster has an artifact exactly if it compiles. -/
theorem hasArtifact_iff (compiler : Compiler) (h : cluster.validate.hasErrors = false)
    (hn : node ∈ cluster.nodes) :
    (compiler.compile cluster).hasArtifact node = true ↔
      ∃ documents, compiler.compileNode cluster (node.withDefaults (cluster.defaults node.role)) =
        .ok documents := by
  rw [Compilation.hasArtifact, List.contains_iff_mem, List.mem_map]
  constructor
  · rintro ⟨artifact, hm, hhost⟩
    obtain ⟨o, ho, hartifact⟩ := List.mem_filterMap.mp hm
    obtain ⟨entry, he, rfl⟩ := List.mem_map.mp ho
    obtain ⟨documents, hdocuments, rfl⟩ := outcome_eq_ok.mp (artifact?_eq_some.mp hartifact)
    obtain ⟨other, hother, hmerged⟩ := List.mem_map.mp (List.fst_mem_of_mem_zipIdx he)
    -- host names differ, so the artifact is of this node
    have hsame : other = node :=
      List.inj_on_of_nodup_map (Validation.valid_hostnames_nodup h) hother hn
        (by rw [← hhost, ← hmerged]; rfl)
    exact ⟨documents, by rw [← hsame, hmerged, hdocuments]⟩
  · rintro ⟨documents, hdocuments⟩
    obtain ⟨i, hi⟩ := List.mem_iff_getElem?.mp hn
    have houtcome : (compiler.outcomes cluster)[i]? = some _ := outcomes_of_node hi
    rw [outcome_eq_ok.mpr ⟨documents, hdocuments, rfl⟩] at houtcome
    exact ⟨_, List.mem_filterMap.mpr ⟨_, List.mem_of_getElem? houtcome, rfl⟩, rfl⟩

/-- The files of a compilation have other last names than the ignore file. -/
theorem ignoreFile_apart (compiler : Compiler) (h : cluster.validate.hasErrors = false) :
    ∀ name ∈ (compiler.compile cluster).fileNames,
      ∃ leaf, Path.EndsIn name leaf ∧ leaf ≠ IgnoreFile.fileName := by
  intro name hm
  obtain ⟨output, ho, rfl⟩ := List.mem_map.mp hm
  obtain ⟨leaf, hleaf⟩ := (separate_outputs compiler h).ends output ho
  exact ⟨leaf, hleaf, fun hsame => output_not_ignoreFile compiler h output ho (hsame ▸ hleaf)⟩

/-- The file of a node that has no artifact has another last name than all that are written. -/
theorem failed_apart (compiler : Compiler) (h : cluster.validate.hasErrors = false)
    (hn : node ∈ cluster.nodes) (hf : (compiler.compile cluster).hasArtifact node = false) :
    ∃ leaf, Path.EndsIn (cluster.fileName node.hostname) leaf ∧
      ∀ name ∈ (compiler.compile cluster).fileNames ++ [IgnoreFile.fileName],
        ∃ found, Path.EndsIn name found ∧ found ≠ leaf := by
  obtain ⟨stem, hends⟩ := fileName_endsIn cluster
  refine ⟨_, hends _ (Validation.valid_hostname h hn), fun name hm => ?_⟩
  rw [compiler.fileNames_filter h, List.append_assoc, List.mem_append, List.mem_map] at hm
  obtain ⟨other, hother, rfl⟩ | hm := hm
  · obtain ⟨hother, hartifact⟩ := List.mem_filter.mp hother
    refine ⟨_, hends _ (Validation.valid_hostname h hother), fun hsame => ?_⟩
    have hhost := hostSuffix_injective hsame
    rw [Compilation.hasArtifact, hhost] at hartifact
    exact absurd hartifact (Bool.eq_false_iff.mp hf)
  · simp only [List.cons_append, List.nil_append, List.mem_cons, List.not_mem_nil, or_false] at hm
    obtain rfl | rfl := hm
    · exact ⟨_, isNormal_client.endsIn, (ne_hostSuffix stem _ (by decide)).symm⟩
    · exact ⟨_, isNormal_ignoreFile.endsIn, (ne_hostSuffix stem _ (by decide)).symm⟩

end Compiler

/-! ## Ends of a run -/

namespace CommandLine

theorem loadEnvFiles_error {paths : List String} {vars : Bindings} {failure : Failure}
    (h : loadEnvFiles files vars paths = .error failure) :
    ∃ reason, failure = .loadEnvFile reason := by
  induction paths generalizing vars with
  | nil => cases h
  | cons path rest ih =>
    obtain h | ⟨loaded, -, h⟩ := bind_eq_error h
    · obtain ⟨reason, -, rfl⟩ := mapError_eq_error h
      exact ⟨reason, rfl⟩
    · exact ih h

theorem load_error {options : SourceOptions} {vars : Bindings} {failure : Failure}
    (h : options.load files vars = .error failure) :
    (∃ reason, failure = .loadEnvFile reason) ∨ ∃ reason, failure = .loadCluster reason := by
  obtain h | ⟨vars, -, h⟩ := bind_eq_error h
  · exact .inl (loadEnvFiles_error h)
  · obtain h | ⟨cluster, -, h⟩ := bind_eq_error h
    · obtain ⟨reason, -, rfl⟩ := mapError_eq_error h
      exact .inr ⟨reason, rfl⟩
    · cases h

namespace GenerateOptions

variable {options : GenerateOptions} {described : Described} {compilation : Compilation}
  {vars : Bindings}

theorem loadBundle_error {failure : Failure} (h : options.loadBundle described = .error failure) :
    (∃ reason, failure = .loadSecrets reason) ∨ ∃ reason, failure = .keepClient reason := by
  obtain h | ⟨bundle, -, h⟩ := bind_eq_error h
  · obtain ⟨reason, -, rfl⟩ := mapError_eq_error h
    exact .inl ⟨reason, rfl⟩
  · obtain h | ⟨kept, -, h⟩ := bind_eq_error h
    · obtain ⟨reason, -, rfl⟩ := mapError_eq_error h
      exact .inr ⟨reason, rfl⟩
    · cases h

theorem compile_error {failure : Failure} (h : options.compile described = .error failure) :
    (∃ reason, failure = .loadSecrets reason) ∨ ∃ reason, failure = .keepClient reason := by
  obtain h | ⟨loaded, -, h⟩ := bind_eq_error h
  · exact loadBundle_error h
  · cases h

/-- The compiler that a run goes on with. -/
theorem compile_eq_ok (h : options.compile described = .ok compilation) :
    ∃ vars bundle, options.loadBundle described = .ok (vars, bundle) ∧
      compilation = Compiler.compile ⟨bundle, Machine.builtIn, described.source, vars⟩
        described.cluster := by
  obtain ⟨⟨vars, bundle⟩, hloaded, h⟩ := bind_eq_ok.mp h
  exact ⟨vars, bundle, hloaded, (Except.ok.inj h).symm⟩

/-- What a run does once all nodes are compiled: it fails to write, or writes everything. -/
theorem write_cases (options : GenerateOptions) (compilation : Compilation) (files : FileTree) :
    (∃ reason, (options.write compilation files).ending = .error (.write reason)) ∨
    ∃ between written later added,
      compilation.write files options.outDirectory = (between, .ok written) ∧
      options.updateIgnoreFile compilation between = (later, .ok added) ∧
      options.write compilation files =
        ⟨[], later,
          if compilation.isSuccess then .ok () else .error (.nodes compilation.failures)⟩ := by
  rw [GenerateOptions.write]
  split
  · exact .inl ⟨_, rfl⟩
  · rename_i between written hwritten
    split
    · exact .inl ⟨_, rfl⟩
    · rename_i later added hadded
      exact .inr ⟨between, written, later, added, hwritten, hadded, rfl⟩

/-- A run that does not come to writing leaves the files as they are. -/
theorem generate_cases (options : GenerateOptions) (files : FileTree) (vars : Bindings) :
    ((options.generate files vars).files = files ∧
      ∃ failure, (options.generate files vars).ending = .error failure ∧
        (∀ failures, failure ≠ .nodes failures) ∧ ∀ reason, failure ≠ .write reason) ∨
    ∃ described compilation, options.source.load files vars = .ok described ∧
      described.report.hasErrors = false ∧ options.compile described = .ok compilation ∧
      options.generate files vars = options.write compilation files := by
  rw [generate]
  split
  · rename_i failure hload
    refine .inl ⟨rfl, failure, rfl, ?_⟩
    obtain ⟨reason, rfl⟩ | ⟨reason, rfl⟩ := load_error hload <;> exact ⟨by simp, by simp⟩
  · rename_i described hload
    dsimp only
    split
    · exact .inl ⟨rfl, _, rfl, by simp, by simp⟩
    · rename_i hvalid
      split
      · rename_i failure hcompile
        refine .inl ⟨rfl, failure, rfl, ?_⟩
        obtain ⟨reason, rfl⟩ | ⟨reason, rfl⟩ := compile_error hcompile <;>
          exact ⟨by simp, by simp⟩
      · rename_i compilation hcompile
        exact .inr ⟨described, compilation, hload, Bool.eq_false_iff.mpr hvalid, hcompile, rfl⟩

/-! ## Written files -/

/-- What a run has changed that wrote a compilation and added some names to the ignore file. -/
structure Wrote (options : GenerateOptions) (compilation : Compilation) (added : Nat)
    (files later : FileTree) : Prop where
  /-- Every output stands under its path. -/
  outputs : ∀ output ∈ compilation.outputs,
    later.Holds (Path.join options.outDirectory output.1) output.2.toUTF8
  /-- All other files are as they were. -/
  changes : ChangesOnly (Compilation.places later options.outDirectory
    (compilation.fileNames ++ if added = 0 then [] else [IgnoreFile.fileName])) files later
  disabled : options.ignoresOutput = false → added = 0
  /-- The ignore file has its old text, with the names behind it that were not in it. -/
  ignored : options.ignoresOutput = true → ∃ place text,
    later.resolve (Path.join options.outDirectory IgnoreFile.fileName) = .ok place ∧
    files.TextAt place text ∧
    later.find? place =
      some (.file (IgnoreFile.extend text compilation.fileNames).1.toUTF8) ∧
    (IgnoreFile.extend text compilation.fileNames).2 = added ∧
    (added = 0 ↔ ∀ name ∈ compilation.fileNames, name ∈ IgnoreFile.presentNames text)

theorem wrote (hv : cluster.validate.hasErrors = false) {between : FileTree}
    {written : List String} {added : Nat}
    (hw : (compiler.compile cluster).write files options.outDirectory = (between, .ok written))
    (hu : options.updateIgnoreFile (compiler.compile cluster) between = (later, .ok added)) :
    options.Wrote (compiler.compile cluster) added files later := by
  have hholds := Compilation.holds_write (separate_outputs compiler hv) hw
  have hchanges := Compilation.changes_written hw
  rw [updateIgnoreFile] at hu
  cases hi : options.ignoresOutput with
  | false =>
    rw [hi, if_neg Bool.false_ne_true] at hu
    cases hu
    refine ⟨hholds, ?_, fun _ => rfl, fun h => absurd (hi.symm.trans h) Bool.false_ne_true⟩
    rwa [if_pos rfl, List.append_nil]
  | true =>
    rw [hi, if_pos rfl] at hu
    have hclient : (ClientConfig.fileName, (compiler.compile cluster).client.text) ∈
        (compiler.compile cluster).outputs := List.mem_append_right _ List.mem_cons_self
    -- the client configuration stands beside the ignore file, so its directory is there
    obtain ⟨place, hplace, -⟩ := hholds _ hclient
    obtain ⟨above, hresolve⟩ := resolve_sibling hplace isNormal_client isNormal_ignoreFile
      (by decide) (by simp [IgnoreFile.fileName])
    have hnames : (compiler.compile cluster).fileNames ≠ [] :=
      List.ne_nil_of_mem (List.mem_map_of_mem hclient)
    obtain ⟨text, hextends⟩ := IgnoreFile.extends_of_update hu hresolve hnames
    have hapart := Compilation.not_mem_places hresolve isNormal_ignoreFile.endsIn
      (compiler.ignoreFile_apart hv)
    have hlater := hextends.changes.resolve hresolve
    refine ⟨fun output ho => ?_, ?_, fun h => absurd (hi.symm.trans h) Bool.false_ne_true.symm, ?_⟩
    · refine (hholds output ho).kept hextends.changes fun found hfound hsame => hapart ?_
      exact ⟨output.1, List.mem_map_of_mem ho, hsame.1 ▸ hfound⟩
    · refine (hchanges.mono ?_).trans (hextends.changes.mono ?_)
      · exact (Compilation.places_kept hextends.changes).trans
          (Compilation.places_mono (List.subset_append_left _ _))
      · rintro changed ⟨rfl, hpos⟩
        refine ⟨IgnoreFile.fileName, List.mem_append_right _ ?_, hlater⟩
        rw [if_neg hpos.ne']
        exact List.mem_cons_self
    · refine fun _ => ⟨_, text, hlater, hextends.before.earlier hchanges hapart, hextends.after,
        hextends.count, ?_⟩
      rw [← hextends.count]
      exact IgnoreFile.extend_eq_zero _ _

/-- The file that an earlier run left for a node without an artifact is as it was. -/
theorem Wrote.untouched {added : Nat} {place : List String}
    (h : options.Wrote (compiler.compile cluster) added files later)
    (hv : cluster.validate.hasErrors = false) (hn : node ∈ cluster.nodes)
    (hf : (compiler.compile cluster).hasArtifact node = false)
    (hp : later.resolve (Path.join options.outDirectory (cluster.fileName node.hostname)) =
      .ok place) (content : ByteArray) :
    later.find? place = some (.file content) ↔ files.find? place = some (.file content) := by
  obtain ⟨leaf, hleaf, hothers⟩ := compiler.failed_apart hv hn hf
  refine h.changes.files place (fun hm => ?_) content
  refine Compilation.not_mem_places hp hleaf hothers (Compilation.places_mono ?_ hm)
  refine List.append_subset.mpr ⟨List.subset_append_left _ _, ?_⟩
  split
  · exact List.nil_subset _
  · exact List.subset_append_right _ _

/-- An error that is neither one of writing nor of the nodes leaves the files as they are. -/
theorem generate_unchanged {failure : Failure}
    (h : (options.generate files vars).ending = .error failure)
    (hwrite : ∀ reason, failure ≠ .write reason) (hnodes : ∀ failures, failure ≠ .nodes failures) :
    (options.generate files vars).files = files := by
  obtain ⟨hfiles, -⟩ | ⟨described, compilation, -, -, -, hrun⟩ := generate_cases options files vars
  · exact hfiles
  rw [hrun] at h
  obtain ⟨reason, hending⟩ | ⟨between, written, later, added, -, -, hdone⟩ :=
    write_cases options compilation files
  · exact absurd (Except.error.inj (h.symm.trans hending)) (hwrite reason)
  · rw [hdone] at h
    dsimp only at h
    split at h
    · cases h
    · exact absurd (Except.error.inj h).symm (hnodes _)

/-- A run that ends with all files written, whether all nodes compile or not. -/
theorem generate_wrote (options : GenerateOptions) (files : FileTree) (vars : Bindings)
    (h : (options.generate files vars).ending = .ok () ∨
      ∃ failures, (options.generate files vars).ending = .error (.nodes failures)) :
    ∃ (described : Described) (compiler : Compiler) (added : Nat),
      options.source.load files vars = .ok described ∧
      described.cluster.validate.hasErrors = false ∧
      options.loadBundle described = .ok (compiler.vars, compiler.bundle) ∧
      options.compile described = .ok (compiler.compile described.cluster) ∧
      options.Wrote (compiler.compile described.cluster) added files
        (options.generate files vars).files ∧
      (options.generate files vars).ending =
        if (compiler.compile described.cluster).isSuccess then .ok ()
        else .error (.nodes (compiler.compile described.cluster).failures) := by
  obtain ⟨-, failure, hending, hnodes, -⟩ | ⟨described, compilation, hload, hvalid, hcompile, hrun⟩ :=
    generate_cases options files vars
  · obtain h | ⟨failures, h⟩ := h
    · cases hending.symm.trans h
    · exact absurd (Except.error.inj (hending.symm.trans h)) (hnodes failures)
  obtain ⟨reason, hending⟩ | ⟨between, written, later, added, hw, hu, hdone⟩ :=
    write_cases options compilation files
  · rw [hrun] at h
    obtain h | ⟨failures, h⟩ := h <;> cases hending.symm.trans h
  obtain ⟨vars, bundle, hbundle, rfl⟩ := compile_eq_ok hcompile
  rw [hrun, hdone]
  exact ⟨described, ⟨bundle, Machine.builtIn, described.source, vars⟩, added, hload, hvalid, hbundle,
    hcompile, wrote hvalid hw hu, rfl⟩

/-- What a run reports at its end accounts for the nodes without artifacts. -/
theorem ending_accounts {ending : Except Failure Unit} (hv : cluster.validate.hasErrors = false)
    (h : ending = if (compiler.compile cluster).isSuccess then .ok ()
      else .error (.nodes (compiler.compile cluster).failures)) :
    (∀ failures, ending = .error (.nodes failures) →
      failures = (compiler.compile cluster).failures ∧ failures ≠ [] ∧
      failures.length =
        (cluster.nodes.filter fun node => !(compiler.compile cluster).hasArtifact node).length) ∧
    (ending = .ok () →
      ∀ node ∈ cluster.nodes, (compiler.compile cluster).hasArtifact node = true) := by
  have hlength := compiler.length_failures hv
  rw [h]
  split
  · rename_i hsuccess
    rw [Compilation.isSuccess, List.isEmpty_iff] at hsuccess
    rw [hsuccess, List.length_nil, eq_comm, List.length_eq_zero_iff, List.filter_eq_nil_iff]
      at hlength
    exact ⟨nofun, fun _ => by simpa using hlength⟩
  · rename_i hfails
    refine ⟨fun failures hends => ?_, nofun⟩
    obtain rfl := Failure.nodes.inj (Except.error.inj hends)
    refine ⟨rfl, fun hnone => hfails ?_, hlength⟩
    rw [Compilation.isSuccess, hnone]
    rfl

end GenerateOptions

/-- A run whose description is an empty mapping, over files that hold nothing else. -/
def emptyDescription : GenerateOptions × FileTree :=
  (⟨⟨"c", [], "sops"⟩, "s", "out", true⟩, { entries := [(["c"], .file "\x7b\x7d".toUTF8)] })

end CommandLine

end ClusterConfig
