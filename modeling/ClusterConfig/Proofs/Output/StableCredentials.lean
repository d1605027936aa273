import Mathlib
import ClusterConfig.Proofs.Output.Generation
import ClusterConfig.Proofs.Output.KeptCredentials
import ClusterConfig.Proofs.Yaml.TypedData

/-!
# Credentials from run to run

A client configuration is read as it was written. So a later run with the same bundle finds the
credentials of the first one, if both parts of them are there, and else it falls back on what the
first one fell back on: the client configuration stays as it is.
-/

set_option autoImplicit false

namespace ClusterConfig

open FileTree
open Yaml (Fields.list Fields.orElse Fields.required Fields.text Fields.texts NumbersFit Source
  nestingLimit)

variable {cluster : Cluster} {bundle used : Bundle} {existing : Option ClientConfig}
  {files : FileTree} {path : String}

/-! ## Reading what was written -/

theorem textsMember_of_ne_nil {values : List String} (name : String) (h : values ≠ []) :
    textsMember name values = [(name, .strings values)] := by
  rw [textsMember, listMember, if_neg (by simpa using h)]
  rfl

namespace ClientContext

theorem ofSource?_written (medium : Yaml.Medium) (context : ClientContext) :
    ofSource? (.written medium context.toJson) = some context := by
  obtain ⟨endpoints, nodes, authority, certificate, key⟩ := context
  rw [ofSource?, toJson]
  -- without nodes their field is left out
  by_cases hnodes : nodes = []
  · rw [hnodes, Source.fields?_written (by simp [textsMember, listMember])
      (by simp [textsMember, listMember, Members.keys])]
    simp [textsMember, listMember, Source.namedSource, Fields.texts, Fields.list, Fields.text,
      Fields.orElse, Members.get?]
  · rw [textsMember_of_ne_nil _ hnodes, Source.fields?_written (by simp) (by simp [Members.keys])]
    simp [Source.namedSource, Fields.texts, Fields.list, Fields.text, Fields.orElse, Members.get?]

end ClientContext

namespace ClientConfig

/-- A list of texts has no numbers, and nothing nests in it. -/
theorem fits_strings (values : List String) :
    NumbersFit (.strings values) ∧ (Json.strings values).nesting ≤ 1 := by
  have hitems : ∀ item ∈ values.map Json.str, ∃ value, item = Json.str value := fun item hm => by
    obtain ⟨value, -, rfl⟩ := List.mem_map.mp hm
    exact ⟨value, rfl⟩
  refine ⟨Yaml.numbersFitItems_iff.mpr fun item hm => ?_,
    Nat.succ_le_succ (Json.nestingOfItems_le.mpr fun item hm => ?_)⟩
  · obtain ⟨value, rfl⟩ := hitems item hm
    trivial
  · obtain ⟨value, rfl⟩ := hitems item hm
    exact le_refl 0

theorem fits_context (context : ClientContext) :
    NumbersFit context.toJson ∧ context.toJson.nesting ≤ 2 := by
  have hmembers : ∀ entry ∈ [("endpoints", Json.strings context.endpoints)] ++
      textsMember "nodes" context.nodes ++ [("ca", .str context.authority),
        ("crt", .str context.certificate), ("key", .str context.key)],
      (∃ values, entry.2 = .strings values) ∨ ∃ s, entry.2 = .str s := by
    by_cases hnodes : context.nodes = []
    · simp [hnodes, textsMember, listMember]
    · simp [textsMember_of_ne_nil _ hnodes]
  refine ⟨Yaml.numbersFitMembers_iff.mpr fun entry hm => ?_,
    Nat.succ_le_succ (Json.nestingOfMembers_le.mpr fun entry hm => ?_)⟩
  · obtain ⟨values, hvalue⟩ | ⟨s, hvalue⟩ := hmembers entry hm
    · exact hvalue ▸ (fits_strings values).1
    · exact hvalue ▸ trivial
  · obtain ⟨values, hvalue⟩ | ⟨s, hvalue⟩ := hmembers entry hm
    · exact hvalue ▸ (fits_strings values).2
    · exact hvalue ▸ Nat.zero_le 1

theorem fits (config : ClientConfig) :
    NumbersFit config.toJson ∧ config.toJson.nesting ≤ nestingLimit := by
  have hcontexts : ∀ entry ∈ config.contexts.map fun entry => (entry.1, entry.2.toJson),
      ∃ context : ClientContext, entry.2 = context.toJson := fun entry hm => by
    obtain ⟨found, -, rfl⟩ := List.mem_map.mp hm
    exact ⟨found.2, rfl⟩
  have hfits := Yaml.numbersFitMembers_iff.mpr fun entry hm => by
    obtain ⟨context, hcontext⟩ := hcontexts entry hm
    exact hcontext ▸ (fits_context context).1
  have hnesting := Json.nestingOfMembers_le.mpr fun entry hm => by
    obtain ⟨context, hcontext⟩ := hcontexts entry hm
    exact hcontext ▸ (fits_context context).2
  refine ⟨⟨trivial, hfits, trivial⟩, le_trans (b := 4) ?_ (by decide)⟩
  simp only [toJson, Json.nesting, Json.nestingOfMembers]
  omega

/-- A configuration whose contexts have distinct names is read as it was written. -/
theorem ofText?_text (config : ClientConfig) (hd : config.contexts.keys.Nodup) :
    ofText? config.text = some config := by
  have hnode := Yaml.node?_writeMarked config.fits.1 config.fits.2
  have hcontexts := Source.members?_written
    (fun entry _ => ClientContext.ofSource?_written .text entry.2) hd
  rw [ofText?, text, hnode, Option.bind_eq_bind, Option.bind_some]
  show ofSource? (.written .text config.toJson) = _
  rw [ofSource?, toJson, Source.fields?_written (by simp) (by simp [Members.keys])]
  simp [Source.namedSource, Fields.required, Members.get?, hcontexts]

theorem read_of_holds {config : ClientConfig} (hd : config.contexts.keys.Nodup)
    (h : files.Holds path config.text.toUTF8) : read files path = .ok (some config) := by
  rw [read, h.readText]
  simp only [ofText?_text config hd]

theorem read_ofBundle (h : files.Holds path (ofBundle cluster bundle).text.toUTF8) :
    read files path = .ok (some (ofBundle cluster bundle)) :=
  read_of_holds (List.nodup_singleton _) h

end ClientConfig

/-! ## Credentials of a run -/

/-- A client configuration shows of a bundle only the authority and the client credentials. -/
theorem ClientConfig.ofBundle_congr {other : Bundle} (hm : used.machine = other.machine)
    (ha : used.admin.getD ⟨"", ""⟩ = other.admin.getD ⟨"", ""⟩) :
    ofBundle cluster used = ofBundle cluster other := by
  rw [ofBundle, ofBundle, hm, ha]

theorem ClientConfig.activeContext?_ofBundle (cluster : Cluster) (bundle : Bundle) :
    ∃ context, (ofBundle cluster bundle).activeContext? = some context ∧
      context.authority = bundle.machine.certificate ∧
      (⟨context.certificate, context.key⟩ : Credentials) = bundle.admin.getD ⟨"", ""⟩ :=
  ⟨_, if_pos rfl, rfl, rfl⟩

namespace Bundle

theorem keptFrom_eq_some {clusterName : String} {admin : Credentials} :
    bundle.keptFrom existing clusterName = some admin ↔
      ∃ config context, existing = some config ∧
        config.contexts.get? clusterName = some context ∧
        context.authority = bundle.machine.certificate ∧ context.certificate ≠ "" ∧
        context.key ≠ "" ∧ ⟨context.certificate, context.key⟩ = admin := by
  simp only [keptFrom, ClientConfig.credentialsFor?, Option.bind_eq_some_iff,
    Option.ite_none_right_eq_some, Option.some.injEq, and_assoc, exists_and_left]

/-- Of what was written with a bundle the same credentials are kept, if both parts are there. -/
theorem keptFrom_ofBundle (hm : used.machine = bundle.machine) :
    bundle.keptFrom (some (.ofBundle cluster used)) cluster.name =
      let admin := used.admin.getD ⟨"", ""⟩
      if admin.certificate ≠ "" ∧ admin.key ≠ "" then some admin else none := by
  have hcontext : (ClientConfig.ofBundle cluster used).contexts.get? cluster.name = some _ :=
    if_pos rfl
  rw [keptFrom, Option.bind_some, ClientConfig.credentialsFor?, hcontext, Option.bind_some]
  simp [hm]

/-- Keeping the credentials that were written changes nothing of what is written. -/
theorem ofBundle_again (h : used = bundle.withAdmin (bundle.keptFrom existing cluster.name)) :
    ClientConfig.ofBundle cluster
        (bundle.withAdmin (bundle.keptFrom (some (.ofBundle cluster used)) cluster.name)) =
      ClientConfig.ofBundle cluster used := by
  have hm : used.machine = bundle.machine := by
    rw [h]
    rfl
  refine ClientConfig.ofBundle_congr hm.symm ?_
  rw [keptFrom_ofBundle hm]
  dsimp only
  split
  · rfl
  · rename_i hparts
    -- what was kept before has both parts, so nothing was
    cases hkept : bundle.keptFrom existing cluster.name with
    | none => rw [h, hkept]
    | some admin =>
      obtain ⟨config, context, -, -, -, hcertificate, hkey, rfl⟩ := keptFrom_eq_some.mp hkept
      rw [h, hkept] at hparts
      exact absurd ⟨hcertificate, hkey⟩ hparts

end Bundle

/-! ## Runs -/

/-- From one tree a run with a cluster and a bundle may lead to another one, in which the client
configuration that it writes is at the path. Anything else may differ. -/
def LeavesClient (cluster : Cluster) (bundle : Bundle) (path : String) (files later : FileTree) :
    Prop :=
  ∀ used reused, bundle.keepExisting files path cluster.name = .ok (used, reused) →
    later.Holds path (ClientConfig.ofBundle cluster used).text.toUTF8

namespace CommandLine

theorem SourceOptions.load_files {options : SourceOptions} {vars : Bindings}
    {described : Described} (h : options.load files vars = .ok described) :
    described.source.files = files := by
  obtain ⟨vars, -, h⟩ := Patch.bind_eq_ok.mp h
  obtain ⟨loaded, -, h⟩ := Patch.bind_eq_ok.mp h
  cases h
  rfl

/-- A run that does not fail to write leaves the client configuration of its bundle, which it has
loaded and reconciled with the one that was there. -/
theorem generate_leavesClient (options : GenerateOptions) (vars : Bindings)
    (h : (options.generate files vars).ending = .ok () ∨
      ∃ failures, (options.generate files vars).ending = .error (.nodes failures)) :
    ∃ described later loaded used reused,
      options.source.load files vars = .ok described ∧
      Bundle.load described.source options.secretFile described.vars = (later, .ok loaded) ∧
      loaded.keepExisting files options.clientConfigPath described.cluster.name =
        .ok (used, reused) ∧
      LeavesClient described.cluster loaded options.clientConfigPath files
        (options.generate files vars).files := by
  obtain ⟨described, compiler, added, hload, -, hbundle, -, hwrote, -⟩ :=
    GenerateOptions.generate_wrote options files vars h
  obtain ⟨loaded, existing, hloaded, hread, hused⟩ := GenerateOptions.loadBundle_eq_ok.mp hbundle
  rw [SourceOptions.load_files hload] at hread
  have hkept : loaded.keepExisting files options.clientConfigPath described.cluster.name =
      .ok (compiler.bundle, _) := Bundle.keepExisting_eq_ok.mpr ⟨existing, hread, hused, rfl⟩
  have hclient := hwrote.outputs (ClientConfig.fileName, _)
    (List.mem_append_right _ List.mem_cons_self)
  refine ⟨described, compiler.vars, loaded, compiler.bundle, _, hload, hloaded, hkept, ?_⟩
  intro used reused hrun
  obtain ⟨rfl, -⟩ := Prod.mk.inj (Except.ok.inj (hkept.symm.trans hrun))
  exact hclient

end CommandLine

/-- The state between two runs: the file at the path is read as what the first run has written. -/
theorem LeavesClient.again {later : FileTree} {first : Bundle}
    (h : LeavesClient cluster bundle path files later)
    (hf : first = bundle.withAdmin (bundle.keptFrom existing cluster.name))
    (hr : ClientConfig.read files path = .ok (some (.ofBundle cluster first))) :
    ∃ used reused, bundle.keepExisting files path cluster.name = .ok (used, reused) ∧
      used = { bundle with admin := used.admin } ∧
      ClientConfig.ofBundle cluster used = ClientConfig.ofBundle cluster first ∧
      ClientConfig.read later path = .ok (some (.ofBundle cluster first)) := by
  have hrun : bundle.keepExisting files path cluster.name = .ok (_, _) :=
    Bundle.keepExisting_eq_ok.mpr ⟨_, hr, rfl, rfl⟩
  have hsame := Bundle.ofBundle_again hf
  have hlater := ClientConfig.read_ofBundle (h _ _ hrun)
  rw [hsame] at hlater
  exact ⟨_, _, hrun, rfl, hsame, hlater⟩

/-- Client credentials are stable from run to run. The first run writes those that the existing
configuration has for the cluster, if it names the authority of the bundle for them and both parts
are there, and else those of the bundle, or empty ones if it has none. Each later run that finds
what the run before has written writes the same configuration. No run changes anything else of the
bundle. -/
theorem client_credentials_stable (cluster : Cluster) (bundle : Bundle) (path : String)
    (trees : ℕ → FileTree) (existing : Option ClientConfig)
    (hread : ClientConfig.read (trees 0) path = .ok existing)
    (hruns : ∀ n, LeavesClient cluster bundle path (trees n) (trees (n + 1))) :
    ∃ first reused, bundle.keepExisting (trees 0) path cluster.name = .ok (first, reused) ∧
      (∃ context, (ClientConfig.ofBundle cluster first).activeContext? = some context ∧
        context.authority = bundle.machine.certificate ∧
        (∀ config found, existing = some config →
          config.contexts.get? cluster.name = some found →
          found.authority = bundle.machine.certificate → found.certificate ≠ "" →
          found.key ≠ "" → context.certificate = found.certificate ∧ context.key = found.key) ∧
        ((¬ ∃ config found, existing = some config ∧
            config.contexts.get? cluster.name = some found ∧
            found.authority = bundle.machine.certificate ∧ found.certificate ≠ "" ∧
            found.key ≠ "") →
          (⟨context.certificate, context.key⟩ : Credentials) = bundle.admin.getD ⟨"", ""⟩)) ∧
      ∀ n, ∃ used reused, bundle.keepExisting (trees n) path cluster.name = .ok (used, reused) ∧
        used = { bundle with admin := used.admin } ∧
        ClientConfig.ofBundle cluster used = ClientConfig.ofBundle cluster first ∧
        ClientConfig.read (trees (n + 1)) path =
          .ok (some (ClientConfig.ofBundle cluster first)) := by
  have hfirst : bundle.keepExisting (trees 0) path cluster.name = .ok (_, _) :=
    Bundle.keepExisting_eq_ok.mpr ⟨existing, hread, rfl, rfl⟩
  refine ⟨_, _, hfirst, ?_, fun n => ?_⟩
  · obtain ⟨context, hcontext, hauthority, hadmin⟩ := ClientConfig.activeContext?_ofBundle cluster
      (bundle.withAdmin (bundle.keptFrom existing cluster.name))
    refine ⟨context, hcontext, hauthority, fun config found hexisting hfound ha hc hk => ?_,
      fun hnone => ?_⟩
    · rw [Bundle.keptFrom_eq_some.mpr ⟨config, found, hexisting, hfound, ha, hc, hk, rfl⟩] at hadmin
      exact Credentials.mk.inj hadmin
    · have hkept : bundle.keptFrom existing cluster.name = none := by
        refine Option.eq_none_iff_forall_ne_some.mpr fun admin hadmin => hnone ?_
        obtain ⟨config, found, hexisting, hfound, ha, hc, hk, -⟩ := Bundle.keptFrom_eq_some.mp hadmin
        exact ⟨config, found, hexisting, hfound, ha, hc, hk⟩
      rwa [hkept] at hadmin
  · induction n with
    | zero => exact ⟨_, _, hfirst, rfl, rfl, ClientConfig.read_ofBundle (hruns 0 _ _ hfirst)⟩
    | succ n ih =>
      obtain ⟨-, -, -, -, -, hr⟩ := ih
      exact (hruns (n + 1)).again rfl hr

/-! ## Runs beside the credentials of an operator -/

/-- A tree with nothing but a client configuration. -/
def clientFile (config : ClientConfig) : FileTree where
  entries := [([ClientConfig.fileName], .file config.text.toUTF8)]

theorem holds_clientFile (config : ClientConfig) :
    (clientFile config).Holds ClientConfig.fileName config.text.toUTF8 := by
  have hnames : Path.names ClientConfig.fileName = [ClientConfig.fileName] :=
    isNormal_client.names
  have hnull : ∀ c ∈ ClientConfig.fileName.toList, c.toNat ≠ 0 := by
    simp [ClientConfig.fileName]
  have hstart : (clientFile config).start ClientConfig.fileName = [] :=
    if_neg (by simp [Path.isAbsolute, ClientConfig.fileName])
  have hfollow : (clientFile config).follow [] ([] ++ [ClientConfig.fileName]) =
      .ok ([] ++ [ClientConfig.fileName]) :=
    (follow_last (by decide) (by decide)).mpr ⟨[], rfl, rfl, by decide, rfl⟩
  refine ⟨[ClientConfig.fileName], resolve_eq_ok.mpr ⟨by decide, hnull, ?_⟩, ?_, ?_⟩
  · rw [hnames, hstart]
    exact hfollow
  · simp [find?, clientFile]
  · simp [endsWithSlash, ClientConfig.fileName]

/-- A run that keeps some credentials leaves them alone in its tree. -/
theorem leavesClient_kept {config : ClientConfig} {admin : Credentials}
    (hd : config.contexts.keys.Nodup)
    (h : bundle.keptFrom (some config) cluster.name = some admin) :
    LeavesClient cluster bundle ClientConfig.fileName (clientFile config)
      (clientFile (.ofBundle cluster (bundle.withAdmin (some admin)))) := by
  intro used reused hrun
  obtain ⟨existing, hread, rfl, -⟩ := Bundle.keepExisting_eq_ok.mp hrun
  have hconfig := ClientConfig.read_of_holds hd (holds_clientFile config)
  obtain rfl : some config = existing := Except.ok.inj (hconfig.symm.trans hread)
  rw [h]
  exact holds_clientFile _

/-- What an operator has for a cluster of one node and its authority. -/
def operatorConfig : ClientConfig := ⟨"small", [("small", ⟨[], [], "os", "c", "k"⟩)]⟩

def operatorCluster : Cluster := Compiler.smallCluster [⟨"n", "10.0.0.1", true, {}⟩]

def operatorTrees : ℕ → FileTree
  | 0 => clientFile operatorConfig
  | _ + 1 => clientFile
      (.ofBundle operatorCluster ((Compiler.smallBundle "s").withAdmin (some ⟨"c", "k"⟩)))

theorem operator_credentials_stay :
    ∃ first reused, (Compiler.smallBundle "s").keepExisting (operatorTrees 0) "talosconfig" "small" =
        .ok (first, reused) ∧
      (∃ context, (ClientConfig.ofBundle operatorCluster first).activeContext? = some context ∧
        context.certificate = "c" ∧ context.key = "k") ∧
      ∀ n, ClientConfig.read (operatorTrees (n + 1)) "talosconfig" =
        .ok (some (ClientConfig.ofBundle operatorCluster first)) := by
  have hread : ClientConfig.read (operatorTrees 0) "talosconfig" = .ok (some operatorConfig) :=
    ClientConfig.read_of_holds (List.nodup_singleton _) (holds_clientFile operatorConfig)
  have hruns : ∀ n, LeavesClient operatorCluster (Compiler.smallBundle "s") "talosconfig"
      (operatorTrees n) (operatorTrees (n + 1))
    | 0 => leavesClient_kept (List.nodup_singleton _) rfl
    | _ + 1 => leavesClient_kept (List.nodup_singleton _) rfl
  obtain ⟨first, reused, hfirst, ⟨context, hcontext, -, hkept, -⟩, hagain⟩ :=
    client_credentials_stable operatorCluster (Compiler.smallBundle "s") "talosconfig"
      operatorTrees (some operatorConfig) hread hruns
  refine ⟨first, reused, hfirst, ⟨context, hcontext, ?_⟩, fun n => ?_⟩
  · exact hkept operatorConfig _ rfl rfl rfl (by decide) (by decide)
  · obtain ⟨-, -, -, -, -, hr⟩ := hagain n
    exact hr

end ClusterConfig
