import Mathlib
import ClusterConfig.CommandLine.Outcome
import ClusterConfig.Proofs.Files.Changes
import ClusterConfig.Proofs.Nodes.Outcomes
import ClusterConfig.Proofs.Nodes.Rendered
import ClusterConfig.Proofs.Variables.Table

/-!
# Kept credentials

A bundle is checked when it is loaded. After that it takes over the client credentials of an existing
configuration, where the same authority is named in it and both parts are there, and nothing checks
these: what is used passes its check exactly if they do.
-/

set_option autoImplicit false

namespace ClusterConfig

open Machine (mapError_eq_ok)
open Patch (bind_eq_ok)

variable {bundle loaded kept : Bundle} {files : FileTree} {path clusterName : String}
  {reused : Bool}

/-! ## Taking over credentials -/

/-- The credentials that a configuration has for a cluster, if it names the authority for them and
both parts are there. -/
def ClientConfig.credentialsFor? (config : ClientConfig) (authority clusterName : String) :
    Option Credentials :=
  (config.contexts.get? clusterName).bind fun context =>
    if context.authority = authority ∧ context.certificate ≠ "" ∧ context.key ≠ "" then
      some ⟨context.certificate, context.key⟩
    else none

/-- The bundle with other client credentials, where there are some. -/
def Bundle.withAdmin (bundle : Bundle) (admin : Option Credentials) : Bundle :=
  { bundle with admin := admin.or bundle.admin }

/-- The credentials that are kept for a bundle. -/
def Bundle.keptFrom (bundle : Bundle) (existing : Option ClientConfig) (clusterName : String) :
    Option Credentials :=
  existing.bind fun config => config.credentialsFor? bundle.machine.certificate clusterName

namespace Bundle

theorem keepFrom_eq (bundle : Bundle) (config : ClientConfig) (clusterName : String) :
    bundle.keepFrom config clusterName =
      (bundle.withAdmin (bundle.keptFrom (some config) clusterName),
        (bundle.keptFrom (some config) clusterName).isSome) := by
  rw [keepFrom, keptFrom, Option.bind_some, ClientConfig.credentialsFor?]
  cases config.contexts.get? clusterName with
  | none => rfl
  | some context =>
    dsimp only
    by_cases hcertificate : context.certificate = ""
    · simp [hcertificate, withAdmin]
    · by_cases hkey : context.key = ""
      · simp [hkey, withAdmin]
      · by_cases hauthority : context.authority = bundle.machine.certificate
        · simp [hcertificate, hkey, hauthority, keepAdmin, withAdmin]
        · simp [hcertificate, hkey, hauthority, keepAdmin, withAdmin]

/-- Taking over credentials fails only where the existing configuration cannot be read. -/
theorem keepExisting_eq_ok :
    bundle.keepExisting files path clusterName = .ok (kept, reused) ↔
      ∃ existing, ClientConfig.read files path = .ok existing ∧
        kept = bundle.withAdmin (bundle.keptFrom existing clusterName) ∧
        reused = (bundle.keptFrom existing clusterName).isSome := by
  rw [keepExisting, bind_eq_ok]
  refine exists_congr fun existing => and_congr_right fun _ => ?_
  cases existing with
  | none =>
    simp only [keptFrom, withAdmin, Option.bind_none, Option.none_or, Option.isSome_none]
    constructor
    · intro h
      cases h
      exact ⟨rfl, rfl⟩
    · rintro ⟨rfl, rfl⟩
      rfl
  | some config =>
    show Except.ok (bundle.keepFrom config clusterName) = _ ↔ _
    rw [keepFrom_eq, Except.ok.injEq, Prod.mk.injEq]
    exact and_congr eq_comm eq_comm

/-! ## Checks -/

theorem forM_append {α ε : Type} (f : α → Except ε Unit) (l more : List α) :
    (l ++ more).forM f = l.forM f >>= fun _ => more.forM f := by
  induction l with
  | nil => rfl
  | cons a l ih =>
    show (f a >>= fun _ => (l ++ more).forM f) = (f a >>= fun _ => l.forM f) >>= _
    rw [ih, bind_assoc]

/-- What is read as a bundle and passes its check is loaded. -/
theorem load_of_text {source : Documents.Source} {vars later : Bindings} {text : String}
    (hread : Documents.read source path vars = (later, .ok text))
    (htext : ofText? text = some loaded) (hcheck : loaded.checkMaterial = .ok ()) :
    load source path vars = (later, .ok loaded) := by
  rw [load, hread]
  simp only [htext, hcheck]
  rfl

/-- The check of client credentials under the names of their fields. -/
def checkAdmin (admin : Credentials) : Except BundleError Unit :=
  (credentialMaterial "certs.admin" admin).forM fun entry => checkField entry.1 entry.2

theorem checkAdmin_eq_ok {admin : Credentials} :
    checkAdmin admin = .ok () ↔ checkField "certs.admin.crt" admin.certificate = .ok () ∧
      checkField "certs.admin.key" admin.key = .ok () := by
  show (checkField "certs.admin.crt" admin.certificate >>= fun _ =>
    checkField "certs.admin.key" admin.key >>= fun _ => .ok ()) = .ok () ↔ _
  cases checkField "certs.admin.crt" admin.certificate <;>
    cases checkField "certs.admin.key" admin.key <;> simp [bind, Except.bind]

/-- With other client credentials a bundle that passes its check is left with theirs. -/
theorem checkMaterial_withAdmin (h : loaded.checkMaterial = .ok ()) (admin : Option Credentials) :
    (loaded.withAdmin admin).checkMaterial = admin.elim (.ok ()) checkAdmin := by
  cases admin with
  | none => exact h
  | some admin =>
    rw [checkMaterial, material, forM_append] at h ⊢
    obtain ⟨done, hown, -⟩ := bind_eq_ok.mp h
    exact (congrArg (· >>= _) hown).trans rfl

end Bundle

/-! ## Runs -/

namespace CommandLine.GenerateOptions

variable {options : GenerateOptions} {described : Described} {vars : Bindings}

/-- A bundle is used once it is loaded and the existing configuration is read. -/
theorem loadBundle_eq_ok :
    options.loadBundle described = .ok (vars, bundle) ↔
      ∃ loaded existing,
        Bundle.load described.source options.secretFile described.vars = (vars, .ok loaded) ∧
        ClientConfig.read described.source.files options.clientConfigPath = .ok existing ∧
        bundle = loaded.withAdmin (loaded.keptFrom existing described.cluster.name) := by
  rw [loadBundle]
  cases hload : Bundle.load described.source options.secretFile described.vars with
  | mk later result =>
    cases result with
    | error reason => simp [Except.mapError, bind, Except.bind]
    | ok loaded =>
      constructor
      · intro h
        obtain ⟨found, hfound, h⟩ := bind_eq_ok.mp h
        cases mapError_eq_ok hfound
        obtain ⟨⟨kept, reused⟩, hkept, h⟩ := bind_eq_ok.mp h
        obtain ⟨existing, hread, rfl, -⟩ := Bundle.keepExisting_eq_ok.mp (mapError_eq_ok hkept)
        cases h
        exact ⟨loaded, existing, rfl, hread, rfl⟩
      · rintro ⟨found, existing, hfound, hread, rfl⟩
        cases hfound
        have hkept : loaded.keepExisting _ _ described.cluster.name = _ :=
          Bundle.keepExisting_eq_ok.mpr ⟨existing, hread, rfl, rfl⟩
        show (Except.mapError _ (loaded.keepExisting _ _ _) >>= _) = _
        rw [hkept]
        rfl

end CommandLine.GenerateOptions

/-- A bundle that is loaded has passed its check. -/
theorem Bundle.checkMaterial_of_load {source : Documents.Source} {vars later : Bindings}
    (h : Bundle.load source path vars = (later, .ok loaded)) : loaded.checkMaterial = .ok () := by
  rw [Bundle.load] at h
  split at h
  · cases h
  · split at h
    · cases h
    · rename_i bundle _
      cases hcheck : bundle.checkMaterial with
      | error reason => simp [hcheck, Except.map] at h
      | ok done =>
        simp only [hcheck, Except.map, Prod.mk.injEq, Except.ok.injEq] at h
        rw [← h.2, hcheck]

namespace CommandLine

/-- A run compiles with the bundle that it loaded, which has passed its check, and with the client
credentials of an existing configuration if some are kept. These alone decide whether the bundle
that is used would pass the check as well. -/
theorem used_material (options : GenerateOptions) (described : Described) (vars : Bindings)
    (bundle : Bundle) (h : options.loadBundle described = .ok (vars, bundle)) :
    options.compile described = .ok
      (Compiler.compile ⟨bundle, Machine.builtIn, described.source, vars⟩ described.cluster) ∧
    ∃ loaded existing,
      Bundle.load described.source options.secretFile described.vars = (vars, .ok loaded) ∧
      loaded.checkMaterial = .ok () ∧
      ClientConfig.read described.source.files options.clientConfigPath = .ok existing ∧
      bundle = loaded.withAdmin (loaded.keptFrom existing described.cluster.name) ∧
      bundle.checkMaterial =
        (loaded.keptFrom existing described.cluster.name).elim (.ok ()) Bundle.checkAdmin ∧
      (bundle.checkMaterial = .ok () ↔
        ∀ admin, loaded.keptFrom existing described.cluster.name = some admin →
          Bundle.checkField "certs.admin.crt" admin.certificate = .ok () ∧
          Bundle.checkField "certs.admin.key" admin.key = .ok ()) := by
  refine ⟨by rw [GenerateOptions.compile, h]; rfl, ?_⟩
  obtain ⟨loaded, existing, hload, hread, rfl⟩ := GenerateOptions.loadBundle_eq_ok.mp h
  have hloaded := Bundle.checkMaterial_of_load hload
  have hused := Bundle.checkMaterial_withAdmin hloaded
    (loaded.keptFrom existing described.cluster.name)
  refine ⟨loaded, existing, hload, hloaded, hread, rfl, hused, ?_⟩
  rw [hused]
  cases loaded.keptFrom existing described.cluster.name with
  | none => simp
  | some admin => simp [Bundle.checkAdmin_eq_ok]

/-! ## Runs beside an existing configuration -/

/-- A short text that passes as a key. -/
def shortKey : String := "LS0tLS1CRUdJTiA="

def shortSecrets : String :=
  "\x7bcluster: \x7bid: i,secret: s\x7d,secrets: \x7bbootstraptoken: b," ++
    "secretboxencryptionsecret: x\x7d,trustdinfo: \x7btoken: t\x7d,certs: \x7betcd: &a \x7b" ++
    "crt: &p LS0tLS1CRUdJTiA=,key: *p\x7d,k8s: *a,k8saggregator: *a," ++
    "k8sserviceaccount: \x7bkey: *p\x7d,os: *a\x7d\x7d"

/-- The client configuration of two clusters; what it has for the second one is no key. -/
def existingText : String :=
  "context: a\ncontexts: \x7ba: \x7bca: &p LS0tLS1CRUdJTiA=,crt: *p,key: *p\x7d,b: \x7bca: *p," ++
    "crt: c,key: k\x7d\x7d"

def existingSource : Documents.Source where
  files := { entries := [(["s"], .file "$S".toUTF8),
    (["talosconfig"], .file existingText.toUTF8)] }
  decrypt := Encryption.Decryptor.unavailable

/-- A run for one of the clusters, whose secrets are the value of a variable. -/
def besideExisting (clusterName : String) : GenerateOptions × Described :=
  (⟨⟨"c", [], "sops"⟩, "s", "", true⟩,
    ⟨existingSource, ⟨[("S", shortSecrets)]⟩,
      { Compiler.smallCluster [] with name := clusterName }⟩)

/-- The secrets are what the variable holds, inserted as it is. -/
theorem secrets_read (value : String) :
    Documents.read existingSource "s" ⟨[("S", value)]⟩ = (⟨[("S", value)]⟩, .ok value) := by
  have hfile : existingSource.files.read "s" = .ok "$S".toUTF8 := rfl
  have hplain : Encryption.isEncrypted "$S".toUTF8 = false := by decide +kernel
  have htext : String.fromUTF8? "$S".toUTF8 = some "$S" := by decide +kernel
  have hstripped : (Text.stripComments "$S").toList = ['$', 'S'] := by decide +kernel
  have hname : Variables.Mentions ['S'] ['$', 'S'] [] := .bare (by simp [Variables.EndsName])
  have hexpands : Variables.Expands (Text.stripComments "$S").toList 1 ⟨[("S", value)]⟩
      (Variables.Outcome.behind ⟨⟨[("S", value)]⟩, .ok []⟩ value.toList) := by
    rw [hstripped]
    exact .value (by decide) hname rfl .nil
  have hvalue := Variables.substitute_iff.mp hexpands
  simp only [Documents.read, hfile, Documents.readBytes, Encryption.unwrap_plain _ hplain, htext,
    hvalue]
  simp [Variables.Outcome.behind, Except.map, Except.mapError]

theorem toList_append_of {u v : String} {s t : List Char} (hu : u.toList = s) (hv : v.toList = t) :
    (u ++ v).toList = s ++ t := by
  rw [String.toList_append, hu, hv]

theorem node?_of_toList (text : String) {chars : List Char} (h : text.toList = chars) :
    Yaml.node? text =
      match (Yaml.graphs chars).map (·.map Yaml.Graph.expand) with
      | [some node] => some node
      | _ => none := by
  rw [← h]
  rfl

theorem secrets_usable :
    ((Bundle.ofText? shortSecrets).bind fun loaded => loaded.checkMaterial.toOption.map fun _ =>
      loaded.machine.certificate) = some shortKey := by
  -- the characters are taken from the parts of the text, for decoding the whole is slow
  have hnode := node?_of_toList shortSecrets (toList_append_of (toList_append_of (toList_append_of
    String.toList_ofList String.toList_ofList) String.toList_ofList) String.toList_ofList)
  have htext : Bundle.ofText? shortSecrets =
      (Yaml.node? shortSecrets).bind fun node => Bundle.ofSource? (.text node) := rfl
  rw [htext, hnode]
  decide +kernel

theorem readConfig_of_text {text : String} (h : files.readText path = .ok text) :
    ClientConfig.read files path =
      match (Yaml.node? text).bind fun node => ClientConfig.ofSource? (.text node) with
      | some config => .ok (some config)
      | none => .error (.malformed path) := by
  rw [ClientConfig.read, h]
  rfl

theorem existing_credentials :
    (ClientConfig.read existingSource.files "talosconfig").toOption.map (fun existing =>
      (existing.bind (·.credentialsFor? shortKey "a"),
        existing.bind (·.credentialsFor? shortKey "b"))) =
      some (some ⟨shortKey, shortKey⟩, some ⟨"c", "k"⟩) := by
  have htext : existingSource.files.readText "talosconfig" = .ok existingText :=
    FileTree.readText_of_read rfl
  have hnode := node?_of_toList existingText
    (toList_append_of String.toList_ofList String.toList_ofList)
  rw [readConfig_of_text htext, hnode]
  decide +kernel

theorem toOption_eq_some {ε α : Type} {x : Except ε α} {a : α} (h : x.toOption = some a) :
    x = .ok a := by
  cases x with
  | error e => cases h
  | ok b => exact congrArg _ (Option.some.inj h)

theorem besideExisting_loads (clusterName : String) :
    let run := besideExisting clusterName
    ∃ vars loaded existing,
      Bundle.load run.2.source run.1.secretFile run.2.vars = (vars, .ok loaded) ∧
      ClientConfig.read run.2.source.files run.1.clientConfigPath = .ok existing ∧
      loaded.keptFrom existing "a" = some ⟨shortKey, shortKey⟩ ∧
      loaded.keptFrom existing "b" = some ⟨"c", "k"⟩ := by
  have hpath : (besideExisting clusterName).1.clientConfigPath = "talosconfig" := by
    simp [GenerateOptions.clientConfigPath, besideExisting, Path.join, ClientConfig.fileName]
  have hsource : (besideExisting clusterName).2.source = existingSource := rfl
  have hsecrets : (besideExisting clusterName).1.secretFile = "s" := rfl
  have hvars : (besideExisting clusterName).2.vars = ⟨[("S", shortSecrets)]⟩ := rfl
  obtain ⟨loaded, htext, husable⟩ := Option.bind_eq_some_iff.mp secrets_usable
  obtain ⟨_, hcheck, hauthority⟩ := Option.map_eq_some_iff.mp husable
  obtain ⟨existing, hread, hcredentials⟩ := Option.map_eq_some_iff.mp existing_credentials
  obtain ⟨ha, hb⟩ := Prod.mk.inj hcredentials
  dsimp only
  rw [hsource, hsecrets, hvars, hpath]
  refine ⟨⟨[("S", shortSecrets)]⟩, loaded, existing, ?_, toOption_eq_some hread, ?_, ?_⟩
  · exact Bundle.load_of_text (secrets_read _) htext (toOption_eq_some hcheck)
  · rwa [Bundle.keptFrom, hauthority]
  · rwa [Bundle.keptFrom, hauthority]

theorem checkField_shortKey (field : String) : Bundle.checkField field shortKey = .ok () := by
  have hbytes : Base64.decode? (Text.trimChars shortKey.toList) = some Bundle.pemStart := by
    decide +kernel
  rw [Bundle.checkField, hbytes]
  exact if_pos (List.isPrefixOf_iff_prefix.mpr (List.prefix_refl _))

/-- Credentials that pass as keys are kept, and the bundle still passes its check. -/
theorem kept_keys_used :
    let run := besideExisting "a"
    ∃ vars bundle, run.1.loadBundle run.2 = .ok (vars, bundle) ∧
      bundle.admin = some ⟨shortKey, shortKey⟩ ∧ bundle.checkMaterial = .ok () := by
  intro run
  obtain ⟨vars, loaded, existing, hload, hread, ha, -⟩ := besideExisting_loads "a"
  have h := GenerateOptions.loadBundle_eq_ok.mpr ⟨loaded, existing, hload, hread, rfl⟩
  obtain ⟨-, found, other, hfound, -, hother, -, -, hiff⟩ := used_material run.1 run.2 vars _ h
  obtain rfl : loaded = found := Except.ok.inj (Prod.mk.inj (hload.symm.trans hfound)).2
  obtain rfl : existing = other := Except.ok.inj (hread.symm.trans hother)
  refine ⟨vars, _, h, ?_, hiff.mpr fun admin hadmin => ?_⟩
  · exact congrArg (·.or loaded.admin) ha
  · obtain rfl := Option.some.inj (ha.symm.trans hadmin)
    exact ⟨checkField_shortKey _, checkField_shortKey _⟩

/-- A bundle that passed its check is used with credentials that do not. -/
theorem kept_text_used :
    let run := besideExisting "b"
    ∃ vars loaded bundle,
      Bundle.load run.2.source run.1.secretFile run.2.vars = (vars, .ok loaded) ∧
      loaded.checkMaterial = .ok () ∧ run.1.loadBundle run.2 = .ok (vars, bundle) ∧
      bundle.checkMaterial = .error (.notBase64 "certs.admin.crt") := by
  intro run
  obtain ⟨vars, loaded, existing, hload, hread, -, hb⟩ := besideExisting_loads "b"
  have hloaded := Bundle.checkMaterial_of_load hload
  have h := GenerateOptions.loadBundle_eq_ok.mpr ⟨loaded, existing, hload, hread, rfl⟩
  refine ⟨vars, loaded, _, hload, hloaded, h, ?_⟩
  have hkept : loaded.keptFrom existing run.2.cluster.name = some ⟨"c", "k"⟩ := hb
  have htext : Base64.decode? (Text.trimChars "c".toList) = none := by decide +kernel
  rw [Bundle.checkMaterial_withAdmin hloaded, hkept]
  show (Bundle.checkField "certs.admin.crt" "c" >>= _) = _
  rw [Bundle.checkField, htext]
  rfl

end CommandLine

end ClusterConfig
