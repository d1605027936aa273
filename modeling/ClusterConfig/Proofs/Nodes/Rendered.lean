import Mathlib
import ClusterConfig.Machine.Synthesis
import ClusterConfig.Proofs.Documents.MemberPaths
import ClusterConfig.Proofs.Patches.Conversion

/-!
# Rendered members

Labels, annotations and taints are rendered one after the other, each into its own member of a
machine configuration. Nothing that is set later touches them, and they touch nothing else.
-/

set_option autoImplicit false

namespace ClusterConfig.Machine

open Template (Fields isTemplate render)
open Json (Apart ChangedOnlyAt changedOnlyAt_setAt getPath?_setAt_same)
open Patch (bind_eq_ok)

variable {fields : Fields} {name key value : String} {entries : Members String} {doc out : Json}
  {path : List String}

/-! ## Members of a map -/

/-- A text without expressions stands for itself. -/
theorem render_literal (h : isTemplate value = false) : render fields value = .ok value := by
  rw [render, h, if_neg Bool.false_ne_true]

theorem setRendered_step (fields : Fields) (name : String) (entry : String × String)
    (rest : Members String) (doc : Json) :
    setRendered fields name (entry :: rest) doc =
      match render fields entry.2 with
      | .ok text => setRendered fields name rest (doc.setAt ["machine", name, entry.1] (.str text))
      | .error reason =>
        .error (.renderTemplate (name ++ "[" ++ Text.quoted entry.1 ++ "]") reason) := by
  rw [setRendered, List.foldlM_cons]
  cases h : render fields entry.2 <;> simp [h, bind, Except.bind, setRendered]

theorem setRendered_cons (fields : Fields) (name : String) (entry : String × String)
    (rest : Members String) (doc : Json) :
    setRendered fields name (entry :: rest) doc = .ok out ↔
      ∃ text, render fields entry.2 = .ok text ∧
        setRendered fields name rest (doc.setAt ["machine", name, entry.1] (.str text)) =
          .ok out := by
  rw [setRendered_step]
  cases render fields entry.2 <;> simp

/-- Only the members that have the keys of entries change. -/
theorem setRendered_changes (h : setRendered fields name entries doc = .ok out) :
    ChangedOnlyAt (entries.keys.map fun key => ["machine", name, key]) doc out := by
  induction entries generalizing doc with
  | nil =>
    cases h
    exact .refl _ _
  | cons entry rest ih =>
    obtain ⟨text, -, hrest⟩ := (setRendered_cons fields name entry rest doc).mp h
    exact (changedOnlyAt_setAt doc ["machine", name, entry.1] (.str text)).append (ih hrest)

/-- Members of other maps stay. -/
theorem setRendered_apart (h : setRendered fields name entries doc = .ok out)
    (hpath : ∀ key ∈ entries.keys, Apart ["machine", name, key] path) :
    out.getPath? path = doc.getPath? path :=
  (setRendered_changes h).elsewhere path (List.forall_mem_map.mpr hpath)

/-- Under the key of an entry stands what an entry of that key is rendered to. -/
theorem setRendered_found (h : setRendered fields name entries doc = .ok out)
    (hk : key ∈ entries.keys) :
    ∃ value text, (key, value) ∈ entries ∧ render fields value = .ok text ∧
      out.getPath? ["machine", name, key] = some (.str text) := by
  induction entries generalizing doc with
  | nil => cases hk
  | cons entry rest ih =>
    obtain ⟨text, htext, hrest⟩ := (setRendered_cons fields name entry rest doc).mp h
    by_cases hmore : key ∈ Members.keys rest
    · obtain ⟨value, text, hm, hrender, hfound⟩ := ih hrest hmore
      exact ⟨value, text, List.mem_cons_of_mem _ hm, hrender, hfound⟩
    · obtain rfl : key = entry.1 := (List.mem_cons.mp hk).resolve_right hmore
      refine ⟨entry.2, text, List.mem_cons_self, htext, ?_⟩
      rw [setRendered_apart hrest fun other ho => ?_, getPath?_setAt_same]
      exact .inr (.inr (.inl fun hsame => hmore (hsame ▸ ho)))

/-- What setting members fails with is that one of the entries is not rendered. -/
theorem setRendered_error {error : SynthesisError}
    (h : setRendered fields name entries doc = .error error) :
    ∃ entry ∈ entries, ∃ reason, render fields entry.2 = .error reason ∧
      error = .renderTemplate (name ++ "[" ++ Text.quoted entry.1 ++ "]") reason := by
  induction entries generalizing doc with
  | nil => cases h
  | cons entry rest ih =>
    rw [setRendered_step] at h
    cases hrender : render fields entry.2 with
    | error reason =>
      rw [hrender] at h
      exact ⟨entry, List.mem_cons_self, reason, hrender, (Except.error.inj h).symm⟩
    | ok text =>
      rw [hrender] at h
      obtain ⟨other, hm, hfails⟩ := ih h
      exact ⟨other, List.mem_cons_of_mem _ hm, hfails⟩

/-! ## Configurations -/

theorem setList_changes {α : Type} (path : List String) (items : List α) (toJson : α → Json)
    (doc : Json) : ChangedOnlyAt [path] doc (setList path items toJson doc) := by
  rw [setList]
  split
  · exact .refl _ _
  · exact changedOnlyAt_setAt _ _ _

theorem setNetwork_changes (settings : Settings) (doc : Json) :
    ChangedOnlyAt [["machine", "network", "interfaces"], ["machine", "network", "nameservers"]] doc
      (setNetwork settings doc) :=
  (setList_changes _ _ _ _).append (setList_changes _ _ _ _)

theorem setFiles_changes {tree : FileTree} {files : List MachineFile}
    (h : setFiles tree files doc = .ok out) : ChangedOnlyAt [["machine", "files"]] doc out := by
  rw [setFiles] at h
  split at h
  · cases h
    exact .refl _ _
  · obtain ⟨items, -, h⟩ := bind_eq_ok.mp h
    cases h
    exact changedOnlyAt_setAt _ _ _

/-- The maps of settings that are rendered, each under its name. -/
def renderedMaps (settings : Settings) : List (String × Members String) :=
  [("nodeLabels", settings.labels), ("nodeAnnotations", settings.annotations),
    ("nodeTaints", settings.taints)]

/-- The members that settings are rendered into. -/
def renderedPaths (settings : Settings) : List (List String) :=
  (renderedMaps settings).flatMap fun map => map.2.keys.map fun key => ["machine", map.1, key]

theorem forall_mem_renderedPaths {settings : Settings} {p : List String → Prop} :
    (∀ changed ∈ renderedPaths settings, p changed) ↔
      ∀ map ∈ renderedMaps settings, ∀ key ∈ map.2.keys, p ["machine", map.1, key] := by
  simp only [renderedPaths, List.forall_mem_flatMap, List.forall_mem_map]

theorem setMetadata_changes {settings : Settings} (h : setMetadata fields settings doc = .ok out) :
    ChangedOnlyAt (renderedPaths settings) doc out := by
  obtain ⟨labelled, hlabelled, h⟩ := bind_eq_ok.mp h
  obtain ⟨annotated, hannotated, htainted⟩ := bind_eq_ok.mp h
  have hall := ((setRendered_changes hlabelled).append (setRendered_changes hannotated)).append
    (setRendered_changes htainted)
  exact hall.mono (by simp [renderedPaths, renderedMaps])

/-- Each map is rendered into its own members, which the other maps leave alone. -/
theorem setMetadata_rendered {settings : Settings} (h : setMetadata fields settings doc = .ok out)
    (hm : (name, entries) ∈ renderedMaps settings) :
    ∃ before after, setRendered fields name entries before = .ok after ∧
      ∀ key, out.getPath? ["machine", name, key] = after.getPath? ["machine", name, key] := by
  obtain ⟨labelled, hlabelled, h⟩ := bind_eq_ok.mp h
  obtain ⟨annotated, hannotated, htainted⟩ := bind_eq_ok.mp h
  simp only [renderedMaps, List.mem_cons, Prod.mk.injEq, List.not_mem_nil, or_false] at hm
  obtain ⟨rfl, rfl⟩ | ⟨rfl, rfl⟩ | ⟨rfl, rfl⟩ := hm
  · refine ⟨_, labelled, hlabelled, fun key => ?_⟩
    rw [setRendered_apart htainted (by simp [Apart]),
      setRendered_apart hannotated (by simp [Apart])]
  · refine ⟨_, annotated, hannotated, fun key => ?_⟩
    rw [setRendered_apart htainted (by simp [Apart])]
  · exact ⟨_, out, htainted, fun key => rfl⟩

/-- The paths that are set behind the rendered members. -/
def laterPaths : List (List String) :=
  [["machine", "kernel", "modules"], ["machine", "certSANs"], ["machine", "disks"],
    ["machine", "files"], ["cluster", "extraManifests"]]

/-- A configuration with what is set in front of the rendered members. -/
def setEarlier (node : Node) (cluster : Cluster) (doc : Json) : Json :=
  setNetwork node.settings (setInstall node.settings cluster.talosVersion
    (doc.setAt ["machine", "network", "hostname"] (.str node.hostname)))

theorem applySettings_steps {tree : FileTree} {node : Node} {cluster : Cluster}
    (h : applySettings tree node cluster doc = .ok out) :
    ∃ rendered, setMetadata (fieldsOf node cluster) node.settings (setEarlier node cluster doc) =
        .ok rendered ∧ ChangedOnlyAt laterPaths rendered out := by
  obtain ⟨rendered, hrendered, h⟩ := bind_eq_ok.mp h
  obtain ⟨filed, hfiled, h⟩ := bind_eq_ok.mp h
  cases h
  refine ⟨rendered, hrendered, ?_⟩
  exact ((((setList_changes _ _ _ _).append (setList_changes _ _ _ _)).append
    (setList_changes _ _ _ _)).append (setFiles_changes hfiled)).append (setList_changes _ _ _ _)

theorem mapError_eq_ok {ε ε' α : Type} {x : Except ε α} {f : ε → ε'} {a : α}
    (h : x.mapError f = .ok a) : x = .ok a := by
  cases x with
  | error reason => cases h
  | ok b => exact congrArg _ (Except.ok.inj h)

theorem map_eq_error {ε α β : Type} {x : Except ε α} {f : α → β} {error : ε}
    (h : x.map f = .error error) : x = .error error := by
  cases x with
  | error reason => exact congrArg _ (Except.error.inj h)
  | ok a => cases h

theorem synthesize_steps {generate : Generator} {tree : FileTree} {node : Node} {cluster : Cluster}
    {bundle : Bundle} {documents : NodeDocuments}
    (h : synthesize generate tree node cluster bundle = .ok documents) :
    ∃ contract doc, bundle.versionContract cluster.talosVersion = .ok contract ∧
      generate ⟨cluster, node.role, bundle, contract⟩ = .ok doc ∧
      applySettings tree node cluster doc = .ok documents.machine := by
  obtain ⟨contract, hcontract, h⟩ := bind_eq_ok.mp h
  obtain ⟨doc, hdoc, h⟩ := bind_eq_ok.mp h
  obtain ⟨machine, hmachine, h⟩ := bind_eq_ok.mp h
  cases h
  exact ⟨contract, doc, mapError_eq_ok hcontract, hdoc, hmachine⟩

theorem synthesized_of_isSome {generate : Generator} {tree : FileTree} {node : Node}
    {cluster : Cluster} {bundle : Bundle}
    (h : (synthesize generate tree node cluster bundle).toOption.isSome = true) :
    ∃ documents, synthesize generate tree node cluster bundle = .ok documents := by
  cases hs : synthesize generate tree node cluster bundle with
  | ok documents => exact ⟨documents, rfl⟩
  | error reason =>
    rw [hs] at h
    cases h

/-- The members of a configuration are those that were rendered into it. -/
theorem synthesize_rendered {generate : Generator} {tree : FileTree} {node : Node}
    {cluster : Cluster} {bundle : Bundle} {documents : NodeDocuments}
    (h : synthesize generate tree node cluster bundle = .ok documents)
    (hm : (name, entries) ∈ renderedMaps node.settings) :
    ∃ before after, setRendered (fieldsOf node cluster) name entries before = .ok after ∧
      ∀ key, documents.machine.getPath? ["machine", name, key] =
        after.getPath? ["machine", name, key] := by
  obtain ⟨contract, doc, -, -, hmachine⟩ := synthesize_steps h
  obtain ⟨rendered, hrendered, hlater⟩ := applySettings_steps hmachine
  obtain ⟨before, after, hset, hsame⟩ := setMetadata_rendered hrendered hm
  refine ⟨before, after, hset, fun key => ?_⟩
  rw [hlater.elsewhere _ ?_, hsame key]
  simp only [renderedMaps, List.mem_cons, Prod.mk.injEq, List.not_mem_nil, or_false] at hm
  obtain ⟨rfl, -⟩ | ⟨rfl, -⟩ | ⟨rfl, -⟩ := hm <;> simp [laterPaths, Apart]

theorem synthesize_labels {generate : Generator} {tree : FileTree} {node : Node} {cluster : Cluster}
    {bundle : Bundle} {documents : NodeDocuments}
    (h : synthesize generate tree node cluster bundle = .ok documents) :
    ∃ before after, setRendered (fieldsOf node cluster) "nodeLabels" node.settings.labels before =
        .ok after ∧
      ∀ key, documents.machine.getPath? ["machine", "nodeLabels", key] =
        after.getPath? ["machine", "nodeLabels", key] :=
  synthesize_rendered h List.mem_cons_self

/-! ## Failures -/

theorem bind_eq_error {ε α β : Type} {x : Except ε α} {f : α → Except ε β} {error : ε}
    (h : x >>= f = .error error) : x = .error error ∨ ∃ a, x = .ok a ∧ f a = .error error := by
  cases x with
  | error e => exact .inl (congrArg _ (Except.error.inj h))
  | ok a => exact .inr ⟨a, rfl, h⟩

theorem mapError_eq_error {ε ε' α : Type} {x : Except ε α} {f : ε → ε'} {error : ε'}
    (h : x.mapError f = .error error) : ∃ reason, x = .error reason ∧ error = f reason := by
  cases x with
  | error reason => exact ⟨reason, rfl, (Except.error.inj h).symm⟩
  | ok a => cases h

theorem setMetadata_error {settings : Settings} {error : SynthesisError}
    (h : setMetadata fields settings doc = .error error) :
    ∃ name entries, (name, entries) ∈ [("nodeLabels", settings.labels),
        ("nodeAnnotations", settings.annotations), ("nodeTaints", settings.taints)] ∧
      ∃ entry ∈ entries, ∃ reason, render fields entry.2 = .error reason ∧
        error = .renderTemplate (name ++ "[" ++ Text.quoted entry.1 ++ "]") reason := by
  obtain h | ⟨labelled, -, h⟩ := bind_eq_error h
  · exact ⟨"nodeLabels", _, by simp, setRendered_error h⟩
  obtain h | ⟨annotated, -, h⟩ := bind_eq_error h
  · exact ⟨"nodeAnnotations", _, by simp, setRendered_error h⟩
  · exact ⟨"nodeTaints", _, by simp, setRendered_error h⟩

theorem mapM_error {α β ε : Type} {f : α → Except ε β} {l : List α} {error : ε}
    (h : l.mapM f = .error error) : ∃ a ∈ l, f a = .error error := by
  induction l with
  | nil => cases h
  | cons a l ih =>
    rw [List.mapM_cons] at h
    obtain h | ⟨b, -, h⟩ := bind_eq_error h
    · exact ⟨a, List.mem_cons_self, h⟩
    obtain h | ⟨rest, -, h⟩ := bind_eq_error h
    · obtain ⟨other, hm, hother⟩ := ih h
      exact ⟨other, List.mem_cons_of_mem _ hm, hother⟩
    · cases h

/-- Only the content that refers to a file fails to be read. -/
theorem fileContent_error {tree : FileTree} {content : String} {error : SynthesisError}
    (h : fileContent tree content = .error error) :
    content.toList.head? = some '@' ∧ ∃ path reason, error = .fileContent path reason := by
  have hreads {path : String} (hread : (tree.readText path).mapError (.fileContent path) =
      (.error error : Except SynthesisError String)) :
      ∃ path reason, error = .fileContent path reason := by
    obtain ⟨reason, -, herror⟩ := mapError_eq_error hread
    exact ⟨path, reason, herror⟩
  rw [fileContent, Patch.Reference.parse] at h
  split at h
  · rename_i hparse
    split at hparse <;> cases hparse
    cases h
  · rename_i hparse
    split at hparse <;> cases hparse
    rename_i hchars
    exact ⟨by rw [hchars]; rfl, hreads h⟩
  · rename_i hparse
    split at hparse <;> cases hparse
    rename_i hchars
    exact ⟨by rw [hchars]; rfl, hreads h⟩

/-- Files fail to be set because the content of one of them cannot be read. -/
theorem setFiles_error {tree : FileTree} {files : List MachineFile} {error : SynthesisError}
    (h : setFiles tree files doc = .error error) :
    ∃ file ∈ files, fileContent tree file.content = .error error := by
  rw [setFiles] at h
  split at h
  · cases h
  obtain h | ⟨items, -, h⟩ := bind_eq_error h
  · obtain ⟨file, hm, h⟩ := mapM_error h
    obtain h | ⟨content, -, h⟩ := bind_eq_error h
    · exact ⟨file, hm, h⟩
    · cases h
  · cases h

/-- All that making the documents of a node fails with. -/
theorem synthesize_error {generate : Generator} {tree : FileTree} {node : Node} {cluster : Cluster}
    {bundle : Bundle} {error : SynthesisError}
    (h : synthesize generate tree node cluster bundle = .error error) :
    (∃ text, bundle.versionContract cluster.talosVersion = .error text ∧
      error = .versionContract text) ∨
    (∃ input, generate input = .error error) ∨
    (∃ name entries, (name, entries) ∈ [("nodeLabels", node.settings.labels),
        ("nodeAnnotations", node.settings.annotations), ("nodeTaints", node.settings.taints)] ∧
      ∃ entry ∈ entries, ∃ reason, render (fieldsOf node cluster) entry.2 = .error reason ∧
        error = .renderTemplate (name ++ "[" ++ Text.quoted entry.1 ++ "]") reason) ∨
    ∃ file ∈ node.settings.files, fileContent tree file.content = .error error := by
  obtain h | ⟨contract, -, h⟩ := bind_eq_error h
  · exact .inl (mapError_eq_error h)
  obtain h | ⟨doc, -, h⟩ := bind_eq_error h
  · exact .inr (.inl ⟨_, h⟩)
  obtain h | ⟨machine, -, h⟩ := bind_eq_error h
  · obtain h | ⟨settled, -, h⟩ := bind_eq_error h
    · exact .inr (.inr (.inl (setMetadata_error h)))
    obtain h | ⟨filed, -, h⟩ := bind_eq_error h
    · exact .inr (.inr (.inr (setFiles_error h)))
    · cases h
  · cases h

/-- Where a template fails, it is one of the node, or the generator fails so itself. -/
theorem synthesize_renderTemplate {generate : Generator} {tree : FileTree} {node : Node}
    {cluster : Cluster} {bundle : Bundle} {field : String} {reason : Template.TemplateError}
    (h : synthesize generate tree node cluster bundle = .error (.renderTemplate field reason)) :
    (∃ input, generate input = .error (.renderTemplate field reason)) ∨
      ∃ name entries, (name, entries) ∈ [("nodeLabels", node.settings.labels),
          ("nodeAnnotations", node.settings.annotations), ("nodeTaints", node.settings.taints)] ∧
        ∃ entry ∈ entries, render (fieldsOf node cluster) entry.2 = .error reason ∧
          field = name ++ "[" ++ Text.quoted entry.1 ++ "]" := by
  obtain ⟨text, -, herror⟩ | hgenerate | ⟨name, entries, hname, entry, he, found, hrender, herror⟩ |
    ⟨file, -, hfile⟩ := synthesize_error h
  · cases herror
  · exact .inl hgenerate
  · obtain ⟨rfl, rfl⟩ := SynthesisError.renderTemplate.inj herror
    exact .inr ⟨name, entries, hname, entry, he, hrender, rfl⟩
  · obtain ⟨-, path, missing, herror⟩ := fileContent_error hfile
    cases herror

end ClusterConfig.Machine
