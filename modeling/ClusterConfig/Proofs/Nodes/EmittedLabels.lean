import Mathlib
import ClusterConfig.Proofs.Labels.QualifiedNames
import ClusterConfig.Proofs.Nodes.Outcomes
import ClusterConfig.Proofs.Nodes.Rendered
import ClusterConfig.Proofs.Validation.CheckedValues

/-!
# Emitted labels

The labels of a valid cluster are checked before they are rendered: a literal value by the rule of
label values, a template only for being one that renders with empty fields. So a literal value is
emitted as a valid one, and what a template is rendered to is emitted as it is. Keys are checked
without the blanks around them, but they are emitted with them.
-/

set_option autoImplicit false

namespace ClusterConfig

open Template (isTemplate render)
open Machine (synthesize fieldsOf)

/-- What is emitted under the key of a label, if it is a text. -/
def Machine.NodeDocuments.label? (documents : Machine.NodeDocuments) (key : String) :
    Option String :=
  (documents.machine.getPath? ["machine", "nodeLabels", key]).bind Json.str?

/-- A valid cluster emits every label of a node as it is rendered. A literal value is emitted
unchanged and is a valid one; so all that are emitted are valid if the templates are rendered to
valid ones, and only if, where no two labels have the same key. -/
theorem emitted_labels_valid (cluster : Cluster) (h : cluster.validate.hasErrors = false)
    (generate : Machine.Generator) (tree : FileTree) (bundle : Bundle) (node : Node)
    (hn : node ∈ cluster.mergedNodes) (documents : Machine.NodeDocuments)
    (hs : synthesize generate tree node cluster bundle = .ok documents) :
    (∀ key ∈ node.settings.labels.keys, ∃ value text, (key, value) ∈ node.settings.labels ∧
      render (fieldsOf node cluster) value = .ok text ∧ documents.label? key = some text ∧
      (isTemplate value = false → text = value ∧ Labels.checkValue text = .ok ())) ∧
    ((∀ entry ∈ node.settings.labels, isTemplate entry.2 = true →
        ∀ text, render (fieldsOf node cluster) entry.2 = .ok text →
          Labels.checkValue text = .ok ()) →
      ∀ key ∈ node.settings.labels.keys, ∃ text, documents.label? key = some text ∧
        Labels.checkValue text = .ok ()) ∧
    (node.settings.labels.keys.Nodup →
      (∀ key ∈ node.settings.labels.keys, ∀ text, documents.label? key = some text →
        Labels.checkValue text = .ok ()) →
      ∀ entry ∈ node.settings.labels, ∃ text, render (fieldsOf node cluster) entry.2 = .ok text ∧
        Labels.checkValue text = .ok ()) := by
  obtain ⟨before, after, hrendered, hsame⟩ := Machine.synthesize_labels hs
  have hvalid := Validation.valid_merged h hn Validation.Place.root
  have hfound : ∀ key ∈ node.settings.labels.keys, ∃ value text,
      (key, value) ∈ node.settings.labels ∧ render (fieldsOf node cluster) value = .ok text ∧
      documents.label? key = some text ∧
      (isTemplate value = false → text = value ∧ Labels.checkValue text = .ok ()) := by
    intro key hk
    obtain ⟨value, text, hm, hrender, hpath⟩ := Machine.setRendered_found hrendered hk
    refine ⟨value, text, hm, hrender, ?_, fun hliteral => ?_⟩
    · rw [Machine.NodeDocuments.label?, hsame key, hpath]
      rfl
    · rw [Machine.render_literal hliteral] at hrender
      cases hrender
      obtain ⟨htemplate, -⟩ | ⟨-, hcheck⟩ := Validation.valid_label hvalid hm
      · rw [hliteral] at htemplate
        cases htemplate
      · exact ⟨rfl, hcheck⟩
  refine ⟨hfound, fun hrender key hk => ?_, fun hkeys hall entry hm => ?_⟩
  · obtain ⟨value, text, hm, htext, hlabel, hliteral⟩ := hfound key hk
    refine ⟨text, hlabel, ?_⟩
    cases ht : isTemplate value with
    | true => exact hrender (key, value) hm ht text htext
    | false => exact (hliteral ht).2
  · obtain ⟨value, text, hm', htext, hlabel, -⟩ := hfound entry.1 (List.mem_map_of_mem hm)
    have hvalue : value = entry.2 :=
      Option.some.inj ((Members.get?_of_mem hkeys hm').symm.trans (Members.get?_of_mem hkeys hm))
    exact ⟨text, hvalue ▸ htext, hall entry.1 (List.mem_map_of_mem hm) text hlabel⟩

/-- A cluster of one node with the given labels. -/
def labelledNode (address : String) (labels : Members String) : Node :=
  ⟨"cp", address, true, { installDisk := some "/dev/sda", labels }⟩

theorem labelled_node_emits :
    let node := labelledNode "10.0.0.1" [("zone", "b"), ("host", "\x7b\x7b .hostname \x7d\x7d")]
    let cluster := Compiler.smallCluster [node]
    cluster.validate.hasErrors = false ∧
    ∃ documents : Machine.NodeDocuments,
      synthesize Machine.builtIn {} node cluster (Compiler.smallBundle "key") = .ok documents ∧
      ∀ key ∈ ["zone", "host"], ∃ text, documents.label? key = some text ∧
        Labels.checkValue text = .ok () := by
  intro node cluster
  have h : cluster.validate.hasErrors = false := by decide +kernel
  refine ⟨h, ?_⟩
  cases hs : synthesize Machine.builtIn {} node cluster (Compiler.smallBundle "key") with
  | error reason =>
    have hok : (synthesize Machine.builtIn {} node cluster
        (Compiler.smallBundle "key")).toOption.isSome = true := by decide +kernel
    rw [hs] at hok
    cases hok
  | ok documents =>
    refine ⟨documents, rfl, ?_⟩
    refine (emitted_labels_valid cluster h Machine.builtIn {} (Compiler.smallBundle "key") node
      (List.mem_singleton.mpr rfl) documents hs).2.1 ?_
    intro entry hm htemplate text htext
    obtain rfl | hm := List.mem_cons.mp hm
    · exact absurd htemplate (by decide +kernel)
    · obtain rfl := List.mem_singleton.mp hm
      have hrender : render (fieldsOf node cluster) "\x7b\x7b .hostname \x7d\x7d" = .ok "cp" := by
        decide +kernel
      obtain rfl : "cp" = text := Except.ok.inj (hrender.symm.trans htext)
      decide +kernel

/-- An address with colons is no label value, but a valid cluster emits it as one. -/
theorem address_emitted_as_label :
    let node := labelledNode "fd00::1" [("ip", "\x7b\x7b .ipAddress \x7d\x7d")]
    let cluster := Compiler.smallCluster [node]
    cluster.validate.hasErrors = false ∧ node ∈ cluster.mergedNodes ∧
    ∃ documents : Machine.NodeDocuments,
      synthesize Machine.builtIn {} node cluster (Compiler.smallBundle "key") = .ok documents ∧
      documents.label? "ip" = some "fd00::1" ∧
      Labels.checkValue "fd00::1" ≠ .ok () := by
  intro node cluster
  refine ⟨by decide +kernel, List.mem_singleton.mpr rfl, ?_⟩
  have hemitted : (synthesize Machine.builtIn {} node cluster
      (Compiler.smallBundle "key")).toOption.bind (·.label? "ip") = some "fd00::1" := by
    decide +kernel
  cases hs : synthesize Machine.builtIn {} node cluster (Compiler.smallBundle "key") with
  | error reason =>
    rw [hs] at hemitted
    cases hemitted
  | ok documents =>
    rw [hs] at hemitted
    exact ⟨documents, rfl, hemitted, by decide +kernel⟩

/-! ## Keys -/

open Labels (IsQualified checkKey)
open Machine (renderedMaps)
open Text (trim trimChars)

/-- The keys of a valid cluster are accepted. -/
theorem checked_key {cluster : Cluster} (h : cluster.validate.hasErrors = false) {node : Node}
    (hn : node ∈ cluster.mergedNodes) {map : String × Members String}
    (hm : map ∈ renderedMaps node.settings) {key : String} (hk : key ∈ map.2.keys) :
    checkKey key = .ok () := by
  obtain ⟨hlabels, hannotations, htaints⟩ :=
    Validation.checkMetadata_eq_nil.mp
      (Validation.checkMetadata_of_valid (Validation.valid_merged h hn .root))
  obtain ⟨entry, he, rfl⟩ := List.mem_map.mp hk
  simp only [renderedMaps, List.mem_cons, List.not_mem_nil, or_false] at hm
  obtain rfl | rfl | rfl := hm
  · exact (hlabels entry he).1
  · exact (hannotations entry he).1
  · exact (htaints entry he).1

/-- A key is accepted exactly if what is left of it without the blanks around it is a qualified name.
So a key without blanks around it is accepted exactly if it is a qualified name, and with blanks it is
none. Every key of a node of a valid cluster is accepted, and it is emitted with its blanks. -/
theorem label_keys_trimmed (key : String) :
    (checkKey key = .ok () ↔ IsQualified (trimChars key.toList)) ∧
    (trim key = key → (checkKey key = .ok () ↔ IsQualified key.toList)) ∧
    (IsQualified key.toList → trim key = key) ∧
    ∀ (cluster : Cluster) (generate : Machine.Generator) (tree : FileTree) (bundle : Bundle)
      (node : Node) (documents : Machine.NodeDocuments), cluster.validate.hasErrors = false →
      node ∈ cluster.mergedNodes → synthesize generate tree node cluster bundle = .ok documents →
      ∀ map ∈ renderedMaps node.settings, key ∈ map.2.keys → checkKey key = .ok () ∧
        ∃ text, documents.machine.getPath? ["machine", map.1, key] = some (.str text) := by
  refine ⟨Labels.checkKey_eq_ok key, fun hsame => ?_, fun h => ?_, ?_⟩
  · have htrimmed : trimChars key.toList = key.toList := by
      rw [← String.toList_ofList (l := trimChars key.toList), ← trim, hsame]
    rw [Labels.checkKey_eq_ok, htrimmed]
  · rw [trim, h.trimmed, String.ofList_toList]
  · intro cluster generate tree bundle node documents h hn hs map hm hk
    obtain ⟨before, after, hrendered, hsame⟩ := Machine.synthesize_rendered hs hm
    obtain ⟨value, text, -, -, hfound⟩ := Machine.setRendered_found hrendered hk
    exact ⟨checked_key h hn hm hk, text, (hsame key).trans hfound⟩

theorem prefixed_key_emitted :
    let key := "topology.kubernetes.io/zone"
    let node := labelledNode "10.0.0.1" [(key, "b")]
    let cluster := Compiler.smallCluster [node]
    trim key = key ∧ IsQualified key.toList ∧ cluster.validate.hasErrors = false ∧
    ∃ documents, synthesize Machine.builtIn {} node cluster (Compiler.smallBundle "key") =
        .ok documents ∧
      ∃ text, documents.machine.getPath? ["machine", "nodeLabels", key] = some (.str text) := by
  intro key node cluster
  obtain ⟨documents, hs⟩ : ∃ documents, synthesize Machine.builtIn {} node cluster
      (Compiler.smallBundle "key") = .ok documents :=
    Machine.synthesized_of_isSome (by decide +kernel)
  have h : cluster.validate.hasErrors = false := by decide +kernel
  obtain ⟨-, hqualified, -, hemitted⟩ := label_keys_trimmed key
  obtain ⟨hcheck, hfound⟩ := hemitted cluster Machine.builtIn {} (Compiler.smallBundle "key") node
    documents h (List.mem_singleton.mpr rfl) hs ("nodeLabels", node.settings.labels)
    List.mem_cons_self List.mem_cons_self
  have hsame : trim key = key := by decide
  exact ⟨hsame, (hqualified hsame).mp hcheck, h, documents, hs, hfound⟩

/-- What is emitted under a key, from the outcome as it is computed. -/
theorem emitted_label {outcome : Except Machine.SynthesisError Machine.NodeDocuments}
    {key text : String} (h : outcome.toOption.bind (·.label? key) = some text) :
    ∃ documents, outcome = .ok documents ∧ documents.label? key = some text := by
  cases outcome with
  | error reason => cases h
  | ok documents => exact ⟨documents, rfl, h⟩

/-- A key with blanks around it is accepted and emitted with them. -/
theorem blank_key_emitted :
    let node := labelledNode "10.0.0.1" [(" zone ", "b")]
    let cluster := Compiler.smallCluster [node]
    checkKey " zone " = .ok () ∧ ¬IsQualified " zone ".toList ∧
    cluster.validate.hasErrors = false ∧ node ∈ cluster.mergedNodes ∧
    ∃ documents, synthesize Machine.builtIn {} node cluster (Compiler.smallBundle "key") =
        .ok documents ∧ documents.label? " zone " = some "b" := by
  intro node cluster
  exact ⟨by decide, fun h => absurd (h.no_blank ' ' (by decide)) (by decide), by decide +kernel,
    List.mem_singleton.mpr rfl, emitted_label (by decide +kernel)⟩

end ClusterConfig
