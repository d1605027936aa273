import Mathlib
import ClusterConfig.Proofs.Nodes.Outcomes
import ClusterConfig.Proofs.Nodes.Rendered
import ClusterConfig.Proofs.Patches.Checked
import ClusterConfig.Proofs.Validation.CheckedValues

/-!
# Templates among taints

Labels, annotations and taints are all rendered for the node, but only the values of labels and
annotations are checked as templates. A taint is checked as it is written, and no template is a
taint, so every templated taint is reported, whatever it is rendered to.
-/

set_option autoImplicit false

namespace ClusterConfig

open Template (isTemplate render)
open Machine (synthesize fieldsOf renderedMaps)

namespace Validation

variable {cluster : Cluster} {settings : Settings} {place : Place} {key value : String}

/-- The issue of a taint that breaks the rule of taints. -/
def taintIssue (place : Place) (key : String) (reason : Labels.LabelError) : Issue :=
  ⟨.invalidLabel, (place.field "nodeTaints").key key, reason.message⟩

theorem taintIssue_mem (hm : (key, value) ∈ settings.taints) {reason : Labels.LabelError}
    (hc : Labels.checkTaint value = .error reason) (place : Place) :
    taintIssue place key reason ∈ checkSettings settings place := by
  refine taint_subset hm place ?_
  rw [hc]
  exact List.mem_cons_self

theorem not_taint_of_isTemplate (ht : isTemplate value = true) :
    ∃ reason, Labels.checkTaint value = .error reason := by
  cases hc : Labels.checkTaint value with
  | error reason => exact ⟨reason, rfl⟩
  | ok done =>
    rw [Labels.isTemplate_of_checkTaint hc] at ht
    cases ht

/-- A templated taint is reported where it stands, among the settings of the node or its role. -/
theorem templated_taint_reported {i : Nat} {node : Node} (hi : cluster.mergedNodes[i]? = some node)
    (hm : (key, value) ∈ node.settings.taints) (ht : isTemplate value = true) :
    ∃ place ∈ [(Place.root.field "nodes").index i, rolePlace node.role], ∃ reason,
      Labels.checkTaint value = .error reason ∧
        taintIssue place key reason ∈ cluster.validate.errors := by
  obtain ⟨reason, hc⟩ := not_taint_of_isTemplate ht
  rw [Cluster.mergedNodes, List.getElem?_map] at hi
  obtain ⟨original, horiginal, rfl⟩ := Option.map_eq_some_iff.mp hi
  obtain hown | hrole := List.mem_append.mp (unite_subset _ _ hm)
  · exact ⟨_, List.mem_cons_self, reason, hc,
      mem_errors.mpr ⟨settings_issues horiginal (taintIssue_mem hown hc _), rfl⟩⟩
  · exact ⟨_, List.mem_cons_of_mem _ List.mem_cons_self, reason, hc,
      mem_errors.mpr ⟨role_issues cluster _ (taintIssue_mem hrole hc _), rfl⟩⟩

end Validation

open Validation (PassesCheck Place checkMetadata rolePlace taintIssue)

/-- Each taint of a node is emitted under its key, rendered. -/
theorem taint_emitted {generate : Machine.Generator} {tree : FileTree} {bundle : Bundle}
    {cluster : Cluster} {node : Node} {documents : Machine.NodeDocuments} {key value : String}
    (h : synthesize generate tree node cluster bundle = .ok documents)
    (hk : node.settings.taints.keys.Nodup) (hm : (key, value) ∈ node.settings.taints) :
    ∃ text, render (fieldsOf node cluster) value = .ok text ∧
      documents.machine.getPath? ["machine", "nodeTaints", key] = some (.str text) := by
  have hmap : ("nodeTaints", node.settings.taints) ∈ renderedMaps node.settings := by
    simp [renderedMaps]
  obtain ⟨before, after, hset, hsame⟩ := Machine.synthesize_rendered h hmap
  obtain ⟨found, text, hfound, hrender, hpath⟩ :=
    Machine.setRendered_found hset (List.mem_map_of_mem hm)
  have hvalue : found = value :=
    Option.some.inj ((Members.get?_of_mem hk hfound).symm.trans (Members.get?_of_mem hk hm))
  exact ⟨text, hvalue ▸ hrender, (hsame key).trans hpath⟩

/-- A template is accepted as a label or annotation if it passes its check, and as a taint never:
every templated taint of a node is reported. When the configuration of a node is made, each of its
taints stands in it as it is rendered, and where that fails some entry is not rendered. -/
theorem templated_taints_refused (cluster : Cluster) :
    (∀ (settings : Settings) (place : Place), checkMetadata settings place = [] ↔
      (∀ entry ∈ settings.labels, Labels.checkKey entry.1 = .ok () ∧
        PassesCheck entry.2 (Labels.checkValue entry.2)) ∧
      (∀ entry ∈ settings.annotations, Labels.checkKey entry.1 = .ok () ∧
        PassesCheck entry.2 (.ok ())) ∧
      ∀ entry ∈ settings.taints, Labels.checkKey entry.1 = .ok () ∧
        isTemplate entry.2 = false ∧ Labels.checkTaint entry.2 = .ok ()) ∧
    (∀ i node, cluster.mergedNodes[i]? = some node → ∀ key value,
      (key, value) ∈ node.settings.taints → isTemplate value = true →
        ∃ place ∈ [(Place.root.field "nodes").index i, rolePlace node.role], ∃ reason,
          Labels.checkTaint value = .error reason ∧
            taintIssue place key reason ∈ cluster.validate.errors) ∧
    (∀ generate tree bundle node documents,
      synthesize generate tree node cluster bundle = .ok documents →
      node.settings.taints.keys.Nodup → ∀ key value, (key, value) ∈ node.settings.taints →
        ∃ text, render (fieldsOf node cluster) value = .ok text ∧
          documents.machine.getPath? ["machine", "nodeTaints", key] = some (.str text)) ∧
    ∀ tree bundle node field reason,
      synthesize Machine.builtIn tree node cluster bundle = .error (.renderTemplate field reason) →
        ∃ map ∈ renderedMaps node.settings, ∃ entry ∈ map.2,
          render (fieldsOf node cluster) entry.2 = .error reason := by
  refine ⟨fun settings place => ?_,
    fun i node hi key value => Validation.templated_taint_reported hi,
    fun generate tree bundle node documents h hk key value => taint_emitted h hk, ?_⟩
  · have hliteral (taint : String) : Labels.checkTaint taint = .ok () ↔
        isTemplate taint = false ∧ Labels.checkTaint taint = .ok () :=
      ⟨fun h => ⟨Labels.isTemplate_of_checkTaint h, h⟩, And.right⟩
    rw [Validation.checkMetadata_eq_nil]
    simp only [← hliteral]
  · intro tree bundle node field reason h
    obtain ⟨input, hinput⟩ | ⟨name, entries, hmap, entry, he, hrender, -⟩ :=
      Machine.synthesize_renderTemplate h
    · cases hinput
    · exact ⟨(name, entries), hmap, entry, he, hrender⟩

/-- A control plane with a taint. -/
def taintedNode (taint : String) : Node :=
  ⟨"cp", "10.0.0.11", true, { installDisk := some "/dev/sda", taints := [("dedicated", taint)] }⟩

/-- A cluster that has nothing but such a node. -/
def taintedCluster (taint : String) : Cluster := Compiler.smallCluster [taintedNode taint]

/-- A taint that names the role of its node. -/
def roleTaint : String := "\x7b\x7b .role \x7d\x7d:NoSchedule"

/-- The same node with a label that names an unknown field. -/
def mislabelledNode : Node :=
  { taintedNode roleTaint with
    settings := { (taintedNode roleTaint).settings with
      labels := [("x", "\x7b\x7b bad \x7d\x7d")] } }

theorem role_taint_emitted :
    let node := taintedNode roleTaint
    let cluster := taintedCluster roleTaint
    let bundle := Compiler.smallBundle "key"
    cluster.mergedNodes[0]? = some node ∧ isTemplate roleTaint = true ∧
    (∃ place ∈ [(Place.root.field "nodes").index 0, rolePlace .controlPlane], ∃ reason,
      Labels.checkTaint roleTaint = .error reason ∧
        taintIssue place "dedicated" reason ∈ cluster.validate.errors) ∧
    (∃ documents, synthesize Machine.builtIn {} node cluster bundle = .ok documents ∧
      documents.machine.getPath? ["machine", "nodeTaints", "dedicated"] =
        some (.str "controlplane:NoSchedule")) ∧
    ∃ field reason, synthesize Machine.builtIn {} mislabelledNode cluster bundle =
        .error (.renderTemplate field reason) ∧
      ∃ map ∈ renderedMaps mislabelledNode.settings, ∃ entry ∈ map.2,
        render (fieldsOf mislabelledNode cluster) entry.2 = .error reason := by
  intro node cluster bundle
  have hm : ("dedicated", roleTaint) ∈ node.settings.taints := List.mem_singleton.mpr rfl
  have ht : isTemplate roleTaint = true := by decide +kernel
  have hrender : render (fieldsOf node cluster) roleTaint = .ok "controlplane:NoSchedule" := by
    decide +kernel
  obtain ⟨documents, hs⟩ : ∃ documents,
      synthesize Machine.builtIn {} node cluster bundle = .ok documents :=
    Machine.synthesized_of_isSome (by decide +kernel)
  have hfails : (synthesize Machine.builtIn {} mislabelledNode cluster bundle).map (fun _ => ()) =
      .error (.renderTemplate "nodeLabels[\"x\"]" (.unknownField "\x7b\x7b bad \x7d\x7d")) := by
    decide +kernel
  have herror := Machine.map_eq_error hfails
  obtain ⟨-, hreported, hemitted, hfailed⟩ := templated_taints_refused cluster
  obtain ⟨text, htext, hpath⟩ :=
    hemitted Machine.builtIn {} bundle node documents hs (by decide) _ _ hm
  obtain rfl : "controlplane:NoSchedule" = text := Except.ok.inj (hrender.symm.trans htext)
  exact ⟨rfl, ht, hreported 0 node rfl "dedicated" roleTaint hm ht, ⟨documents, hs, hpath⟩, _, _,
    herror, hfailed {} bundle mislabelledNode _ _ herror⟩

/-- A taint with its colon in the expression. -/
def colonTaint : String := "\x7b\x7b .role ~ ':NoSchedule' \x7d\x7d"

/-- The only issue is that of the taint, whose message is not computed here. -/
theorem errors_of_taint {taint : String} {reason : Labels.LabelError}
    (hc : Labels.checkTaint taint = .error reason)
    (hone : (taintedCluster taint).validate.errors.length = 1) :
    (taintedCluster taint).validate.errors =
      [taintIssue ((Place.root.field "nodes").index 0) "dedicated" reason] := by
  have hissue : taintIssue ((Place.root.field "nodes").index 0) "dedicated" reason ∈
      (taintedCluster taint).validate.errors :=
    Validation.mem_errors.mpr ⟨Validation.settings_issues rfl
      (Validation.taintIssue_mem (List.mem_singleton.mpr rfl) hc _), rfl⟩
  obtain ⟨issue, herrors⟩ := List.length_eq_one_iff.mp hone
  rw [herrors] at hissue ⊢
  rw [List.mem_singleton.mp hissue]

/-- Both taints pass the check of templates and are rendered to a taint, and each is the one issue
of its cluster. -/
theorem rendered_taints_refused :
    Labels.checkTaint "controlplane:NoSchedule" = .ok () ∧
    (isTemplate roleTaint = true ∧ Template.check roleTaint = .ok () ∧
      render (fieldsOf (taintedNode roleTaint) (taintedCluster roleTaint)) roleTaint =
        .ok "controlplane:NoSchedule" ∧
      (taintedCluster roleTaint).validate.errors =
        [taintIssue ((Place.root.field "nodes").index 0) "dedicated"
          (.invalidValue "\x7b\x7b .role \x7d\x7d")]) ∧
    isTemplate colonTaint = true ∧ Template.check colonTaint = .ok () ∧
      render (fieldsOf (taintedNode colonTaint) (taintedCluster colonTaint)) colonTaint =
        .ok "controlplane:NoSchedule" ∧
      (taintedCluster colonTaint).validate.errors =
        [taintIssue ((Place.root.field "nodes").index 0) "dedicated"
          (.invalidTaint colonTaint)] := by
  refine ⟨by decide +kernel, ⟨by decide +kernel, by decide +kernel, by decide +kernel, ?_⟩,
    by decide +kernel, by decide +kernel, by decide +kernel, ?_⟩
  · exact errors_of_taint (by decide +kernel) (by decide +kernel)
  · exact errors_of_taint (by decide +kernel) (by decide +kernel)

end ClusterConfig
