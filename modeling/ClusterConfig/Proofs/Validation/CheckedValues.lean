import Mathlib
import ClusterConfig.Proofs.Labels.QualifiedNames
import ClusterConfig.Proofs.Network.DnsNames
import ClusterConfig.Proofs.Text.Parts
import ClusterConfig.Proofs.Validation.MergedSettings
import ClusterConfig.Proofs.Validation.RepeatedNames

/-!
# Checked labels, annotations, taints, versions and host names

The nodes of a valid cluster are valid with the settings of their roles under their own, so each of
their labels and annotations passed its check: a template that it renders with empty fields, and a
literal label the rule of label values.

A taint that passes its check holds no character that opens an expression, so it is no template. The
version of the operating system can be read.

A host name that is valid holds letters, digits, hyphens and dots only, so it is the same without
blanks around it. As none occurs again, the host names of a valid cluster are different.
-/

set_option autoImplicit false

namespace ClusterConfig.Validation

open Template (isTemplate)

variable {cluster : Cluster} {node : Node} {settings : Settings} {p place : Place} {value : String}

/-- Whatever is found in the settings of a node and its role is found in the cluster. -/
theorem findings_merged (hn : node ∈ cluster.mergedNodes) (p : Place) :
    findings (checkSettings node.settings p) ⊆ findings cluster.issues := by
  intro finding hf
  obtain ⟨original, ho, rfl⟩ := List.mem_map.mp hn
  rcases inherited_settings p _ _ finding hf with hf | hf
  · obtain ⟨i, hi⟩ := List.mem_iff_getElem?.mp ho
    rw [placeless_settings p ((Place.root.field "nodes").index i)] at hf
    exact List.map_subset _ (settings_issues hi) hf
  · rw [placeless_settings p (rolePlace original.role)] at hf
    exact List.map_subset _ (role_issues cluster original.role) hf

/-- The nodes of a valid cluster are valid with the settings of their roles. -/
theorem valid_merged (h : cluster.validate.hasErrors = false) (hn : node ∈ cluster.mergedNodes)
    (p : Place) : (Report.ofIssues (checkSettings node.settings p)).hasErrors = false :=
  not_hasErrors_iff.mpr fun finding hf => not_hasErrors_iff.mp h finding (findings_merged hn p hf)

/-- A value of a map that may hold templates passed its check. -/
def PassesCheck (value : String) (literal : Except Labels.LabelError Unit) : Prop :=
  (isTemplate value = true ∧ Template.check value = .ok ()) ∨
    (isTemplate value = false ∧ literal = .ok ())

theorem labelIssue_eq_nil {checked : Except Labels.LabelError Unit} :
    labelIssue place checked = [] ↔ checked = .ok () := by
  cases checked <;> simp [labelIssue]

theorem valueIssues_eq_nil {literal : Except Labels.LabelError Unit} :
    valueIssues place value literal = [] ↔ PassesCheck value literal := by
  rw [valueIssues, PassesCheck]
  cases ht : isTemplate value with
  | true => cases Template.check value <;> simp
  | false => simp [labelIssue_eq_nil]

theorem checkMetadata_eq_nil : checkMetadata settings place = [] ↔
    (∀ entry ∈ settings.labels, Labels.checkKey entry.1 = .ok () ∧
      PassesCheck entry.2 (Labels.checkValue entry.2)) ∧
    (∀ entry ∈ settings.annotations, Labels.checkKey entry.1 = .ok () ∧
      PassesCheck entry.2 (.ok ())) ∧
    ∀ entry ∈ settings.taints, Labels.checkKey entry.1 = .ok () ∧
      Labels.checkTaint entry.2 = .ok () := by
  simp only [checkMetadata, List.append_eq_nil_iff, List.flatMap_eq_nil_iff, labelIssue_eq_nil,
    valueIssues_eq_nil, and_assoc]

theorem metadata_subset (settings : Settings) (p : Place) :
    checkMetadata settings p ⊆ checkSettings settings p := fun issue hm => by
  simp [checkSettings, hm]

/-- Every issue with labels, annotations and taints is an error, so valid settings have none. -/
theorem checkMetadata_of_valid (h : (Report.ofIssues (checkSettings settings p)).hasErrors = false) :
    checkMetadata settings p = [] := by
  refine eq_nil_of_valid (fun issue hm => ?_) (hasErrors_of_subset (metadata_subset settings p) h)
  have hkind := checkMetadata_kinds issue hm
  simp only [List.mem_cons, List.not_mem_nil, or_false] at hkind
  obtain hkind | hkind := hkind <;> rw [hkind] <;> rfl

theorem label_subset {key value : String} (hm : (key, value) ∈ settings.labels) (p : Place) :
    valueIssues ((p.field "nodeLabels").key key) value (Labels.checkValue value) ⊆
      checkSettings settings p := fun _ hi =>
  metadata_subset settings p (List.mem_append_left _ (List.mem_append_left _
    (List.mem_flatMap.mpr ⟨(key, value), hm, List.mem_append_right _ hi⟩)))

theorem annotation_subset {key value : String} (hm : (key, value) ∈ settings.annotations)
    (p : Place) :
    valueIssues ((p.field "nodeAnnotations").key key) value (.ok ()) ⊆ checkSettings settings p :=
  fun _ hi =>
  metadata_subset settings p (List.mem_append_left _ (List.mem_append_right _
    (List.mem_flatMap.mpr ⟨(key, value), hm, List.mem_append_right _ hi⟩)))

theorem valid_label (h : (Report.ofIssues (checkSettings settings p)).hasErrors = false)
    {key value : String} (hm : (key, value) ∈ settings.labels) :
    PassesCheck value (Labels.checkValue value) :=
  ((checkMetadata_eq_nil.mp (checkMetadata_of_valid h)).1 (key, value) hm).2

/-! ## Templates -/

theorem check_of_findings {place : Place} {value : String}
    {literal : Except Labels.LabelError Unit} (ht : isTemplate value = true)
    (h : ∀ finding ∈ findings (valueIssues place value literal), finding.1 ≠ .invalidTemplate) :
    Template.check value = .ok () := by
  rw [valueIssues, if_pos ht] at h
  cases hc : Template.check value with
  | ok done => rfl
  | error e =>
    rw [hc] at h
    exact absurd rfl (h _ List.mem_cons_self)

/-- Where no template has an issue, the templates of all nodes pass their check. -/
theorem checked_template (h : ∀ issue ∈ cluster.validate.errors, issue.kind ≠ .invalidTemplate)
    (hn : node ∈ cluster.mergedNodes) {entry : String × String}
    (hm : entry ∈ node.settings.labels ++ node.settings.annotations)
    (ht : isTemplate entry.2 = true) : Template.check entry.2 = .ok () := by
  have hfree : ∀ finding ∈ findings cluster.issues, finding.1 ≠ .invalidTemplate := by
    intro finding hf hkind
    obtain ⟨issue, hi, rfl⟩ := List.mem_map.mp hf
    have hissue : issue.kind = .invalidTemplate := hkind
    refine h issue ?_ hissue
    simp [Cluster.validate, Report.ofIssues, hi, hissue, Kind.severity]
  have hchecked {place : Place} {literal : Except Labels.LabelError Unit}
      (hs : valueIssues place entry.2 literal ⊆ checkSettings node.settings Place.root) :
      Template.check entry.2 = .ok () :=
    check_of_findings ht fun finding hf =>
      hfree finding (findings_merged hn Place.root (List.map_subset _ hs hf))
  obtain hm | hm := List.mem_append.mp hm
  · exact hchecked (label_subset hm Place.root)
  · exact hchecked (annotation_subset hm Place.root)

end ClusterConfig.Validation

namespace ClusterConfig

/-! ## Parts of texts -/

namespace Text

variable {c : Char} {s : List Char}

theorem mem_of_occursIn {mark : List Char} (h : occursIn (c :: mark) s = true) : c ∈ s := by
  induction s with
  | nil => simp [occursIn, splitAt?] at h
  | cons d rest ih =>
    by_cases hd : c = d
    · exact hd ▸ List.mem_cons_self
    · refine List.mem_cons_of_mem _ (ih ?_)
      simpa [occursIn, splitAt?, afterStart?, hd] using h

end Text

/-! ## Taints -/

namespace Labels

variable {value taint : String}

theorem ne_brace_of_isInner {c : Char} (h : isInner c = true) : c ≠ '\x7b' := by
  rintro rfl
  exact absurd h (by decide)

theorem no_brace_of_checkValue (h : checkValue value = .ok ()) : '\x7b' ∉ value.toList := by
  rw [checkValue] at h
  split at h
  · rename_i hvalue
    rw [Bool.or_eq_true, Bool.and_eq_true] at hvalue
    obtain hempty | ⟨-, hname⟩ := hvalue
    · rw [List.isEmpty_iff.mp hempty]
      exact List.not_mem_nil
    · exact fun hm => ne_brace_of_isInner ((isName_iff.mp hname).inside _ hm) rfl
  · cases h

/-- What stands behind the last colon is an effect, and before it a label value. -/
theorem no_brace_of_checkTaint (h : checkTaint taint = .ok ()) : '\x7b' ∉ taint.toList := by
  rw [checkTaint] at h
  split at h
  · cases h
  · rename_i value effect hsplit
    split at h
    · rename_i heffect
      obtain ⟨⟨after, before⟩, hfirst, hpair⟩ := Option.map_eq_some_iff.mp hsplit
      cases hpair
      have hvalue := no_brace_of_checkValue h
      have hall : ∀ name ∈ effects, '\x7b' ∉ name.toList := by decide
      have hafter := hall _ (List.contains_iff_mem.mp heffect)
      rw [String.toList_ofList, List.mem_reverse] at hvalue hafter
      rw [← List.mem_reverse, (Text.splitFirst?_eq_some_iff.mp hfirst).1]
      simp [hvalue, hafter]
    · cases h

theorem isTemplate_of_checkTaint (h : checkTaint taint = .ok ()) :
    Template.isTemplate taint = false := by
  have hbrace := no_brace_of_checkTaint h
  rw [Template.isTemplate, Bool.or_eq_false_iff]
  exact ⟨Bool.eq_false_iff.mpr fun ho => hbrace (Text.mem_of_occursIn ho),
    Bool.eq_false_iff.mpr fun ho => hbrace (Text.mem_of_occursIn ho)⟩

end Labels

namespace Validation

variable {cluster : Cluster} {settings : Settings} {p : Place}

theorem taint_subset {key value : String} (hm : (key, value) ∈ settings.taints) (p : Place) :
    labelIssue ((p.field "nodeTaints").key key) (Labels.checkTaint value) ⊆
      checkSettings settings p := fun _ hi =>
  metadata_subset settings p (List.mem_append_right _
    (List.mem_flatMap.mpr ⟨(key, value), hm, List.mem_append_right _ hi⟩))

theorem valid_taint (h : (Report.ofIssues (checkSettings settings p)).hasErrors = false)
    {key value : String} (hm : (key, value) ∈ settings.taints) :
    Labels.checkTaint value = .ok () :=
  ((checkMetadata_eq_nil.mp (checkMetadata_of_valid h)).2.2 (key, value) hm).2

end Validation

/-! ## Versions -/

namespace Validation

variable {cluster : Cluster}

/-- The version of the operating system in a valid cluster can be read. -/
theorem valid_version (h : cluster.validate.hasErrors = false) :
    ∃ v, Version.ofText? cluster.talosVersion = some v := by
  have hs : versionIssues (Place.root.field "talosVersion") cluster.talosVersion ⊆
      cluster.issues := fun issue hm => by
    simp [Cluster.issues, checkVersions, hm]
  have hv := not_hasErrors_iff.mp (hasErrors_of_subset hs h)
  rw [← Option.isSome_iff_exists]
  by_contra hnone
  rw [versionIssues, if_neg hnone] at hv
  exact absurd rfl (hv _ List.mem_cons_self)

end Validation

/-! ## Host names -/

/-- A host name as it is asked for: a lower case name in the domain name system. -/
def IsHostname (name : String) : Prop := DnsName.isName DnsName.isLowerAlnum false name.toList = true

namespace IsHostname

variable {name : String}

theorem chars (h : IsHostname name) :
    ∀ c ∈ name.toList, Text.isBlank c = false ∧ c ≠ '/' := by
  intro c hc
  obtain halnum | rfl | rfl := DnsName.chars_of_isName h c hc
  · have hletter := DnsName.isAlphanum_of_isLowerAlnum halnum
    refine ⟨Text.isBlank_of_isAlphanum hletter, ?_⟩
    rintro rfl
    exact absurd hletter (by decide)
  · decide
  · decide

theorem ne_empty (h : IsHostname name) : name ≠ "" := fun hempty =>
  DnsName.ne_nil_of_isName h (by rw [hempty]; rfl)

theorem trim (h : IsHostname name) : Text.trim name = name := by
  rw [Text.trim, Text.trimChars_of_not_blank fun c hc => (h.chars c hc).1, String.ofList_toList]

end IsHostname

namespace Validation

variable {cluster : Cluster} {node : Node}

theorem severity_hostnameIssues (place : Place) (hostname : String) :
    ∀ issue ∈ hostnameIssues place hostname, issue.kind.severity = .error := by
  rw [hostnameIssues]
  split
  · simp [Kind.severity]
  · split <;> simp [Kind.severity]

theorem valid_hostname (h : cluster.validate.hasErrors = false) (hn : node ∈ cluster.nodes) :
    IsHostname node.hostname := by
  obtain ⟨i, hi⟩ := List.mem_iff_getElem?.mp hn
  let place := (Place.root.field "nodes").index i
  have hs : hostnameIssues (place.field "hostname") node.hostname ⊆ cluster.issues :=
    fun issue hm => node_issues hi (List.mem_append_left _ (List.mem_append_left _
      (List.mem_append_left _ hm)))
  have hnone := eq_nil_of_valid (severity_hostnameIssues _ _) (hasErrors_of_subset hs h)
  rw [hostnameIssues] at hnone
  split at hnone
  · cases hnone
  · split at hnone
    · rename_i hproblems
      have hmiddle := (List.append_eq_nil_iff.mp (List.append_eq_nil_iff.mp hproblems).1).2
      split at hmiddle
      · rename_i hname
        exact hname
      · cases hmiddle
    · cases hnone

theorem valid_nodes_ne_nil (h : cluster.validate.hasErrors = false) : cluster.nodes ≠ [] := by
  intro hempty
  have hs : [⟨.required, Place.root.field "nodes", "at least one node is required"⟩] ⊆
      cluster.issues := fun issue hm =>
    List.mem_append_right _ (List.mem_append_left _ (List.mem_append_left _ (by
      rwa [hempty, List.isEmpty_nil, if_pos rfl])))
  have hnone := eq_nil_of_valid (fun issue hm => ?_) (hasErrors_of_subset hs h)
  · cases hnone
  · rw [List.mem_singleton.mp hm]
    rfl

theorem valid_hostnames_nodup (h : cluster.validate.hasErrors = false) :
    (cluster.nodes.map Node.hostname).Nodup := by
  have hs : duplicateHostnames (Place.root.field "nodes") cluster.nodes ⊆ cluster.issues :=
    fun issue hm => List.mem_append_right _ (List.mem_append_right _ hm)
  have hnone := eq_nil_of_valid (fun issue hm => ?_) (hasErrors_of_subset hs h)
  · refine nodup_of_no_repeats (List.map_eq_nil_iff.mp hnone) fun name hm => ?_
    obtain ⟨node, hn, rfl⟩ := List.mem_map.mp hm
    have hname := valid_hostname h hn
    exact ⟨hname.trim, hname.ne_empty⟩
  · obtain ⟨repeated, -, rfl⟩ := List.mem_map.mp hm
    rfl

end Validation

end ClusterConfig
