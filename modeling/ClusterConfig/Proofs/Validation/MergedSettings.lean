import Mathlib
import ClusterConfig.Proofs.Documents.Members
import ClusterConfig.Proofs.Nodes.Outcomes
import ClusterConfig.Validation.Cluster

/-!
# Merged settings

Every check looks at single parts of the settings. A part of merged settings is that of a node, that
of its role, or made of entries of both; so a check finds nothing in merged settings that it does
not find in one of the two layers, and a valid cluster stays valid when its nodes get their roles'
settings.
-/

set_option autoImplicit false

namespace ClusterConfig.Validation

/-! ## Findings -/

/-- What an issue says, without the place it says it of. -/
def Issue.finding (issue : Issue) : Kind × String := (issue.kind, issue.message)

def findings (issues : List Issue) : List (Kind × String) := issues.map Issue.finding

/-- What is found does not depend on the place. -/
def Placeless {α : Type} (check : Place → α → List Issue) : Prop :=
  ∀ p q x, findings (check p x) = findings (check q x)

variable {α : Type} {p q : Place} {issues more : List Issue} {finding : Kind × String}

@[simp]
theorem findings_nil : findings [] = [] := rfl

@[simp]
theorem findings_append : findings (issues ++ more) = findings issues ++ findings more :=
  List.map_append

theorem findings_single (kind : Kind) (p q : Place) (message : String) :
    findings [⟨kind, p, message⟩] = findings [⟨kind, q, message⟩] := rfl

/-- What is found in the items of a list does not depend on where they stand. -/
theorem findings_onItems {check : Place → α → List Issue} (h : Placeless check) (p : Place)
    (items : List α) :
    findings (onItems p items check) =
      items.flatMap fun item => findings (check Place.root item) := by
  unfold onItems findings
  rw [List.map_flatMap]
  generalize 0 = start
  induction items generalizing start with
  | nil => rfl
  | cons item rest ih =>
    rw [List.zipIdx_cons, List.flatMap_cons, List.flatMap_cons, ih]
    exact congrArg (· ++ _) (h _ _ item)

theorem Placeless.onItems {β : Type} {check : Place → α → List Issue} (h : Placeless check)
    (step : Place → Place) (items : β → List α) :
    Placeless fun p x => onItems (step p) (items x) check := by
  intro p q x
  rw [findings_onItems h, findings_onItems h]

theorem Placeless.append {check other : Place → α → List Issue} (h : Placeless check)
    (h' : Placeless other) : Placeless fun p x => check p x ++ other p x := by
  intro p q x
  rw [findings_append, findings_append, h p q x, h' p q x]

theorem mem_findings_onItems {check : Place → α → List Issue} (h : Placeless check)
    {items : List α} :
    finding ∈ findings (onItems p items check) ↔
      ∃ item ∈ items, finding ∈ findings (check Place.root item) := by
  rw [findings_onItems h, List.mem_flatMap]

theorem placeless_issueOf {ε β : Type} (kind : Kind) (step : Place → Place) (what : String)
    (text : α → String) (message : ε → String) (checked : α → Except ε β) :
    Placeless fun p x => issueOf kind (step p) what (text x) message (checked x) := by
  intro p q x
  show findings (issueOf kind (step p) what (text x) message (checked x)) =
    findings (issueOf kind (step q) what (text x) message (checked x))
  cases h : checked x with
  | ok value => rfl
  | error e => rfl

theorem placeless_required (step : Place → Place) (what : String) (text : α → String) :
    Placeless fun p x => requiredText (step p) what (text x) := by
  intro p q x
  simp only [requiredText]
  split <;> rfl

theorem findings_duplicates (kind : Kind) (what : String) (place other : Nat → Place)
    (names : List String) :
    findings (duplicates kind what place names) = findings (duplicates kind what other names) := by
  simp only [findings, duplicates, List.map_map]
  rfl

theorem placeless_addresses (step : Place → Place) (what : String) (addresses : α → List String) :
    Placeless fun p x => addressIssues (step p) what (addresses x) :=
  (placeless_issueOf _ id what id _ Network.checkAddress).onItems step addresses

/-! ## The checks of settings find the same everywhere -/

theorem placeless_disks : Placeless fun p settings => checkDisks settings p := by
  refine Placeless.append (fun p q settings => ?_) (Placeless.onItems (fun p q disk => ?_) _ _)
  · cases settings.installDisk with
    | none => rfl
    | some disk => dsimp only; split <;> rfl
  · split <;> rfl

theorem placeless_interfaceAddresses (step : Place → Place) (addresses : α → List String) :
    Placeless fun p x => interfaceAddressIssues (step p) (addresses x) :=
  (placeless_issueOf _ id _ id _ Network.checkInterfaceAddress).onItems step addresses

theorem placeless_routes : Placeless routeIssues := by
  refine Placeless.append (fun p q route => ?_) fun p q route => ?_
  · cases route.network with
    | none => rfl
    | some network =>
      exact placeless_issueOf _ (·.field "network") _ id _ Network.checkRoute p q network
  · cases route.gateway with
    | none => rfl
    | some gateway =>
      exact placeless_issueOf _ (·.field "gateway") _ id _ Network.ipAddress p q gateway

theorem placeless_interface : Placeless interfaceIssues :=
  ((placeless_interfaceAddresses (·.field "addresses") Interface.addresses).append
    (placeless_routes.onItems (·.field "routes") Interface.routes)).append
      ((placeless_interfaceAddresses (·.field "addresses") Vlan.addresses).onItems
        (·.field "vlans") Interface.vlans)

/-- States of the search for conflicts that differ in places only. -/
def SameConflicts (s t : Memberships × List Issue) : Prop :=
  s.1 = t.1 ∧ findings s.2 = findings t.2

theorem sameConflicts_joinMember {s t : Memberships × List Issue} (h : SameConflicts s t)
    (p q : Place) (aggregate : Aggregate) (member : String) :
    SameConflicts (joinMember p aggregate s member) (joinMember q aggregate t member) := by
  obtain ⟨hm, hf⟩ := h
  unfold joinMember
  rw [hm]
  split
  · exact ⟨rfl, hf⟩
  · split
    · exact ⟨hm, hf⟩
    · refine ⟨rfl, ?_⟩
      rw [findings_append, findings_append, hf]
      rfl

theorem sameConflicts_joinMembers {s t : Memberships × List Issue} (h : SameConflicts s t)
    (p q : Place) (aggregate : Aggregate × List String) :
    SameConflicts (joinMembers p s aggregate) (joinMembers q t aggregate) :=
  List.foldl_rel h fun member _ _ _ h => sameConflicts_joinMember h _ _ aggregate.1 member

theorem placeless_bothAggregates (p q : Place) (interface : Interface) (index : Nat) :
    findings (bothAggregates p interface index) = findings (bothAggregates q interface index) := by
  unfold bothAggregates
  split <;> rfl

theorem placeless_interfaces : Placeless checkInterfaces := by
  intro p q interfaces
  refine (List.foldl_rel (r := SameConflicts) ⟨rfl, rfl⟩ ?_).2
  rintro ⟨interface, index⟩ - s t ⟨hm, hf⟩
  refine List.foldl_rel ⟨hm, ?_⟩ fun aggregate _ _ _ h =>
    sameConflicts_joinMembers h _ _ aggregate
  rw [findings_append, findings_append, findings_append, findings_append, hf,
    placeless_interface _ (q.index index), placeless_bothAggregates _ (q.index index)]

theorem placeless_network : Placeless fun p settings => checkNetwork settings p :=
  Placeless.append (fun _ _ settings => placeless_interfaces _ _ settings.interfaces)
    ((placeless_issueOf _ id _ id _ Network.ipAddress).onItems _ _)

theorem findings_labelIssue (p q : Place) (checked : Except Labels.LabelError Unit) :
    findings (labelIssue p checked) = findings (labelIssue q checked) := by
  cases checked with
  | ok value => rfl
  | error e => rfl

theorem findings_value (p q : Place) (value : String) (literal : Except Labels.LabelError Unit) :
    findings (valueIssues p value literal) = findings (valueIssues q value literal) := by
  unfold valueIssues
  split
  · cases Template.check value with
    | ok used => rfl
    | error e => rfl
  · exact findings_labelIssue p q literal

theorem Placeless.flatMap {β : Type} {check : Place → α → List Issue} (h : Placeless check)
    (entries : β → List α) : Placeless fun p x => (entries x).flatMap (check p) := by
  intro p q x
  simp only [findings, List.map_flatMap]
  exact congrArg (List.flatMap · _) (funext fun entry => h p q entry)

theorem placeless_metadata : Placeless fun p settings => checkMetadata settings p := by
  refine Placeless.append (Placeless.append ?_ ?_) ?_
  · refine Placeless.flatMap (fun p q entry => ?_) Settings.labels
    rw [findings_append, findings_append]
    exact congrArg₂ _ (findings_labelIssue _ _ _) (findings_value _ _ _ _)
  · refine Placeless.flatMap (fun p q entry => ?_) Settings.annotations
    rw [findings_append, findings_append]
    exact congrArg₂ _ (findings_labelIssue _ _ _) (findings_value _ _ _ _)
  · refine Placeless.flatMap (fun p q entry => ?_) Settings.taints
    rw [findings_append, findings_append]
    exact congrArg₂ _ (findings_labelIssue _ _ _) (findings_labelIssue _ _ _)

theorem placeless_patch : Placeless patchIssues := by
  intro p q reference
  simp only [patchIssues]
  split
  · split
    · exact findings_single _ p q _
    · simp only [findings, List.map_map]
      exact List.map_congr_left fun _ _ => rfl
    · rfl
  · rfl

theorem placeless_mergePatch : Placeless fun p (patch : Json) =>
    if patch.isObject then []
    else [⟨.invalidPatch, p, "an inline merge patch must be a mapping"⟩] := by
  intro p q patch
  dsimp only
  split <;> rfl

theorem placeless_operation : Placeless fun p operation =>
    match Patch.checkOperation operation with
    | .ok _ => []
    | .error error => [⟨.invalidPatch, p, error.message⟩] := by
  intro p q operation
  dsimp only
  split <;> rfl

theorem findings_deprecated (p q : Place) (name : String) (used : Bool) :
    findings (deprecatedField p name used) = findings (deprecatedField q name used) := by
  cases used <;> rfl

theorem placeless_patches : Placeless fun p settings => checkPatches settings p := by
  refine Placeless.append (Placeless.append (Placeless.append (Placeless.append ?_ ?_) ?_) ?_) ?_
  · exact fun p q settings => findings_deprecated p q _ _
  · exact placeless_mergePatch.onItems (·.field "inlinePatch") Settings.mergePatches
  · exact fun p q settings => findings_deprecated p q _ _
  · exact placeless_operation.onItems (·.field "configPatches") Settings.operations
  · exact placeless_patch.onItems (·.field "patches") Settings.patches

theorem placeless_settings : Placeless fun p settings => checkSettings settings p := by
  refine ((((((((placeless_disks.append placeless_network).append placeless_metadata).append
    placeless_patches).append ?_).append ?_).append ?_).append ?_).append ?_)
  · exact placeless_addresses (·.field "certSANs") _ Settings.certSans
  · refine Placeless.append (Placeless.onItems ?_ (·.field "kernelModules") Settings.modules) ?_
    · exact placeless_required (·.field "name") _ KernelModule.name
    · exact fun p q settings => findings_duplicates _ _ _ _ _
  · refine Placeless.append (Placeless.onItems ?_ (·.field "volumes") Settings.volumes) ?_
    · exact placeless_required (·.field "name") _ Volume.name
    · exact fun p q settings => findings_duplicates _ _ _ _ _
  · intro p q settings
    simp only [checkExtensions]
    split
    · rfl
    · exact findings_duplicates _ _ _ _ _
  · exact Placeless.onItems (placeless_required (·.field "path") _ MachineFile.path)
      (·.field "machineFiles") Settings.files

/-! ## Layers -/

/-- What is found in merged settings is found in one of the layers. -/
def Inherited (check : Place → Settings → List Issue) : Prop :=
  ∀ (p : Place) (own defaults : Settings), ∀ finding ∈ findings (check p (own.merge defaults)),
    finding ∈ findings (check p own) ∨ finding ∈ findings (check p defaults)

variable {check other : Place → Settings → List Issue}

theorem Inherited.append (h : Inherited check) (h' : Inherited other) :
    Inherited fun p settings => check p settings ++ other p settings := by
  intro p own defaults finding hf
  simp only [findings_append, List.mem_append] at hf ⊢
  rcases hf with hf | hf
  · exact (h p own defaults finding hf).imp .inl .inl
  · exact (h' p own defaults finding hf).imp .inr .inr

/-- A check of a part that is taken from one of the layers as a whole. -/
theorem inherited_of_part {β : Type} (part : Settings → β)
    (hc : ∀ p (s t : Settings), part s = part t → check p s = check p t)
    (h : ∀ own defaults : Settings,
      part (own.merge defaults) = part own ∨ part (own.merge defaults) = part defaults) :
    Inherited check := by
  intro p own defaults finding hf
  rcases h own defaults with hp | hp
  · exact .inl (hc p _ _ hp ▸ hf)
  · exact .inr (hc p _ _ hp ▸ hf)

/-- A check of a list whose items come from both layers, one by one. -/
theorem inherited_of_items {check : Place → α → List Issue} (hc : Placeless check)
    (part : Settings → List α) (step : Place → Place)
    (h : ∀ own defaults : Settings, part (own.merge defaults) ⊆ part own ++ part defaults) :
    Inherited fun p settings => onItems (step p) (part settings) check := by
  intro p own defaults finding hf
  obtain ⟨item, hm, hf⟩ := (mem_findings_onItems hc).mp hf
  rcases List.mem_append.mp (h own defaults hm) with hm | hm
  · exact .inl ((mem_findings_onItems hc).mpr ⟨item, hm, hf⟩)
  · exact .inr ((mem_findings_onItems hc).mpr ⟨item, hm, hf⟩)

/-- A check of named values that come from both layers. -/
theorem inherited_of_members (part : Settings → Members String)
    (issues : Place → String × String → List Issue)
    (h : ∀ own defaults : Settings, part (own.merge defaults) ⊆ part own ++ part defaults) :
    Inherited fun p settings => (part settings).flatMap (issues p) := by
  intro p own defaults finding hf
  simp only [findings, List.map_flatMap, List.mem_flatMap] at hf ⊢
  obtain ⟨entry, hm, hf⟩ := hf
  exact (List.mem_append.mp (h own defaults hm)).imp (⟨entry, ·, hf⟩) (⟨entry, ·, hf⟩)

theorem orElse_eq (own defaults : Option α) :
    (own <|> defaults) = own ∨ (own <|> defaults) = defaults := by
  cases own with
  | none => exact .inr rfl
  | some value => exact .inl rfl

theorem orList_eq (own defaults : List α) :
    Settings.orList own defaults = own ∨ Settings.orList own defaults = defaults := by
  unfold Settings.orList
  split
  · exact .inr rfl
  · exact .inl rfl

theorem combine_subset (mode : ListMode) (own defaults : List String) :
    Settings.combine mode own defaults ⊆ own ++ defaults := by
  cases mode with
  | prepend => exact fun _ h => List.mem_append.mpr (List.mem_append.mp h).symm
  | replace => exact List.subset_append_left own defaults

theorem putAll_subset (members more : Members String) :
    members.putAll more ⊆ more ++ members := by
  induction more generalizing members with
  | nil => exact fun _ h => h
  | cons entry rest ih =>
    intro found h
    rcases List.mem_append.mp (ih _ h) with h | h
    · exact List.mem_cons_of_mem _ (List.mem_append_left _ h)
    · rcases Members.mem_or_eq_of_mem_put h with h | rfl
      · exact List.mem_cons_of_mem _ (List.mem_append_right _ h)
      · exact List.mem_cons_self

theorem unite_subset (own defaults : Members String) :
    Settings.unite own defaults ⊆ own ++ defaults := by
  unfold Settings.unite
  split
  · exact List.subset_append_left own defaults
  · exact putAll_subset defaults own

theorem append_subset (own defaults : List α) : defaults ++ own ⊆ own ++ defaults :=
  fun _ h => List.mem_append.mpr (List.mem_append.mp h).symm

/-! ## Each check is inherited -/

theorem inherited_disks : Inherited fun p settings => checkDisks settings p :=
  Inherited.append
    (inherited_of_part Settings.installDisk (fun p s t h => by simp only [h])
      fun own defaults => orElse_eq own.installDisk defaults.installDisk)
    (inherited_of_part Settings.disks (fun p s t h => by simp only [h])
      fun own defaults => orList_eq own.disks defaults.disks)

theorem inherited_network : Inherited fun p settings => checkNetwork settings p :=
  Inherited.append
    (inherited_of_part Settings.interfaces (fun p s t h => by simp only [h])
      fun own defaults => orList_eq own.interfaces defaults.interfaces)
    (inherited_of_part Settings.nameservers (fun p s t h => by simp only [h])
      fun own defaults => orList_eq own.nameservers defaults.nameservers)

theorem inherited_metadata : Inherited fun p settings => checkMetadata settings p :=
  Inherited.append
    (Inherited.append
      (inherited_of_members Settings.labels _
        fun own defaults => unite_subset own.labels defaults.labels)
      (inherited_of_members Settings.annotations _
        fun own defaults => unite_subset own.annotations defaults.annotations))
    (inherited_of_members Settings.taints _
      fun own defaults => unite_subset own.taints defaults.taints)

theorem inherited_deprecated (name : String) (part : Settings → List α)
    (h : ∀ own defaults : Settings, part (own.merge defaults) ⊆ part own ++ part defaults) :
    Inherited fun p settings => deprecatedField p name (!(part settings).isEmpty) := by
  intro p own defaults finding hf
  dsimp only at hf ⊢
  have hsubset := h own defaults
  cases hm : part (own.merge defaults) with
  | nil =>
    rw [hm] at hf
    cases hf
  | cons item rest =>
    rw [hm] at hsubset hf
    rcases List.mem_append.mp (hsubset List.mem_cons_self) with ho | hd
    · rw [List.isEmpty_eq_false_iff_exists_mem.mpr ⟨item, ho⟩]
      exact .inl hf
    · rw [List.isEmpty_eq_false_iff_exists_mem.mpr ⟨item, hd⟩]
      exact .inr hf

theorem inherited_patches : Inherited fun p settings => checkPatches settings p := by
  have hmerges (own defaults : Settings) :
      (own.merge defaults).mergePatches ⊆ own.mergePatches ++ defaults.mergePatches :=
    append_subset _ _
  have hoperations (own defaults : Settings) :
      (own.merge defaults).operations ⊆ own.operations ++ defaults.operations :=
    append_subset _ _
  refine Inherited.append (Inherited.append (Inherited.append (Inherited.append ?_ ?_) ?_) ?_) ?_
  · exact inherited_deprecated _ _ hmerges
  · exact inherited_of_items placeless_mergePatch _ (·.field "inlinePatch") hmerges
  · exact inherited_deprecated _ _ hoperations
  · exact inherited_of_items placeless_operation _ (·.field "configPatches") hoperations
  · exact inherited_of_items placeless_patch _ (·.field "patches")
      fun own defaults => combine_subset _ own.patches defaults.patches

theorem inherited_certSans : Inherited fun p settings =>
    addressIssues (p.field "certSANs") "certificate SAN" settings.certSans :=
  inherited_of_items (placeless_issueOf _ id _ id _ Network.checkAddress) _ (·.field "certSANs")
    fun own defaults => combine_subset _ own.certSans defaults.certSans

theorem inherited_modules : Inherited fun p settings => checkModules settings p :=
  inherited_of_part Settings.modules (fun p s t h => by simp only [checkModules, h])
    fun own defaults => orList_eq own.modules defaults.modules

theorem inherited_volumes : Inherited fun p settings => checkVolumes settings p :=
  inherited_of_part Settings.volumes (fun p s t h => by simp only [checkVolumes, h])
    fun own defaults => orList_eq own.volumes defaults.volumes

theorem inherited_extensions : Inherited fun p settings => checkExtensions settings p :=
  inherited_of_part Settings.schematic (fun p s t h => by simp only [checkExtensions, h])
    fun own defaults => orElse_eq own.schematic defaults.schematic

theorem inherited_files : Inherited fun p settings => checkFiles settings p :=
  inherited_of_part Settings.files (fun p s t h => by simp only [checkFiles, h])
    fun own defaults => orList_eq own.files defaults.files

theorem inherited_settings : Inherited fun p settings => checkSettings settings p :=
  ((((((((inherited_disks.append inherited_network).append inherited_metadata).append
    inherited_patches).append inherited_certSans).append inherited_modules).append
    inherited_volumes).append inherited_extensions).append inherited_files)

/-! ## Valid clusters -/

theorem not_hasErrors_iff :
    (Report.ofIssues issues).hasErrors = false ↔
      ∀ finding ∈ findings issues, finding.1.severity ≠ .error := by
  simp [Report.hasErrors, Report.ofIssues, findings, Issue.finding]

theorem eq_nil_of_valid (hk : ∀ issue ∈ issues, issue.kind.severity = .error)
    (h : (Report.ofIssues issues).hasErrors = false) : issues = [] :=
  List.eq_nil_iff_forall_not_mem.mpr fun issue hm =>
    not_hasErrors_iff.mp h issue.finding (List.mem_map_of_mem hm) (hk issue hm)

theorem hasErrors_of_subset {issues more : List Issue} (hs : issues ⊆ more)
    (h : (Report.ofIssues more).hasErrors = false) :
    (Report.ofIssues issues).hasErrors = false := by
  rw [not_hasErrors_iff] at h ⊢
  exact fun finding hf => h finding (List.map_subset _ hs hf)

theorem subset_onItems {check : Place → α → List Issue} {items : List α} {i : Nat} {item : α}
    (h : items[i]? = some item) : check (p.index i) item ⊆ onItems p items check :=
  fun _ hm => List.mem_flatMap.mpr ⟨(item, i), List.mem_zipIdx_iff_getElem?.mpr h, hm⟩

theorem node_issues {cluster : Cluster} {i : Nat} {node : Node}
    (h : cluster.nodes[i]? = some node) :
    checkNode cluster ((Place.root.field "nodes").index i) node ⊆ cluster.issues :=
  fun _ hm => List.mem_append_right _ (List.mem_append_left _ (List.mem_append_right _
    (subset_onItems h hm)))

theorem settings_issues {cluster : Cluster} {i : Nat} {node : Node}
    (h : cluster.nodes[i]? = some node) :
    checkSettings node.settings ((Place.root.field "nodes").index i) ⊆ cluster.issues :=
  fun _ hm => node_issues h (List.mem_append_right _ hm)

/-- The place of the settings of a role. -/
def rolePlace : Role → Place
  | .controlPlane => Place.root.field "controlPlane"
  | .worker => Place.root.field "worker"

theorem role_issues (cluster : Cluster) (role : Role) :
    checkSettings (cluster.defaults role) (rolePlace role) ⊆ cluster.issues := by
  intro issue hm
  cases role with
  | controlPlane =>
    exact List.mem_append_left _ (List.mem_append_left _ (List.mem_append_right _ hm))
  | worker => exact List.mem_append_left _ (List.mem_append_right _ hm)

theorem valid_defaults {cluster : Cluster} (h : cluster.validate.hasErrors = false) (role : Role)
    (p : Place) :
    (Report.ofIssues (checkSettings (cluster.defaults role) p)).hasErrors = false := by
  have hv := hasErrors_of_subset (role_issues cluster role) h
  rw [not_hasErrors_iff] at hv ⊢
  rwa [placeless_settings p (rolePlace role)]

theorem valid_node {cluster : Cluster} (h : cluster.validate.hasErrors = false) {node : Node}
    (hn : node ∈ cluster.nodes) (p : Place) :
    (Report.ofIssues (checkSettings node.settings p)).hasErrors = false := by
  obtain ⟨i, hi⟩ := List.mem_iff_getElem?.mp hn
  have hv := hasErrors_of_subset (settings_issues hi) h
  rw [not_hasErrors_iff] at hv ⊢
  rwa [placeless_settings p ((Place.root.field "nodes").index i)]

/-- Whatever is found in merged settings is found in one of their layers, wherever these are
checked; so the nodes of a valid cluster are valid with the settings of their roles. -/
theorem merged_settings_stay_valid :
    (∀ (own defaults : Settings) (p q r : Place),
      ∀ finding ∈ findings (checkSettings (own.merge defaults) p),
        finding ∈ findings (checkSettings own q) ∨
          finding ∈ findings (checkSettings defaults r)) ∧
    ∀ cluster : Cluster, cluster.validate.hasErrors = false →
      ∀ node ∈ cluster.mergedNodes, ∀ p : Place,
        (Report.ofIssues (checkSettings node.settings p)).hasErrors = false := by
  have hlayers (own defaults : Settings) (p q r : Place) :
      ∀ finding ∈ findings (checkSettings (own.merge defaults) p),
        finding ∈ findings (checkSettings own q) ∨
          finding ∈ findings (checkSettings defaults r) := by
    intro finding hf
    rw [placeless_settings q p, placeless_settings r p]
    exact inherited_settings p own defaults finding hf
  refine ⟨hlayers, fun cluster h node hn p => not_hasErrors_iff.mpr fun finding hf => ?_⟩
  obtain ⟨original, ho, rfl⟩ := List.mem_map.mp hn
  rcases hlayers _ _ p p p finding hf with hf | hf
  · exact not_hasErrors_iff.mp (valid_node h ho p) finding hf
  · exact not_hasErrors_iff.mp (valid_defaults h original.role p) finding hf

/-- A cluster of one node that shares labels, taints and names with its role. -/
def layeredCluster : Cluster :=
  let own : Settings :=
    { labels := [("zone", "b"), ("rack", "r2")], certSans := ["n.lab"],
      patches := ["- op: remove\n  path: /machine/install"] }
  let defaults : Settings :=
    { installDisk := some "/dev/sda", labels := [("zone", "a")], certSans := ["10.0.0.9"],
      taints := [("dedicated", "infra:NoSchedule")], volumes := [⟨"data", none, none, none⟩] }
  { Compiler.smallCluster [⟨"n", "10.0.0.1", true, own⟩] with controlPlane := defaults }

theorem layered_cluster_valid :
    layeredCluster.validate.hasErrors = false ∧
    ∃ node ∈ layeredCluster.mergedNodes,
      node.settings.labels = [("zone", "b"), ("rack", "r2")] ∧
      (Report.ofIssues (checkSettings node.settings Place.root)).hasErrors = false := by
  have h : layeredCluster.validate.hasErrors = false := by decide +kernel
  refine ⟨h, _, List.mem_cons_self, rfl, ?_⟩
  exact merged_settings_stay_valid.2 layeredCluster h _ List.mem_cons_self Place.root

end ClusterConfig.Validation
