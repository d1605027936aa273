import Mathlib
import ClusterConfig.Proofs.Validation.ElementPaths
import ClusterConfig.Proofs.Validation.RepeatedNames

/-!
# Reports by element

Each check reports about the place it is given or about parts of it, which are reached by steps
that can be told apart. So the paths of a report stand for places, and what is grouped by its path
is what was found about one place.
-/

set_option autoImplicit false

namespace ClusterConfig.Validation

/-! ## Places below a place -/

/-- A place is reached from another one by steps that can be told apart. -/
def Under (place inner : Place) : Prop :=
  ∃ steps : List Segment, (∀ step ∈ steps, step.IsPlain) ∧
    inner.segments = place.segments ++ steps

/-- All issues are about a place or about parts of it. -/
def Below (place : Place) (issues : List Issue) : Prop := ∀ issue ∈ issues, Under place issue.place

variable {α : Type} {kind : Kind} {issues more : List Issue} {place inner deeper : Place}
  {name message : String} {n : ℕ}

namespace Under

theorem refl : Under place place := ⟨[], by simp, (List.append_nil _).symm⟩

theorem trans (h : Under place inner) (h' : Under inner deeper) : Under place deeper := by
  obtain ⟨steps, hsteps, hinner⟩ := h
  obtain ⟨further, hfurther, hdeeper⟩ := h'
  exact ⟨steps ++ further, List.forall_mem_append.mpr ⟨hsteps, hfurther⟩, by
    rw [hdeeper, hinner, List.append_assoc]⟩

theorem field (h : (Segment.field name).IsPlain) : Under place (place.field name) :=
  ⟨[.field name], List.forall_mem_singleton.mpr h, rfl⟩

theorem index : Under place (place.index n) :=
  ⟨[.index n], List.forall_mem_singleton.mpr trivial, rfl⟩

theorem key : Under place (place.key name) :=
  ⟨[.key name], List.forall_mem_singleton.mpr trivial, rfl⟩

theorem isPlain (h : Under .root place) : place.IsPlain := by
  obtain ⟨steps, hsteps, hplace⟩ := h
  intro step hm
  rw [hplace] at hm
  exact hsteps step hm

end Under

/-! ## Putting checks together -/

namespace Below

theorem nil : Below place [] := fun _ hm => absurd hm List.not_mem_nil

theorem single : Below place [⟨kind, place, message⟩] := List.forall_mem_singleton.mpr .refl

theorem both (h : Below place issues) (h' : Below place more) : Below place (issues ++ more) :=
  List.forall_mem_append.mpr ⟨h, h'⟩

theorem of_under (hu : Under place inner) (h : Below inner issues) : Below place issues :=
  fun issue hm => hu.trans (h issue hm)

theorem field (hname : (Segment.field name).IsPlain) (h : Below (place.field name) issues) :
    Below place issues :=
  h.of_under (.field hname)

theorem key (h : Below (place.key name) issues) : Below place issues := h.of_under .key

theorem flatMap {items : List α} {check : α → List Issue} (h : ∀ item, Below place (check item)) :
    Below place (items.flatMap check) := by
  intro issue hm
  obtain ⟨item, -, hm⟩ := List.mem_flatMap.mp hm
  exact h item issue hm

theorem onItems {items : List α} {check : Place → α → List Issue}
    (h : ∀ place item, Below place (check place item)) : Below place (onItems place items check) :=
  flatMap fun item => (h _ item.1).of_under .index

theorem ite {p : Prop} [Decidable p] (h : Below place issues) (h' : Below place more) :
    Below place (if p then issues else more) := by
  split
  · exact h
  · exact h'

end Below

/-! ## The checks of settings -/

section Settings

variable {ε : Type} {what text value : String} {checked literal : Except Labels.LabelError Unit}

theorem issueOf_below {message : ε → String} {outcome : Except ε α} :
    Below place (issueOf kind place what text message outcome) := by
  cases outcome with
  | ok value => exact .nil
  | error reason => exact .single

theorem requiredText_below : Below place (requiredText place what text) := .ite .single .nil

theorem addressIssues_below {addresses : List String} :
    Below place (addressIssues place what addresses) :=
  .onItems fun _ _ => issueOf_below

theorem duplicates_below {places : ℕ → Place} {names : List String}
    (h : ∀ index, Under place (places index)) :
    Below place (duplicates kind what places names) :=
  List.forall_mem_map.mpr fun _ _ => h _

theorem checkDisks_below (settings : Settings) (place : Place) :
    Below place (checkDisks settings place) := by
  refine .both ?_ (.field (by simp) (.onItems fun _ _ => .ite .nil (.field (by simp) .single)))
  split
  · exact .nil
  · exact .ite .nil (.field (by simp) .single)

theorem interfaceAddressIssues_below {addresses : List String} :
    Below place (interfaceAddressIssues place addresses) :=
  .onItems fun _ _ => issueOf_below

theorem routeIssues_below (place : Place) (route : Route) :
    Below place (routeIssues place route) := by
  refine .both ?_ ?_
  · split
    · exact .nil
    · exact .field (by simp) issueOf_below
  · split
    · exact .nil
    · exact .field (by simp) issueOf_below

theorem interfaceIssues_below (place : Place) (interface : Interface) :
    Below place (interfaceIssues place interface) :=
  ((Below.field (by simp) interfaceAddressIssues_below).both
    (.field (by simp) (.onItems routeIssues_below))).both
    (.field (by simp) (.onItems fun _ _ => .field (by simp) interfaceAddressIssues_below))

theorem joinMember_below {state : Memberships × List Issue} {aggregate : Aggregate}
    {member : String} (hu : Under place inner) (h : Below place state.2) :
    Below place (joinMember inner aggregate state member).2 := by
  rw [joinMember]
  split
  · exact h
  · split
    · exact h
    · exact h.both (.of_under hu .single)

theorem joinMembers_below {state : Memberships × List Issue} {listed : Aggregate × List String}
    (hu : Under place inner) (h : Below place state.2) :
    Below place (joinMembers inner state listed).2 := by
  have hname : (Segment.field listed.1.kind.name).IsPlain := by
    cases listed.1.kind <;> simp [AggregateKind.name]
  have hmembers : Under place ((inner.field listed.1.kind.name).field "interfaces") :=
    (hu.trans (.field hname)).trans (.field (by simp))
  exact List.foldlRecOn (motive := fun state : Memberships × List Issue => Below place state.2) _ _
    h fun _ h _ _ => joinMember_below hmembers h

theorem checkInterfaces_below (place : Place) (interfaces : List Interface) :
    Below place (checkInterfaces place interfaces) := by
  refine List.foldlRecOn (motive := fun state : Memberships × List Issue =>
    Below place state.2) _ _ .nil ?_
  intro state h item _
  have hown : Below (place.index item.2) (interfaceIssues (place.index item.2) item.1 ++
      bothAggregates (place.index item.2) item.1 item.2) :=
    (interfaceIssues_below _ _).both (.ite .single .nil)
  exact List.foldlRecOn (motive := fun state : Memberships × List Issue => Below place state.2) _ _
    (h.both (hown.of_under .index)) fun _ h _ _ => joinMembers_below .index h

theorem checkNetwork_below (settings : Settings) (place : Place) :
    Below place (checkNetwork settings place) :=
  (Below.field (by simp) (checkInterfaces_below _ _)).both
    (.field (by simp) (.onItems fun _ _ => issueOf_below))

theorem labelIssue_below : Below place (labelIssue place checked) := by
  cases checked with
  | ok done => exact .nil
  | error reason => exact .single

theorem valueIssues_below : Below place (valueIssues place value literal) := by
  refine .ite ?_ labelIssue_below
  split
  · exact .nil
  · exact .single

theorem checkMetadata_below (settings : Settings) (place : Place) :
    Below place (checkMetadata settings place) :=
  ((Below.flatMap fun _ => .field (by simp) (.key (labelIssue_below.both valueIssues_below))).both
    (.flatMap fun _ => .field (by simp) (.key (labelIssue_below.both valueIssues_below)))).both
    (.flatMap fun _ => .field (by simp) (.key (labelIssue_below.both labelIssue_below)))

theorem deprecatedField_below {used : Bool} (h : (Segment.field name).IsPlain) :
    Below place (deprecatedField place name used) :=
  .ite (.field h .single) .nil

theorem patchIssues_below (place : Place) (reference : String) :
    Below place (patchIssues place reference) := by
  rw [patchIssues]
  split
  · split
    · exact .single
    · exact List.forall_mem_map.mpr fun _ _ => .index
    · exact .nil
  · exact .nil

theorem checkPatches_below (settings : Settings) (place : Place) :
    Below place (checkPatches settings place) := by
  refine Below.both (.both (.both (.both (deprecatedField_below (by simp))
    (.field (by simp) (.onItems fun _ _ => .ite .nil .single)))
    (deprecatedField_below (by simp))) (.field (by simp) (.onItems fun place operation => ?_)))
    (.field (by simp) (.onItems patchIssues_below))
  split
  · exact .nil
  · exact .single

/-- The items of a list that each need a name of their own. -/
theorem namedItems_below {items : List α} {nameOf : α → String} {whatElse : String}
    {names : List String} :
    Below place (onItems place items (fun place item =>
      requiredText (place.field "name") what (nameOf item)) ++
        duplicates kind whatElse (fun index => (place.index index).field "name") names) :=
  .both (.onItems fun _ _ => .field (by simp) requiredText_below)
    (duplicates_below fun _ => Under.index.trans (.field (by simp)))

theorem checkModules_below (settings : Settings) (place : Place) :
    Below place (checkModules settings place) :=
  .field (by simp) namedItems_below

theorem checkVolumes_below (settings : Settings) (place : Place) :
    Below place (checkVolumes settings place) :=
  .field (by simp) namedItems_below

theorem checkExtensions_below (settings : Settings) (place : Place) :
    Below place (checkExtensions settings place) := by
  rw [checkExtensions]
  split
  · exact .nil
  · exact .field (by simp) (.field (by simp) (.field (by simp) (.field (by simp)
      (duplicates_below fun _ => .index))))

theorem checkFiles_below (settings : Settings) (place : Place) :
    Below place (checkFiles settings place) :=
  .field (by simp) (.onItems fun _ _ => .field (by simp) requiredText_below)

theorem checkSettings_below (settings : Settings) (place : Place) :
    Below place (checkSettings settings place) :=
  ((((((((checkDisks_below settings place).both (checkNetwork_below settings place)).both
    (checkMetadata_below settings place)).both (checkPatches_below settings place)).both
    (.field (by simp) addressIssues_below)).both (checkModules_below settings place)).both
    (checkVolumes_below settings place)).both (checkExtensions_below settings place)).both
    (checkFiles_below settings place)

end Settings

/-! ## The checks of clusters -/

theorem mem_of_mem_ofIssues {issue : Issue} (h : issue ∈ (Report.ofIssues issues).issues) :
    issue ∈ issues := by
  rw [Report.issues, Report.ofIssues, List.mem_append] at h
  exact h.elim List.mem_of_mem_filter List.mem_of_mem_filter

section Cluster

variable (cluster : Cluster)

theorem endpointIssues_below (place : Place) (endpoint : String) :
    Below place (endpointIssues place endpoint) := by
  refine .ite .single ?_
  split
  · exact .nil
  · exact .single

theorem networkIssues_below {networks : List String} :
    Below place (networkIssues place networks) :=
  .onItems fun _ _ => issueOf_below

theorem domainIssues_below (place : Place) (domain : String) :
    Below place (domainIssues place domain) := by
  rw [domainIssues]
  split
  · exact .nil
  · exact .single

theorem cniIssues_below : Below .root (cniIssues cluster) := by
  rw [cniIssues]
  split
  · exact .ite (.field (by simp) (.field (by simp) .single)) .nil
  · exact .nil

theorem checkGeneral_below : Below .root (checkGeneral cluster) :=
  ((((((((Below.field (by simp) requiredText_below).both
    (.field (by simp) (endpointIssues_below _ _))).both
    (.field (by simp) (domainIssues_below _ _))).both
    (.field (by simp) networkIssues_below)).both (.field (by simp) networkIssues_below)).both
    (.field (by simp) addressIssues_below)).both (.field (by simp) addressIssues_below)).both
    (cniIssues_below cluster)).both (.ite (.field (by simp) .single) .nil)

theorem versionIssues_below {text : String} : Below place (versionIssues place text) :=
  .ite .nil .single

theorem compatibilityIssues_below {talosPlace kubernetesPlace : Place}
    (htalos : Under place talosPlace) (hkubernetes : Under place kubernetesPlace)
    (talos kubernetes : Version) :
    Below place (compatibilityIssues talosPlace kubernetesPlace talos kubernetes) := by
  rw [compatibilityIssues]
  split
  · exact .nil
  · exact .of_under hkubernetes .single
  · exact .of_under htalos .single

theorem checkVersions_below : Below .root (checkVersions cluster) := by
  refine .both (.both (.field (by simp) versionIssues_below)
    (.field (by simp) versionIssues_below)) ?_
  split
  · exact compatibilityIssues_below (.field (by simp)) (.field (by simp)) _ _
  · exact .nil

theorem hostnameIssues_below (place : Place) (hostname : String) :
    Below place (hostnameIssues place hostname) := by
  refine .ite .single ?_
  split
  · exact .nil
  · exact .single

theorem nodeAddressIssues_below {addresses : List String} :
    Below place (nodeAddressIssues place addresses) :=
  .ite .single (.flatMap fun _ => issueOf_below)

theorem installTargetIssues_below (place : Place) (settings : Settings) :
    Below place (installTargetIssues place settings) := by
  rw [installTargetIssues]
  split
  · exact .field (by simp) .single
  · exact .field (by simp) .single
  · exact .nil

theorem checkNode_below (place : Place) (node : Node) :
    Below place (checkNode cluster place node) :=
  (((Below.field (by simp) (hostnameIssues_below _ _)).both
    (.field (by simp) nodeAddressIssues_below)).both (installTargetIssues_below _ _)).both
    (checkSettings_below _ _)

theorem checkNodes_below : Below .root (checkNodes cluster) :=
  .field (by simp) (((Below.ite .single .nil).both (.onItems (checkNode_below cluster))).both
    (List.forall_mem_map.mpr fun _ _ => Under.index.trans (.field (by simp))))

theorem issues_below : Below .root cluster.issues :=
  ((((checkGeneral_below cluster).both (checkVersions_below cluster)).both
    (.field (by simp) (checkSettings_below _ _))).both
    (.field (by simp) (checkSettings_below _ _))).both (checkNodes_below cluster)

theorem isPlain_of_mem_validate {issue : Issue} (h : issue ∈ cluster.validate.issues) :
    issue.place.IsPlain :=
  (issues_below cluster issue (mem_of_mem_ofIssues h)).isPlain

end Cluster

/-! ## Groups -/

section Groups

variable {key : α → String} {items : List α} {group : String × List α}

/-- The items of each key, in the order in which the keys first appear. -/
def groupedBy (key : α → String) (items : List α) : Members (List α) :=
  items.foldl (fun groups item => Report.addToGroup (key item) item groups) []

theorem groupedBy_concat (key : α → String) (items : List α) (item : α) :
    groupedBy key (items ++ [item]) = Report.addToGroup (key item) item (groupedBy key items) :=
  List.foldl_concat ..

theorem eraseDups_concat (names : List String) (name : String) :
    (names ++ [name]).eraseDups =
      if name ∈ names then names.eraseDups else names.eraseDups ++ [name] := by
  rw [List.eraseDups_append]
  by_cases h : name ∈ names <;> simp [h, List.removeAll, List.eraseDups_cons]

theorem nodup_eraseDups (names : List String) : names.eraseDups.Nodup := by
  induction names using List.reverseRecOn with
  | nil => exact .nil
  | append_singleton names name ih =>
    rw [eraseDups_concat]
    split
    · exact ih
    · rename_i hnew
      exact List.nodup_append.mpr ⟨ih, List.nodup_singleton name, fun other hm last hl heq =>
        hnew (List.mem_singleton.mp hl ▸ heq ▸ List.mem_eraseDups.mp hm)⟩

theorem keys_groupedBy (key : α → String) (items : List α) :
    (groupedBy key items).keys = (items.map key).eraseDups := by
  induction items using List.reverseRecOn with
  | nil => rfl
  | append_singleton items item ih =>
    rw [groupedBy_concat, keys_addToGroup, ih, List.map_append, List.map_singleton,
      eraseDups_concat]
    simp only [List.mem_eraseDups]

theorem nodup_keys_groupedBy (key : α → String) (items : List α) :
    (groupedBy key items).keys.Nodup :=
  keys_groupedBy key items ▸ nodup_eraseDups _

theorem get?_groupedBy (key : α → String) (items : List α) (name : String) :
    ((groupedBy key items).get? name).getD [] = items.filter fun item => key item = name := by
  induction items using List.reverseRecOn with
  | nil => rfl
  | append_singleton items item ih =>
    rw [groupedBy_concat, get?_addToGroup, List.filter_append, ← ih]
    by_cases h : key item = name
    · subst h
      simp
    · simp [h, Ne.symm h]

/-- A group has all items of its key, in their order. -/
theorem group_eq (h : group ∈ groupedBy key items) :
    group.2 = items.filter fun item => key item = group.1 := by
  rw [← get?_groupedBy, Members.get?_of_mem (nodup_keys_groupedBy key items) h, Option.getD_some]

theorem mem_group_iff {item : α} (h : group ∈ groupedBy key items) :
    item ∈ group.2 ↔ item ∈ items ∧ key item = group.1 := by
  rw [group_eq h, List.mem_filter, decide_eq_true_eq]

theorem existsUnique_group {item : α} (h : item ∈ items) :
    ∃! group, group ∈ groupedBy key items ∧ item ∈ group.2 := by
  have hkey : key item ∈ (groupedBy key items).keys := by
    rw [keys_groupedBy, List.mem_eraseDups]
    exact List.mem_map_of_mem h
  obtain ⟨group, hm, hgroup⟩ := List.mem_map.mp hkey
  refine ⟨group, ⟨hm, (mem_group_iff hm).mpr ⟨h, hgroup.symm⟩⟩, ?_⟩
  rintro other ⟨ho, hitem⟩
  have hsame : other.1 = group.1 := ((mem_group_iff ho).mp hitem).2.symm.trans hgroup.symm
  exact Prod.ext hsame (by rw [group_eq ho, group_eq hm, hsame])

theorem flatMap_addToGroup (name : String) (item : α) (groups : Members (List α)) :
    ((Report.addToGroup name item groups).flatMap Prod.snd).Perm
      (groups.flatMap Prod.snd ++ [item]) := by
  induction groups with
  | nil => exact .refl _
  | cons group rest ih =>
    obtain ⟨other, values⟩ := group
    rw [Report.addToGroup]
    split
    · -- the item stands in front of the groups behind its own
      rw [List.flatMap_cons, List.flatMap_cons, List.append_assoc, List.append_assoc]
      exact List.perm_append_comm.append_left values
    · rw [List.flatMap_cons, List.flatMap_cons, List.append_assoc]
      exact ih.append_left values

/-- No item is lost and none is there twice. -/
theorem flatMap_groupedBy (key : α → String) (items : List α) :
    ((groupedBy key items).flatMap Prod.snd).Perm items := by
  induction items using List.reverseRecOn with
  | nil => exact .refl _
  | append_singleton items item ih =>
    rw [groupedBy_concat]
    exact (flatMap_addToGroup _ _ _).trans (ih.append_right _)

end Groups

/-! ## Groups of issues -/

/-- Each path has one group, in the order in which the paths first appear, the errors being in front
of the warnings. Each issue is in one group, that of its path, and keeps its place there. -/
structure GroupedByPath (report : Report) : Prop where
  keys : Members.keys report.byPath =
    ((report.errors ++ report.warnings).map Issue.path).eraseDups
  nodup : (Members.keys report.byPath).Nodup
  group : ∀ group ∈ report.byPath, group.2 =
    (report.errors ++ report.warnings).filter fun issue => issue.path = group.1
  in_one : ∀ issue ∈ report.errors ++ report.warnings,
    ∃! group, group ∈ report.byPath ∧ issue ∈ group.2
  all : (report.byPath.flatMap Prod.snd).Perm (report.errors ++ report.warnings)

theorem groupedByPath (report : Report) : GroupedByPath report where
  keys := keys_groupedBy Issue.path report.issues
  nodup := nodup_keys_groupedBy Issue.path report.issues
  group group hm := group_eq (show group ∈ groupedBy Issue.path report.issues from hm)
  in_one issue hm :=
    existsUnique_group (show issue ∈ report.issues from hm)
  all := flatMap_groupedBy Issue.path report.issues

/-- Where paths tell the places apart, a group is what is reported about one place. -/
theorem group_of_place {report : Report} (h : ∀ issue ∈ report.issues, issue.place.IsPlain)
    {group : String × List Issue} (hm : group ∈ report.byPath) :
    ∃ place : Place, place.path = group.1 ∧
      group.2 = report.issues.filter fun issue => issue.place = place := by
  have hgroup := (groupedByPath report).group group hm
  have hkey : group.1 ∈ report.issues.map Issue.path := by
    rw [← List.mem_eraseDups]
    exact (groupedByPath report).keys ▸ List.mem_map_of_mem hm
  obtain ⟨first, hfirst, hpath⟩ := List.mem_map.mp hkey
  refine ⟨first.place, hpath, hgroup.trans (List.filter_congr fun issue hi => ?_)⟩
  rw [decide_eq_decide, ← hpath]
  exact ⟨fun heq => Place.path_injective (h issue hi) (h first hfirst) heq,
    fun heq => congrArg Place.path heq⟩

/-- Places that are reached by named fields, indices and keys of any text have different paths
unless they are the same. A report has a group for each path, with all issues of it, and if its
places are such ones, the issues of a group are those of one place. The places of a report about a
cluster always are. -/
theorem issues_grouped_by_place :
    (∀ p q : Place, p.IsPlain → q.IsPlain → p.path = q.path → p = q) ∧
      (∀ report : Report, GroupedByPath report ∧
        ((∀ issue ∈ report.errors ++ report.warnings, issue.place.IsPlain) →
          ∀ group ∈ report.byPath, ∃ place : Place, place.path = group.1 ∧
            group.2 = (report.errors ++ report.warnings).filter fun issue =>
              issue.place = place)) ∧
      ∀ cluster : Cluster, ∀ issue ∈ cluster.validate.errors ++ cluster.validate.warnings,
        issue.place.IsPlain :=
  ⟨fun _ _ => Place.path_injective,
    fun report => ⟨groupedByPath report, fun h _ hm => group_of_place h hm⟩,
    fun cluster _ hm => isPlain_of_mem_validate cluster hm⟩

/-- A key that holds the end of a key and the beginning of another one is not taken for the two, so
what is reported about it has a group of its own. -/
theorem bracketed_key_grouped_apart :
    let labels := Place.root.field "nodeLabels"
    let report : Report := ⟨[⟨.invalidLabel, labels.key "a\"][\"b", ""⟩],
      [⟨.deprecated, (labels.key "a").key "b", ""⟩]⟩
    (labels.key "a\"][\"b").path ≠ ((labels.key "a").key "b").path ∧
      ∀ group ∈ report.byPath, ∃ place : Place, place.path = group.1 ∧
        group.2 = (report.errors ++ report.warnings).filter fun issue => issue.place = place := by
  intro labels report
  have hone : (labels.key "a\"][\"b").IsPlain :=
    ((Under.field (by simp)).trans .key).isPlain
  have htwo : ((labels.key "a").key "b").IsPlain :=
    (((Under.field (by simp)).trans .key).trans .key).isPlain
  have hplain : ∀ issue ∈ report.errors ++ report.warnings, issue.place.IsPlain :=
    List.forall_mem_cons.mpr ⟨hone, List.forall_mem_singleton.mpr htwo⟩
  exact ⟨fun h => absurd (issues_grouped_by_place.1 _ _ hone htwo h) (by decide),
    (issues_grouped_by_place.2.1 report).2 hplain⟩

end ClusterConfig.Validation
