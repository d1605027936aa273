import Mathlib
import ClusterConfig.Validation.Cluster

/-!
# Kinds of issues

Each check has kinds of its own that it may report. So the issues of one kind are those of the few
checks that report it, in their order, whatever the other checks find.
-/

set_option autoImplicit false

namespace ClusterConfig.Validation

/-- The issues of a kind, in their order. -/
def ofKind (kind : Kind) (issues : List Issue) : List Issue :=
  issues.filter fun issue => issue.kind = kind

/-- No issue is of another kind. -/
def OfKinds (kinds : List Kind) (issues : List Issue) : Prop := ∀ issue ∈ issues, issue.kind ∈ kinds

variable {α : Type} {kind : Kind} {kinds others : List Kind} {issues more : List Issue}
  {place : Place} {message : String}

theorem ofKind_ne_nil : ofKind kind issues ≠ [] ↔ ∃ issue ∈ issues, issue.kind = kind := by
  simp [ofKind]

@[simp]
theorem ofKind_append : ofKind kind (issues ++ more) = ofKind kind issues ++ ofKind kind more :=
  List.filter_append ..

/-- Errors are filed in the order in which they are found. -/
theorem ofKind_errors (h : kind.severity = .error) (issues : List Issue) :
    ofKind kind (Report.ofIssues issues).errors = ofKind kind issues := by
  rw [ofKind, ofKind, Report.ofIssues, List.filter_filter]
  refine List.filter_congr fun issue _ => ?_
  by_cases hk : issue.kind = kind <;> simp [hk, h]

/-! ## Putting checks together -/

namespace OfKinds

theorem nil : OfKinds kinds [] := fun _ hm => absurd hm List.not_mem_nil

theorem single (h : kind ∈ kinds) : OfKinds kinds [⟨kind, place, message⟩] :=
  List.forall_mem_singleton.mpr h

theorem mono (h : OfKinds kinds issues) (hs : kinds ⊆ others) : OfKinds others issues :=
  fun issue hm => hs (h issue hm)

theorem both (h : OfKinds kinds issues) (h' : OfKinds kinds more) :
    OfKinds kinds (issues ++ more) :=
  List.forall_mem_append.mpr ⟨h, h'⟩

theorem append (h : OfKinds kinds issues) (h' : OfKinds others more) :
    OfKinds (kinds ++ others) (issues ++ more) :=
  (h.mono (List.subset_append_left ..)).both (h'.mono (List.subset_append_right ..))

theorem flatMap {items : List α} {check : α → List Issue}
    (h : ∀ item ∈ items, OfKinds kinds (check item)) : OfKinds kinds (items.flatMap check) := by
  intro issue hm
  obtain ⟨item, hi, hm⟩ := List.mem_flatMap.mp hm
  exact h item hi issue hm

theorem onItems {items : List α} {check : Place → α → List Issue}
    (h : ∀ place item, OfKinds kinds (check place item)) :
    OfKinds kinds (onItems place items check) :=
  flatMap fun item _ => h _ item.1

theorem ite {p : Prop} [Decidable p] (h : OfKinds kinds issues) (h' : OfKinds kinds more) :
    OfKinds kinds (if p then issues else more) := by
  split
  · exact h
  · exact h'

theorem ofKind_eq_nil (h : OfKinds kinds issues) (hk : kind ∉ kinds) : ofKind kind issues = [] :=
  List.filter_eq_nil_iff.mpr fun issue hm => by
    rw [decide_eq_true_eq]
    rintro rfl
    exact hk (h issue hm)

theorem ofKind_eq_self (h : OfKinds [kind] issues) : ofKind kind issues = issues :=
  List.filter_eq_self.mpr fun issue hm => decide_eq_true (List.mem_singleton.mp (h issue hm))

end OfKinds

/-! ## The checks of settings -/

section Settings

variable {ε : Type} {what text name value : String} {checked literal : Except Labels.LabelError Unit}
  {settings : Settings}

theorem issueOf_kinds {message : ε → String} {outcome : Except ε α} :
    OfKinds [kind] (issueOf kind place what text message outcome) := by
  cases outcome with
  | ok value => exact .nil
  | error reason => exact .single List.mem_cons_self

theorem requiredText_kinds : OfKinds [.required] (requiredText place what text) :=
  .ite (.single List.mem_cons_self) .nil

theorem addressIssues_kinds {addresses : List String} :
    OfKinds [.invalidAddress] (addressIssues place what addresses) :=
  .onItems fun _ _ => issueOf_kinds

theorem duplicates_kinds {places : Nat → Place} {names : List String} :
    OfKinds [kind] (duplicates kind what places names) :=
  List.forall_mem_map.mpr fun _ _ => List.mem_cons_self

theorem checkDisks_kinds : OfKinds [.invalidInstallTarget] (checkDisks settings place) := by
  refine .both ?_ (.onItems fun _ _ => .ite .nil (.single List.mem_cons_self))
  split
  · exact .nil
  · exact .ite .nil (.single List.mem_cons_self)

theorem interfaceAddressIssues_kinds {addresses : List String} :
    OfKinds [.invalidCidr] (interfaceAddressIssues place addresses) :=
  .onItems fun _ _ => issueOf_kinds

theorem routeIssues_kinds (place : Place) (route : Route) :
    OfKinds [.invalidCidr, .invalidAddress] (routeIssues place route) := by
  refine .both ?_ ?_
  · split
    · exact .nil
    · exact issueOf_kinds.mono (by simp)
  · split
    · exact .nil
    · exact issueOf_kinds.mono (by simp)

theorem interfaceIssues_kinds {interface : Interface} :
    OfKinds [.invalidCidr, .invalidAddress] (interfaceIssues place interface) :=
  ((interfaceAddressIssues_kinds.append (.onItems routeIssues_kinds)).append
    (.onItems fun _ _ => interfaceAddressIssues_kinds)).mono (by simp)

theorem nameservers_kinds {nameservers : List String} :
    OfKinds [.invalidAddress] (onItems place nameservers fun place nameserver =>
      issueOf .invalidAddress place "nameserver" nameserver Network.AddressError.message
        (Network.ipAddress nameserver)) :=
  .onItems fun _ _ => issueOf_kinds

theorem labelIssue_kinds : OfKinds [.invalidLabel] (labelIssue place checked) := by
  cases checked with
  | ok done => exact .nil
  | error reason => exact .single List.mem_cons_self

theorem valueIssues_kinds :
    OfKinds [.invalidTemplate, .invalidLabel] (valueIssues place value literal) := by
  refine .ite ?_ (labelIssue_kinds.mono (by simp))
  split
  · exact .nil
  · exact .single List.mem_cons_self

theorem checkMetadata_kinds :
    OfKinds [.invalidLabel, .invalidTemplate] (checkMetadata settings place) :=
  (((OfKinds.flatMap fun _ _ => labelIssue_kinds.append valueIssues_kinds).append
    (.flatMap fun _ _ => labelIssue_kinds.append valueIssues_kinds)).append
    (.flatMap fun _ _ => labelIssue_kinds.append labelIssue_kinds)).mono (by simp)

theorem deprecatedField_kinds {used : Bool} :
    OfKinds [.deprecated] (deprecatedField place name used) :=
  .ite (.single List.mem_cons_self) .nil

theorem patchIssues_kinds (place : Place) (reference : String) :
    OfKinds [.invalidPatch] (patchIssues place reference) := by
  rw [patchIssues]
  split
  · split
    · exact .single List.mem_cons_self
    · exact List.forall_mem_map.mpr fun _ _ => List.mem_cons_self
    · exact .nil
  · exact .nil

theorem checkPatches_kinds :
    OfKinds [.deprecated, .invalidPatch] (checkPatches settings place) := by
  have hmerges : OfKinds [.invalidPatch] (onItems (place.field "inlinePatch") settings.mergePatches
      fun place patch => if patch.isObject then []
        else [⟨.invalidPatch, place, "an inline merge patch must be a mapping"⟩]) :=
    .onItems fun _ _ => .ite .nil (.single List.mem_cons_self)
  rw [checkPatches]
  refine ((((deprecatedField_kinds.append hmerges).append deprecatedField_kinds).append
    (?_ : OfKinds [.invalidPatch] _)).append (.onItems patchIssues_kinds)).mono (by simp)
  refine .onItems fun place operation => ?_
  split
  · exact .nil
  · exact .single List.mem_cons_self

theorem checkModules_kinds :
    OfKinds [.required, .duplicateKernelModule] (checkModules settings place) :=
  OfKinds.append (.onItems fun _ _ => requiredText_kinds) duplicates_kinds

theorem checkVolumes_kinds :
    OfKinds [.required, .duplicateVolume] (checkVolumes settings place) :=
  OfKinds.append (.onItems fun _ _ => requiredText_kinds) duplicates_kinds

theorem checkExtensions_kinds :
    OfKinds [.duplicateExtension] (checkExtensions settings place) := by
  rw [checkExtensions]
  split
  · exact .nil
  · exact duplicates_kinds

theorem checkFiles_kinds : OfKinds [.required] (checkFiles settings place) :=
  .onItems fun _ _ => requiredText_kinds

/-- Conflicts and repeated names are reported by four checks only. -/
theorem ofKind_checkSettings (h : kind ∉ [.invalidInstallTarget, .invalidCidr, .invalidAddress,
    .invalidLabel, .invalidTemplate, .deprecated, .invalidPatch, .required]) :
    ofKind kind (checkSettings settings place) =
      ofKind kind (checkInterfaces (place.field "networkInterfaces") settings.interfaces) ++
      ofKind kind (checkModules settings place) ++ ofKind kind (checkVolumes settings place) ++
      ofKind kind (checkExtensions settings place) := by
  have hsub {kinds : List Kind} (hs : kinds ⊆ _) : kind ∉ kinds := fun hk => h (hs hk)
  simp only [checkSettings, checkNetwork, ofKind_append, List.nil_append, List.append_nil,
    checkDisks_kinds.ofKind_eq_nil (hsub (by simp)), nameservers_kinds.ofKind_eq_nil (hsub (by simp)),
    checkMetadata_kinds.ofKind_eq_nil (hsub (by simp)),
    checkPatches_kinds.ofKind_eq_nil (hsub (by simp)),
    addressIssues_kinds.ofKind_eq_nil (hsub (by simp)),
    checkFiles_kinds.ofKind_eq_nil (hsub (by simp))]

theorem joinMember_kinds {state : Memberships × List Issue} {aggregate : Aggregate}
    {member : String} (h : OfKinds kinds state.2) (hk : .interfaceConflict ∈ kinds) :
    OfKinds kinds (joinMember place aggregate state member).2 := by
  rw [joinMember]
  split
  · exact h
  · split
    · exact h
    · exact h.both (.single hk)

theorem joinMembers_kinds {state : Memberships × List Issue} {listed : Aggregate × List String}
    (h : OfKinds kinds state.2) (hk : .interfaceConflict ∈ kinds) :
    OfKinds kinds (joinMembers place state listed).2 :=
  List.foldlRecOn (motive := fun state : Memberships × List Issue => OfKinds kinds state.2) _ _ h
    fun _ h _ _ => joinMember_kinds h hk

theorem bothAggregates_kinds {interface : Interface} {index : Nat} :
    OfKinds [.interfaceConflict] (bothAggregates place interface index) :=
  .ite (.single List.mem_cons_self) .nil

theorem checkInterfaces_kinds {interfaces : List Interface} :
    OfKinds [.invalidCidr, .invalidAddress, .interfaceConflict]
      (checkInterfaces place interfaces) := by
  refine List.foldlRecOn (motive := fun state : Memberships × List Issue =>
    OfKinds [.invalidCidr, .invalidAddress, .interfaceConflict] state.2) _ _ .nil ?_
  intro state h item _
  refine List.foldlRecOn (motive := fun state : Memberships × List Issue =>
    OfKinds [.invalidCidr, .invalidAddress, .interfaceConflict] state.2) _ _ ?_
    fun state h listed _ => joinMembers_kinds h (by simp)
  exact h.both (interfaceIssues_kinds.append bothAggregates_kinds)

/-- The kinds that checks of settings may report. -/
def settingsKinds : List Kind :=
  [.invalidInstallTarget, .invalidCidr, .invalidAddress, .interfaceConflict, .invalidLabel,
    .invalidTemplate, .deprecated, .invalidPatch, .required, .duplicateKernelModule,
    .duplicateVolume, .duplicateExtension]

theorem checkSettings_kinds : OfKinds settingsKinds (checkSettings settings place) :=
  ((((((((checkDisks_kinds.append (checkInterfaces_kinds.append nameservers_kinds)).append
    checkMetadata_kinds).append checkPatches_kinds).append addressIssues_kinds).append
    checkModules_kinds).append checkVolumes_kinds).append checkExtensions_kinds).append
    checkFiles_kinds).mono (by simp [settingsKinds])

end Settings

/-! ## The checks of clusters -/

section Cluster

variable {cluster : Cluster} {node : Node}

theorem checkGeneral_kinds : OfKinds [.required, .invalidEndpoint, .invalidDomain, .invalidCidr,
    .invalidAddress, .deprecated] (checkGeneral cluster) := by
  have hendpoint (place : Place) (endpoint : String) :
      OfKinds [.required, .invalidEndpoint] (endpointIssues place endpoint) := by
    refine .ite (.single (by simp)) ?_
    split
    · exact .nil
    · exact .single (by simp)
  have hdomain (place : Place) (domain : String) :
      OfKinds [.invalidDomain] (domainIssues place domain) := by
    rw [domainIssues]
    split
    · exact .nil
    · exact .single (by simp)
  have hnetworks (place : Place) (networks : List String) :
      OfKinds [.invalidCidr] (networkIssues place networks) := .onItems fun _ _ => issueOf_kinds
  have hcni : OfKinds [.required] (cniIssues cluster) := by
    rw [cniIssues]
    split
    · exact .ite (.single (by simp)) .nil
    · exact .nil
  have hmasters : OfKinds [.deprecated] (if cluster.schedulesOnMasters.isSome then
      [⟨.deprecated, Place.root.field "allowSchedulingOnMasters",
        "allowSchedulingOnMasters is deprecated, use allowSchedulingOnControlPlanes instead"⟩]
      else []) := .ite (.single (by simp)) .nil
  exact ((((((((requiredText_kinds.append (hendpoint _ _)).append (hdomain _ _)).append
    (hnetworks _ _)).append (hnetworks _ _)).append addressIssues_kinds).append
    addressIssues_kinds).append hcni).append hmasters).mono (by simp)

theorem checkVersions_kinds :
    OfKinds [.invalidVersion, .unsupportedVersion, .unknownVersion] (checkVersions cluster) := by
  have hversion (place : Place) (text : String) :
      OfKinds [.invalidVersion] (versionIssues place text) :=
    .ite .nil (.single List.mem_cons_self)
  have hcompatible (place other : Place) (talos kubernetes : Version) :
      OfKinds [.unsupportedVersion, .unknownVersion]
        (compatibilityIssues place other talos kubernetes) := by
    rw [compatibilityIssues]
    split
    · exact .nil
    · exact .single (by simp)
    · exact .single (by simp)
  refine .both (((hversion _ _).append (hversion _ _)).mono (by simp)) ?_
  split
  · exact (hcompatible _ _ _ _).mono (by simp)
  · exact .nil

theorem checkNode_kinds :
    OfKinds (.invalidHostname :: settingsKinds) (checkNode cluster place node) := by
  have hhostname (place : Place) (hostname : String) :
      OfKinds [.required, .invalidHostname] (hostnameIssues place hostname) := by
    refine .ite (.single (by simp)) ?_
    split
    · exact .nil
    · exact .single (by simp)
  have haddresses (place : Place) (addresses : List String) :
      OfKinds [.required, .invalidAddress] (nodeAddressIssues place addresses) :=
    .ite (.single (by simp)) (.flatMap fun _ _ => issueOf_kinds.mono (by simp))
  have htarget (place : Place) (settings : Settings) :
      OfKinds [.invalidInstallTarget] (installTargetIssues place settings) := by
    rw [installTargetIssues]
    split
    · exact .single (by simp)
    · exact .single (by simp)
    · exact .nil
  exact ((((hhostname _ _).append (haddresses _ _)).append (htarget _ _)).append
    checkSettings_kinds).mono (by simp [settingsKinds])

end Cluster

end ClusterConfig.Validation
