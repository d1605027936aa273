import ClusterConfig.Patch.Application
import ClusterConfig.Proofs.Documents.Places
import ClusterConfig.Proofs.Patches.Conversion
import ClusterConfig.Validation.Cluster

/-!
# Patches of checked clusters

Where validation has nothing to say about the patches of a cluster, those of a node fail only if an
operation does not apply to the document, or is one that the check leaves to the reader. What
comes from files is not checked before.
-/

set_option autoImplicit false

namespace ClusterConfig

/-! ## What validation checks -/

/-- Merge patches are mappings, operations have their shapes, and so have those of inline patches. -/
structure Settings.PatchesChecked (settings : Settings) : Prop where
  merges : ∀ patch ∈ settings.mergePatches, patch.isObject = true
  operations : ∀ operation ∈ settings.operations, ∃ kind, Patch.checkOperation operation = .ok kind
  inline : ∀ reference ∈ settings.patches, ∀ text, Patch.Reference.parse reference = .inline text →
    ∃ doc, Yaml.parseJson? text = some doc ∧
      ∀ operations, doc = .arr operations → Patch.checkAll operations = []

theorem Settings.PatchesChecked.merge {own defaults : Settings} (ho : own.PatchesChecked)
    (hd : defaults.PatchesChecked) : (own.merge defaults).PatchesChecked where
  merges patch h := (List.mem_append.mp h).elim (hd.merges patch) (ho.merges patch)
  operations operation h :=
    (List.mem_append.mp h).elim (hd.operations operation) (ho.operations operation)
  inline reference h := by
    change reference ∈ combine (own.mode .patches) own.patches defaults.patches at h
    cases hm : own.mode .patches with
    | prepend =>
      rw [hm] at h
      exact (List.mem_append.mp h).elim (hd.inline reference) (ho.inline reference)
    | replace =>
      rw [hm] at h
      exact ho.inline reference h

namespace Validation

variable {place : Place} {settings : Settings} {cluster : Cluster}

theorem mem_onItems {α : Type} {items : List α} {issues : Place → α → List Issue} {issue : Issue} :
    issue ∈ onItems place items issues ↔
      ∃ i item, items[i]? = some item ∧ issue ∈ issues (place.index i) item := by
  simp only [onItems, List.mem_flatMap, Prod.exists, List.mem_zipIdx_iff_getElem?]
  exact exists_comm

/-- An item without issues of a kind, wherever it stands in a list without them. -/
theorem onItems_free {α : Type} {items : List α} {issues : Place → α → List Issue} {kind : Kind}
    (h : ∀ issue ∈ onItems place items issues, issue.kind ≠ kind) {item : α} (hm : item ∈ items) :
    ∃ i, ∀ issue ∈ issues (place.index i) item, issue.kind ≠ kind := by
  obtain ⟨i, hi⟩ := List.mem_iff_getElem?.mp hm
  exact ⟨i, fun issue hissue => h issue (mem_onItems.mpr ⟨i, item, hi, hissue⟩)⟩

theorem patchIssues_free {reference text : String}
    (h : ∀ issue ∈ patchIssues place reference, issue.kind ≠ .invalidPatch)
    (hr : Patch.Reference.parse reference = .inline text) :
    ∃ doc, Yaml.parseJson? text = some doc ∧
      ∀ operations, doc = .arr operations → Patch.checkAll operations = [] := by
  rw [patchIssues, hr] at h
  cases hdoc : Yaml.parseJson? text with
  | none =>
    simp only [hdoc] at h
    exact absurd rfl (h _ List.mem_cons_self)
  | some doc =>
    refine ⟨doc, rfl, ?_⟩
    rintro operations rfl
    simp only [hdoc] at h
    refine List.eq_nil_iff_forall_not_mem.mpr fun found hf => ?_
    exact h _ (List.mem_map_of_mem hf) rfl

theorem checkPatches_free
    (h : ∀ issue ∈ checkPatches settings place, issue.kind ≠ .invalidPatch) :
    settings.PatchesChecked := by
  simp only [checkPatches, List.mem_append, or_imp, forall_and] at h
  obtain ⟨⟨⟨⟨-, hmerges⟩, -⟩, hoperations⟩, hpatches⟩ := h
  refine ⟨fun patch hm => ?_, fun operation hm => ?_, fun reference hm text hr => ?_⟩
  · obtain ⟨i, hi⟩ := onItems_free hmerges hm
    cases hobject : patch.isObject with
    | true => rfl
    | false =>
      simp only [hobject] at hi
      exact absurd rfl (hi _ List.mem_cons_self)
  · obtain ⟨i, hi⟩ := onItems_free hoperations hm
    cases hcheck : Patch.checkOperation operation with
    | ok kind => exact ⟨kind, rfl⟩
    | error e =>
      simp only [hcheck] at hi
      exact absurd rfl (hi _ List.mem_cons_self)
  · obtain ⟨i, hi⟩ := onItems_free hpatches hm
    exact patchIssues_free hi hr

theorem mem_checkSettings {issue : Issue} (h : issue ∈ checkPatches settings place) :
    issue ∈ checkSettings settings place := by
  simp only [checkSettings, List.mem_append]
  simp only [h, or_true, true_or]

theorem mem_errors {issues : List Issue} {issue : Issue} :
    issue ∈ (Report.ofIssues issues).errors ↔ issue ∈ issues ∧ issue.kind.severity = .error := by
  simp [Report.ofIssues]

theorem issues_free (h : ∀ issue ∈ cluster.validate.errors, issue.kind ≠ .invalidPatch) :
    ∀ issue ∈ cluster.issues, issue.kind ≠ .invalidPatch := by
  intro issue hm hk
  rw [Cluster.validate] at h
  exact h issue (mem_errors.mpr ⟨hm, by rw [hk]; rfl⟩) hk

end Validation

open Validation in
/-- Without an issue of their own, the patches of all nodes are checked. -/
theorem patchesChecked_of_validate {cluster : Cluster}
    (h : ∀ issue ∈ cluster.validate.errors, issue.kind ≠ .invalidPatch) :
    ∀ node ∈ cluster.mergedNodes, node.settings.PatchesChecked := by
  have hall := issues_free h
  simp only [Cluster.issues, List.mem_append, or_imp, forall_and] at hall
  obtain ⟨⟨⟨-, hcontrol⟩, hworker⟩, hnodes⟩ := hall
  have hrole (role : Role) : (cluster.defaults role).PatchesChecked := by
    cases role with
    | controlPlane => exact checkPatches_free fun issue hm => hcontrol issue (mem_checkSettings hm)
    | worker => exact checkPatches_free fun issue hm => hworker issue (mem_checkSettings hm)
  simp only [checkNodes, List.mem_append, or_imp, forall_and] at hnodes
  obtain ⟨⟨-, hitems⟩, -⟩ := hnodes
  intro node hm
  obtain ⟨original, ho, rfl⟩ := List.mem_map.mp hm
  obtain ⟨i, hi⟩ := onItems_free hitems ho
  have hown : original.settings.PatchesChecked := checkPatches_free fun issue hm =>
    hi issue (List.mem_append_right _ (mem_checkSettings hm))
  exact hown.merge (hrole original.role)

/-! ## What applying can fail with -/

namespace Patch

variable {state final : State} {e : ApplyError} {settings : Settings} {source : Documents.Source}

theorem error_inj {α β ε : Type} {s t : α} {a b : ε}
    (h : (s, (.error a : Except ε β)) = (t, .error b)) : a = b :=
  Except.error.inj (Prod.mk.inj h).2

theorem error_ne_ok {α β ε : Type} {s t : α} {a : β} {b : ε}
    (h : (s, (.ok a : Except ε β)) = (t, .error b)) : False := by
  cases (Prod.mk.inj h).2

theorem andThen_error {step : Step} {next : State → Step}
    (h : step.andThen next = (final, .error e)) :
    step = (final, .error e) ∨ ∃ state, next state = (final, .error e) := by
  obtain ⟨state, failure | done⟩ := step
  · exact Or.inl h
  · exact Or.inr ⟨state, h⟩

/-- Steps in order fail in one of them. -/
theorem eachInOrder_error {α : Type} {step : Nat → α → State → Step} {items : List α} {index : Nat}
    (h : eachInOrder step index items state = (final, .error e)) :
    ∃ i item before, items[i]? = some item ∧ step (index + i) item before = (final, .error e) := by
  induction items generalizing index state with
  | nil => cases h
  | cons item rest ih =>
    rcases andThen_error h with hfirst | ⟨next, hrest⟩
    · exact ⟨0, item, state, rfl, hfirst⟩
    · obtain ⟨i, found, before, hi, hstep⟩ := ih hrest
      refine ⟨i + 1, found, before, hi, ?_⟩
      rwa [show index + (i + 1) = index + 1 + i by omega]

/-- The failures that patches of checked settings may end in: an operation that does not apply, an
operation that is not complete, or anything that comes from a file. -/
def Expected (settings : Settings) : ApplyError → Prop
  | .mergePatchNotAMapping _ => False
  | .malformedOperation _ _ => False
  | .convertOperation index => ∃ operation kind, settings.operations[index]? = some operation ∧
    checkOperation operation = .ok kind ∧ ¬ Complete operation.toJson kind
  | .applyOperation index _ => index < settings.operations.length
  | .readReference reference _ => ∀ text, Reference.parse reference ≠ .inline text
  | .loadReference reference _ => ∀ text, Reference.parse reference ≠ .inline text
  | .parseReference reference => ∀ text, Reference.parse reference ≠ .inline text
  | .malformedReference reference _ _ => ∀ text, Reference.parse reference ≠ .inline text
  | .applyReference reference .unreadable => ∀ text, Reference.parse reference = .inline text →
    ∃ operations, Yaml.parseJson? text = some (.arr operations) ∧ ∃ operation ∈ operations,
      ∃ kind, checkValue operation = .ok kind ∧ ¬ Complete operation kind
  | .applyReference reference (.failed _) => reference ∈ settings.patches

theorem applyMerge_expected {index : Nat} {patch : Json} (hobject : patch.isObject = true)
    (h : applyMerge index patch state = (final, .error e)) : Expected settings e := by
  rw [applyMerge, if_pos hobject] at h
  exact (error_ne_ok h).elim

/-- Why operations together are refused: some cannot be read, or one of them does not apply. -/
theorem applyOperations_error {operations : List Json} {failure : OperationFailure}
    (h : applyOperations operations state = (final, .error failure)) :
    (failure = .unreadable ∧ Json.PatchOp.listOfJson? operations = none) ∨
      ∃ reason, failure = .failed reason := by
  unfold applyOperations at h
  split at h
  case h_1 hnone => exact Or.inl ⟨(error_inj h).symm, hnone⟩
  case h_2 =>
    split at h
    · exact (error_ne_ok h).elim
    · exact Or.inr ⟨_, (error_inj h).symm⟩

theorem applyOperation_expected {index : Nat} {operation : LooseOp} {kind : OpKind}
    (hindex : settings.operations[index]? = some operation)
    (hkind : checkOperation operation = .ok kind)
    (h : applyOperation index operation state = (final, .error e)) : Expected settings e := by
  simp only [applyOperation, hkind] at h
  rcases hresult : applyOperations [operation.toJson] state with ⟨after, failure | done⟩
  · rw [hresult] at h
    obtain rfl := error_inj h
    rcases applyOperations_error hresult with ⟨rfl, hnone⟩ | ⟨reason, rfl⟩
    · refine ⟨operation, kind, hindex, hkind, fun hcomplete => ?_⟩
      have hread := (readable_iff_complete (LooseOp.keys_toJson operation)
        ((checkValue_toJson operation).trans hkind)).mpr hcomplete
      rw [hnone] at hread
      cases hread
    · exact (List.getElem?_eq_some_iff.mp hindex).1
  · rw [hresult] at h
    exact (error_ne_ok h).elim

/-- What a reference led to is refused for its shape, or its operations are refused together. -/
theorem applyResolved_error {reference : String} {patch : Json}
    (h : applyResolved reference patch state = (final, .error e)) :
    ∃ operations, patch = .arr operations ∧
      ((∃ index reason more, checkAll operations = (index, reason) :: more ∧
        e = .malformedReference reference index reason) ∨
      (checkAll operations = [] ∧ ∃ failure, e = .applyReference reference failure ∧
        ∃ after, applyOperations operations state = (after, .error failure))) := by
  unfold applyResolved at h
  cases patch with
  | arr operations =>
    refine ⟨operations, rfl, ?_⟩
    cases hcheck : checkAll operations with
    | cons found more =>
      simp only [hcheck] at h
      obtain rfl := error_inj h
      exact Or.inl ⟨found.1, found.2, more, rfl, rfl⟩
    | nil =>
      simp only [hcheck] at h
      rcases hresult : applyOperations operations state with ⟨after, failure | done⟩
      · rw [hresult] at h
        obtain rfl := error_inj h
        exact Or.inr ⟨rfl, failure, rfl, after, rfl⟩
      · rw [hresult] at h
        exact (error_ne_ok h).elim
  | _ => exact (error_ne_ok h).elim

theorem resolve_error {reference : String} {vars after : Bindings}
    (h : resolve source reference vars = (after, .error e)) :
    (∀ text, Reference.parse reference ≠ .inline text) ∧
      ((∃ reason, e = .readReference reference reason) ∨
        ∃ reason, e = .loadReference reference reason) := by
  unfold resolve at h
  cases hparse : Reference.parse reference with
  | inline text =>
    simp only [hparse] at h
    exact (error_ne_ok h).elim
  | literal path =>
    refine ⟨by simp, Or.inl ?_⟩
    simp only [hparse] at h
    cases hread : source.files.readText path with
    | ok text =>
      rw [hread] at h
      exact (error_ne_ok h).elim
    | error reason =>
      rw [hread] at h
      exact ⟨reason, (error_inj h).symm⟩
  | file path =>
    refine ⟨by simp, ?_⟩
    simp only [hparse] at h
    cases hread : source.files.read path with
    | error reason =>
      rw [hread] at h
      exact Or.inl ⟨reason, (error_inj h).symm⟩
    | ok content =>
      simp only [hread] at h
      cases htext : (Documents.readBytes source.decrypt path content vars).2 with
      | ok text =>
        rw [htext] at h
        exact (error_ne_ok h).elim
      | error reason =>
        rw [htext] at h
        exact Or.inr ⟨reason, (error_inj h).symm⟩

/-- Operations that are checked have names that differ and shapes of a kind. -/
theorem checkAll_nil {operations : List Json} (h : checkAll operations = []) :
    ∀ operation ∈ operations, ∃ kind, checkValue operation = .ok kind := by
  intro operation hm
  obtain ⟨i, hi⟩ := List.mem_iff_getElem?.mp hm
  have hnone := List.filterMap_eq_nil_iff.mp h (operation, i)
    (List.mem_zipIdx_iff_getElem?.mpr hi)
  cases hcheck : checkValue operation with
  | ok kind => exact ⟨kind, rfl⟩
  | error reason =>
    simp only [hcheck] at hnone
    cases hnone

theorem members_nodup {doc : Json} (h : doc.WellFormed) : (Members.keys doc.members).Nodup := by
  cases doc with
  | obj members => exact (Json.wellFormed_obj.mp h).1
  | _ => exact List.nodup_nil

theorem applyReference_expected {index : Nat} {reference : String} (hs : settings.PatchesChecked)
    (hm : reference ∈ settings.patches)
    (h : applyReference source index reference state = (final, .error e)) :
    Expected settings e := by
  unfold applyReference at h
  rcases hresolve : resolve source reference state.vars with ⟨vars, failure | text⟩
  · simp only [hresolve] at h
    obtain rfl := error_inj h
    obtain ⟨hfile, ⟨reason, rfl⟩ | ⟨reason, rfl⟩⟩ := resolve_error hresolve
    · exact hfile
    · exact hfile
  · simp only [hresolve] at h
    by_cases hinline : ∃ inline, Reference.parse reference = .inline inline
    · obtain ⟨inline, hparse⟩ := hinline
      simp only [resolve, hparse] at hresolve
      obtain rfl : inline = text := Except.ok.inj (Prod.mk.inj hresolve).2
      obtain ⟨doc, hdoc, hchecked⟩ := hs.inline reference hm inline hparse
      simp only [hdoc] at h
      obtain ⟨operations, rfl, hcase⟩ := applyResolved_error h
      rcases hcase with ⟨i, reason, more, hmore, -⟩ | ⟨hnil, failure, rfl, after, hfailed⟩
      · rw [hchecked operations rfl] at hmore
        cases hmore
      · rcases applyOperations_error hfailed with ⟨rfl, hnone⟩ | ⟨reason, rfl⟩
        · intro other hother
          obtain rfl : inline = other := Reference.inline.inj (hparse.symm.trans hother)
          have hwf := Json.wellFormed_arr.mp (Yaml.parseJson?_wellFormed hdoc)
          exact ⟨operations, hdoc, exists_incomplete (fun o ho => members_nodup (hwf o ho))
            (checkAll_nil hnil) hnone⟩
        · exact hm
    · have hfile : ∀ text, Reference.parse reference ≠ .inline text := fun t ht => hinline ⟨t, ht⟩
      cases hdoc : Yaml.parseJson? text with
      | none =>
        simp only [hdoc] at h
        obtain rfl := error_inj h
        exact hfile
      | some doc =>
        simp only [hdoc] at h
        obtain ⟨operations, rfl, hcase⟩ := applyResolved_error h
        rcases hcase with ⟨i, reason, more, -, rfl⟩ | ⟨-, failure, rfl, -⟩
        · exact hfile
        · cases failure with
          | unreadable => exact fun t ht => absurd ht (hfile t)
          | failed reason => exact hm

/-- Patches of checked settings fail with an expected failure, or not at all. -/
theorem apply_expected (hs : settings.PatchesChecked)
    (h : (PatchSet.ofSettings settings).apply source state = (final, .error e)) :
    Expected settings e := by
  rcases andThen_error h with hearly | ⟨before, hreferences⟩
  · rcases andThen_error hearly with hmerges | ⟨before, hoperations⟩
    · obtain ⟨i, patch, before, hi, hstep⟩ := eachInOrder_error hmerges
      exact applyMerge_expected (hs.merges patch (List.mem_of_getElem? hi)) hstep
    · obtain ⟨i, operation, before, hi, hstep⟩ := eachInOrder_error hoperations
      obtain ⟨kind, hkind⟩ := hs.operations operation (List.mem_of_getElem? hi)
      rw [Nat.zero_add] at hstep
      exact applyOperation_expected hi hkind hstep
  · obtain ⟨i, reference, before, hi, hstep⟩ := eachInOrder_error hreferences
    exact applyReference_expected hs (List.mem_of_getElem? hi) hstep

/-- An operation of the right shape is read exactly if it is complete. Where validation finds no
invalid patch in a cluster, the patches of its nodes fail with an expected failure, or not at all. -/
theorem checked_patches_readable :
    (∀ (operation : Json) (kind : OpKind), operation.WellFormed →
      checkValue operation = .ok kind →
        ((Json.PatchOp.listOfJson? [operation]).isSome ↔ Complete operation kind)) ∧
    ∀ cluster : Cluster, (∀ issue ∈ cluster.validate.errors, issue.kind ≠ .invalidPatch) →
      ∀ node ∈ cluster.mergedNodes, ∀ (source : Documents.Source) (state final : State) (e),
        (PatchSet.ofSettings node.settings).apply source state = (final, .error e) →
          Expected node.settings e :=
  ⟨fun _ _ hw hk => readable_iff_complete (members_nodup hw) hk,
    fun _ h node hm _ _ _ _ happly =>
      apply_expected (patchesChecked_of_validate h node hm) happly⟩

/-- A node whose only setting is a patch operation. -/
def patchedNode (operation : LooseOp) : Node := ⟨"", "", true, { operations := [operation] }⟩

/-- A cluster that has nothing but one such node. -/
def patchedCluster (operation : LooseOp) : Cluster where
  name := ""
  talosVersion := ""
  kubernetesVersion := ""
  endpoint := ""
  domain := ""
  schedulesOnControlPlanes := false
  schedulesOnMasters := none
  machineCertSans := []
  apiServerCertSans := []
  podNets := []
  serviceNets := []
  cni := none
  extraManifests := []
  nodes := [patchedNode operation]
  controlPlane := {}
  worker := {}

/-- Applies the patches of such a node, without files, to an object without members. -/
def applyPatched (operation : LooseOp) : Step :=
  (PatchSet.ofSettings (patchedNode operation).settings).apply
    ⟨{}, Encryption.Decryptor.unavailable⟩ ⟨.obj [], {}⟩

/-- A removal from where nothing is fails as an operation that does not apply. -/
theorem removal_of_nothing :
    let removal : LooseOp := { op := some "remove", path := some "/x" }
    removal.toJson.WellFormed ∧ checkValue removal.toJson = .ok .remove ∧
      ((Json.PatchOp.listOfJson? [removal.toJson]).isSome ↔ Complete removal.toJson .remove) ∧
      (∀ issue ∈ (patchedCluster removal).validate.errors, issue.kind ≠ .invalidPatch) ∧
      applyPatched removal =
        (⟨.obj [], {}⟩, .error (.applyOperation 0 ⟨0, ⟨["x"]⟩, .invalidPath⟩)) ∧
      Expected (patchedNode removal).settings (.applyOperation 0 ⟨0, ⟨["x"]⟩, .invalidPath⟩) := by
  intro removal
  have hw : removal.toJson.WellFormed := by
    simp [removal, LooseOp.toJson, LooseOp.optional, Json.WellFormed, Json.WellFormedMembers,
      Members.keys]
  have hv : ∀ issue ∈ (patchedCluster removal).validate.errors, issue.kind ≠ .invalidPatch := by
    decide
  exact ⟨hw, by decide, checked_patches_readable.1 _ .remove hw (by decide), hv, rfl,
    checked_patches_readable.2 (patchedCluster removal) hv (patchedNode removal)
      List.mem_cons_self ⟨{}, Encryption.Decryptor.unavailable⟩ ⟨.obj [], {}⟩ _ _ rfl⟩

/-- A replacement without a value and a tilde that escapes nothing pass the check and are not read;
the cluster that has such a patch passes validation and fails when it is compiled. -/
theorem checked_but_not_read :
    let replacement : LooseOp := { op := some "replace", path := some "/x" }
    let removal : LooseOp := { op := some "remove", path := some "/a~2b" }
    checkValue replacement.toJson = .ok .replace ∧
      (Json.PatchOp.listOfJson? [replacement.toJson]).isNone ∧
      checkValue removal.toJson = .ok .remove ∧
      (Json.PatchOp.listOfJson? [removal.toJson]).isNone ∧
      (∀ issue ∈ (patchedCluster replacement).validate.errors, issue.kind ≠ .invalidPatch) ∧
      applyPatched replacement = (⟨.obj [], {}⟩, .error (.convertOperation 0)) := by
  intro replacement removal
  exact ⟨by decide, by decide, by decide, by decide, by decide, rfl⟩

end Patch

end ClusterConfig
