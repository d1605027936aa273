import ClusterConfig.Proofs.Patches.Inverses

/-!
# Patches that fail

A patch that fails leaves the document as it was, up to the order of members, if every operation it
came to is one that can be taken back where it was met. The invariant of a run is that the inverses
collected so far lead from the document, and from any alike one, back to the first.
-/

set_option autoImplicit false

namespace ClusterConfig.Json

variable {doc after original : Json} {op : PatchOp} {ops undo : List PatchOp}

/-- The inverses lead from all that is like the document back to the original. -/
def Undoes (undo : List PatchOp) (doc original : Json) : Prop :=
  ∀ d : Json, d.WellFormed → d.Alike doc → (undoAll d undo).Alike original

/-- Every operation that a run comes to can be taken back where it is met. -/
def Reversible : Json → List PatchOp → Prop
  | _, [] => True
  | doc, op :: rest => Revertible doc op ∧
    ∀ inverse, (applyOp false doc op).undo = .ok inverse → Reversible (applyOp false doc op).doc rest

theorem undoes_nil (doc : Json) : Undoes [] doc doc := fun _ _ h => h

/-- An operation that can be taken back keeps the invariant. -/
theorem undoes_step {inverse : List PatchOp} (hd : doc.WellFormed) (ho : op.WellFormed)
    (hr : Revertible doc op) (h : applyOp false doc op = ⟨after, .ok inverse⟩)
    (hu : Undoes undo doc original) : Undoes (inverse ++ undo) after original := by
  have hw := applyOp_wellFormed hd ho false
  have hback := (takenBack_iff hd op).mpr hr
  rw [h] at hw hback
  intro d hdw hda
  have hi := hw.undo inverse rfl
  rw [undoAll_append]
  exact hu _ (undoAll_wellFormed hdw hi) ((undoAll_alike hdw hw.doc hda hi).trans hback)

theorem runOps_restores {place : Nat} {e : PatchError} (hd : doc.WellFormed)
    (ho : ∀ op ∈ ops, op.WellFormed) (hr : Reversible doc ops) (hu : Undoes undo doc original)
    (h : runOps doc place undo ops = (after, some e)) : after.Alike original := by
  induction ops generalizing doc place undo with
  | nil => cases h
  | cons op rest ih =>
    obtain ⟨hop, hrest⟩ := hr
    have how := ho op List.mem_cons_self
    have hw := applyOp_wellFormed hd how false
    have hback := (takenBack_iff hd op).mpr hop
    rw [runOps] at h
    rcases hres : applyOp false doc op with ⟨next, failure | inverse⟩
    · rw [hres] at h hback hw
      obtain ⟨rfl, -⟩ := Prod.mk.inj h
      exact hu next hw.doc hback
    · rw [hres] at h hw hrest
      exact ih hw.doc (fun o hm => ho o (List.mem_cons_of_mem _ hm)) (hrest inverse rfl)
        (undoes_step hd how hop hres hu) h

/-- Operations other than moves can all be taken back. -/
theorem reversible_of_no_move (doc : Json) (h : ∀ source path, .move source path ∉ ops) :
    Reversible doc ops := by
  induction ops generalizing doc with
  | nil => trivial
  | cons op rest ih =>
    refine ⟨?_, fun _ _ => ih _ fun source path hm => h source path (List.mem_cons_of_mem _ hm)⟩
    cases op with
    | move source path => exact absurd List.mem_cons_self (h source path)
    | _ => trivial

/-- The root cannot be removed, so a patch that ends with its removal fails. -/
theorem applyPatch_then_fail (doc : Json) (op : PatchOp) :
    ∃ e, applyPatch doc [op, .remove ⟨[]⟩] = ((applyOp false doc op).takenBack, some e) := by
  rw [applyPatch, runOps]
  rcases applyOp false doc op with ⟨after, failure | inverse⟩
  · exact ⟨_, rfl⟩
  · refine ⟨⟨1, ⟨[]⟩, .invalidPath⟩, ?_⟩
    simp only [runOps, applyOp, removeAt?_root, List.append_nil]
    rfl

/-! ## Runs that come to an operation -/

/-- Operations that all apply do so wherever they stand and whatever came before them. -/
theorem runOps_none {place place' : Nat} {undo' : List PatchOp}
    (h : runOps doc place undo ops = (after, none)) :
    runOps doc place' undo' ops = (after, none) := by
  induction ops generalizing doc place place' undo undo' with
  | nil => exact h
  | cons op rest ih =>
    rw [runOps] at h ⊢
    rcases hop : applyOp false doc op with ⟨next, failure | inverse⟩
    · rw [hop] at h
      cases (Prod.mk.inj h).2
    · rw [hop] at h
      exact ih h

theorem applyPatch_cons {next : Json} {inverse : List PatchOp}
    (h : applyOp false doc op = ⟨next, .ok inverse⟩) :
    applyPatch doc (op :: ops) = (after, none) ↔ applyPatch next ops = (after, none) := by
  rw [applyPatch, runOps, h]
  exact ⟨runOps_none, runOps_none⟩

/-- The first operation of a patch that was applied has inverses. -/
theorem applyOp_of_cons (h : applyPatch doc (op :: ops) = (after, none)) :
    ∃ next inverse, applyOp false doc op = ⟨next, .ok inverse⟩ := by
  rw [applyPatch, runOps] at h
  rcases hop : applyOp false doc op with ⟨next, failure | inverse⟩
  · rw [hop] at h
    cases (Prod.mk.inj h).2
  · exact ⟨next, inverse, rfl⟩

theorem applyPatch_wellFormed (hd : doc.WellFormed) (ho : ∀ op ∈ ops, op.WellFormed)
    (h : applyPatch doc ops = (after, none)) : after.WellFormed := by
  induction ops generalizing doc with
  | nil => exact (Prod.mk.inj h).1 ▸ hd
  | cons op rest ih =>
    obtain ⟨next, inverse, hop⟩ := applyOp_of_cons h
    have hw := applyOp_wellFormed hd (ho op List.mem_cons_self) false
    rw [hop] at hw
    exact ih hw.doc (fun o hm => ho o (List.mem_cons_of_mem _ hm)) ((applyPatch_cons hop).mp h)

theorem reversible_iff : Reversible doc ops ↔ ∀ before op rest d, ops = before ++ op :: rest →
    applyPatch doc before = (d, none) → Revertible d op := by
  induction ops generalizing doc with
  | nil => simp [Reversible]
  | cons first more ih =>
    rw [Reversible]
    constructor
    · rintro ⟨hfirst, hmore⟩ before op rest d hops hrun
      cases before with
      | nil =>
        obtain ⟨rfl, -⟩ := List.cons.inj hops
        obtain rfl := (Prod.mk.inj hrun).1
        exact hfirst
      | cons o before =>
        obtain ⟨rfl, rfl⟩ := List.cons.inj hops
        obtain ⟨next, inverse, hop⟩ := applyOp_of_cons hrun
        rw [hop] at hmore
        exact ih.mp (hmore inverse rfl) before op rest d rfl ((applyPatch_cons hop).mp hrun)
    · intro h
      refine ⟨h [] first more doc rfl rfl, fun inverse hundo => ?_⟩
      rcases hop : applyOp false doc first with ⟨next, undo⟩
      rw [hop] at hundo
      obtain rfl : undo = .ok inverse := hundo
      refine ih.mpr fun before op rest d hops hrun => ?_
      exact h (first :: before) op rest d (by rw [hops, List.cons_append])
        ((applyPatch_cons hop).mpr hrun)

/-- A patch that fails leaves an alike document if it is reversible. It is exactly if each operation
it comes to, when the next one fails, leaves the document that the operation was met with. -/
theorem failed_patch_restores_iff (hd : doc.WellFormed) (ho : ∀ op ∈ ops, op.WellFormed) :
    (Reversible doc ops → ∀ after e, applyPatch doc ops = (after, some e) → after.Alike doc) ∧
    (Reversible doc ops ↔ ∀ before op rest d, ops = before ++ op :: rest →
      applyPatch doc before = (d, none) →
      ∃ after e, applyPatch d [op, .remove ⟨[]⟩] = (after, some e) ∧ after.Alike d) := by
  refine ⟨fun hr after e h => runOps_restores hd ho hr (undoes_nil doc) h, ?_⟩
  rw [reversible_iff]
  refine forall_congr' fun before => forall_congr' fun op => forall_congr' fun rest =>
    forall_congr' fun d => forall_congr' fun hops => forall_congr' fun hrun => ?_
  have hdw : d.WellFormed := applyPatch_wellFormed hd
    (fun o hm => ho o (hops ▸ List.mem_append_left _ hm)) hrun
  obtain ⟨e, he⟩ := applyPatch_then_fail d op
  rw [← takenBack_iff hdw op, he]
  constructor
  · exact fun h => ⟨_, e, rfl, h⟩
  · rintro ⟨after, e', hafter, h⟩
    obtain ⟨rfl, -⟩ := Prod.mk.inj hafter
    exact h

/-- A member that was moved before a failure comes back, behind the others. -/
theorem moved_member_comes_back :
    let doc := obj [("a", int 1), ("b", int 2)]
    let ops := [PatchOp.move ⟨["a"]⟩ ⟨["c"]⟩, .remove ⟨["d"]⟩]
    doc.WellFormed ∧ (∀ op ∈ ops, op.WellFormed) ∧ Reversible doc ops ∧
      applyPatch doc ops =
        (obj [("b", int 2), ("a", int 1)], some ⟨1, ⟨["d"]⟩, .invalidPath⟩) ∧
      (obj [("b", int 2), ("a", int 1)]).Alike doc := by
  intro doc ops
  have hd : doc.WellFormed := by simp [doc, Members.keys, WellFormed, WellFormedMembers]
  have ho : ∀ op ∈ ops, op.WellFormed := by simp [ops, PatchOp.WellFormed]
  have hr : Reversible doc ops := by
    refine ⟨fun _ between value hs => ?_, fun _ _ => ⟨trivial, fun _ _ => trivial⟩⟩
    obtain ⟨rfl, rfl⟩ := Prod.mk.inj (Option.some.inj hs)
    exact ⟨rfl, _, none, rfl, by simp⟩
  exact ⟨hd, ho, hr, rfl, (failed_patch_restores_iff hd ho).1 hr _ _ rfl⟩

/-- Moves that are not taken back: one whose value finds no place, and one into the next item of an
array. -/
theorem moved_values_lost :
    (∃ e, applyPatch (obj [("a", int 1)]) [.move ⟨["a"]⟩ ⟨["b", "c"]⟩] = (obj [], some e)) ∧
    ¬ (obj []).Alike (obj [("a", int 1)]) ∧
    ∃ e, applyPatch (arr [obj [("k", int 0)], obj [("x", int 1)], obj [("x", int 2)]])
        [.move ⟨["0"]⟩ ⟨["1", "x"]⟩, .remove ⟨["y"]⟩] =
        (arr [obj [("k", int 0)], obj [("x", int 2)], obj []], some e) ∧
      ¬ (arr [obj [("k", int 0)], obj [("x", int 2)], obj []]).Alike
        (arr [obj [("k", int 0)], obj [("x", int 1)], obj [("x", int 2)]]) := by
  refine ⟨⟨_, rfl⟩, fun h => ?_, _, rfl, fun h => ?_⟩
  · have := alike_obj.mp h "a"
    cases this
  · have hitem := Option.some.inj (alike_arr_getElem? h 2)
    have := alike_obj.mp hitem "x"
    cases this

end ClusterConfig.Json
