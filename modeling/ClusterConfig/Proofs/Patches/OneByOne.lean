import ClusterConfig.Proofs.Cluster.RoundTrip
import ClusterConfig.Proofs.Patches.Atomicity
import ClusterConfig.Proofs.Patches.Checked
import ClusterConfig.Proofs.Yaml.WrittenNodes

/-!
# Operations one by one and together

The operations of a node are checked and applied one after the other. Those that a reference leads
to are all checked, then all read, and then applied as one patch. Where either way ends without a
failure, each operation has the right shape, each is read, and each applies to what those before it
left. So both ways succeed for the same documents and leave the same.
-/

set_option autoImplicit false

namespace ClusterConfig

namespace Json

variable {doc after : Json} {op : PatchOp} {ops : List PatchOp}

/-- A patch applies if its first operation does and the others apply to what it leaves. -/
theorem applyPatch_cons_eq_none : applyPatch doc (op :: ops) = (after, none) ↔
    ∃ between, applyPatch doc [op] = (between, none) ∧
      applyPatch between ops = (after, none) := by
  constructor
  · intro h
    obtain ⟨next, inverse, hop⟩ := applyOp_of_cons h
    exact ⟨next, (applyPatch_cons hop).mpr rfl, (applyPatch_cons hop).mp h⟩
  · rintro ⟨between, hone, hrest⟩
    obtain ⟨next, inverse, hop⟩ := applyOp_of_cons hone
    obtain ⟨rfl, -⟩ := Prod.mk.inj ((applyPatch_cons hop).mp hone)
    exact (applyPatch_cons hop).mpr hrest

end Json

namespace Patch

open Json (PatchOp)

variable {state final : State} {source : Documents.Source} {reference text : String} {index : Nat}
  {operation : LooseOp} {operations more : List LooseOp} {doc : Json} {docs : List Json}

/-! ## Steps that succeed -/

theorem andThen_eq_ok {step : Step} {next : State → Step} :
    step.andThen next = (final, .ok ()) ↔
      ∃ between, step = (between, .ok ()) ∧ next between = (final, .ok ()) := by
  obtain ⟨state, failure | done⟩ := step
  · simp [Step.andThen]
  · simp [Step.andThen]

/-- Operations are read in order, each by itself. -/
theorem listOfJson?_cons {ops : List PatchOp} : PatchOp.listOfJson? (doc :: docs) = some ops ↔
    ∃ op rest, PatchOp.listOfJson? [doc] = some [op] ∧ PatchOp.listOfJson? docs = some rest ∧
      ops = op :: rest := by
  cases hdoc : PatchOp.ofJson? doc <;> cases hdocs : docs.mapM PatchOp.ofJson? <;>
    simp [PatchOp.listOfJson?, hdoc, hdocs, eq_comm]

theorem applyOperations_eq_ok : applyOperations docs state = (final, .ok ()) ↔
    ∃ ops, PatchOp.listOfJson? docs = some ops ∧
      Json.applyPatch state.doc ops = (final.doc, none) ∧ final.vars = state.vars := by
  obtain ⟨doc, vars⟩ := final
  unfold applyOperations
  cases hread : PatchOp.listOfJson? docs with
  | none => simp
  | some ops =>
    rcases hpatch : Json.applyPatch state.doc ops with ⟨after, _ | reason⟩
    · simp [hpatch, eq_comm]
    · simp [hpatch]

theorem applyOperations_nil : applyOperations [] state = (state, .ok ()) := rfl

/-- Operations apply together if the first does and the others apply to what it leaves. -/
theorem applyOperations_cons : applyOperations (doc :: docs) state = (final, .ok ()) ↔
    ∃ between, applyOperations [doc] state = (between, .ok ()) ∧
      applyOperations docs between = (final, .ok ()) := by
  simp only [applyOperations_eq_ok]
  constructor
  · rintro ⟨ops, hread, hpatch, hvars⟩
    obtain ⟨op, rest, hdoc, hdocs, rfl⟩ := listOfJson?_cons.mp hread
    obtain ⟨between, hone, hrest⟩ := Json.applyPatch_cons_eq_none.mp hpatch
    exact ⟨⟨between, state.vars⟩, ⟨[op], hdoc, hone, rfl⟩, rest, hdocs, hrest, hvars⟩
  · rintro ⟨between, ⟨one, hdoc, hone, hbetween⟩, rest, hdocs, hrest, hvars⟩
    obtain ⟨op, _, hop, hnil, rfl⟩ := listOfJson?_cons.mp hdoc
    obtain rfl := Option.some.inj hnil
    exact ⟨op :: rest, listOfJson?_cons.mpr ⟨op, rest, hop, hdocs, rfl⟩,
      Json.applyPatch_cons_eq_none.mpr ⟨between.doc, hone, hrest⟩, hvars.trans hbetween⟩

theorem applyOperation_eq_ok : applyOperation index operation state = (final, .ok ()) ↔
    (∃ kind, checkOperation operation = .ok kind) ∧
      applyOperations [operation.toJson] state = (final, .ok ()) := by
  unfold applyOperation
  cases hcheck : checkOperation operation with
  | error reason => simp
  | ok kind =>
    rcases hresult : applyOperations [operation.toJson] state with ⟨after, failure | done⟩
    · simp [Except.mapError]
    · simp [Except.mapError]

theorem checkAll_eq_nil :
    checkAll docs = [] ↔ ∀ doc ∈ docs, ∃ kind, checkValue doc = .ok kind := by
  refine ⟨checkAll_nil, fun h => List.filterMap_eq_nil_iff.mpr ?_⟩
  rintro ⟨doc, place⟩ hm
  obtain ⟨kind, hkind⟩ := h doc (List.mem_of_getElem? (List.mem_zipIdx_iff_getElem?.mp hm))
  simp only [hkind]

theorem checkAll_map_toJson : checkAll (operations.map LooseOp.toJson) = [] ↔
    ∀ operation ∈ operations, ∃ kind, checkOperation operation = .ok kind := by
  simp only [checkAll_eq_nil, List.forall_mem_map, checkValue_toJson]

/-! ## Runs -/

theorem eachInOrder_append_eq_ok {α : Type} {step : Nat → α → State → Step}
    {items others : List α} :
    eachInOrder step index (items ++ others) state = (final, .ok ()) ↔
      ∃ between, eachInOrder step index items state = (between, .ok ()) ∧
        eachInOrder step (index + items.length) others between = (final, .ok ()) := by
  induction items generalizing index state with
  | nil => simp [eachInOrder]
  | cons item rest ih =>
    simp only [List.cons_append, eachInOrder, andThen_eq_ok, ih, List.length_cons,
      Nat.add_comm rest.length, ← Nat.add_assoc]
    constructor
    · rintro ⟨first, hstep, between, hrest, hothers⟩
      exact ⟨between, ⟨first, hstep, hrest⟩, hothers⟩
    · rintro ⟨between, ⟨first, hstep, hrest⟩, hothers⟩
      exact ⟨first, hstep, between, hrest, hothers⟩

/-- Operations one by one do what they do together, if all of them have the right shape. -/
theorem eachOperation_eq_ok :
    eachInOrder applyOperation index operations state = (final, .ok ()) ↔
      checkAll (operations.map LooseOp.toJson) = [] ∧
        applyOperations (operations.map LooseOp.toJson) state = (final, .ok ()) := by
  rw [checkAll_map_toJson]
  induction operations generalizing index state with
  | nil => simp [eachInOrder, applyOperations_nil]
  | cons operation rest ih =>
    rw [eachInOrder, andThen_eq_ok, List.forall_mem_cons, List.map_cons, applyOperations_cons]
    simp only [applyOperation_eq_ok, ih]
    constructor
    · rintro ⟨between, ⟨hfirst, hone⟩, hshapes, hrest⟩
      exact ⟨⟨hfirst, hshapes⟩, between, hone, hrest⟩
    · rintro ⟨⟨hfirst, hshapes⟩, between, hone, hrest⟩
      exact ⟨between, ⟨hfirst, hone⟩, hshapes, hrest⟩

theorem applyResolved_arr_eq_ok : applyResolved reference (.arr docs) state = (final, .ok ()) ↔
    checkAll docs = [] ∧ applyOperations docs state = (final, .ok ()) := by
  cases hcheck : checkAll docs with
  | cons found rest => simp [applyResolved, hcheck]
  | nil =>
    rcases hresult : applyOperations docs state with ⟨after, failure | done⟩ <;>
      simp [applyResolved, hcheck, hresult, Except.mapError]

theorem eachOperation_iff_resolved :
    eachInOrder applyOperation index operations state = (final, .ok ()) ↔
      applyResolved reference (.arr (operations.map LooseOp.toJson)) state = (final, .ok ()) :=
  eachOperation_eq_ok.trans applyResolved_arr_eq_ok.symm

/-! ## References -/

/-- What a reference does is what its text says, with the variables that reading it leaves. -/
theorem applyReference_of_text {vars : Bindings}
    (hresolve : resolve source reference state.vars = (vars, .ok text))
    (hread : Yaml.parseJson? text = some doc) :
    applyReference source index reference state =
      applyResolved reference doc { state with vars } := by
  simp only [applyReference, hresolve, hread]

theorem parse_of_head (h : text.toList.head? ≠ some '@') : Reference.parse text = .inline text := by
  unfold Reference.parse
  split
  case h_1 hat => simp [hat] at h
  case h_2 hat => simp [hat] at h
  case h_3 => rfl

/-- Operations as the text of one reference. -/
def asReference (operations : List LooseOp) : String :=
  Yaml.writeJson (.arr (operations.map LooseOp.toJson))

theorem resolve_asReference (source : Documents.Source) (operations : List LooseOp)
    (vars : Bindings) :
    resolve source (asReference operations) vars = (vars, .ok (asReference operations)) := by
  have hinline : Reference.parse (asReference operations) = .inline (asReference operations) :=
    parse_of_head (Yaml.head?_writeJson_arr _)
  simp only [resolve, hinline]

theorem parseJson?_asReference (hf : ∀ operation ∈ operations, operation.Fits)
    (hn : (Json.arr (operations.map LooseOp.toJson)).nesting ≤ Yaml.nestingLimit) :
    Yaml.parseJson? (asReference operations) = some (.arr (operations.map LooseOp.toJson)) := by
  have hsound : (Json.arr (operations.map LooseOp.toJson)).Sound :=
    Json.sound_arr.mpr <| List.forall_mem_map.mpr fun operation hm =>
      (LooseOp.readBack (hf operation hm)).sound
  exact Yaml.parseJson?_writeJson hsound.1 hsound.2 hn

/-- The places of references do not count. -/
theorem eachReference_index (i j : Nat) (references : List String) :
    eachInOrder (applyReference source) i references =
      eachInOrder (applyReference source) j references := by
  induction references generalizing i j with
  | nil => rfl
  | cons reference rest ih =>
    funext state
    rw [eachInOrder, eachInOrder, ih (i + 1) (j + 1)]
    rfl

/-! ## Sets of patches -/

namespace PatchSet

theorem apply_eq_ok {set : PatchSet} : set.apply source state = (final, .ok ()) ↔
    ∃ merged between, eachInOrder applyMerge 0 set.merges state = (merged, .ok ()) ∧
      eachInOrder applyOperation 0 set.operations merged = (between, .ok ()) ∧
      eachInOrder (applyReference source) 0 set.references between = (final, .ok ()) := by
  simp only [apply, andThen_eq_ok]
  constructor
  · rintro ⟨between, ⟨merged, hmerges, hoperations⟩, hreferences⟩
    exact ⟨merged, between, hmerges, hoperations, hreferences⟩
  · rintro ⟨merged, between, hmerges, hoperations, hreferences⟩
    exact ⟨between, ⟨merged, hmerges, hoperations⟩, hreferences⟩

theorem apply_operations : apply source { operations } state =
    eachInOrder applyOperation 0 operations state := by
  rw [apply]
  rcases h : eachInOrder applyOperation 0 operations state with ⟨after, failure | done⟩ <;>
    simp [eachInOrder, Step.andThen, h]

theorem apply_reference : apply source { references := [reference] } state =
    applyReference source 0 reference state := by
  rw [apply]
  rcases h : applyReference source 0 reference state with ⟨after, failure | done⟩ <;>
    simp [eachInOrder, Step.andThen, h]

/-- The last operations of a set may as well be the first of its references. -/
theorem apply_moved (merges : List Json) (earlier : List LooseOp) (references : List String)
    (h : ∀ state, applyReference source 0 reference state =
      applyResolved reference (.arr (operations.map LooseOp.toJson)) state) :
    apply source ⟨merges, earlier ++ operations, references⟩ state = (final, .ok ()) ↔
      apply source ⟨merges, earlier, reference :: references⟩ state = (final, .ok ()) := by
  have hmove (index : Nat) (between after : State) :
      eachInOrder applyOperation index operations between = (after, .ok ()) ↔
        applyReference source 0 reference between = (after, .ok ()) := by
    rw [h]
    exact eachOperation_iff_resolved
  simp only [apply_eq_ok, eachInOrder_append_eq_ok, hmove, eachInOrder, andThen_eq_ok,
    eachReference_index (0 + 1) 0]
  constructor
  · rintro ⟨merged, after, hmerges, ⟨between, hearlier, hmoved⟩, hreferences⟩
    exact ⟨merged, between, hmerges, hearlier, after, hmoved, hreferences⟩
  · rintro ⟨merged, between, hmerges, hearlier, after, hmoved, hreferences⟩
    exact ⟨merged, after, hmerges, ⟨between, hearlier, hmoved⟩, hreferences⟩

end PatchSet

/-- What operations do does not depend on the variables. -/
theorem applyResolved_arr_vars (vars : Bindings) (after : Json) :
    applyResolved reference (.arr docs) state = (⟨after, state.vars⟩, .ok ()) ↔
      applyResolved reference (.arr docs) { state with vars } = (⟨after, vars⟩, .ok ()) := by
  simp only [applyResolved_arr_eq_ok, applyOperations_eq_ok, and_true]

/-- Operations succeed exactly where the list of their documents does as one patch, and leave the
same document. So they do if a reference leads to that list, and the last of the operations of a
node can be written in front of its references. -/
theorem operations_as_reference (source : Documents.Source) (operations : List LooseOp) :
    (∀ reference state final,
      PatchSet.apply source { operations } state = (final, .ok ()) ↔
        applyResolved reference (.arr (operations.map LooseOp.toJson)) state = (final, .ok ())) ∧
    (∀ reference text state vars after,
      resolve source reference state.vars = (vars, .ok text) →
      Yaml.parseJson? text = some (.arr (operations.map LooseOp.toJson)) →
        (PatchSet.apply source { operations } state = (⟨after, state.vars⟩, .ok ()) ↔
          PatchSet.apply source { references := [reference] } state = (⟨after, vars⟩, .ok ()))) ∧
    ((∀ operation ∈ operations, operation.Fits) →
      (Json.arr (operations.map LooseOp.toJson)).nesting ≤ Yaml.nestingLimit →
      ∀ merges earlier references state final,
        PatchSet.apply source ⟨merges, earlier ++ operations, references⟩ state =
            (final, .ok ()) ↔
          PatchSet.apply source ⟨merges, earlier, asReference operations :: references⟩ state =
            (final, .ok ())) := by
  have hone (reference state final) :
      PatchSet.apply source { operations } state = (final, .ok ()) ↔
        applyResolved reference (.arr (operations.map LooseOp.toJson)) state = (final, .ok ()) := by
    rw [PatchSet.apply_operations]
    exact eachOperation_iff_resolved
  refine ⟨hone, ?_, ?_⟩
  · intro reference text state vars after hresolve hread
    rw [hone reference, applyResolved_arr_vars vars, PatchSet.apply_reference,
      applyReference_of_text hresolve hread]
  · intro hf hn merges earlier references state final
    exact PatchSet.apply_moved merges earlier references fun state =>
      applyReference_of_text (resolve_asReference source operations state.vars)
        (parseJson?_asReference hf hn)

/-- A null that is added and a member that is moved, as operations and as a reference behind a merge
patch. -/
theorem null_and_move_as_reference :
    let operations : List LooseOp :=
      [{ op := some "add", path := some "/b", value := some .null },
        { op := some "move", path := some "/c", source := some "/a" }]
    let source : Documents.Source := ⟨{}, Encryption.Decryptor.unavailable⟩
    let before : State := ⟨.obj [("a", .int 1)], {}⟩
    let after : State := ⟨.obj [("b", .null), ("c", .int 1)], {}⟩
    (∀ operation ∈ operations, operation.Fits) ∧
      (Json.arr (operations.map LooseOp.toJson)).nesting ≤ Yaml.nestingLimit ∧
      Yaml.parseJson? (asReference operations) = some (.arr (operations.map LooseOp.toJson)) ∧
      PatchSet.apply source { operations } before = (after, .ok ()) ∧
      applyResolved "" (.arr (operations.map LooseOp.toJson)) before = (after, .ok ()) ∧
      PatchSet.apply source { references := [asReference operations] } before = (after, .ok ()) ∧
      PatchSet.apply source ⟨[.obj [("a", .int 1)]], [], [asReference operations]⟩
        ⟨.obj [], {}⟩ = (after, .ok ()) := by
  intro operations source before after
  have hf : ∀ operation ∈ operations, operation.Fits := by
    simp [operations, LooseOp.Fits, Json.Sound, Json.WellFormed, Yaml.NumbersFit]
  have hn : (Json.arr (operations.map LooseOp.toJson)).nesting ≤ Yaml.nestingLimit := by decide
  have hread := parseJson?_asReference hf hn
  have hrun : PatchSet.apply source { operations } before = (after, .ok ()) := rfl
  have hmerged : PatchSet.apply source ⟨[.obj [("a", .int 1)]], [] ++ operations, []⟩
      ⟨.obj [], {}⟩ = (after, .ok ()) := rfl
  obtain ⟨hresolved, hreference, hmoved⟩ := operations_as_reference source operations
  exact ⟨hf, hn, hread, hrun, (hresolved "" before after).mp hrun,
    (hreference _ _ before {} after.doc (resolve_asReference source operations {}) hread).mp hrun,
    (hmoved hf hn _ [] [] _ after).mp hmerged⟩

end Patch

end ClusterConfig
