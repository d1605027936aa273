import ClusterConfig.Proofs.Patches.Moves

/-!
# Inverses of operations

An operation is taken back by its inverses, or, where it fails, by none. Of all operations only a
move may not be: where its value finds no place, where the place is above the one it came from, or
where it replaced a member of an item that the move itself has moved.
-/

set_option autoImplicit false

namespace ClusterConfig.Json

variable {a b doc between after value old x y : Json} {source path : Pointer} {flag : Bool}
  {op : PatchOp}

/-! ## Pointers above each other -/

/-- Strictly above: the second pointer leads further on from the first. -/
def Pointer.above (p q : Pointer) : Bool :=
  p.names.isPrefixOf q.names && p.names.length ≠ q.names.length

theorem above_iff : source.above path = true ↔
    ∃ rest, rest ≠ [] ∧ path.names = source.names ++ rest := by
  simp only [Pointer.above, Bool.and_eq_true, List.isPrefixOf_iff_prefix, decide_eq_true_eq]
  constructor
  · rintro ⟨⟨rest, hr⟩, hlen⟩
    refine ⟨rest, ?_, hr.symm⟩
    rintro rfl
    exact hlen (by rw [← hr, List.append_nil])
  · rintro ⟨rest, hr, hp⟩
    refine ⟨⟨rest, hp.symm⟩, ?_⟩
    have := List.length_pos_iff.mpr hr
    rw [hp, List.length_append]
    omega

/-- A prefix that is not strictly above is the whole chain. -/
theorem eq_of_not_above (h : source.above path = false) (hp : source.names <+: path.names) :
    source = path := by
  obtain ⟨rest, hr⟩ := hp
  by_cases hn : rest = []
  · rw [hn, List.append_nil] at hr
    obtain ⟨names⟩ := source
    exact congrArg Pointer.mk hr
  · rw [above_iff.mpr ⟨rest, hn, hr.symm⟩] at h
    cases h

theorem applyOp_move_above (h : source.above path = true) (flag : Bool) (doc : Json) :
    applyOp flag doc (.move source path) = ⟨doc, .error .moveInsideItself⟩ := if_pos h

theorem applyOp_move (h : source.above path = false) (flag : Bool) (doc : Json) :
    applyOp flag doc (.move source path) =
      match removeAt? flag doc source with
      | none => ⟨doc, .error .invalidSource⟩
      | some (between, value) => addOutcome between path value (undoMove source path) :=
  if_neg (by rw [show (source.names.isPrefixOf path.names &&
    decide (source.names.length ≠ path.names.length)) = source.above path from rfl, h]; decide)

/-! ## Operations and alike documents -/

namespace PatchOp

/-- The value of the operation is well formed. -/
def WellFormed : PatchOp → Prop
  | add _ value => value.WellFormed
  | replace _ value => value.WellFormed
  | test _ value => value.WellFormed
  | _ => True

end PatchOp

/-- What an operation leaves is well formed, and so are its inverses. -/
structure Outcome.WellFormed (outcome : Outcome) : Prop where
  doc : outcome.doc.WellFormed
  undo : ∀ ops, outcome.undo = .ok ops → ∀ op ∈ ops, op.WellFormed

theorem Outcome.WellFormed.failed {failure : PatchFailure} (hd : doc.WellFormed) :
    Outcome.WellFormed ⟨doc, .error failure⟩ where
  doc := hd
  undo _ he := by cases he

theorem addOutcome_wellFormed {undo : Option Json → List PatchOp} (hd : doc.WellFormed)
    (hv : value.WellFormed)
    (hu : ∀ r : Option Json, (∀ x ∈ r, x.WellFormed) → ∀ op ∈ undo r, op.WellFormed) :
    (addOutcome doc path value undo).WellFormed := by
  unfold addOutcome
  cases h : addAt? doc path value with
  | none => exact .failed hd
  | some result =>
    obtain ⟨after, r⟩ := result
    obtain ⟨ha, hr⟩ := addAt?_wellFormed hd hv h
    refine ⟨ha, fun ops he => ?_⟩
    cases he
    exact hu r hr

theorem undoAdd_wellFormed (path : Pointer) (r : Option Json) (h : ∀ x ∈ r, x.WellFormed) :
    ∀ op ∈ undoAdd path r, op.WellFormed := by
  cases r with
  | none => simp [undoAdd, PatchOp.WellFormed]
  | some old => simpa [undoAdd, PatchOp.WellFormed] using h

theorem undoMove_wellFormed (source path : Pointer) (r : Option Json) (h : ∀ x ∈ r, x.WellFormed) :
    ∀ op ∈ undoMove source path r, op.WellFormed := by
  cases r with
  | none => simp [undoMove, PatchOp.WellFormed]
  | some old => simpa [undoMove, PatchOp.WellFormed] using h

theorem applyOp_wellFormed (hd : doc.WellFormed) (ho : op.WellFormed) (flag : Bool) :
    (applyOp flag doc op).WellFormed := by
  cases op with
  | add path value => exact addOutcome_wellFormed hd ho (undoAdd_wellFormed path)
  | remove path =>
    rw [applyOp]
    cases h : removeAt? flag doc path with
    | none => exact .failed hd
    | some result =>
      obtain ⟨after, old⟩ := result
      obtain ⟨ha, hold⟩ := removeAt?_wellFormed hd h
      refine ⟨ha, fun ops he => ?_⟩
      cases he
      simpa [PatchOp.WellFormed] using hold
  | replace path value =>
    rw [applyOp]
    cases h : replaceAt? doc path value with
    | none => exact .failed hd
    | some result =>
      obtain ⟨after, old⟩ := result
      obtain ⟨ha, hold⟩ := replaceAt?_wellFormed hd ho h
      refine ⟨ha, fun ops he => ?_⟩
      cases he
      simpa [PatchOp.WellFormed] using hold
  | move source path =>
    cases hab : source.above path with
    | true =>
      rw [applyOp_move_above hab]
      exact .failed hd
    | false =>
      rw [applyOp_move hab]
      cases h : removeAt? flag doc source with
      | none => exact .failed hd
      | some result =>
        obtain ⟨hb, hv⟩ := removeAt?_wellFormed hd h
        exact addOutcome_wellFormed hb hv (undoMove_wellFormed source path)
  | copy source path =>
    rw [applyOp]
    cases h : doc.at? source.names with
    | none => exact .failed hd
    | some value => exact addOutcome_wellFormed hd (at?_wellFormed hd h) (undoAdd_wellFormed path)
  | test path value =>
    rw [applyOp]
    split
    · exact .failed hd
    · split
      · refine ⟨hd, fun ops he => ?_⟩
        cases he
        simp
      · exact .failed hd

theorem addOutcome_alike {undo undo' : Option Json → List PatchOp} (ha : a.WellFormed)
    (hb : b.WellFormed) (h : a.Alike b) (hxy : x.Alike y) :
    (addOutcome a path x undo).doc.Alike (addOutcome b path y undo').doc := by
  have hrel := addAt?_alike ha hb h hxy path
  unfold addOutcome
  revert hrel
  cases addAt? a path x <;> cases addAt? b path y <;> intro hrel
  case none.none => exact h
  case some.some p q => exact (Option.rel_some_some.mp hrel).1
  all_goals cases hrel

theorem applyOp_alike (ha : a.WellFormed) (hb : b.WellFormed) (h : a.Alike b) (flag : Bool)
    (op : PatchOp) : (applyOp flag a op).doc.Alike (applyOp flag b op).doc := by
  cases op with
  | add path value => exact addOutcome_alike ha hb h (Alike.refl value)
  | remove path =>
    have hrel := removeAt?_alike ha hb h flag path
    rw [applyOp, applyOp]
    revert hrel
    cases removeAt? flag a path <;> cases removeAt? flag b path <;> intro hrel
    case none.none => exact h
    case some.some p q => exact (Option.rel_some_some.mp hrel).1
    all_goals cases hrel
  | replace path value =>
    have hrel := replaceAt?_alike ha hb h (Alike.refl value) path
    rw [applyOp, applyOp]
    revert hrel
    cases replaceAt? a path value <;> cases replaceAt? b path value <;> intro hrel
    case none.none => exact h
    case some.some p q => exact (Option.rel_some_some.mp hrel).1
    all_goals cases hrel
  | move source path =>
    cases hab : source.above path with
    | true =>
      rw [applyOp_move_above hab, applyOp_move_above hab]
      exact h
    | false =>
      have hrel := removeAt?_alike ha hb h flag source
      rw [applyOp_move hab, applyOp_move hab]
      cases hp : removeAt? flag a source <;> cases hq : removeAt? flag b source <;>
        rw [hp, hq] at hrel
      case none.none => exact h
      case some.some p q =>
        obtain ⟨hdoc, hvalue⟩ := Option.rel_some_some.mp hrel
        exact addOutcome_alike (removeAt?_wellFormed ha hp).1 (removeAt?_wellFormed hb hq).1 hdoc
          hvalue
      all_goals cases hrel
  | copy source path =>
    have hat := at?_alike h source.names
    rw [applyOp, applyOp]
    revert hat
    cases a.at? source.names <;> cases b.at? source.names <;> intro hat
    case none.none => exact h
    case some.some x y => exact addOutcome_alike ha hb h (Option.some.inj hat)
    all_goals cases hat
  | test path value =>
    have hsame (d : Json) : (applyOp flag d (.test path value)).doc = d := by
      rw [applyOp]
      split
      · rfl
      · split <;> rfl
    rw [hsame, hsame]
    exact h

theorem undoAll_append (doc : Json) (ops more : List PatchOp) :
    undoAll doc (ops ++ more) = undoAll (undoAll doc ops) more := List.foldl_append

theorem undoAll_wellFormed {ops : List PatchOp} (hd : doc.WellFormed)
    (ho : ∀ op ∈ ops, op.WellFormed) : (undoAll doc ops).WellFormed := by
  induction ops generalizing doc with
  | nil => exact hd
  | cons op rest ih =>
    exact ih (applyOp_wellFormed hd (ho op List.mem_cons_self) true).doc
      fun o hm => ho o (List.mem_cons_of_mem _ hm)

theorem undoAll_alike {ops : List PatchOp} (ha : a.WellFormed) (hb : b.WellFormed)
    (h : a.Alike b) (ho : ∀ op ∈ ops, op.WellFormed) : (undoAll a ops).Alike (undoAll b ops) := by
  induction ops generalizing a b with
  | nil => exact h
  | cons op rest ih =>
    have hop := ho op List.mem_cons_self
    exact ih (applyOp_wellFormed ha hop true).doc (applyOp_wellFormed hb hop true).doc
      (applyOp_alike ha hb h true op) fun o hm => ho o (List.mem_cons_of_mem _ hm)

/-! ## Operations taken back -/

/-- A move can be taken back if its value finds a place, one that is not above its own, and if what
it replaces there does not lie in an item that the move has moved. -/
def Revertible (doc : Json) : PatchOp → Prop
  | .move source path => source.above path = false →
    ∀ between value, removeAt? false doc source = some (between, value) →
      path.above source = false ∧ ∃ after old, addAt? between path value = some (after, old) ∧
        (old.isSome → ¬ doc.Shifts source path)
  | _ => True

/-- The document after an operation and its inverses, or after what it did before it failed. -/
def Outcome.takenBack : Outcome → Json
  | ⟨after, .ok inverse⟩ => undoAll after inverse
  | ⟨after, .error _⟩ => after

theorem undoAll_single (doc : Json) (op : PatchOp) : undoAll doc [op] = (applyOp true doc op).doc :=
  rfl

theorem undoAll_pair (doc : Json) (op op' : PatchOp) :
    undoAll doc [op, op'] = (applyOp true (applyOp true doc op).doc op').doc := rfl

/-- An addition is taken back to the same document. -/
theorem addOutcome_takenBack (hd : doc.WellFormed) (path : Pointer) (value : Json) :
    (addOutcome doc path value (undoAdd path)).takenBack = doc := by
  unfold addOutcome
  cases hadd : addAt? doc path value with
  | none => rfl
  | some result =>
    obtain ⟨after, old⟩ := result
    cases old with
    | none =>
      simp only [Outcome.takenBack, undoAdd, undoAll_single, applyOp, removeAt?_added hd hadd]
    | some old =>
      simp only [Outcome.takenBack, undoAdd, undoAll_single, applyOp, addOutcome,
        addAt?_replaced hd hadd]

section Move

variable (hab : source.above path = false) (hs : removeAt? false doc source = some (between, value))
include hab hs

theorem move_takenBack_error (hp : addAt? between path value = none) :
    (applyOp false doc (.move source path)).takenBack = between := by
  rw [applyOp_move hab, hs]
  simp only [addOutcome, hp, Outcome.takenBack]

theorem move_takenBack_none (hp : addAt? between path value = some (after, none)) :
    (applyOp false doc (.move source path)).takenBack =
      (applyOp true after (.move path source)).doc := by
  rw [applyOp_move hab, hs]
  simp only [addOutcome, hp, Outcome.takenBack, undoMove, undoAll_single]

theorem move_takenBack_some (hp : addAt? between path value = some (after, some old)) :
    (applyOp false doc (.move source path)).takenBack =
      (applyOp true (applyOp true after (.move path source)).doc (.add path old)).doc := by
  rw [applyOp_move hab, hs]
  simp only [addOutcome, hp, Outcome.takenBack, undoMove, undoAll_pair]

end Move

/-- A move that replaced nothing is taken back unless it went above its own place. -/
theorem move_none_iff (hd : doc.WellFormed) (hab : source.above path = false)
    (hs : removeAt? false doc source = some (between, value))
    (hp : addAt? between path value = some (after, none)) :
    (applyOp false doc (.move source path)).takenBack.Alike doc ↔ path.above source = false := by
  rw [move_takenBack_none hab hs hp]
  cases hup : path.above source with
  | true =>
    obtain ⟨rest, hr, hn⟩ := above_iff.mp hup
    obtain ⟨names⟩ := source
    obtain rfl : names = path.names ++ rest := hn
    rw [applyOp_move_above hup]
    simpa using inserted_above_not_alike hr hs hp
  | false =>
    have hbw := (removeAt?_wellFormed hd hs).1
    obtain ⟨back, hback, hbd⟩ := addAt?_removed hd hs
    rw [applyOp_move hup, removeAt?_added hbw hp]
    simpa [addOutcome, hback] using hbd

/-- A move that replaced a member is taken back unless it went above its own place or moved the
item that the member lies in. -/
theorem move_some_iff (hd : doc.WellFormed) (hab : source.above path = false)
    (hs : removeAt? false doc source = some (between, value))
    (hp : addAt? between path value = some (after, some old)) :
    (applyOp false doc (.move source path)).takenBack.Alike doc ↔
      path.above source = false ∧ ¬ doc.Shifts source path := by
  have hbw := removeAt?_wellFormed hd hs
  have haw := addAt?_wellFormed hbw.1 hbw.2 hp
  rw [move_takenBack_some hab hs hp]
  cases hup : path.above source with
  | true =>
    -- the value is not moved back, and what was removed stays so
    rw [applyOp_move_above hup, applyOp, addOutcome, addAt?_replaced hbw.1 hp]
    simpa using removeAt?_not_alike hd hs
  | false =>
    have hsp : ¬ source.names <+: path.names := by
      intro h
      obtain rfl := eq_of_not_above hab h
      obtain ⟨back, hback, -⟩ := addAt?_removed hd hs
      rw [hback] at hp
      cases hp
    have hps : ¬ path.names <+: source.names := by
      intro h
      obtain rfl := eq_of_not_above hup h
      exact hsp List.prefix_rfl
    by_cases hsh : doc.Shifts source path
    · have hpn : path.names ≠ [] := fun h => hps (h ▸ List.nil_prefix)
      obtain ⟨-, taken, -, htaken, -⟩ := removeAt?_replaced hbw.1 hpn hp true
      obtain ⟨back, r, hback, hb, hf⟩ := shifted_not_restored hd hsh hs hp htaken
      rw [applyOp_move hup, htaken]
      simp only [addOutcome, hback, applyOp]
      cases hfinal : addAt? back path old with
      | none => simpa [hsh] using hb
      | some result => simpa [hsh] using hf result.1 result.2 hfinal
    · obtain ⟨taken, back, final, r, r', htaken, hback, hfinal, halike⟩ :=
        moveBack_replaced hd haw.1 hs hp hsp hps hsh
      rw [applyOp_move hup, htaken]
      simp only [addOutcome, hback, applyOp, hfinal]
      simpa [hsh] using halike

/-- An operation is taken back, up to the order of members, exactly if it is revertible. -/
theorem takenBack_iff (hd : doc.WellFormed) (op : PatchOp) :
    (applyOp false doc op).takenBack.Alike doc ↔ Revertible doc op := by
  cases op with
  | add path value =>
    rw [applyOp, addOutcome_takenBack hd]
    exact ⟨fun _ => trivial, fun _ => Alike.refl doc⟩
  | remove path =>
    refine ⟨fun _ => trivial, fun _ => ?_⟩
    rw [applyOp]
    cases h : removeAt? false doc path with
    | none => exact Alike.refl doc
    | some result =>
      obtain ⟨back, hback, hbd⟩ := addAt?_removed hd h
      simpa [Outcome.takenBack, undoAll_single, applyOp, addOutcome, hback] using hbd
  | replace path value =>
    refine ⟨fun _ => trivial, fun _ => ?_⟩
    rw [applyOp]
    cases h : replaceAt? doc path value with
    | none => exact Alike.refl doc
    | some result =>
      simp only [Outcome.takenBack, undoAll_single, applyOp, replaceAt?_replaced hd h]
      exact Alike.refl doc
  | move source path =>
    cases hab : source.above path with
    | true =>
      rw [applyOp_move_above hab]
      simp [Outcome.takenBack, Revertible, hab, Alike]
    | false =>
      cases hs : removeAt? false doc source with
      | none =>
        rw [applyOp_move hab, hs]
        simp [Outcome.takenBack, Revertible, hs, Alike]
      | some result =>
        obtain ⟨between, value⟩ := result
        simp only [Revertible, hab, hs, Option.some.injEq, Prod.mk.injEq, true_imp_iff]
        cases hp : addAt? between path value with
        | none =>
          rw [move_takenBack_error hab hs hp]
          simp [hp, removeAt?_not_alike hd hs]
        | some result =>
          obtain ⟨after, old⟩ := result
          cases old with
          | none =>
            rw [move_none_iff hd hab hs hp]
            simp [hp]
          | some old =>
            rw [move_some_iff hd hab hs hp]
            simp [hp]
  | copy source path =>
    refine ⟨fun _ => trivial, fun _ => ?_⟩
    rw [applyOp]
    cases doc.at? source.names with
    | none => exact Alike.refl doc
    | some value =>
      simp only [addOutcome_takenBack hd]
      exact Alike.refl doc
  | test path value =>
    refine ⟨fun _ => trivial, fun _ => ?_⟩
    rw [applyOp]
    split
    · exact Alike.refl doc
    · split <;> exact Alike.refl doc

end ClusterConfig.Json
