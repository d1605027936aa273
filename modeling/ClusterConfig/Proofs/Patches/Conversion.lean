import Mathlib
import ClusterConfig.Json.Patch
import ClusterConfig.Patch.Shape
import ClusterConfig.Proofs.Documents.Unordered

/-!
# Reading checked operations

An operation whose shape was checked is read as a typed one unless it lacks the value that a
replacement or a test needs, or one of its pointers has a tilde that escapes nothing. The check
leaves both to the reader.
-/

set_option autoImplicit false

namespace ClusterConfig

/-! ## Tildes -/

namespace Json

variable {c : Char} {cs name : List Char} {text : String}

/-- Every tilde stands before a zero or a one. -/
def TildesEscape (cs : List Char) : Prop :=
  ∀ before after, cs = before ++ '~' :: after → ∃ d rest, after = d :: rest ∧ (d = '0' ∨ d = '1')

theorem tildesEscape_cons : TildesEscape (c :: cs) ↔
    (c = '~' → ∃ d rest, cs = d :: rest ∧ (d = '0' ∨ d = '1')) ∧ TildesEscape cs := by
  constructor
  · intro h
    refine ⟨?_, fun before after hcs => h (c :: before) after (by rw [hcs, List.cons_append])⟩
    rintro rfl
    exact h [] cs rfl
  · rintro ⟨hc, hcs⟩ before after h
    cases before with
    | nil =>
      obtain ⟨rfl, rfl⟩ := List.cons.inj h
      exact hc rfl
    | cons d before =>
      obtain ⟨rfl, rfl⟩ := List.cons.inj h
      exact hcs before after rfl

theorem readNames_isSome (name cs : List Char) :
    (Pointer.readNames name cs).isSome ↔ TildesEscape cs := by
  fun_induction Pointer.readNames name cs with
  | case1 => simp [TildesEscape]
  | case2 name rest ih => simp [tildesEscape_cons, ih]
  | case3 name rest ih => simp [tildesEscape_cons, ih]
  | case4 name rest ih => simp [tildesEscape_cons, ih]
  | case5 name rest _ h0 h1 =>
    simp only [Option.isSome_none, Bool.false_eq_true, tildesEscape_cons, false_iff]
    rintro ⟨h, -⟩
    obtain ⟨d, more, rfl, rfl | rfl⟩ := h trivial
    · exact h0 more rfl rfl
    · exact h1 more rfl rfl
  | case6 name c rest _ _ _ hc ih => simp [tildesEscape_cons, ih, hc]

end Json

/-! ## Fields -/

namespace LooseOp

variable {spec spec' : LooseOp} {name field : String} {value : Json} {members : Members Json}

/-- The document of a field. -/
def get? (spec : LooseOp) : String → Option Json
  | "op" => spec.op.map .str
  | "path" => spec.path.map .str
  | "from" => spec.source.map .str
  | "value" => spec.value
  | _ => none

/-- What a member gives its field: a null that is not a value counts as missing. -/
def fieldOf (name : String) (value : Json) : Option Json :=
  if name = "value" then some value else value.str?.map .str

theorem textField_eq_ok {text : Option String} (h : textField value = .ok text) :
    value.str? = text := by
  cases value with
  | null => exact Except.ok.inj h
  | str s => exact Except.ok.inj h
  | _ => cases h

theorem setField_get? (hf : field ∈ fieldOrder) (h : spec.setField name value = .ok spec') :
    spec'.get? field = if field = name then fieldOf name value else spec.get? field := by
  unfold setField at h
  split at h
  case h_4 =>
    obtain rfl := Except.ok.inj h
    simp only [fieldOrder, List.mem_cons, List.not_mem_nil, or_false] at hf
    rcases hf with rfl | rfl | rfl | rfl <;> rfl
  case h_5 hop hpath hsource hvalue =>
    obtain rfl := Except.ok.inj h
    simp only [fieldOrder, List.mem_cons, List.not_mem_nil, or_false] at hf
    rw [if_neg]
    rintro rfl
    rcases hf with rfl | rfl | rfl | rfl <;> contradiction
  all_goals
    obtain ⟨text, ht, rfl⟩ : ∃ text, textField value = .ok text ∧ _ = spec' := by
      cases hv : textField value with
      | error e =>
        rw [hv] at h
        cases h
      | ok text =>
        rw [hv] at h
        exact ⟨text, rfl, Except.ok.inj h⟩
    simp only [fieldOrder, List.mem_cons, List.not_mem_nil, or_false] at hf
    rcases hf with rfl | rfl | rfl | rfl <;> simp [get?, fieldOf, textField_eq_ok ht]

theorem foldlM_get? {acc : LooseOp} (hd : members.keys.Nodup) (hf : field ∈ fieldOrder)
    (h : members.foldlM (fun spec member => spec.setField member.1 member.2) acc = .ok spec) :
    spec.get? field = (members.get? field).elim (acc.get? field) (fieldOf field) := by
  induction members generalizing acc with
  | nil =>
    obtain rfl : acc = spec := Except.ok.inj h
    rfl
  | cons entry rest ih =>
    obtain ⟨name, value⟩ := entry
    obtain ⟨hname, hrest⟩ := List.nodup_cons.mp hd
    rw [List.foldlM_cons] at h
    cases hacc : acc.setField name value with
    | error e =>
      rw [hacc] at h
      cases h
    | ok acc' =>
      rw [hacc] at h
      rw [ih hrest h, setField_get? hf hacc, Members.get?]
      by_cases hn : name = field
      · -- names differ, so nothing after this member sets its field
        subst hn
        rw [if_pos rfl, if_pos rfl, Members.get?_eq_none_iff.mpr hname]
        rfl
      · rw [if_neg (Ne.symm hn), if_neg hn]

/-- The fields of an operation that was read are those of its members. -/
theorem ofJson_get? (hd : members.keys.Nodup) (hf : field ∈ fieldOrder)
    (h : ofJson (.obj members) = .ok spec) :
    spec.get? field = (members.get? field).bind (fieldOf field) := by
  rw [foldlM_get? hd hf h]
  simp only [fieldOrder, List.mem_cons, List.not_mem_nil, or_false] at hf
  rcases hf with rfl | rfl | rfl | rfl <;> cases members.get? _ <;> rfl

/-- A text field was a string. -/
theorem member_of_text {text : String} (hd : members.keys.Nodup) (hf : field ∈ fieldOrder)
    (hv : field ≠ "value") (h : ofJson (.obj members) = .ok spec)
    (ht : spec.get? field = some (.str text)) : members.get? field = some (.str text) := by
  rw [ofJson_get? hd hf h] at ht
  obtain ⟨value, hm, hv'⟩ := Option.bind_eq_some_iff.mp ht
  rw [fieldOf, if_neg hv] at hv'
  rw [hm]
  cases value with
  | str s => exact hv'
  | _ => cases hv'

theorem member_of_value (hd : members.keys.Nodup) (h : ofJson (.obj members) = .ok spec) :
    members.get? "value" = spec.value := by
  have hget := ofJson_get? hd (by decide : "value" ∈ fieldOrder) h
  change spec.value = _ at hget
  rw [hget]
  cases members.get? "value" <;> rfl

/-- An operation is read back from its document. -/
theorem ofJson_toJson (spec : LooseOp) : ofJson spec.toJson = .ok spec := by
  obtain ⟨op, path, source, value⟩ := spec
  cases op <;> cases path <;> cases source <;> cases value <;> rfl

theorem keys_toJson (spec : LooseOp) : (Members.keys spec.toJson.members).Nodup := by
  obtain ⟨op, path, source, value⟩ := spec
  cases op <;> cases path <;> cases source <;> cases value <;>
    simp [toJson, optional, Members.keys, Json.members]

end LooseOp

/-! ## Checked operations -/

namespace Patch

open Json (PatchOp Pointer TildesEscape)

variable {spec : LooseOp} {kind : OpKind} {members : Members Json} {text : String}

theorem parse?_isSome (h : checkPointer text = .ok ()) :
    (Pointer.parse? text).isSome ↔ TildesEscape text.toList := by
  unfold checkPointer at h
  unfold Pointer.parse?
  split at h
  case h_1 hnil => simp [hnil, TildesEscape]
  case h_2 rest hslash => simp [hslash, Json.tildesEscape_cons, Json.readNames_isSome]
  case h_3 => cases h

theorem bind_eq_ok {ε α β : Type} {x : Except ε α} {f : α → Except ε β} {b : β} :
    x >>= f = .ok b ↔ ∃ a, x = .ok a ∧ f a = .ok b := by
  constructor
  · intro h
    cases x with
    | error e => cases h
    | ok a => exact ⟨a, rfl, h⟩
  · rintro ⟨a, rfl, h⟩
    exact h

theorem elim_eq_ok {ε α : Type} {o : Option α} {e : ε} {a : α} :
    o.elim (.error e) Except.ok = .ok a ↔ o = some a := by
  cases o <;> simp

/-- What the shape of an operation of a kind says of its fields. -/
structure Shaped (spec : LooseOp) (kind : OpKind) (place : String) : Prop where
  op : spec.op = some kind.name
  path : spec.path = some place
  pointer : checkPointer place = .ok ()
  value : kind = .add → spec.value.isSome
  source : kind = .move ∨ kind = .copy →
    ∃ source, spec.source = some source ∧ checkPointer source = .ok ()

theorem shaped_of_check (h : checkOperation spec = .ok kind) : ∃ place, Shaped spec kind place := by
  unfold checkOperation at h
  obtain ⟨op, hop, h₁⟩ := bind_eq_ok.mp h
  obtain ⟨found, hkind, h₂⟩ := bind_eq_ok.mp h₁
  obtain ⟨place, hplace, h₃⟩ := bind_eq_ok.mp h₂
  obtain ⟨⟨⟩, hpointer, hrest⟩ := bind_eq_ok.mp h₃
  clear h h₁ h₂ h₃
  rw [elim_eq_ok] at hop hkind hplace
  have hname : found.name = op := by simpa using List.find?_some hkind
  subst hname
  cases found with
  | add =>
    cases hv : spec.value with
    | none =>
      rw [hv] at hrest
      cases hrest
    | some value =>
      rw [hv] at hrest
      obtain rfl := Except.ok.inj hrest
      exact ⟨place, hop, hplace, hpointer, fun _ => by rw [hv]; rfl, by simp⟩
  | move | copy =>
    obtain ⟨⟨⟩, hsource, hrest⟩ := bind_eq_ok.mp hrest
    obtain rfl := Except.ok.inj hrest
    refine ⟨place, hop, hplace, hpointer, by simp, fun _ => ?_⟩
    cases hs : spec.source with
    | none =>
      rw [hs] at hsource
      cases hsource
    | some source =>
      rw [hs] at hsource
      exact ⟨source, rfl, hsource⟩
  | _ =>
    obtain rfl := Except.ok.inj hrest
    exact ⟨place, hop, hplace, hpointer, by simp, by simp⟩

/-- What an operation of a kind needs besides its shape to be read. -/
structure Complete (operation : Json) (kind : OpKind) : Prop where
  value : kind = .replace ∨ kind = .test → (operation.get? "value").isSome
  path : ∀ text, operation.get? "path" = some (.str text) → TildesEscape text.toList
  source : kind = .move ∨ kind = .copy →
    ∀ text, operation.get? "from" = some (.str text) → TildesEscape text.toList

theorem pointer?_isSome (h : checkPointer text = .ok ()) :
    (PatchOp.pointer? (.str text)).isSome ↔ TildesEscape text.toList := parse?_isSome h

theorem complete_iff {place : String} (hpath : members.get? "path" = some (.str place)) :
    Complete (.obj members) kind ↔
      (kind = .replace ∨ kind = .test → (members.get? "value").isSome) ∧
      TildesEscape place.toList ∧ (kind = .move ∨ kind = .copy →
        ∀ text, members.get? "from" = some (.str text) → TildesEscape text.toList) := by
  constructor
  · exact fun ⟨hv, hp, hs⟩ => ⟨hv, hp place hpath, hs⟩
  · rintro ⟨hv, hp, hs⟩
    refine ⟨hv, fun text ht => ?_, hs⟩
    obtain rfl : place = text := Json.str.inj (Option.some.inj (hpath.symm.trans ht))
    exact hp

theorem ofJson?_of_fields {fields : List Json} (hop : members.get? "op" = some (.str kind.name))
    (hf : (PatchOp.fieldNames kind.name).mapM members.get? = some fields) :
    PatchOp.ofJson? (.obj members) = PatchOp.ofFields? kind.name fields := by
  simp only [PatchOp.ofJson?, hop, hf, Json.str?, Option.bind_eq_bind, Option.bind_some]

/-- An operation whose shape is right is read exactly if it is complete. -/
theorem ofJson?_isSome_iff (hd : members.keys.Nodup) (h : checkValue (.obj members) = .ok kind) :
    (PatchOp.ofJson? (.obj members)).isSome ↔ Complete (.obj members) kind := by
  unfold checkValue at h
  cases hspec : LooseOp.ofJson (.obj members) with
  | error e =>
    rw [hspec] at h
    cases h
  | ok spec =>
    rw [hspec] at h
    obtain ⟨place, hshape⟩ := shaped_of_check h
    have hop : members.get? "op" = some (.str kind.name) :=
      LooseOp.member_of_text hd (by decide) (by decide) hspec (congrArg (·.map Json.str) hshape.op)
    have hpath : members.get? "path" = some (.str place) :=
      LooseOp.member_of_text hd (by decide) (by decide) hspec
        (congrArg (·.map Json.str) hshape.path)
    have hplace := pointer?_isSome hshape.pointer
    rw [complete_iff hpath]
    cases kind with
    | add =>
      obtain ⟨value, hv⟩ := Option.isSome_iff_exists.mp (hshape.value rfl)
      have hvalue := (LooseOp.member_of_value hd hspec).trans hv
      rw [ofJson?_of_fields hop (show _ = some [.str place, value] by
        simp [PatchOp.fieldNames, OpKind.name, hpath, hvalue])]
      simpa [PatchOp.ofFields?, OpKind.name] using hplace
    | remove =>
      rw [ofJson?_of_fields hop (show _ = some [.str place] by
        simp [PatchOp.fieldNames, OpKind.name, hpath])]
      simpa [PatchOp.ofFields?, OpKind.name] using hplace
    | replace | test =>
      cases hv : members.get? "value" with
      | none => simp [PatchOp.ofJson?, PatchOp.fieldNames, OpKind.name, hop, hpath, hv, Json.str?]
      | some value =>
        rw [ofJson?_of_fields hop (show _ = some [.str place, value] by
          simp [PatchOp.fieldNames, OpKind.name, hpath, hv])]
        simpa [PatchOp.ofFields?, OpKind.name] using hplace
    | move | copy =>
      obtain ⟨source, hs, hpointer⟩ := hshape.source (by simp)
      have hfrom : members.get? "from" = some (.str source) :=
        LooseOp.member_of_text hd (by decide) (by decide) hspec (congrArg (·.map Json.str) hs)
      have hsource := pointer?_isSome hpointer
      rw [ofJson?_of_fields hop (show _ = some [.str source, .str place] by
        simp [PatchOp.fieldNames, OpKind.name, hpath, hfrom])]
      simp only [hfrom, Option.some.injEq, Json.str.injEq, forall_eq', ← hplace, ← hsource]
      cases hp : PatchOp.pointer? (.str place) <;> cases hq : PatchOp.pointer? (.str source) <;>
        simp [PatchOp.ofFields?, OpKind.name, hp, hq]

/-- A list of one checked operation is read exactly if the operation is complete. -/
theorem readable_iff_complete {operation : Json} (hw : (Members.keys operation.members).Nodup)
    (h : checkValue operation = .ok kind) :
    (PatchOp.listOfJson? [operation]).isSome ↔ Complete operation kind := by
  cases operation with
  | obj members =>
    have hread : (PatchOp.ofJson? (.obj members)).isSome ↔ Complete (.obj members) kind :=
      ofJson?_isSome_iff hw h
    rw [← hread]
    cases hop : PatchOp.ofJson? (.obj members) <;> simp [PatchOp.listOfJson?, hop]
  | _ => cases h

/-- Operations that are checked are read together unless one of them is not complete. -/
theorem exists_incomplete {operations : List Json}
    (hw : ∀ operation ∈ operations, (Members.keys operation.members).Nodup)
    (hc : ∀ operation ∈ operations, ∃ kind, checkValue operation = .ok kind)
    (h : PatchOp.listOfJson? operations = none) :
    ∃ operation ∈ operations, ∃ kind, checkValue operation = .ok kind ∧
      ¬ Complete operation kind := by
  induction operations with
  | nil => cases h
  | cons first rest ih =>
    obtain ⟨kind, hk⟩ := hc first List.mem_cons_self
    by_cases hcomplete : Complete first kind
    · have hone := (readable_iff_complete (hw first List.mem_cons_self) hk).mpr hcomplete
      have hrest : PatchOp.listOfJson? rest = none := by
        cases hf : PatchOp.ofJson? first with
        | none => simp [PatchOp.listOfJson?, hf] at hone
        | some op =>
          cases hr : PatchOp.listOfJson? rest with
          | none => rfl
          | some ops =>
            rw [PatchOp.listOfJson?] at hr
            simp [PatchOp.listOfJson?, hf, hr] at h
      obtain ⟨operation, hm, found⟩ := ih (fun o ho => hw o (List.mem_cons_of_mem _ ho))
        (fun o ho => hc o (List.mem_cons_of_mem _ ho)) hrest
      exact ⟨operation, List.mem_cons_of_mem _ hm, found⟩
    · exact ⟨first, List.mem_cons_self, kind, hk, hcomplete⟩

theorem checkValue_toJson (spec : LooseOp) : checkValue spec.toJson = checkOperation spec := by
  have hobject : spec.toJson.isObject = true := rfl
  rw [checkValue, if_pos hobject, LooseOp.ofJson_toJson]

end Patch

end ClusterConfig
