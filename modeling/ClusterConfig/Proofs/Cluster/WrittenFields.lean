import Mathlib
import ClusterConfig.Cluster.Printing
import ClusterConfig.Cluster.Reading
import ClusterConfig.Proofs.Yaml.TypedData

/-!
# Fields of written structures

A structure is written as the fields that have a value, each under its name, and read field by field
in the same order. So it is read back if each field is: where the field was left out, as the value
that it is left out for.
-/

set_option autoImplicit false

namespace ClusterConfig

open Yaml (Fields.flag Fields.list Fields.option Fields.optionText Fields.orElse Fields.required
  Fields.text Fields.texts Medium NumbersFit Source)

/-! ## Documents -/

/-- No name comes twice in a map and all numbers fit, as in every document that is read. -/
def Json.Sound (doc : Json) : Prop := doc.WellFormed ∧ NumbersFit doc

theorem Json.sound_arr {items : List Json} : (arr items).Sound ↔ ∀ item ∈ items, item.Sound := by
  simp only [Sound, wellFormed_arr, NumbersFit, Yaml.numbersFitItems_iff, ← forall₂_and]

theorem Json.sound_obj {members : Members Json} :
    (obj members).Sound ↔ members.keys.Nodup ∧ ∀ entry ∈ members, entry.2.Sound := by
  simp only [Sound, wellFormed_obj, NumbersFit, Yaml.numbersFitMembers_iff, and_assoc,
    ← forall₂_and]

/-- A value is written as a sound document and read back from each medium. -/
structure ReadBack {α : Type} (toJson : α → Json) (read : Source → Option α) (a : α) : Prop where
  sound : (toJson a).Sound
  reads : ∀ medium, read (.written medium (toJson a)) = some a

namespace ReadBack

variable {α : Type} {toJson : α → Json} {read : Source → Option α}

theorem str (s : String) : ReadBack Json.str Source.string? s :=
  ⟨⟨trivial, trivial⟩, fun medium => Source.string?_written medium s⟩

theorem bool (b : Bool) : ReadBack Json.bool Source.bool? b :=
  ⟨⟨trivial, trivial⟩, fun medium => Source.bool?_written medium b⟩

theorem number {n limit : Nat} (hn : n ≤ limit) (hlimit : limit ≤ largestNumber) :
    ReadBack (fun n : Nat => .int n) (Source.natural? limit) n := by
  refine ⟨⟨trivial, ?_⟩, fun medium => Source.natural?_written medium hn⟩
  have hlarge : largestNumber = 4294967295 := rfl
  show Yaml.Plain.fitsWord n = true
  simp only [Yaml.Plain.fitsWord, Bool.and_eq_true, decide_eq_true_eq]
  constructor
  · norm_num
  · norm_num
    omega

theorem json {doc : Json} (h : doc.Sound) : ReadBack id Source.json? doc :=
  ⟨h, fun medium => Source.json?_written medium h.1 h.2⟩

theorem list {items : List α} (h : ∀ item ∈ items, ReadBack toJson read item) :
    ReadBack (fun items => .arr (items.map toJson)) (Source.list? read) items := by
  refine ⟨Json.sound_arr.mpr fun doc hm => ?_, fun medium =>
    Source.list?_written fun item hm => (h item hm).reads medium⟩
  obtain ⟨item, hitem, rfl⟩ := List.mem_map.mp hm
  exact (h item hitem).sound

theorem members {entries : Members α} (h : ∀ entry ∈ entries, ReadBack toJson read entry.2)
    (hd : entries.keys.Nodup) :
    ReadBack (fun entries : Members α => .obj (entries.map fun entry => (entry.1, toJson entry.2)))
      (Source.members? read) entries := by
  refine ⟨Json.sound_obj.mpr ⟨?_, fun doc hm => ?_⟩, fun medium =>
    Source.members?_written (fun entry hm => (h entry hm).reads medium) hd⟩
  · simpa [Members.keys, Function.comp_def] using hd
  · obtain ⟨entry, hentry, rfl⟩ := List.mem_map.mp hm
    exact (h entry hentry).sound

theorem jsonMembers {members : Members Json} (h : (Json.obj members).Sound) :
    ReadBack Json.obj (Source.members? Source.json?) members := by
  obtain ⟨hd, hvalues⟩ := Json.sound_obj.mp h
  have hsame : members.map (fun entry => (entry.1, id entry.2)) = members := List.map_id members
  have hback := ReadBack.members (fun entry hm => json (hvalues entry hm)) hd
  exact ⟨h, fun medium => by simpa only [hsame] using hback.reads medium⟩

end ReadBack

/-! ## Fields -/

/-- A field has a document, or none if it is left out, and is read back from the fields that have
that document under its name. -/
structure FieldBack {α : Type} (doc? : Option Json) (read : Members Source → String → Option α)
    (a : α) : Prop where
  sound : ∀ doc ∈ doc?, doc.Sound
  reads : ∀ (medium : Medium) (fields : Members Source) (name : String),
    fields.get? name = doc?.map (.written medium) → read fields name = some a

namespace FieldBack

variable {α : Type} {toJson : α → Json} {read : Source → Option α} {a : α}

theorem required (h : ReadBack toJson read a) :
    FieldBack (some (toJson a)) (fun fields name => Fields.required fields name read) a := by
  refine ⟨fun doc hd => Option.mem_some.mp hd ▸ h.sound, fun medium fields name hget => ?_⟩
  rw [Fields.required, hget]
  exact h.reads medium

theorem orElse (h : ReadBack toJson read a) (default : α) :
    FieldBack (some (toJson a)) (fun fields name => Fields.orElse fields name default read) a := by
  refine ⟨fun doc hd => Option.mem_some.mp hd ▸ h.sound, fun medium fields name hget => ?_⟩
  rw [Fields.orElse, hget]
  exact h.reads medium

/-- A field may be left out for the value that a missing field has. -/
theorem skipped (h : ReadBack toJson read a) {default : α} {skip : Bool}
    (hskip : skip = true → a = default) :
    FieldBack (if skip then none else some (toJson a))
      (fun fields name => Fields.orElse fields name default read) a := by
  cases skip with
  | false => exact orElse h default
  | true =>
    refine ⟨fun doc hd => (nomatch hd), fun medium fields name hget => ?_⟩
    rw [Fields.orElse, hget]
    exact congrArg some (hskip rfl).symm

theorem option {value : Option α} (h : ∀ a ∈ value, ReadBack toJson read a ∧ toJson a ≠ .null) :
    FieldBack (value.map toJson) (fun fields name => Fields.option fields name read) value := by
  cases value with
  | none =>
    refine ⟨fun doc hd => (nomatch hd), fun medium fields name hget => ?_⟩
    rw [Fields.option, hget]
    rfl
  | some a =>
    obtain ⟨hback, hnull⟩ := h a rfl
    refine ⟨fun doc hd => Option.mem_some.mp hd ▸ hback.sound, fun medium fields name hget => ?_⟩
    rw [Fields.option, hget]
    simp [Source.nullable_written medium hnull hback.sound.2, hback.reads medium]

/-- A field that is there and null has a value. -/
theorem present {value : Option Json} (h : ∀ doc ∈ value, doc.Sound) :
    FieldBack value (fun fields name => Fields.orElse fields name none fun s => s.json?.map some)
      value := by
  refine ⟨h, fun medium fields name hget => ?_⟩
  rw [Fields.orElse, hget]
  cases value with
  | none => rfl
  | some doc =>
    obtain ⟨hw, hn⟩ := h doc rfl
    show (Source.json? (.written medium doc)).map some = some (some doc)
    rw [Source.json?_written medium hw hn]
    rfl

theorem text (s : String) (default : String) :
    FieldBack (some (.str s)) (fun fields name => Fields.text fields name default) s :=
  orElse (.str s) default

theorem optionText (value : Option String) : FieldBack (value.map .str) Fields.optionText value :=
  option fun s _ => ⟨.str s, Json.noConfusion⟩

theorem number {value : Option Nat} {limit : Nat} (h : ∀ n ∈ value, n ≤ limit)
    (hlimit : limit ≤ largestNumber) :
    FieldBack (value.map fun n : Nat => Json.int n)
      (fun fields name => Fields.option fields name (Source.natural? limit)) value :=
  option fun n hm => ⟨.number (h n hm) hlimit, Json.noConfusion⟩

theorem optionFlag (value : Option Bool) :
    FieldBack (value.map .bool) (fun fields name => Fields.option fields name Source.bool?) value :=
  option fun b _ => ⟨.bool b, Json.noConfusion⟩

theorem allItems {items : List α} (h : ∀ item ∈ items, ReadBack toJson read item) :
    FieldBack (some (.arr (items.map toJson))) (fun fields name => Fields.list fields name read)
      items :=
  orElse (.list h) []

theorem allTexts (values : List String) :
    FieldBack (some (.strings values)) Fields.texts values :=
  allItems fun value _ => .str value

theorem givenFlag (b : Bool) : FieldBack (some (.bool b)) Fields.flag b := orElse (.bool b) false

theorem list {items : List α} (h : ∀ item ∈ items, ReadBack toJson read item) :
    FieldBack (if items.isEmpty then none else some (.arr (items.map toJson)))
      (fun fields name => Fields.list fields name read) items :=
  skipped (.list h) List.isEmpty_iff.mp

theorem texts (values : List String) :
    FieldBack (if values.isEmpty then none else some (.strings values)) Fields.texts values :=
  list fun value _ => .str value

theorem names {entries : Members String} (hd : entries.keys.Nodup) :
    FieldBack (if entries.isEmpty then none else some (.ofMembers entries))
      (fun fields name => Fields.orElse fields name [] (Source.members? Source.string?)) entries :=
  skipped (.members (fun entry _ => .str entry.2) hd) List.isEmpty_iff.mp

theorem flag (b : Bool) : FieldBack (if !b then none else some (.bool b)) Fields.flag b :=
  skipped (.bool b) (by simp)

end FieldBack

/-! ## Structures -/

/-- A field under its name, if it is not left out. -/
def slot (name : String) (doc? : Option Json) : Members Json :=
  (doc?.map fun doc => (name, doc)).toList

/-- The fields of a structure under their names. -/
def slots (names : List String) (docs : List (Option Json)) : Members Json :=
  (names.zip docs).flatMap fun field => slot field.1 field.2

/-- What is read field by field, in the order of the names, from fields that are each read back. -/
inductive FieldsBack {α : Type} :
    List String → List (Option Json) → (Members Source → Option α) → α → Prop
  | nil (a : α) : FieldsBack [] [] (fun _ => some a) a
  | cons {β : Type} {name : String} {names : List String} {doc? : Option Json}
      {docs : List (Option Json)} {read : Members Source → String → Option β}
      {rest : β → Members Source → Option α} {b : β} {a : α} (field : FieldBack doc? read b)
      (more : FieldsBack names docs (rest b) a) :
      FieldsBack (name :: names) (doc? :: docs)
        (fun fields => read fields name >>= fun b => rest b fields) a

section
variable {α : Type} {names : List String} {docs : List (Option Json)}
  {read : Members Source → Option α} {a : α}

/-- What is read last may be all that is read. -/
theorem FieldsBack.last {name : String} {doc? : Option Json}
    {read : Members Source → String → Option α} (field : FieldBack doc? read a) :
    FieldsBack [name] [doc?] (fun fields => read fields name) a := by
  have h : FieldsBack [name] [doc?] (fun fields => read fields name >>= some) a :=
    .cons field (.nil a)
  simpa only [Option.bind_eq_bind, Option.bind_fun_some] using h

@[simp]
theorem slots_nil (docs : List (Option Json)) : slots [] docs = [] := rfl

@[simp]
theorem slots_cons (name : String) (names : List String) (doc? : Option Json)
    (docs : List (Option Json)) :
    slots (name :: names) (doc? :: docs) = slot name doc? ++ slots names docs := rfl

@[simp]
theorem slot_some (name : String) (doc : Json) : slot name (some doc) = [(name, doc)] := rfl

/-- The names of the fields that are there are some of the names of all. -/
theorem keys_slots (names : List String) (docs : List (Option Json)) :
    (slots names docs).keys.Sublist names := by
  induction names generalizing docs with
  | nil => exact .slnil
  | cons name names ih =>
    match docs with
    | [] => exact List.nil_sublist _
    | none :: docs => exact (ih docs).cons name
    | some doc :: docs => exact (ih docs).cons_cons name

/-- Under the name of each field stands its document, if it has one. -/
theorem get?_slots (hn : names.Nodup) (docs : List (Option Json)) (medium : Medium) :
    ∀ field ∈ names.zip docs,
      Members.get? ((slots names docs).map (Source.namedSource medium)) field.1 =
        field.2.map (.written medium) := by
  induction names generalizing docs with
  | nil => exact fun _ hm => absurd hm List.not_mem_nil
  | cons name names ih =>
    obtain ⟨hnew, hrest⟩ := List.nodup_cons.mp hn
    match docs with
    | [] => exact fun _ hm => absurd hm List.not_mem_nil
    | doc? :: docs =>
      have hmissing :
          Members.get? ((slots names docs).map (Source.namedSource medium)) name = none := by
        rw [Members.get?_eq_none_iff, Members.keys, List.map_map]
        exact fun hm => hnew ((keys_slots names docs).subset hm)
      refine List.forall_mem_cons.mpr ⟨?_, fun field hm => ?_⟩
      · cases doc? with
        | none => exact hmissing
        | some doc => exact if_pos rfl
      · have hne : name ≠ field.1 := fun hsame => hnew (hsame ▸ (List.of_mem_zip hm).1)
        cases doc? with
        | none => exact ih hrest docs field hm
        | some doc => exact (if_neg hne).trans (ih hrest docs field hm)

namespace FieldsBack

theorem sound (h : FieldsBack names docs read a) : ∀ entry ∈ slots names docs, entry.2.Sound := by
  induction h with
  | nil => exact fun _ hm => absurd hm List.not_mem_nil
  | cons field _ ih =>
    intro entry hm
    rcases List.mem_append.mp hm with hfirst | hmore
    · obtain ⟨doc, hdoc, rfl⟩ := Option.map_eq_some_iff.mp (Option.mem_toList.mp hfirst)
      exact field.sound doc hdoc
    · exact ih entry hmore

theorem reads_of (h : FieldsBack names docs read a) {medium : Medium} {fields : Members Source}
    (hget : ∀ field ∈ names.zip docs, fields.get? field.1 = field.2.map (.written medium)) :
    read fields = some a := by
  induction h with
  | nil => rfl
  | cons field _ ih =>
    obtain ⟨hfirst, hmore⟩ := List.forall_mem_cons.mp hget
    simp only [field.reads medium fields _ hfirst, Option.bind_eq_bind, Option.bind_some, ih hmore]

theorem reads (h : FieldsBack names docs read a) (hn : names.Nodup) (medium : Medium) :
    read ((slots names docs).map (Source.namedSource medium)) = some a :=
  h.reads_of (get?_slots hn docs medium)

/-- A structure is read back if it is written as its fields and read from them. -/
theorem readBack {toJson : α → Json} {readAll : Source → Option α}
    (h : FieldsBack names docs read a) (hn : names.Nodup)
    (hjson : toJson a = .obj (slots names docs))
    (hread : ∀ source, readAll source = source.fields? names >>= read) :
    ReadBack toJson readAll a := by
  have hkeys := keys_slots names docs
  refine ⟨?_, fun medium => ?_⟩
  · rw [hjson]
    exact Json.sound_obj.mpr ⟨hkeys.nodup hn, h.sound⟩
  · have hfields := @Source.fields?_written medium names _
      (fun entry hm => hkeys.subset (List.mem_map_of_mem hm)) (hkeys.nodup hn)
    rw [hread, hjson, hfields, Option.bind_eq_bind, Option.bind_some]
    exact h.reads hn medium

end FieldsBack

end

end ClusterConfig
