import Mathlib
import ClusterConfig.Output.Compilation
import ClusterConfig.Proofs.Documents.Unordered
import ClusterConfig.Proofs.Yaml.Composing

/-!
# Written documents are read back

A document that nests no deeper than the reader follows is read from its node as it was, with its
members in their order; one that nests deeper is not read. So a stream of documents is read back
exactly where none of them nests too deep.
-/

set_option autoImplicit false

namespace ClusterConfig

namespace Json

mutual

/-- How deep collections nest, the empty ones included. -/
def nesting : Json → Nat
  | .arr items => nestingOfItems items + 1
  | .obj members => nestingOfMembers members + 1
  | _ => 0

def nestingOfItems : List Json → Nat
  | [] => 0
  | item :: rest => max (nesting item) (nestingOfItems rest)

def nestingOfMembers : List (String × Json) → Nat
  | [] => 0
  | (_, value) :: rest => max (nesting value) (nestingOfMembers rest)

end

end Json

theorem Members.put_of_not_mem {α : Type} {members : Members α} {key : String} (value : α)
    (h : key ∉ members.keys) : members.put key value = members ++ [(key, value)] := by
  induction members with
  | nil => rfl
  | cons entry rest ih =>
    simp only [Members.keys, List.map_cons, List.mem_cons, not_or] at h
    rw [Members.put, if_neg (Ne.symm h.1), ih h.2, List.cons_append]

/-- A name that comes once goes to the end. -/
theorem Members.put_new {α : Type} {before : Members α} {name : String} {more : List String}
    (value : α) (hd : (before.keys ++ name :: more).Nodup) :
    before.get? name = none ∧ before.put name value = before ++ [(name, value)] ∧
      (Members.keys (before ++ [(name, value)]) ++ more).Nodup := by
  have hnew : name ∉ before.keys := fun hm =>
    (List.nodup_append.mp hd).2.2 name hm name List.mem_cons_self rfl
  refine ⟨Members.get?_eq_none_iff.mpr hnew, Members.put_of_not_mem value hnew, ?_⟩
  simpa [Members.keys] using hd

namespace Yaml

open Yaml.Graph

variable {doc : Json} {depth jumps : Nat} {table : List (Nat × Graph)}

theorem numbersFitItems_iff {items : List Json} :
    NumbersFitItems items ↔ ∀ item ∈ items, NumbersFit item := by
  induction items with
  | nil => simp [NumbersFitItems]
  | cons item rest ih => simp [NumbersFitItems, ih]

theorem numbersFitMembers_iff {members : Members Json} :
    NumbersFitMembers members ↔ ∀ entry ∈ members, NumbersFit entry.2 := by
  induction members with
  | nil => simp [NumbersFitMembers]
  | cons entry rest ih => simp [NumbersFitMembers, ih]

/-! ## Scalars -/

theorem json?_spelling {s : String} (h : spelling? doc = some s) (hn : NumbersFit doc) :
    json? (.scalar none .plain s) = some doc := (spelling?_means h hn).2

/-- A string is read back in any style it is written in. -/
theorem json?_string (key : Bool) (s : String) :
    ∃ style, tokenGraph (stringToken key s) = .scalar none style s ∧
      json? (.scalar none style s) = some (.str s) := by
  refine ⟨_, by rw [stringToken, tokenGraph, String.ofList_toList], ?_⟩
  have hsuits := suits_form key s
  cases hform : form key s with
  | plain =>
    rw [hform] at hsuits
    have htext : Plain.ofText s = .text := ofText_of_not_wantsQuotes hsuits.2
    simp [json?, isLocalTag, Plain.ofScalar, htext, jsonOfPlain]
  | single | double | literal => rfl

/-! ## Collections -/

/-- The outcome of expanding a node of a document: no alias is followed, and the document is read
back unless it nests too deep. -/
def Expands (depth : Nat) (doc : Json) (jumps : Nat) (found : Node × Nat) : Prop :=
  found.2 = jumps ∧ json? found.1 = if doc.nesting ≤ depth then some doc else none

theorem expandWith_scalar (child : Option (Nat → Graph → Node × Nat)) (style : Style) (s : String) :
    expandWith table child jumps (.scalar none style s) = (.scalar none style s, jumps) := by
  cases child <;> rfl

theorem mapJumps_items {child : Nat → Graph → Node × Nat} (jumps : Nat) (items : List Json)
    (h : ∀ doc ∈ items, ∀ jumps, Expands depth doc jumps (child jumps (docGraph doc))) :
    (mapJumps child jumps (itemGraphs items)).2 = jumps ∧
      jsonItems? (mapJumps child jumps (itemGraphs items)).1 =
        if Json.nestingOfItems items ≤ depth then some items else none := by
  induction items with
  | nil => exact ⟨rfl, rfl⟩
  | cons item rest ih =>
    obtain ⟨hitem, hrest⟩ := List.forall_mem_cons.mp h
    obtain ⟨hjumps, hjson⟩ := hitem jumps
    obtain ⟨hjumps', hitems⟩ := ih hrest
    simp only [itemGraphs, mapJumps, hjumps, jsonItems?, hjson, hitems, Json.nestingOfItems]
    refine ⟨hjumps', ?_⟩
    by_cases h1 : item.nesting ≤ depth <;> by_cases h2 : Json.nestingOfItems rest ≤ depth <;>
      simp [h1, h2]

/-- What becomes of an entry; `child` expands the nodes it holds. -/
def expandEntry (child : Nat → Graph → Node × Nat) (jumps : Nat) (entry : Graph × Graph) :
    (Node × Node) × Nat :=
  let (key, jumps) := child jumps entry.1
  let (value, jumps) := child jumps entry.2
  ((key, value), jumps)

/-- Members are read in their order, as no name comes twice. -/
theorem mapJumps_members {child : Nat → Graph → Node × Nat} (jumps : Nat) (members : Members Json)
    (hkey : ∀ jumps style s, child jumps (.scalar none style s) = (.scalar none style s, jumps))
    (h : ∀ entry ∈ members, ∀ jumps,
      Expands depth entry.2 jumps (child jumps (docGraph entry.2)))
    (before : Members Json) (hd : (Members.keys (before ++ members)).Nodup) :
    (mapJumps (expandEntry child) jumps (memberGraphs members)).2 = jumps ∧
      jsonMembers? before (mapJumps (expandEntry child) jumps (memberGraphs members)).1 =
        if Json.nestingOfMembers members ≤ depth then some (before ++ members) else none := by
  induction members generalizing before with
  | nil =>
    refine ⟨rfl, ?_⟩
    rw [memberGraphs, mapJumps, jsonMembers?, Json.nestingOfMembers, List.append_nil]
    rfl
  | cons entry rest ih =>
    obtain ⟨name, value⟩ := entry
    obtain ⟨hvalue, hrest⟩ := List.forall_mem_cons.mp h
    obtain ⟨hjumps, hjson⟩ := hvalue jumps
    obtain ⟨style, hgraph, -⟩ := json?_string (isShortName name) name
    -- the name is new, so that the entry goes to the end
    obtain ⟨-, hput, hd⟩ := Members.put_new value (by simpa [Members.keys] using hd)
    have hd' : (Members.keys (before ++ [(name, value)] ++ rest)).Nodup := by
      simpa [Members.keys] using hd
    obtain ⟨hjumps', hmembers⟩ := ih hrest _ hd'
    simp only [memberGraphs, hgraph, mapJumps, expandEntry, hkey, hjumps, jsonMembers?, hjson,
      Json.nestingOfMembers]
    refine ⟨hjumps', ?_⟩
    by_cases hvalue : value.nesting ≤ depth
    · simp [hvalue, hput, hmembers]
    · simp [hvalue]

theorem expands_scalar (child : Option (Nat → Graph → Node × Nat)) (hs : doc.isScalar = true)
    (hn : NumbersFit doc) :
    Expands depth doc jumps (expandWith table child jumps (docGraph doc)) := by
  have hinline : isInline doc = true := by
    match doc, hs with
    | .null, _ | .bool _, _ | .int _, _ | .float _, _ | .str _, _ => rfl
  have hnesting : doc.nesting ≤ depth := by
    match doc, hs with
    | .null, _ | .bool _, _ | .int _, _ | .float _, _ | .str _, _ => exact Nat.zero_le depth
  rcases isInline_cases hinline with ⟨s, hspell⟩ | ⟨s, rfl⟩ | rfl | rfl
  · rw [Composer.docGraph_spelling hspell, tokenGraph, String.ofList_toList, expandWith_scalar,
      Expands, if_pos hnesting]
    exact ⟨rfl, json?_spelling hspell hn⟩
  · obtain ⟨style, hgraph, hjson⟩ := json?_string false s
    rw [docGraph, hgraph, expandWith_scalar, Expands, if_pos hnesting]
    exact ⟨rfl, hjson⟩
  · cases hs
  · cases hs

theorem expandAt_scalar (style : Style) (s : String) :
    expandAt table depth jumps (.scalar none style s) = (.scalar none style s, jumps) := by
  cases depth <;> exact expandWith_scalar _ style s

/-- Every document within the depth is read back. -/
theorem expands (table : List (Nat × Graph)) (depth : Nat) (doc : Json) (hw : doc.WellFormed)
    (hn : NumbersFit doc) (jumps : Nat) :
    Expands depth doc jumps (expandAt table depth jumps (docGraph doc)) := by
  induction depth generalizing doc jumps with
  | zero =>
    -- a collection is refused at its opening, an empty one too
    match doc, hn with
    | .arr items, _ => exact ⟨rfl, rfl⟩
    | .obj members, _ => exact ⟨rfl, rfl⟩
    | .null, hn | .bool _, hn | .int _, hn | .float _, hn | .str _, hn =>
      exact expands_scalar none rfl hn
  | succ depth ih =>
    match doc, hw, hn with
    | .arr items, hw, hn =>
      obtain ⟨hjumps, hitems⟩ := mapJumps_items jumps items fun item hitem =>
        ih item (Json.wellFormed_arr.mp hw item hitem) (numbersFitItems_iff.mp hn item hitem)
      refine ⟨hjumps, ?_⟩
      have hjson : json? (expandAt table (depth + 1) jumps (docGraph (.arr items))).1 =
        (jsonItems? (mapJumps (expandAt table depth) jumps (itemGraphs items)).1).map .arr := rfl
      rw [hjson, hitems, Json.nesting]
      split <;> simp_all
    | .obj members, hw, hn =>
      obtain ⟨hnames, hvalues⟩ := Json.wellFormed_obj.mp hw
      obtain ⟨hjumps, hmembers⟩ := mapJumps_members jumps members (fun jumps => expandAt_scalar)
        (fun entry hentry =>
          ih entry.2 (hvalues entry hentry) (numbersFitMembers_iff.mp hn entry hentry)) [] hnames
      refine ⟨hjumps, ?_⟩
      have hjson : json? (expandAt table (depth + 1) jumps (docGraph (.obj members))).1 =
        (jsonMembers? [] (mapJumps (expandEntry (expandAt table depth)) jumps
          (memberGraphs members)).1).map .obj := rfl
      rw [hjson, hmembers, Json.nesting]
      split <;> simp_all
    | .null, _, hn | .bool _, _, hn | .int _, _, hn | .float _, _, hn | .str _, _, hn =>
      exact expands_scalar _ rfl hn

/-! ## Streams -/

/-- The document nests deeper than the reader follows. -/
def tooDeep (doc : Json) : Bool := nestingLimit < doc.nesting

theorem json?_expand (hw : doc.WellFormed) (hn : NumbersFit doc) :
    json? (docGraph doc).expand = if tooDeep doc then none else some doc := by
  have h := (expands (docGraph doc).anchors nestingLimit doc hw hn (100 * (docGraph doc).steps)).2
  rw [Graph.expand, h, tooDeep]
  by_cases hdeep : doc.nesting ≤ nestingLimit
  · simp [hdeep]
  · simp [hdeep, Nat.lt_of_not_le hdeep]

/-- The documents are taken up to the first that nests too deep, and the null ones left out. -/
theorem collect_nodes (docs : List Json) (hd : ∀ doc ∈ docs, doc.WellFormed ∧ NumbersFit doc)
    (index : Nat) :
    collect index (docs.map fun doc => some (docGraph doc).expand) =
      match docs.findIdx? tooDeep with
      | some place => .error (.document (index + place))
      | none => .ok (docs.filter fun doc => !doc.isNull) := by
  induction docs generalizing index with
  | nil => rfl
  | cons doc rest ih =>
    obtain ⟨⟨hw, hn⟩, hrest⟩ := List.forall_mem_cons.mp hd
    rw [List.map_cons, collect, Option.bind_some, json?_expand hw hn, List.findIdx?_cons,
      ih hrest (index + 1)]
    cases hdeep : tooDeep doc with
    | true => rfl
    | false =>
      cases List.findIdx? tooDeep rest with
      | some place =>
        have hplace : index + 1 + place = index + (place + 1) := by omega
        simp only [hplace]
        rfl
      | none => cases hnull : doc.isNull <;> simp [hnull] <;> rfl

/-- What becomes of any documents that are written and read. -/
theorem parseDocuments_written (docs : List Json)
    (hd : ∀ doc ∈ docs, doc.WellFormed ∧ NumbersFit doc) :
    parseDocuments (writeDocuments docs) =
      match docs.findIdx? tooDeep with
      | some place => .error (.document place)
      | none => .ok (docs.filter fun doc => !doc.isNull) := by
  cases docs with
  | nil => rfl
  | cons doc rest =>
    have hcollect := collect_nodes (doc :: rest) hd 0
    have hgraphs := graphs_writeDocuments doc rest fun d hmem => (hd d hmem).2
    rw [parseDocuments, nodes, hgraphs, List.map_map]
    simp only [Nat.zero_add] at hcollect
    exact hcollect

/-- Documents that are not null are read back as they were written, unless one of them nests too
deep; so is what the configuration of a node is written as. -/
theorem parseDocuments_writeDocuments (docs : List Json)
    (hd : ∀ doc ∈ docs, doc.WellFormed ∧ NumbersFit doc ∧ doc.isNull = false) :
    (parseDocuments (writeDocuments docs) = .ok docs ↔
        ∀ doc ∈ docs, doc.nesting ≤ nestingLimit) ∧
      ∀ artifact : Artifact, artifact.documents = docs →
        (∀ doc ∈ docs, doc.nesting ≤ nestingLimit) →
          parseDocuments artifact.text = .ok artifact.documents := by
  have hwritten := parseDocuments_written docs fun doc hmem => ⟨(hd doc hmem).1, (hd doc hmem).2.1⟩
  have hkept : (docs.filter fun doc => !doc.isNull) = docs :=
    List.filter_eq_self.mpr fun doc hmem => by simp [(hd doc hmem).2.2]
  have hshallow : docs.findIdx? tooDeep = none ↔ ∀ doc ∈ docs, doc.nesting ≤ nestingLimit := by
    simp [List.findIdx?_eq_none_iff, tooDeep]
  have hread : parseDocuments (writeDocuments docs) = .ok docs ↔ docs.findIdx? tooDeep = none := by
    rw [hwritten]
    cases docs.findIdx? tooDeep <;> simp [hkept]
  refine ⟨hread.trans hshallow, ?_⟩
  rintro artifact rfl hn
  exact hread.mpr (hshallow.mpr hn)

theorem parseDocuments_writeDocuments_pair :
    parseDocuments (writeDocuments
        [.obj [("- a: b", .arr [.int (-1), .float ⟨0x3FF8000000000000⟩, .obj []]), ("", .null)],
          .str "null"]) =
      .ok [.obj [("- a: b", .arr [.int (-1), .float ⟨0x3FF8000000000000⟩, .obj []]), ("", .null)],
        .str "null"] := by
  refine (parseDocuments_writeDocuments _ (fun doc hmem => ?_)).1.mpr (fun doc hmem => ?_)
  · have hfinite : Binary64.isFinite ⟨0x3FF8000000000000⟩ = true := by decide
    have hfits : Plain.fitsWord (-1) = true := by decide
    rcases List.mem_pair.mp hmem with rfl | rfl <;>
      simp [Json.WellFormed, Json.WellFormedItems, Json.WellFormedMembers, Members.keys, NumbersFit,
        NumbersFitItems, NumbersFitMembers, Json.isNull, hfinite, hfits]
  · rcases List.mem_pair.mp hmem with rfl | rfl <;> decide

/-- A text inside so many arrays. -/
def nested : Nat → Json
  | 0 => .str "a"
  | n + 1 => .arr [nested n]

theorem nested_shape (n : Nat) :
    (nested n).WellFormed ∧ NumbersFit (nested n) ∧ (nested n).nesting = n := by
  induction n with
  | zero => exact ⟨trivial, trivial, rfl⟩
  | succ n ih =>
    obtain ⟨hw, hn, hd⟩ := ih
    refine ⟨⟨hw, trivial⟩, ⟨hn, trivial⟩, ?_⟩
    simp [nested, Json.nesting, Json.nestingOfItems, hd]

/-- A document that nests one collection too deep is written and then refused. -/
theorem parseDocuments_nested :
    ((nested 129).WellFormed ∧ NumbersFit (nested 129) ∧ (nested 129).isNull = false) ∧
      parseDocuments (writeDocuments [nested 129]) = .error (.document 0) := by
  obtain ⟨hw, hn, hd⟩ := nested_shape 129
  refine ⟨⟨hw, hn, rfl⟩, ?_⟩
  have hdeep : tooDeep (nested 129) = true := by
    rw [tooDeep, hd]
    rfl
  have hwritten := parseDocuments_written [nested 129] (by simpa using ⟨hw, hn⟩)
  simpa [hdeep] using hwritten

end Yaml

end ClusterConfig
