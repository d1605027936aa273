import Mathlib
import ClusterConfig.Yaml.Source
import ClusterConfig.Proofs.Documents.Members
import ClusterConfig.Proofs.Yaml.RoundTrip

/-!
# Nodes of written documents

A document that is written alone, with the mark in front of it or without, has one node, which has
the shape of the document.
-/

set_option autoImplicit false

namespace ClusterConfig

namespace Json

theorem nestingOfItems_le {items : List Json} {depth : Nat} :
    nestingOfItems items ≤ depth ↔ ∀ item ∈ items, item.nesting ≤ depth := by
  induction items with
  | nil => simp [nestingOfItems]
  | cons item rest ih => simp [nestingOfItems, ih]

theorem nestingOfMembers_le {members : Members Json} {depth : Nat} :
    nestingOfMembers members ≤ depth ↔ ∀ entry ∈ members, entry.2.nesting ≤ depth := by
  induction members with
  | nil => simp [nestingOfMembers]
  | cons entry rest ih => simp [nestingOfMembers, ih]

end Json

namespace Yaml

open Yaml.Graph

variable {doc : Json} {depth : Nat} {table : List (Nat × Graph)}

/-! ## Nodes -/

/-- The node of a scalar token. -/
def tokenNode : Token → Node
  | .scalar style text => .scalar none style (String.ofList text)
  | _ => .unreadable

/-- The node of a name in front of its value. -/
def nameNode (name : String) : Node := tokenNode (stringToken (isShortName name) name)

mutual

/-- A document as a node without tags. -/
def docNode : Json → Node
  | .str s => tokenNode (stringToken false s)
  | .arr items => .sequence none (itemNodes items)
  | .obj members => .mapping none (memberNodes members)
  | doc => .scalar none .plain ((spelling? doc).getD "")

def itemNodes : List Json → List Node
  | [] => []
  | item :: rest => docNode item :: itemNodes rest

def memberNodes : List (String × Json) → List (Node × Node)
  | [] => []
  | (name, doc) :: rest => (nameNode name, docNode doc) :: memberNodes rest

end

theorem itemNodes_eq (items : List Json) : itemNodes items = items.map docNode := by
  induction items with
  | nil => rfl
  | cons item rest ih => rw [itemNodes, ih, List.map_cons]

theorem memberNodes_eq (members : Members Json) :
    memberNodes members = members.map fun entry => (nameNode entry.1, docNode entry.2) := by
  induction members with
  | nil => rfl
  | cons entry rest ih => rw [memberNodes, ih, List.map_cons]

theorem itemGraphs_eq (items : List Json) : itemGraphs items = items.map docGraph := by
  induction items with
  | nil => rfl
  | cons item rest ih => rw [itemGraphs, ih, List.map_cons]

theorem memberGraphs_eq (members : Members Json) :
    memberGraphs members = members.map fun entry =>
      (tokenGraph (stringToken (isShortName entry.1) entry.1), docGraph entry.2) := by
  induction members with
  | nil => rfl
  | cons entry rest ih => rw [memberGraphs, ih, List.map_cons]

/-- A step that follows no alias is taken in each place of a list. -/
theorem mapJumps_map {α β γ : Type} {step : Nat → α → β × Nat} {item : γ → α} {result : γ → β}
    {l : List γ} (h : ∀ c ∈ l, ∀ jumps, step jumps (item c) = (result c, jumps)) (jumps : Nat) :
    mapJumps step jumps (l.map item) = (l.map result, jumps) := by
  induction l with
  | nil => rfl
  | cons c l ih =>
    obtain ⟨hc, hl⟩ := List.forall_mem_cons.mp h
    rw [List.map_cons, mapJumps, hc jumps]
    simp only [ih hl, List.map_cons]

/-- Each place of a list is a step, after however many aliases were followed before it. -/
theorem mem_mapJumps {α β : Type} {step : Nat → α → β × Nat} {l : List α} {a : α} (h : a ∈ l)
    (jumps : Nat) : ∃ before, (step before a).1 ∈ (mapJumps step jumps l).1 := by
  induction h generalizing jumps with
  | head rest => exact ⟨jumps, List.mem_cons_self⟩
  | tail b _ ih =>
    obtain ⟨before, hm⟩ := ih (step jumps b).2
    exact ⟨before, List.mem_cons_of_mem _ hm⟩

theorem expandAt_token (key : Bool) (s : String) (depth jumps : Nat) :
    expandAt table depth jumps (tokenGraph (stringToken key s)) =
      (tokenNode (stringToken key s), jumps) := expandAt_scalar _ _

theorem expandAt_of_isScalar (hs : doc.isScalar = true) (depth jumps : Nat) :
    expandAt table depth jumps (docGraph doc) = (docNode doc, jumps) := by
  cases doc with
  | str s => exact expandAt_token false s depth jumps
  | arr items => cases hs
  | obj members => cases hs
  | _ => exact expandAt_scalar _ _

/-- A document has no aliases, so its node is of its shape unless it nests too deep. -/
theorem expandAt_docGraph (h : doc.nesting ≤ depth) (jumps : Nat) :
    expandAt table depth jumps (docGraph doc) = (docNode doc, jumps) := by
  induction depth generalizing doc jumps with
  | zero =>
    cases doc with
    | arr items => simp [Json.nesting] at h
    | obj members => simp [Json.nesting] at h
    | _ => exact expandAt_of_isScalar rfl 0 jumps
  | succ depth ih =>
    cases doc with
    | arr items =>
      have hitems := Json.nestingOfItems_le.mp (Nat.succ_le_succ_iff.mp h)
      have hmap := mapJumps_map (fun item hm jumps => ih (hitems item hm) jumps) jumps
      rw [docGraph, docNode, itemGraphs_eq, itemNodes_eq]
      exact congrArg (fun found => (Node.sequence none found.1, found.2)) hmap
    | obj members =>
      have hmembers := Json.nestingOfMembers_le.mp (Nat.succ_le_succ_iff.mp h)
      have hentry : ∀ entry ∈ members, ∀ jumps,
          expandEntry (expandAt table depth) jumps
            (tokenGraph (stringToken (isShortName entry.1) entry.1), docGraph entry.2) =
          ((nameNode entry.1, docNode entry.2), jumps) := by
        intro entry hm jumps
        simp only [expandEntry, expandAt_token, ih (hmembers entry hm), nameNode]
      have hmap := mapJumps_map hentry jumps
      rw [docGraph, docNode, memberGraphs_eq, memberNodes_eq]
      exact congrArg (fun found => (Node.mapping none found.1, found.2)) hmap
    | _ => exact expandAt_of_isScalar rfl _ jumps

theorem expand_docGraph (h : doc.nesting ≤ nestingLimit) : (docGraph doc).expand = docNode doc := by
  rw [Graph.expand, expandAt_docGraph h]

/-- What is read of a written document. -/
theorem node?_of_graphs {text : String} (hg : graphs text.toList = [some (docGraph doc)]) :
    node? text = some (docGraph doc).expand := by
  have hnodes : nodes text = [some (docGraph doc).expand] := by
    rw [nodes, hg, List.map_singleton, Option.map_some]
  rw [node?, hnodes]

theorem node?_writeMarked (hn : NumbersFit doc) (h : doc.nesting ≤ nestingLimit) :
    node? (writeMarked doc) = some (docNode doc) := by
  rw [node?_of_graphs (graphs_writeMarked doc hn), expand_docGraph h]

theorem node?_writeDocuments (hn : NumbersFit doc) :
    node? (writeDocuments [doc]) = some (docGraph doc).expand :=
  node?_of_graphs (graphs_writeDocuments doc [] (List.forall_mem_singleton.mpr hn))

/-- The node of a document means the document, however deep it nests. -/
theorem json?_docNode (hw : doc.WellFormed) (hn : NumbersFit doc) :
    json? (docNode doc) = some doc := by
  obtain ⟨-, hjson⟩ := expands [] doc.nesting doc hw hn 0
  rwa [expandAt_docGraph (le_refl _), if_pos (le_refl _)] at hjson

theorem parseJson?_writeJson (hw : doc.WellFormed) (hn : NumbersFit doc)
    (h : doc.nesting ≤ nestingLimit) : parseJson? (writeJson doc) = some doc := by
  have hnode := node?_writeDocuments hn
  have hone : writeDocuments [doc] = writeJson doc := by simp [writeDocuments]
  rw [hone, expand_docGraph h] at hnode
  rw [parseJson?, hnode, Option.bind_some, json?_docNode hw hn]

/-! ## How lists begin -/

/-- A line that is ended begins as it did. -/
theorem endLine_begins (c : Char) (line : List Char) :
    ∃ after, endLine (c :: line) = c :: after := by
  unfold endLine
  split
  · exact ⟨line, rfl⟩
  · exact ⟨line ++ ['\n'], rfl⟩

theorem joinEntries_begins (indent : Nat) (c : Char) (line : List Char)
    (rest : List (List Char)) : ∃ after, joinEntries indent ((c :: line) :: rest) = c :: after := by
  cases rest with
  | nil => exact ⟨line, rfl⟩
  | cons entry rest =>
    obtain ⟨after, h⟩ := endLine_begins c line
    rw [joinEntries, h]
    · exact ⟨_, rfl⟩
    · exact List.cons_ne_nil _ _

/-- A list is written with a dash or a bracket in front. -/
theorem head?_writeJson_arr (items : List Json) :
    (writeJson (.arr items)).toList.head? ≠ some '@' := by
  cases items with
  | nil => decide
  | cons item rest =>
    obtain ⟨text, htext⟩ := joinEntries_begins 0 '-'
      (valueText (some 0) .item false (.ofJson item)) (itemTexts 0 (Value.ofJsonItems rest))
    have hvalue : valueText none .start false (.ofJson (.arr (item :: rest))) = '-' :: text := by
      rw [← htext]
      rfl
    obtain ⟨after, hline⟩ := endLine_begins '-' text
    rw [writeJson, writeValue, String.toList_ofList, hvalue, hline]
    simp

end Yaml

end ClusterConfig
