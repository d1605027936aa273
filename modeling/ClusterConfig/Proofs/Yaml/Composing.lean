import Mathlib
import ClusterConfig.Yaml.Graph
import ClusterConfig.Proofs.Yaml.DocumentTokens

/-!
# From tokens back to documents

The tokens of a document are composed into one node of its shape, whatever follows them, and those
of a stream into one node for each document.
-/

set_option autoImplicit false

namespace ClusterConfig.Yaml

/-- The node of a scalar token. -/
def tokenGraph : Token → Graph
  | .scalar style text => .scalar none style (String.ofList text)
  | _ => .absent

mutual

/-- A document as a node without anchors and tags. -/
def docGraph : Json → Graph
  | .str s => tokenGraph (stringToken false s)
  | .arr items => .sequence none (itemGraphs items)
  | .obj members => .mapping none (memberGraphs members)
  | doc => .scalar none .plain ((spelling? doc).getD "")

def itemGraphs : List Json → List Graph
  | [] => []
  | item :: rest => docGraph item :: itemGraphs rest

def memberGraphs : List (String × Json) → List (Graph × Graph)
  | [] => []
  | (name, doc) :: rest =>
    (tokenGraph (stringToken (isShortName name) name), docGraph doc) :: memberGraphs rest

end

namespace Composer

/-- A token that starts a node of its own. -/
def opensNode : Token → Bool
  | .scalar _ _ => true
  | .flowSequence => true
  | .flowMapping => true
  | .blockSequence => true
  | .blockMapping => true
  | _ => false

theorem docTokens_opens (doc : Json) :
    ∃ token more, docTokens false doc = token :: more ∧ opensNode token = true := by
  match doc with
  | .arr (_ :: _) | .obj (_ :: _) | .null | .bool _ | .int _ | .float _ | .str _ | .arr []
  | .obj [] => exact ⟨_, _, rfl, rfl⟩

/-- What holds of no token that starts a node does not hold where a document starts. -/
theorem docTokens_start {p : List Token → Bool}
    (hp : ∀ token more, opensNode token = true → p (token :: more) = false) (doc : Json)
    (rest : List Token) : p (docTokens false doc ++ rest) = false := by
  obtain ⟨token, more, hd, ho⟩ := docTokens_opens doc
  rw [hd]
  exact hp token (more ++ rest) ho

variable {token : Token} {more rest : List Token} {anchors : List (List Char × Nat)}
  {handles : List (List Char × List Char)} {context : Context} {fuel : Nat}

/-- Neither an anchor nor a tag is in front of the node. -/
theorem node_of_opens (h : opensNode token = true ∨ token = .blockEntry) :
    node (fuel + 1) context ⟨token :: more, anchors, handles⟩ =
      content fuel context none false ⟨token :: more, anchors, handles⟩ := by
  cases token <;> simp [opensNode] at h <;> simp [node, properties]

theorem node_scalar (style : Style) (text : List Char) (hf : 2 ≤ fuel) :
    node fuel context ⟨.scalar style text :: rest, anchors, handles⟩ =
      some (tokenGraph (.scalar style text), ⟨rest, anchors, handles⟩) := by
  obtain ⟨fuel, rfl⟩ : ∃ n, fuel = n + 2 := ⟨fuel - 2, by omega⟩
  rw [node_of_opens (.inl rfl)]
  rfl

/-- The tokens are composed into a node in a context, whatever follows them. No call goes deeper
than four levels for each token. -/
def Composes (context : Context) (tokens : List Token) (graph : Graph) : Prop :=
  ∀ (fuel : Nat) (rest : List Token) (anchors : List (List Char × Nat))
    (handles : List (List Char × List Char)), 4 * tokens.length ≤ fuel →
    node fuel context ⟨tokens ++ rest, anchors, handles⟩ = some (graph, ⟨rest, anchors, handles⟩)

theorem composes_emptySequence (context : Context) :
    Composes context [.flowSequence, .flowSequenceEnd] (.sequence none []) := by
  intro fuel rest anchors handles hf
  obtain ⟨fuel, rfl⟩ : ∃ n, fuel = n + 3 := ⟨fuel - 3, by simp at hf; omega⟩
  rw [List.cons_append, node_of_opens (.inl rfl)]
  rfl

theorem composes_emptyMapping (context : Context) :
    Composes context [.flowMapping, .flowMappingEnd] (.mapping none []) := by
  intro fuel rest anchors handles hf
  obtain ⟨fuel, rfl⟩ : ∃ n, fuel = n + 3 := ⟨fuel - 3, by simp at hf; omega⟩
  rw [List.cons_append, node_of_opens (.inl rfl)]
  rfl

theorem composes_scalar (style : Style) (text : List Char) :
    Composes context [.scalar style text] (tokenGraph (.scalar style text)) := by
  intro fuel rest anchors handles hf
  exact node_scalar style text (by simp at hf; omega)

theorem docGraph_spelling {doc : Json} {s : String} (h : spelling? doc = some s) :
    docGraph doc = tokenGraph (.scalar .plain s.toList) := by
  rw [tokenGraph, String.ofList_toList]
  match doc, h with
  | .null, rfl | .bool true, rfl | .bool false, rfl | .int _, rfl | .float _, rfl => rfl

theorem composes_inline {doc : Json} (h : isInline doc = true) (context : Context) :
    Composes context (inlineTokens doc) (docGraph doc) := by
  rcases isInline_cases h with ⟨s, hs⟩ | ⟨s, rfl⟩ | rfl | rfl
  · rw [inlineTokens_spelling hs, docGraph_spelling hs]
    exact composes_scalar .plain s.toList
  · exact composes_scalar _ s.toList
  · exact composes_emptySequence context
  · exact composes_emptyMapping context

/-- Items that are followed by the end of their sequence. -/
def ComposesItems (items : List Json) : Prop :=
  ∀ (fuel : Nat) (rest : List Token) (anchors : List (List Char × Nat))
    (handles : List (List Char × List Char)), 4 * (itemTokens items).length + 1 ≤ fuel →
    blockItems fuel ⟨itemTokens items ++ .blockEnd :: rest, anchors, handles⟩ =
      some (itemGraphs items, ⟨rest, anchors, handles⟩)

/-- Items at the indent of their name, which anything but another item ends. -/
def ComposesAligned (items : List Json) : Prop :=
  ∀ (fuel : Nat) (rest : List Token) (anchors : List (List Char × Nat))
    (handles : List (List Char × List Char)), rest.head? ≠ some .blockEntry →
    1 ≤ fuel → 4 * (itemTokens items).length ≤ fuel + 2 →
    alignedItems fuel ⟨itemTokens items ++ rest, anchors, handles⟩ =
      some (itemGraphs items, ⟨rest, anchors, handles⟩)

def ComposesMembers (members : List (String × Json)) : Prop :=
  ∀ (fuel : Nat) (rest : List Token) (anchors : List (List Char × Nat))
    (handles : List (List Char × List Char)), 4 * (memberTokens members).length + 1 ≤ fuel →
    blockEntries fuel ⟨memberTokens members ++ .blockEnd :: rest, anchors, handles⟩ =
      some (memberGraphs members, ⟨rest, anchors, handles⟩)

theorem isSequenceItemEnd_docTokens (doc : Json) (rest : List Token) :
    isSequenceItemEnd (docTokens false doc ++ rest) = false := by
  refine docTokens_start (fun token more ho => ?_) doc rest
  cases token <;> first | rfl | cases ho

theorem isAlignedItemEnd_docTokens (doc : Json) (rest : List Token) :
    isAlignedItemEnd (docTokens false doc ++ rest) = false := by
  refine docTokens_start (fun token more ho => ?_) doc rest
  cases token <;> first | rfl | cases ho

theorem ComposesItems.nil : ComposesItems [] := by
  intro fuel rest anchors handles hf
  obtain ⟨fuel, rfl⟩ : ∃ n, fuel = n + 1 := ⟨fuel - 1, by omega⟩
  rfl

theorem ComposesItems.cons {item : Json} {items : List Json}
    (h : Composes .block (docTokens false item) (docGraph item)) (hi : ComposesItems items) :
    ComposesItems (item :: items) := by
  intro fuel rest anchors handles hf
  simp only [itemTokens, List.length_cons, List.length_append] at hf
  obtain ⟨fuel, rfl⟩ : ∃ n, fuel = n + 1 := ⟨fuel - 1, by omega⟩
  have hitem := h fuel (itemTokens items ++ .blockEnd :: rest) anchors handles (by omega)
  have hitems := hi fuel rest anchors handles (by omega)
  have hend := isSequenceItemEnd_docTokens item (itemTokens items ++ .blockEnd :: rest)
  simp [itemTokens, itemGraphs, blockItems, skip, hend, hitem, hitems]

theorem ComposesAligned.nil : ComposesAligned [] := by
  intro fuel rest anchors handles hr hf _
  obtain ⟨fuel, rfl⟩ : ∃ n, fuel = n + 1 := ⟨fuel - 1, by omega⟩
  rw [alignedItems]
  split
  · rename_i more hrest
    have hrest : rest = .blockEntry :: more := hrest
    simp [hrest] at hr
  · rfl

theorem ComposesAligned.cons {item : Json} {items : List Json}
    (h : Composes .block (docTokens false item) (docGraph item)) (hi : ComposesAligned items) :
    ComposesAligned (item :: items) := by
  intro fuel rest anchors handles hr _ hf
  simp only [itemTokens, List.length_cons, List.length_append] at hf
  obtain ⟨fuel, rfl⟩ : ∃ n, fuel = n + 1 := ⟨fuel - 1, by omega⟩
  have hitem := h fuel (itemTokens items ++ rest) anchors handles (by omega)
  have hitems := hi fuel rest anchors handles hr (by omega) (by omega)
  have hend := isAlignedItemEnd_docTokens item (itemTokens items ++ rest)
  simp [itemTokens, itemGraphs, alignedItems, skip, hend, hitem, hitems]

/-- A value after a name, which is aligned if the name is short. -/
def ComposesValue (aligned : Bool) (doc : Json) : Prop :=
  ∀ (fuel : Nat) (rest : List Token) (anchors : List (List Char × Nat))
    (handles : List (List Char × List Char)), rest.head? ≠ some .blockEntry →
    4 * (docTokens aligned doc).length ≤ fuel →
    node fuel .blockEntry ⟨docTokens aligned doc ++ rest, anchors, handles⟩ =
      some (docGraph doc, ⟨rest, anchors, handles⟩)

theorem isBlockValueEnd_docTokens (aligned : Bool) (doc : Json) (rest : List Token) :
    isBlockValueEnd (docTokens aligned doc ++ rest) = false := by
  cases aligned <;>
    match doc with
    | .arr (_ :: _) | .obj (_ :: _) | .null | .bool _ | .int _ | .float _ | .str _ | .arr []
    | .obj [] => rfl

theorem ComposesMembers.nil : ComposesMembers [] := by
  intro fuel rest anchors handles hf
  obtain ⟨fuel, rfl⟩ : ∃ n, fuel = n + 1 := ⟨fuel - 1, by omega⟩
  rfl

theorem head?_memberTokens (members : List (String × Json)) (rest : List Token) :
    (memberTokens members ++ .blockEnd :: rest).head? ≠ some .blockEntry := by
  match members with
  | [] => simp [memberTokens]
  | (name, doc) :: more => simp [memberTokens]

theorem ComposesMembers.cons {name : String} {doc : Json} {members : List (String × Json)}
    (h : ComposesValue (isShortName name) doc) (hm : ComposesMembers members) :
    ComposesMembers ((name, doc) :: members) := by
  intro fuel rest anchors handles hf
  simp only [memberTokens, List.length_cons, List.length_append] at hf
  obtain ⟨fuel, rfl⟩ : ∃ n, fuel = n + 1 := ⟨fuel - 1, by omega⟩
  have hvalue := h fuel (memberTokens members ++ .blockEnd :: rest) anchors handles
    (head?_memberTokens members rest) (by omega)
  have hmembers := hm fuel rest anchors handles (by omega)
  have hend := isBlockValueEnd_docTokens (isShortName name) doc
    (memberTokens members ++ .blockEnd :: rest)
  obtain ⟨style, text, hkey⟩ : ∃ style text, stringToken (isShortName name) name =
    .scalar style text := ⟨_, _, rfl⟩
  have hscalar (more : List Token) : isBlockValueEnd (.scalar style text :: more) = false := rfl
  have hname (more : List Token) : node fuel .blockEntry
      ⟨.scalar style text :: more, anchors, handles⟩ = _ := node_scalar style text (by omega)
  simp [memberTokens, memberGraphs, blockEntries, skip, hkey, hscalar, hname, hend, hvalue,
    hmembers]

/-! ## Documents -/

/-- What a block collection is composed into once its parts are. -/
theorem composes_sequence {items : List Json} (h : ComposesItems items) (hc : context ≠ .flow) :
    Composes context (.blockSequence :: (itemTokens items ++ [.blockEnd]))
      (.sequence none (itemGraphs items)) := by
  intro fuel rest anchors handles hf
  simp only [List.length_cons, List.length_append] at hf
  obtain ⟨fuel, rfl⟩ : ∃ n, fuel = n + 2 := ⟨fuel - 2, by omega⟩
  have hitems := h fuel rest anchors handles (by omega)
  rw [List.cons_append, node_of_opens (.inl rfl)]
  cases context <;> simp_all [content, skip]

theorem composes_mapping {members : List (String × Json)} (h : ComposesMembers members)
    (hc : context ≠ .flow) :
    Composes context (.blockMapping :: (memberTokens members ++ [.blockEnd]))
      (.mapping none (memberGraphs members)) := by
  intro fuel rest anchors handles hf
  simp only [List.length_cons, List.length_append] at hf
  obtain ⟨fuel, rfl⟩ : ∃ n, fuel = n + 2 := ⟨fuel - 2, by omega⟩
  have hmembers := h fuel rest anchors handles (by omega)
  rw [List.cons_append, node_of_opens (.inl rfl)]
  cases context <;> simp_all [content, skip]

theorem composesValue_aligned {item : Json} {items : List Json}
    (h : ComposesAligned (item :: items)) : ComposesValue true (.arr (item :: items)) := by
  intro fuel rest anchors handles hr hf
  have htokens : docTokens true (.arr (item :: items)) = itemTokens (item :: items) := rfl
  rw [htokens] at hf ⊢
  have hlen : (itemTokens (item :: items)).length ≠ 0 := by simp [itemTokens]
  obtain ⟨fuel, rfl⟩ : ∃ n, fuel = n + 2 := ⟨fuel - 2, by omega⟩
  have hitems := h fuel rest anchors handles hr (by omega) (by omega)
  simp only [itemTokens, List.cons_append, List.append_assoc] at hitems ⊢
  -- no token opens the items: their first dash stands where a node may start
  rw [node_of_opens (.inr rfl)]
  simp [content, hitems, docGraph]

/-- A document is composed into its node wherever it may stand. -/
structure ComposesDoc (doc : Json) : Prop where
  block : Composes .block (docTokens false doc) (docGraph doc)
  value : ∀ aligned, ComposesValue aligned doc

theorem ComposesDoc.of_composes {doc : Json} (ha : docTokens true doc = docTokens false doc)
    (h : ∀ context ≠ .flow, Composes context (docTokens false doc) (docGraph doc)) :
    ComposesDoc doc := by
  refine ⟨h .block nofun, fun aligned fuel rest anchors handles _ hf => ?_⟩
  have hsame : docTokens aligned doc = docTokens false doc := by cases aligned <;> simp [ha]
  rw [hsame] at hf ⊢
  exact h .blockEntry nofun fuel rest anchors handles hf

theorem ComposesDoc.of_inline {doc : Json} (h : isInline doc = true) : ComposesDoc doc := by
  apply ComposesDoc.of_composes
  · rw [docTokens_inline true h, docTokens_inline false h]
  · rw [docTokens_inline false h]
    exact fun context _ => composes_inline h context

mutual

theorem composesDoc (doc : Json) : ComposesDoc doc := by
  match doc with
  | .arr (item :: rest) =>
    obtain ⟨hitems, haligned⟩ := composes_items (item :: rest)
    have hsequence (context : Context) (hc : context ≠ .flow) := composes_sequence hitems hc
    refine ⟨hsequence .block nofun, fun aligned => ?_⟩
    cases aligned with
    | false =>
      intro fuel rest anchors handles _ hf
      exact hsequence .blockEntry nofun fuel rest anchors handles hf
    | true => exact composesValue_aligned haligned
  | .obj (entry :: rest) =>
    exact .of_composes rfl fun context hc => composes_mapping (composes_members (entry :: rest)) hc
  | .null | .bool _ | .int _ | .float _ | .str _ | .arr [] | .obj [] =>
    exact .of_inline rfl

theorem composes_items (items : List Json) : ComposesItems items ∧ ComposesAligned items := by
  match items with
  | [] => exact ⟨.nil, .nil⟩
  | item :: rest =>
    obtain ⟨hitems, haligned⟩ := composes_items rest
    have hitem := (composesDoc item).block
    exact ⟨.cons hitem hitems, .cons hitem haligned⟩

theorem composes_members (members : List (String × Json)) : ComposesMembers members := by
  match members with
  | [] => exact .nil
  | (name, doc) :: rest => exact .cons ((composesDoc doc).value _) (composes_members rest)

end

/-! ## Streams -/

theorem skipEnds_markedTokens (docs : List Json) :
    skipEnds (markedTokens docs) = markedTokens docs := by
  cases docs <;> rfl

theorem document_first (doc : Json) (docs : List Json)
    (hf : 4 * (docTokens false doc).length ≤ fuel) :
    document fuel true (docTokens false doc ++ markedTokens docs) =
      some (docGraph doc, markedTokens docs) := by
  have hnode := (composesDoc doc).block fuel (markedTokens docs) [] defaultHandles hf
  have hbare : startsExplicitly (docTokens false doc ++ markedTokens docs) = false := by
    refine docTokens_start (fun token more ho => ?_) doc (markedTokens docs)
    cases token <;> first | rfl | cases ho
  cases docs <;> simp_all [document, markedTokens]

theorem document_marked (first : Bool) (doc : Json) (docs : List Json)
    (hf : 4 * (docTokens false doc).length ≤ fuel) :
    document fuel first (markedTokens (doc :: docs)) = some (docGraph doc, markedTokens docs) := by
  have hnode := (composesDoc doc).block fuel (markedTokens docs) [] defaultHandles hf
  obtain ⟨token, more, hd, -⟩ := docTokens_opens doc
  have hempty : isEmptyDocument (docTokens false doc ++ markedTokens docs) = false := by
    refine docTokens_start (fun token more ho => ?_) doc (markedTokens docs)
    cases token <;> first | rfl | cases ho
  obtain ⟨fuel, rfl⟩ : ∃ n, fuel = n + 1 := ⟨fuel - 1, by simp [hd] at hf; omega⟩
  have htokens : markedTokens (doc :: docs) =
      .documentStart :: (docTokens false doc ++ markedTokens docs) := by simp [markedTokens]
  rw [htokens]
  cases docs <;> simp_all [document, directives, skip, startsExplicitly, markedTokens]

theorem documentsFrom_marked (first : Bool) (docs : List Json) {steps : Nat}
    (hf : ∀ d ∈ docs, 4 * (docTokens false d).length ≤ fuel) (hs : docs.length < steps) :
    documentsFrom fuel steps first (markedTokens docs) = docs.map fun d => some (docGraph d) := by
  induction docs generalizing steps first with
  | nil =>
    obtain ⟨steps, rfl⟩ : ∃ n, steps = n + 1 := ⟨steps - 1, by omega⟩
    cases first <;> rfl
  | cons doc docs ih =>
    obtain ⟨hdoc, hdocs⟩ := List.forall_mem_cons.mp hf
    rw [List.length_cons] at hs
    obtain ⟨steps, rfl⟩ : ∃ n, steps = n + 1 := ⟨steps - 1, by omega⟩
    have hfirst := document_marked first doc docs hdoc
    have hrest := ih false hdocs (by omega : docs.length < steps)
    have hskip := skipEnds_markedTokens (doc :: docs)
    have htokens : markedTokens (doc :: docs) =
        .documentStart :: (docTokens false doc ++ markedTokens docs) := by simp [markedTokens]
    rw [htokens] at hfirst hskip ⊢
    simp [documentsFrom, hskip, hfirst, hrest]

/-- Every document of a stream becomes one node. -/
theorem documentsFrom_tokens (doc : Json) (docs : List Json) {steps : Nat}
    (hf : ∀ d ∈ doc :: docs, 4 * (docTokens false d).length ≤ fuel) (hs : docs.length < steps) :
    documentsFrom fuel (steps + 1) true (docTokens false doc ++ markedTokens docs) =
      (doc :: docs).map fun d => some (docGraph d) := by
  obtain ⟨hdoc, hdocs⟩ := List.forall_mem_cons.mp hf
  have hfirst := document_first doc docs hdoc
  have hrest := documentsFrom_marked false docs hdocs hs
  obtain ⟨token, more, hd, -⟩ := docTokens_opens doc
  rw [hd, List.cons_append] at hfirst ⊢
  simp [documentsFrom, hfirst, hrest]

end Composer

theorem length_docTokens_le (docs : List Json) :
    (∀ d ∈ docs, (docTokens false d).length ≤ (markedTokens docs).length) ∧
      docs.length ≤ (markedTokens docs).length := by
  induction docs with
  | nil => simp
  | cons doc docs ih =>
    have hlen : (markedTokens (doc :: docs)).length =
        (docTokens false doc).length + 1 + (markedTokens docs).length := by
      simp [markedTokens]
      omega
    refine ⟨fun d hd => ?_, by rw [List.length_cons]; omega⟩
    rcases List.mem_cons.mp hd with rfl | hd
    · omega
    · exact (ih.1 d hd).trans (by omega)

/-- The nodes of a written stream are those of its documents. -/
theorem graphs_writeDocuments (doc : Json) (docs : List Json)
    (hn : ∀ d ∈ doc :: docs, NumbersFit d) :
    graphs (writeDocuments (doc :: docs)).toList =
      (doc :: docs).map fun d => some (docGraph d) := by
  obtain ⟨hdoc, hdocs⟩ := List.forall_mem_cons.mp hn
  obtain ⟨hlen, hcount⟩ := length_docTokens_le docs
  obtain ⟨token, more, hd, -⟩ := Composer.docTokens_opens doc
  rw [graphs, tokens_writeDocuments docs hdoc hdocs]
  generalize htokens : docTokens false doc ++ markedTokens docs = tokens
  have htotal : (docTokens false doc).length + (markedTokens docs).length = tokens.length := by
    rw [← htokens, List.length_append]
  have hpos : 0 < (docTokens false doc).length := by simp [hd]
  have hfuel : ∀ d ∈ doc :: docs, 4 * (docTokens false d).length ≤ 4 * tokens.length + 8 := by
    intro d hmem
    rcases List.mem_cons.mp hmem with rfl | hmem
    · omega
    · have hle := hlen d hmem
      omega
  have hnodes := Composer.documentsFrom_tokens doc docs hfuel
    (by omega : docs.length < tokens.length)
  rw [htokens] at hnodes
  obtain ⟨first, others, rfl⟩ : ∃ first others, tokens = first :: others := by
    rw [← htokens, hd]
    exact ⟨_, _, rfl⟩
  exact hnodes

/-- A document is composed into its node behind the mark as well. -/
theorem graphs_writeMarked (doc : Json) (hn : NumbersFit doc) :
    graphs (writeMarked doc).toList = [some (docGraph doc)] := by
  rw [graphs, tokens_writeMarked hn]
  obtain ⟨hlen, hcount⟩ := length_docTokens_le [doc]
  have hfuel : ∀ d ∈ [doc], 4 * (docTokens false d).length ≤ 4 * (markedTokens [doc]).length + 8 :=
    fun d hd => by have hle := hlen d hd; omega
  exact Composer.documentsFrom_marked true [doc] hfuel (by omega)

end ClusterConfig.Yaml
