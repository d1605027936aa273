import Mathlib
import ClusterConfig.Proofs.Yaml.Layout

/-!
# The tokens of a document

A written document is scanned as the tokens of its parts. The items of an array that is the value of
a short name stand at the indent of the name, so no collection opens for them; any other collection
opens in front of its first part and is closed where the text goes on left of it.
-/

set_option autoImplicit false

namespace ClusterConfig.Yaml

open Spot

/-- The token of a scalar or the tokens of an empty collection. -/
def inlineTokens : Json → List Token
  | .str s => [stringToken false s]
  | .arr _ => [.flowSequence, .flowSequenceEnd]
  | .obj _ => [.flowMapping, .flowMappingEnd]
  | doc => [.scalar .plain ((spelling? doc).getD "").toList]

mutual

/-- The tokens of a document; `aligned` tells that its items stand at the indent of its name. -/
def docTokens (aligned : Bool) : Json → List Token
  | .arr (item :: rest) =>
    if aligned then itemTokens (item :: rest)
    else .blockSequence :: (itemTokens (item :: rest) ++ [.blockEnd])
  | .obj (entry :: rest) => .blockMapping :: (memberTokens (entry :: rest) ++ [.blockEnd])
  | doc => inlineTokens doc

def itemTokens : List Json → List Token
  | [] => []
  | item :: rest => .blockEntry :: (docTokens false item ++ itemTokens rest)

def memberTokens : List (String × Json) → List Token
  | [] => []
  | (name, doc) :: rest =>
    .key :: stringToken (isShortName name) name :: .value ::
      (docTokens (isShortName name) doc ++ memberTokens rest)

end

variable {doc : Json} {outer : Option Nat} {p : Spot} {n : Nat} {rest : List Char}

theorem docTokens_inline (aligned : Bool) (h : isInline doc = true) :
    docTokens aligned doc = inlineTokens doc := by
  match doc, h with
  | .null, _ | .bool _, _ | .int _, _ | .float _, _ | .str _, _ | .arr [], _ | .obj [], _ => rfl

theorem members_of_not_inline (h : isInline doc = false) :
    (∃ item more, doc = .arr (item :: more)) ∨ ∃ entry more, doc = .obj (entry :: more) := by
  cases doc with
  | arr items =>
    cases items with
    | nil => cases h
    | cons item more => exact .inl ⟨item, more, rfl⟩
  | obj members =>
    cases members with
    | nil => cases h
    | cons entry more => exact .inr ⟨entry, more, rfl⟩
  | _ => cases h

/-! ## Values on one line -/

theorem inlineTokens_spelling {s : String} (h : spelling? doc = some s) :
    inlineTokens doc = [.scalar .plain s.toList] := by
  match doc, h with
  | .null, rfl | .bool true, rfl | .bool false, rfl | .int _, rfl | .float _, rfl => rfl

theorem scans_inline (outer : Option Nat) (h : isInline doc = true) (hn : NumbersFit doc) :
    Scans outer (endLine (docText outer doc)) (inlineTokens doc) := by
  rcases isInline_cases h with ⟨s, hs⟩ | ⟨s, rfl⟩ | rfl | rfl
  · have hplain := (spelling?_means hs hn).1
    have hlast : ∀ c ∈ s.toList.getLast?, isLineBreak c = false := fun c hc =>
      ((allowsPlain_iff.mp hplain).1 c (List.mem_of_mem_getLast? hc)).2
    rw [docText_spelling hs, inlineTokens_spelling hs, endLine_eq_append hlast]
    exact scans_plain hplain (spelling?_ne_nil hs hn) outer
  · exact scans_string outer s
  · exact scans_emptySequence outer
  · exact scans_emptyMapping outer

/-! ## Values and lines -/

/-- A text that is scanned as some tokens after the mark of an entry of the collection at `k`. -/
def ScansValue (k : Nat) (text : List Char) (tokens : List Token) : Prop :=
  ∀ (p : Spot) (n : Nat) (rest : List Char), p.rest = text ++ (spaces n ++ rest) →
    p.indents.head? = some k → p.allowed = true → p.column = k + 2 → Follows (some k) n rest →
      p.Leads (closed ⟨rest, n, true, p.indents, tokens.reverse ++ p.tokens⟩ n)

/-- A text whose lines are entries of a collection at `k`, which a token opens unless one is open
there. -/
def ScansLines (k : Nat) (token : Token) (text : List Char) (tokens : List Token) : Prop :=
  ∀ (p : Spot) (n : Nat) (rest : List Char), p.rest = text ++ (spaces n ++ rest) →
    (∀ m ∈ p.indents.head?, m ≤ p.column) → p.allowed = true → p.column = k →
      Follows (some k) n rest →
        p.Leads (closed ⟨rest, n, true, (p.opened token).indents,
          tokens.reverse ++ (p.opened token).tokens⟩ n)

variable {k : Nat} {text more key : List Char} {tokens others : List Token} {token : Token}

theorem ScansValue.of_scans (h : Scans (some k) text tokens) : ScansValue k text tokens := by
  intro p n rest hp hk _ hc hf
  refine h p n rest hp hk ?_ hf
  rintro m ⟨⟩
  omega

/-- A collection opens at an indent of its own and is closed by what follows. -/
theorem ScansLines.value (h : ScansLines (k + 2) token text tokens) :
    ScansValue k text (token :: (tokens ++ [.blockEnd])) := by
  intro p n rest hp hk ha hc hf
  have hn : n ≤ k := hf.2
  have hopened : p.opened token =
      { p with indents := p.column :: p.indents, tokens := token :: p.tokens } := by
    have hleft : ¬ p.column ≤ k := by omega
    rw [opened, hk]
    simp [hleft]
  have hlines := h p n rest hp (by rw [hk]; rintro m ⟨⟩; omega) ha hc ⟨hf.1, by omega⟩
  have hclosed : n < p.column := by omega
  rw [hopened] at hlines
  simpa [closed, hclosed, List.replicate_succ'] using hlines

theorem ScansLines.item (h : ScansValue k text tokens) (hw : Written text) :
    ScansLines k .blockSequence ('-' :: ' ' :: text) (.blockEntry :: tokens) := by
  intro p n rest hp hh ha hc hf
  have hfirst := leads_item hp (hw.starts _) ha hh
  have hhead := opened_head .blockSequence hh
  have hsecond := h ⟨text ++ (spaces n ++ rest), p.column + 2, true,
    (p.opened .blockSequence).indents, .blockEntry :: (p.opened .blockSequence).tokens⟩ n rest rfl
    (by rw [hhead, hc]) rfl (by rw [hc]) hf
  simpa using hfirst.trans hsecond

theorem le_of_head {indents : List Nat} (h : indents.head? = some k) :
    ∀ m ∈ indents.head?, m ≤ k := by
  rw [h]
  rintro m ⟨⟩
  exact le_refl _

/-- Nothing opens or closes where a collection stands already. -/
theorem opened_of_head {indents : List Nat} (h : indents.head? = some k) (rest : List Char)
    (allowed : Bool) (tokens : List Token) (token : Token) :
    opened ⟨rest, k, allowed, indents, tokens⟩ token = ⟨rest, k, allowed, indents, tokens⟩ := by
  rw [opened, h]
  simp

theorem closed_of_head {indents : List Nat} (h : indents.head? = some k) (rest : List Char)
    (column : Nat) (allowed : Bool) (tokens : List Token) :
    closed ⟨rest, column, allowed, indents, tokens⟩ k =
      ⟨rest, column, allowed, indents, tokens⟩ := closed_eq_self (le_of_head h)

theorem ScansLines.append (h : ScansLines k token text tokens) (h' : ScansLines k token more others)
    (hw : Written more) :
    ScansLines k token (text ++ (spaces k ++ more)) (tokens ++ others) := by
  intro p n rest hp hh ha hc hf
  have hhead : (p.opened token).indents.head? = some k := hc ▸ opened_head token hh
  have hfirst := h p k (more ++ (spaces n ++ rest)) (by simpa using hp) hh ha hc
    ⟨hw.starts _, le_refl k⟩
  rw [closed_of_head hhead] at hfirst
  have hsecond := h' ⟨more ++ (spaces n ++ rest), k, true, (p.opened token).indents,
    tokens.reverse ++ (p.opened token).tokens⟩ n rest rfl (le_of_head hhead) rfl rfl hf
  rw [opened_of_head hhead] at hsecond
  simpa using hfirst.trans hsecond

/-! ## Members -/

/-- A short name with its value on the same line. -/
theorem ScansLines.keyed (hk : ScansKey key token) (h : Scans (some k) text tokens)
    (hw : Written text) :
    ScansLines k .blockMapping (key ++ ':' :: ' ' :: text) (.key :: token :: .value :: tokens) := by
  intro p n rest hp hh ha hc hf
  have hhead : (p.opened .blockMapping).indents.head? = some k := hc ▸ opened_head _ hh
  have hfirst := leads_keyed hk (by simpa using hp) (hw.starts (spaces n ++ rest)) ha hh
  have hsecond := h ⟨text ++ (spaces n ++ rest), p.column + key.length + 2, false,
    (p.opened .blockMapping).indents, .value :: token :: .key :: (p.opened .blockMapping).tokens⟩
    n rest rfl hhead (by rintro m ⟨⟩; simp only; omega) hf
  simpa using hfirst.trans hsecond

/-- A short name with items from the next line on. -/
theorem ScansLines.keyed_items (hk : ScansKey key token)
    (h : ScansLines k .blockSequence text tokens) (hw : Written text) :
    ScansLines k .blockMapping (key ++ ':' :: '\n' :: (spaces k ++ text))
      (.key :: token :: .value :: tokens) := by
  intro p n rest hp hh ha hc hf
  have hhead : (p.opened .blockMapping).indents.head? = some k := hc ▸ opened_head _ hh
  have hfirst := leads_keyed_broken hk (by simpa using hp) (hw.starts (spaces n ++ rest)) ha hh
    hc.le
  have hsecond := h ⟨text ++ (spaces n ++ rest), k, true, (p.opened .blockMapping).indents,
    .value :: token :: .key :: (p.opened .blockMapping).tokens⟩ n rest rfl (le_of_head hhead) rfl
    rfl hf
  rw [opened_of_head hhead] at hsecond
  simpa using hfirst.trans hsecond

/-- A short name with members from the next line on. -/
theorem ScansLines.keyed_members (hk : ScansKey key token) (h : ScansValue k text tokens)
    (hw : Written text) :
    ScansLines k .blockMapping (key ++ ':' :: '\n' :: (spaces (k + 2) ++ text))
      (.key :: token :: .value :: tokens) := by
  intro p n rest hp hh ha hc hf
  have hhead : (p.opened .blockMapping).indents.head? = some k := hc ▸ opened_head _ hh
  have hfirst := leads_keyed_broken hk (by simpa using hp) (hw.starts (spaces n ++ rest)) ha hh
    (by omega)
  have hsecond := h ⟨text ++ (spaces n ++ rest), k + 2, true, (p.opened .blockMapping).indents,
    .value :: token :: .key :: (p.opened .blockMapping).tokens⟩ n rest rfl hhead rfl rfl hf
  simpa using hfirst.trans hsecond

/-- A long name on a line of its own. -/
theorem ScansLines.explicit (h : Scans (some k) key [token]) (hk : Written key)
    (h' : ScansValue k text tokens) (hw : Written text) :
    ScansLines k .blockMapping ('?' :: ' ' :: key ++ (spaces k ++ ':' :: ' ' :: text))
      (.key :: token :: .value :: tokens) := by
  intro p n rest hp hh ha hc hf
  have hhead : (p.opened .blockMapping).indents.head? = some k := hc ▸ opened_head _ hh
  have hcolon : Starts (':' :: ' ' :: (text ++ (spaces n ++ rest))) :=
    (hw.marked (by decide : isPrintable ':' = true ∧ _)).starts _
  -- the two marks and what follows each, one after the other
  have hmark := leads_explicitKey (by simpa using hp)
    (hk.starts (spaces k ++ ':' :: ' ' :: (text ++ (spaces n ++ rest)))) ha hh
  have hname := h ⟨key ++ (spaces k ++ ':' :: ' ' :: (text ++ (spaces n ++ rest))), p.column + 2,
    true, (p.opened .blockMapping).indents, .key :: (p.opened .blockMapping).tokens⟩ k _ rfl hhead
    (by rintro m ⟨⟩; simp only; omega) ⟨hcolon, le_refl k⟩
  simp only [closed_of_head hhead] at hname
  have hcolonMark := leads_explicitValue
    (p := ⟨':' :: ' ' :: (text ++ (spaces n ++ rest)), k, true, (p.opened .blockMapping).indents,
      token :: .key :: (p.opened .blockMapping).tokens⟩) rfl (hw.starts _) rfl (le_of_head hhead)
  rw [opened_of_head hhead] at hcolonMark
  have hvalue := h' ⟨text ++ (spaces n ++ rest), k + 2, true, (p.opened .blockMapping).indents,
    .value :: token :: .key :: (p.opened .blockMapping).tokens⟩ n rest rfl hhead rfl rfl hf
  simpa using hmark.trans (hname.trans (hcolonMark.trans hvalue))

/-! ## Documents in collections -/

theorem scansKey_of_isShortName {name : String} (h : isShortName name = true) :
    ScansKey (writeString true 0 name) (stringToken true name) := by
  simp only [isShortName, isShortKey, keyLength?] at h
  split at h
  · cases h
  · rename_i hb
    exact scansKey_string (by simpa using hb) (by simpa using h)

theorem endLine_lines {front back : List Char} (hb : back ≠ []) :
    endLine (front ++ (spaces k ++ back)) = front ++ (spaces k ++ endLine back) := by
  rw [endLine_append front (by simp [hb]), endLine_append _ hb]

theorem endLine_marked (c : Char) {back : List Char} (hb : back ≠ []) :
    endLine (c :: ' ' :: back) = c :: ' ' :: endLine back := by
  rw [endLine_cons c (List.cons_ne_nil _ _), endLine_cons ' ' hb]

theorem endLine_keyed_broken {n : Nat} {back : List Char} (hb : back ≠ []) :
    endLine (key ++ ':' :: '\n' :: (spaces n ++ back)) =
      key ++ ':' :: '\n' :: (spaces n ++ endLine back) := by
  rw [endLine_append key (List.cons_ne_nil _ _), endLine_cons ':' (List.cons_ne_nil _ _),
    endLine_cons '\n' (by simp [hb]), endLine_append _ hb]

/-- A document is scanned as its tokens wherever it stands in a collection at `k`: after the mark of
an entry, or, if it has items, at the indent of its name. -/
structure ScansDoc (k : Nat) (doc : Json) : Prop where
  value : ScansValue k (endLine (docText (some k) doc)) (docTokens false doc)
  aligned : ∀ item rest, doc = .arr (item :: rest) →
    ScansLines k .blockSequence (endLine (itemLines k (item :: rest))) (itemTokens (item :: rest))

theorem ScansDoc.of_inline (h : isInline doc = true) (hn : NumbersFit doc) : ScansDoc k doc := by
  refine ⟨?_, ?_⟩
  · rw [docTokens_inline false h]
    exact .of_scans (scans_inline _ h hn)
  · rintro item rest rfl
    cases h

theorem ScansLines.member_short {name : String} (hshort : isShortName name = true)
    (h : ScansDoc k doc) (hn : NumbersFit doc) :
    ScansLines k .blockMapping
      (endLine (writeString true 0 name ++ ':' :: shortValueText k doc))
      (.key :: stringToken true name :: .value :: docTokens true doc) := by
  have hkey := scansKey_of_isShortName hshort
  have hw := written_docText (some k) doc hn
  match doc, h, hn with
  | .arr (item :: rest), h, hn =>
    have hlines := written_itemLines k (item :: rest) (List.cons_ne_nil _ _) hn
    rw [shortValueText_arr, endLine_keyed_broken hlines.nonempty]
    exact ScansLines.keyed_items hkey (h.aligned item rest rfl) hlines.endLine
  | .obj (entry :: rest), h, hn =>
    rw [shortValueText_obj, endLine_keyed_broken hw.nonempty]
    exact ScansLines.keyed_members hkey h.value hw.endLine
  | .null, _, hn | .bool _, _, hn | .int _, _, hn | .float _, _, hn | .str _, _, hn
  | .arr [], _, hn | .obj [], _, hn =>
    rw [shortValueText_inline rfl, endLine_append _ (List.cons_ne_nil _ _),
      endLine_marked ':' hw.nonempty]
    exact ScansLines.keyed hkey (scans_inline _ rfl hn) hw.endLine

theorem ScansLines.member (name : String) (h : ScansDoc k doc) (hn : NumbersFit doc) :
    ScansLines k .blockMapping (endLine (memberText k name doc))
      (.key :: stringToken (isShortName name) name :: .value ::
        docTokens (isShortName name) doc) := by
  rw [memberText]
  cases hshort : isShortName name with
  | true =>
    rw [if_pos rfl]
    exact ScansLines.member_short hshort h hn
  | false =>
    have hw := written_docText (some k) doc hn
    have hname := written_string false (literalIndent (some k)) name
    rw [if_neg Bool.false_ne_true, endLine_lines (List.cons_ne_nil _ _),
      endLine_marked '?' hname.nonempty, endLine_marked ':' hw.nonempty]
    exact ScansLines.explicit (scans_string (some k) name) hname.endLine h.value hw.endLine

mutual

theorem scansDoc (k : Nat) (doc : Json) (hn : NumbersFit doc) : ScansDoc k doc := by
  match doc, hn with
  | .arr (item :: rest), hn =>
    have hitems (k : Nat) := scansLines_items k (item :: rest) (List.cons_ne_nil _ _) hn
    refine ⟨?_, fun _ _ h => ?_⟩
    · rw [docText_arr]
      exact (hitems (k + 2)).value
    · obtain ⟨rfl, rfl⟩ := List.cons.inj (Json.arr.inj h)
      exact hitems k
  | .obj (entry :: rest), hn =>
    have hmembers := scansLines_members (k + 2) (entry :: rest) (List.cons_ne_nil _ _) hn
    refine ⟨?_, fun _ _ h => by cases h⟩
    rw [docText_obj]
    exact hmembers.value
  | .null, hn | .bool _, hn | .int _, hn | .float _, hn | .str _, hn | .arr [], hn | .obj [], hn =>
    exact .of_inline rfl hn

theorem scansLines_items (k : Nat) (items : List Json) (hne : items ≠ [])
    (hn : NumbersFitItems items) :
    ScansLines k .blockSequence (endLine (itemLines k items)) (itemTokens items) := by
  match items, hne, hn with
  | item :: rest, _, ⟨hitem, hrest⟩ =>
    have hw := written_docText (some k) item hitem
    have hfirst := ScansLines.item (scansDoc k item hitem).value hw.endLine
    rw [← endLine_marked '-' hw.nonempty] at hfirst
    rw [itemLines_cons, itemTokens]
    cases rest with
    | nil => simpa [itemTokens] using hfirst
    | cons next more =>
      have hlines := written_itemLines k (next :: more) (List.cons_ne_nil _ _) hrest
      have hothers := scansLines_items k (next :: more) (List.cons_ne_nil _ _) hrest
      rw [endLine_lines hlines.nonempty]
      exact hfirst.append hothers hlines.endLine

theorem scansLines_members (k : Nat) (members : List (String × Json)) (hne : members ≠ [])
    (hn : NumbersFitMembers members) :
    ScansLines k .blockMapping (endLine (memberLines k members)) (memberTokens members) := by
  match members, hne, hn with
  | (name, doc) :: rest, _, ⟨hdoc, hrest⟩ =>
    have hfirst := ScansLines.member name (scansDoc k doc hdoc) hdoc
    rw [memberLines_cons, memberTokens]
    cases rest with
    | nil => simpa [memberTokens] using hfirst
    | cons next more =>
      have hlines := written_memberLines k (next :: more) (List.cons_ne_nil _ _) hrest
      have hothers := scansLines_members k (next :: more) (List.cons_ne_nil _ _) hrest
      rw [endLine_lines hlines.nonempty]
      exact hfirst.append hothers hlines.endLine

end

/-! ## Streams -/

/-- The text of the documents after the first. -/
def markedText (docs : List Json) : List Char :=
  docs.flatMap fun doc => '-' :: '-' :: '-' :: '\n' :: endLine (docText none doc)

/-- The tokens of the documents after the first. -/
def markedTokens (docs : List Json) : List Token :=
  docs.flatMap fun doc => .documentStart :: docTokens false doc

theorem toList_writeMarked (doc : Json) :
    (writeMarked doc).toList = '-' :: '-' :: '-' :: '\n' :: endLine (docText none doc) := by
  rw [writeMarked, String.toList_append, writeJson, writeValue, String.toList_ofList]
  rfl

theorem toList_writeDocuments (doc : Json) (docs : List Json) :
    (writeDocuments (doc :: docs)).toList = endLine (docText none doc) ++ markedText docs := by
  have hmarked (docs : List Json) :
      (String.join (docs.map writeMarked)).toList = markedText docs := by
    induction docs with
    | nil => rfl
    | cons next more ih =>
      rw [List.map_cons, String.join_cons, String.toList_append, ih, toList_writeMarked]
      rfl
  rw [writeDocuments, String.toList_append, hmarked, writeJson, writeValue, String.toList_ofList]
  rfl

theorem follows_markedText (docs : List Json) :
    Follows none 0 (markedText docs) := by
  cases docs with
  | nil => exact ⟨.nil, rfl, .inl rfl⟩
  | cons next more =>
    refine ⟨?_, rfl, .inr ⟨_, rfl⟩⟩
    rintro c ⟨⟩
    decide

/-- A document at the start of a line; what it leaves open is closed where it ends. -/
theorem leads_document (hn : NumbersFit doc) (hp : p.rest = endLine (docText none doc) ++ rest)
    (hc : p.column = 0) (ha : p.allowed = true) (hi : p.indents = []) (hf : Follows none 0 rest) :
    ∃ q : Spot, p.Leads q ∧ q.rest = rest ∧ q.column = 0 ∧
      q.ended.tokens = (docTokens false doc).reverse ++ p.tokens := by
  have hopened (token : Token) : p.opened token =
      { p with indents := [0], tokens := token :: p.tokens } := by
    rw [opened, hi, hc]
    rfl
  cases hinline : isInline doc with
  | true =>
    have hline := scans_inline none hinline hn p 0 rest hp (by simp [hi]) (by simp) hf
    rw [docTokens_inline false hinline]
    exact ⟨_, hline, rfl, rfl, by simp [ended, closed, hi]⟩
  | false =>
    obtain ⟨item, more, rfl⟩ | ⟨entry, more, rfl⟩ := members_of_not_inline hinline
    · rw [docText_arr] at hp
      have hlines := scansLines_items 0 (item :: more) (List.cons_ne_nil _ _) hn p 0 rest hp
        (by simp [hi]) ha hc ⟨hf.1, le_refl 0⟩
      rw [hopened, closed_of_head rfl] at hlines
      exact ⟨_, hlines, rfl, rfl, by simp [ended, docTokens]⟩
    · rw [docText_obj] at hp
      have hlines := scansLines_members 0 (entry :: more) (List.cons_ne_nil _ _) hn p 0 rest hp
        (by simp [hi]) ha hc ⟨hf.1, le_refl 0⟩
      rw [hopened, closed_of_head rfl] at hlines
      exact ⟨_, hlines, rfl, rfl, by simp [ended, docTokens]⟩

theorem starts_document (hn : NumbersFit doc) (rest : List Char) :
    Starts (endLine (docText none doc) ++ rest) :=
  (written_docText none doc hn).endLine.starts rest

/-- All documents from the start of one on. -/
theorem leads_documents (docs : List Json) (hn : NumbersFit doc) (hd : ∀ doc ∈ docs, NumbersFit doc)
    (hp : p.rest = endLine (docText none doc) ++ markedText docs) (hc : p.column = 0)
    (ha : p.allowed = true) (hi : p.indents = []) :
    ∃ q : Spot, p.Leads q ∧ q.rest = [] ∧
      q.ended.tokens = (docTokens false doc ++ markedTokens docs).reverse ++ p.tokens := by
  induction docs generalizing doc p with
  | nil =>
    obtain ⟨q, hq, hrest, -, htokens⟩ := leads_document hn hp hc ha hi (follows_markedText [])
    exact ⟨q, hq, hrest, by simpa [markedTokens] using htokens⟩
  | cons next more ih =>
    obtain ⟨hnext, hmore⟩ := List.forall_mem_cons.mp hd
    obtain ⟨q, hq, hrest, hcolumn, htokens⟩ :=
      leads_document hn hp hc ha hi (follows_markedText (next :: more))
    have hmark := leads_documentStart (hrest.trans (by simp [markedText]))
      (starts_document hnext (markedText more)) hcolumn
    obtain ⟨r, hr, hend, hall⟩ := ih
      (p := ⟨_, 0, true, [], .documentStart :: q.ended.tokens⟩) hnext hmore rfl rfl rfl rfl
    refine ⟨r, hq.trans (hmark.trans hr), hend, ?_⟩
    rw [hall, htokens]
    simp [markedTokens]

theorem isStreamChar_of_printable {c : Char} (h : isPrintable c = true) :
    isStreamChar c = true := by
  simp only [isPrintable, isStreamChar, Bool.or_eq_true, Bool.and_eq_true, decide_eq_true_eq] at h ⊢
  omega

theorem printable_documents (docs : List Json) (hd : ∀ doc ∈ docs, NumbersFit doc) :
    Printable (markedText docs) := by
  induction docs with
  | nil => exact printable_nil
  | cons next more ih =>
    obtain ⟨hnext, hmore⟩ := List.forall_mem_cons.mp hd
    have hdash : isPrintable '-' = true := by decide
    have hmark : Printable ['-', '-', '-', '\n'] := printable_cons hdash
      (printable_cons hdash (printable_cons hdash (printable_singleton (by decide))))
    have hdoc := (written_docText none next hnext).endLine.printable
    exact printable_append (printable_append hmark hdoc) (ih hmore)

theorem tokens_eq (hs : Starts text) (hall : text.all isStreamChar = true) :
    Yaml.tokens text = (Scan.run (text.length + 1) (.ofChars text)).reverse := by
  cases text with
  | nil => rfl
  | cons c rest =>
    have hmark : isByteOrderMark c = false := (hs c rfl).2.2
    rw [Yaml.tokens]
    simp only [hmark, Bool.false_eq_true, if_false, if_pos hall]

/-- The tokens of a text are those that are read from its start to its end. -/
theorem tokens_of_leads {q : Spot} (hs : Starts text) (hp : Printable text)
    (hq : Leads ⟨text, 0, true, [], []⟩ q) (hr : q.rest = []) :
    Yaml.tokens text = q.ended.tokens.reverse := by
  have hall : text.all isStreamChar = true :=
    List.all_eq_true.mpr fun c hc => isStreamChar_of_printable (hp c hc)
  obtain ⟨index, line, hreaches⟩ := hq 0 0
  have hsettle : (scan ⟨text, 0, true, [], []⟩ none 0 0).settle =
      some (scan ⟨text, 0, true, [], []⟩ none 0 0) := by
    rw [settle_spaces (n := 0) (by rfl) hs (Gone.none 0)]
    rfl
  obtain ⟨left, -, hresume⟩ := Scan.resume_of_reaches hreaches (le_refl text.length)
  rw [tokens_eq hs hall, Scan.run_eq_resume (s := .ofChars text) hsettle, hresume,
    resume_end left hr]

/-- The tokens of a written stream are those of its documents, with the mark between two of them. -/
theorem tokens_writeDocuments (docs : List Json) (hn : NumbersFit doc)
    (hd : ∀ doc ∈ docs, NumbersFit doc) :
    Yaml.tokens (writeDocuments (doc :: docs)).toList =
      docTokens false doc ++ markedTokens docs := by
  rw [toList_writeDocuments]
  obtain ⟨q, hq, hrest, htokens⟩ := leads_documents
    (p := ⟨endLine (docText none doc) ++ markedText docs, 0, true, [], []⟩) docs hn hd rfl rfl rfl
    rfl
  rw [tokens_of_leads (starts_document hn _) (printable_append
    (written_docText none doc hn).endLine.printable (printable_documents docs hd)) hq hrest,
    htokens, List.append_nil, List.reverse_reverse]

/-- A document with the mark in front of it has the token of the mark in front of its own. -/
theorem tokens_writeMarked (hn : NumbersFit doc) :
    Yaml.tokens (writeMarked doc).toList = markedTokens [doc] := by
  have htext : (writeMarked doc).toList = markedText [doc] := by
    rw [toList_writeMarked, markedText, List.flatMap_singleton]
  have hmark := leads_documentStart (p := ⟨markedText [doc], 0, true, [], []⟩)
    (by simp [markedText]) (starts_document hn []) rfl
  obtain ⟨q, hq, hrest, htokens⟩ := leads_documents
    (p := ⟨endLine (docText none doc) ++ [], 0, true, [], [.documentStart]⟩) [] hn (by simp) rfl rfl
    rfl rfl
  have hprintable := printable_documents [doc] (by simpa using hn)
  rw [htext, tokens_of_leads (follows_markedText [doc]).1 hprintable (hmark.trans hq) hrest, htokens]
  simp [markedTokens]

end ClusterConfig.Yaml
