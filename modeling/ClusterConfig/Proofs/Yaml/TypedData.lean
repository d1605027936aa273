import Mathlib
import ClusterConfig.Yaml.Source
import ClusterConfig.Proofs.Documents.Members
import ClusterConfig.Proofs.Yaml.WrittenNodes

/-!
# Typed data in written documents

Typed data is read from the node of a written document, from its value, or from a value that was
buffered. In each of them a text, a number or a flag is read as it was, a list has its items, a map
its entries, and a structure finds the fields that were written for it.
-/

set_option autoImplicit false

namespace ClusterConfig

namespace Yaml

/-! ## Values -/

namespace Value

variable {doc : Json} {rule : Rule} {members : Members Json}

theorem ofJsonItems_eq (items : List Json) : ofJsonItems items = items.map ofJson := by
  induction items with
  | nil => rfl
  | cons item rest ih => rw [ofJsonItems, ih, List.map_cons]

theorem ofJsonMembers_eq (members : Members Json) :
    ofJsonMembers members = members.map fun entry => (.str entry.1, ofJson entry.2) := by
  induction members with
  | nil => rfl
  | cons entry rest ih => rw [ofJsonMembers, ih, List.map_cons]

mutual

theorem hasTag_ofJson : ∀ doc : Json, (ofJson doc).hasTag = false
  | .null | .bool _ | .int _ | .float _ | .str _ => rfl
  | .arr items => anyHasTag_ofJson items
  | .obj members => anyEntryHasTag_ofJson members

theorem anyHasTag_ofJson : ∀ items : List Json, anyHasTag (ofJsonItems items) = false
  | [] => rfl
  | item :: rest => by
    rw [ofJsonItems, anyHasTag, hasTag_ofJson item, anyHasTag_ofJson rest]
    rfl

theorem anyEntryHasTag_ofJson : ∀ members : Members Json,
    anyEntryHasTag (ofJsonMembers members) = false
  | [] => rfl
  | (_, value) :: rest => by
    rw [ofJsonMembers, anyEntryHasTag, hasTag_ofJson value, anyEntryHasTag_ofJson rest]
    rfl

end

mutual

/-- The document of a value is the one it was made from. -/
theorem json?_ofJson : ∀ doc : Json, doc.WellFormed → NumbersFit doc → (ofJson doc).json? = some doc
  | .null, _, _ | .bool _, _, _ | .int _, _, _ | .str _, _, _ => rfl
  | .float x, _, hn => by
    have hx : x.isFinite = true := hn
    rw [ofJson, json?, if_pos hx]
  | .arr items, hw, hn => by
    rw [ofJson, json?, jsonItems?_ofJson items hw hn]
    rfl
  | .obj members, hw, hn => by
    rw [ofJson, json?, jsonMembers?_ofJson [] members hw.1 hw.2 hn]
    rfl

theorem jsonItems?_ofJson : ∀ items : List Json, Json.WellFormedItems items →
    NumbersFitItems items → jsonItems? (ofJsonItems items) = some items
  | [], _, _ => rfl
  | item :: rest, hw, hn => by
    rw [ofJsonItems, jsonItems?, json?_ofJson item hw.1 hn.1, jsonItems?_ofJson rest hw.2 hn.2]
    rfl

theorem jsonMembers?_ofJson (before : Members Json) : ∀ members : Members Json,
    (Members.keys (before ++ members)).Nodup → Json.WellFormedMembers members →
    NumbersFitMembers members →
    jsonMembers? before (ofJsonMembers members) = some (before ++ members)
  | [], _, _, _ => by rw [ofJsonMembers, jsonMembers?, List.append_nil]
  | (name, value) :: rest, hd, hw, hn => by
    obtain ⟨-, hput, hd⟩ := Members.put_new value (by simpa [Members.keys] using hd)
    rw [ofJsonMembers, jsonMembers?, json?_ofJson value hw.1 hn.1]
    have hrest := jsonMembers?_ofJson (before ++ [(name, value)]) rest
      (by simpa [Members.keys] using hd) hw.2 hn.2
    simpa [untagged, str?, hput] using hrest

end

/-- The keys of a document are texts, and no two are the same. -/
theorem hasDuplicate_ofJson (hd : (Members.keys members).Nodup) :
    hasDuplicate (ofJsonMembers members) = false := by
  induction members with
  | nil => rfl
  | cons entry rest ih =>
    obtain ⟨name, value⟩ := entry
    obtain ⟨hnew, hrest⟩ := List.nodup_cons.mp hd
    have hkey : ∀ other ∈ rest, ((Value.str name) == (Value.str other.1)) = false := by
      intro other ho
      have hne : name ≠ other.1 := fun hsame => hnew (List.mem_map.mpr ⟨other, ho, hsame.symm⟩)
      show (name == other.1) = false
      exact beq_eq_false_iff_ne.mpr hne
    rw [ofJsonMembers, hasDuplicate, ih hrest, Bool.or_false, ofJsonMembers_eq, List.any_map]
    exact List.any_eq_false.mpr fun other ho => by simpa using hkey other ho

/-- A scalar without a tag becomes what its text means. -/
theorem ofNode?_scalar (rule : Rule) (style : Style) (s : String) :
    ofNode? rule (.scalar none style s) =
      ofPlain s (if style = .plain then Plain.ofText s else .text) := by
  rw [ofNode?]
  cases style with
  | plain => exact Option.bind_fun_some _
  | quoted | literal | folded => rfl

theorem ofNode?_spelling (rule : Rule) {s : String} (h : spelling? doc = some s)
    (hn : NumbersFit doc) : ofNode? rule (.scalar none .plain s) = some (ofJson doc) := by
  rw [ofNode?_scalar, if_pos rfl]
  match doc, h with
  | .null, rfl | .bool true, rfl | .bool false, rfl => rfl
  | .int n, rfl =>
    rw [ofText_int hn]
    rfl
  | .float x, rfl =>
    rw [ofText_floatText hn]
    rfl

theorem ofNode?_token (rule : Rule) (key : Bool) (s : String) :
    ofNode? rule (tokenNode (stringToken key s)) = some (.str s) := by
  have hsuits := suits_form key s
  rw [stringToken, tokenNode, String.ofList_toList, ofNode?_scalar]
  cases hform : form key s with
  | plain =>
    rw [hform] at hsuits
    rw [if_pos rfl, ofText_of_not_wantsQuotes hsuits.2]
    rfl
  | single | double | literal => rfl

mutual

/-- A node of a document becomes its value, by either rule. -/
theorem ofNode?_docNode (rule : Rule) : ∀ doc : Json, doc.WellFormed → NumbersFit doc →
    ofNode? rule (docNode doc) = some (ofJson doc)
  | .null, _, hn | .bool true, _, hn | .bool false, _, hn | .int _, _, hn | .float _, _, hn =>
    ofNode?_spelling rule rfl hn
  | .str s, _, _ => ofNode?_token rule false s
  | .arr items, hw, hn => by
    rw [docNode, ofNode?, ofItems?_itemNodes rule items hw hn]
    rfl
  | .obj members, hw, hn => by
    rw [docNode, ofNode?, ofEntries?_memberNodes rule members hw.2 hn, Option.bind_eq_bind,
      Option.bind_some, hasDuplicate_ofJson hw.1]
    cases rule <;> rfl

theorem ofItems?_itemNodes (rule : Rule) : ∀ items : List Json, Json.WellFormedItems items →
    NumbersFitItems items → ofItems? rule (itemNodes items) = some (ofJsonItems items)
  | [], _, _ => rfl
  | item :: rest, hw, hn => by
    rw [itemNodes, ofItems?, ofNode?_docNode rule item hw.1 hn.1,
      ofItems?_itemNodes rule rest hw.2 hn.2]
    rfl

theorem ofEntries?_memberNodes (rule : Rule) : ∀ members : Members Json,
    Json.WellFormedMembers members → NumbersFitMembers members →
    ofEntries? rule (memberNodes members) = some (ofJsonMembers members)
  | [], _, _ => rfl
  | (name, value) :: rest, hw, hn => by
    rw [memberNodes, ofEntries?, nameNode, ofNode?_token, ofNode?_docNode rule value hw.1 hn.1,
      ofEntries?_memberNodes rule rest hw.2 hn.2]
    rfl

end

theorem ofItems?_eq_none {nodes : List Node} {node : Node} (hm : node ∈ nodes)
    (h : ofNode? rule node = none) : ofItems? rule nodes = none := by
  induction hm with
  | head rest => rw [ofItems?, h, Option.bind_eq_bind, Option.bind_none]
  | tail other _ ih =>
    rw [ofItems?, ih]
    cases ofNode? rule other <;> rfl

theorem ofEntries?_eq_none {entries : List (Node × Node)} {entry : Node × Node}
    (hm : entry ∈ entries) (h : ofNode? rule entry.2 = none) : ofEntries? rule entries = none := by
  induction hm with
  | head rest =>
    rw [ofEntries?, h]
    cases ofNode? rule entry.1 <;> rfl
  | tail other _ ih =>
    rw [ofEntries?, ih]
    cases ofNode? rule other.1 <;> cases ofNode? rule other.2 <;> rfl

/-- A document that nests too deep has no value. -/
theorem ofNode?_deep (rule : Rule) {table : List (Nat × Graph)} {depth : Nat}
    (h : depth < doc.nesting) (jumps : Nat) :
    ofNode? rule (Graph.expandAt table depth jumps (docGraph doc)).1 = none := by
  induction depth generalizing doc jumps with
  | zero =>
    match doc with
    | .arr items => rfl
    | .obj members => rfl
  | succ depth ih =>
    match doc with
    | .arr items =>
      have hdeep : ∃ item ∈ items, depth < item.nesting := by
        by_contra! hall
        exact absurd (Json.nestingOfItems_le.mpr hall) (Nat.not_le.mpr (Nat.succ_lt_succ_iff.mp h))
      obtain ⟨item, hitem, hdeep⟩ := hdeep
      have hgraph : docGraph item ∈ itemGraphs items := by
        rw [itemGraphs_eq]
        exact List.mem_map_of_mem hitem
      obtain ⟨before, hm⟩ := @mem_mapJumps _ _ (Graph.expandAt table depth) _ _ hgraph jumps
      show (ofItems? rule (Graph.mapJumps (Graph.expandAt table depth) jumps (itemGraphs items)).1).bind
        _ = none
      rw [ofItems?_eq_none hm (ih hdeep before), Option.bind_none]
    | .obj members =>
      have hdeep : ∃ entry ∈ members, depth < entry.2.nesting := by
        by_contra! hall
        exact absurd (Json.nestingOfMembers_le.mpr hall)
          (Nat.not_le.mpr (Nat.succ_lt_succ_iff.mp h))
      obtain ⟨entry, hentry, hdeep⟩ := hdeep
      have hgraph : (tokenGraph (stringToken (isShortName entry.1) entry.1), docGraph entry.2) ∈
          memberGraphs members := by
        rw [memberGraphs_eq]
        exact List.mem_map_of_mem hentry
      obtain ⟨before, hm⟩ :=
        @mem_mapJumps _ _ (expandEntry (Graph.expandAt table depth)) _ _ hgraph jumps
      show (ofEntries? rule (Graph.mapJumps (expandEntry (Graph.expandAt table depth)) jumps
        (memberGraphs members)).1).bind _ = none
      rw [ofEntries?_eq_none hm (ih hdeep _), Option.bind_none]

/-- A document that is written alone has its value, unless it nests too deep. -/
theorem ofText?_writeDocuments (hw : doc.WellFormed) (hn : NumbersFit doc) :
    ofText? (writeDocuments [doc]) =
      if doc.nesting ≤ nestingLimit then some (ofJson doc) else none := by
  rw [ofText?, node?_writeDocuments hn, Option.bind_eq_bind, Option.bind_some]
  split
  case isTrue h => rw [expand_docGraph h, ofNode?_docNode .exact doc hw hn]
  case isFalse h => exact ofNode?_deep .exact (Nat.not_le.mp h) _

end Value

/-! ## Media -/

/-- What typed data is read from: the node of a text, a value, or a value that was buffered. -/
inductive Medium where
  | text
  | value
  | buffered

namespace Source

/-- A written document that typed data is read from. -/
def written : Medium → Json → Source
  | .text, doc => .text (docNode doc)
  | .value, doc => .value (.ofJson doc)
  | .buffered, doc => .buffered (.ofJson doc)

/-- A name in front of its value. -/
def named : Medium → String → Source
  | .text, name => .text (nameNode name)
  | .value, name => .value (.str name)
  | .buffered, name => .buffered (.str name)

variable {α : Type} {medium : Medium} {doc : Json} {names : List String} {members : Members Json}

theorem string?_token (key : Bool) (s : String) :
    string? (.text (tokenNode (stringToken key s))) = some s := by
  rw [stringToken, tokenNode, string?, String.ofList_toList]

@[simp]
theorem string?_named (medium : Medium) (name : String) : (named medium name).string? = some name := by
  cases medium with
  | text => exact string?_token _ name
  | value => rfl
  | buffered => rfl

@[simp]
theorem string?_written (medium : Medium) (s : String) :
    (written medium (.str s)).string? = some s := by
  cases medium with
  | text => exact string?_token false s
  | value => rfl
  | buffered => rfl

@[simp]
theorem choice?_written (medium : Medium) (s : String) :
    (written medium (.str s)).choice? = some s := by
  cases medium with
  | text =>
    show choice? (.text (tokenNode (stringToken false s))) = some s
    rw [stringToken, tokenNode, choice?, String.ofList_toList]
  | value => rfl
  | buffered => rfl

@[simp]
theorem bool?_written (medium : Medium) (b : Bool) : (written medium (.bool b)).bool? = some b := by
  cases medium with
  | text => cases b <;> decide
  | value => rfl
  | buffered => rfl

/-- Digits are a natural number with or without a sign in front of them. -/
theorem unsignedText?_toString (n : Nat) : unsignedText? (toString (n : Int)).toList = some n := by
  have hchars : (toString (n : Int)).toList = Nat.toDigits 10 n := by
    rw [toList_toString]
    simp [signed]
  have hplus : ∀ rest, Nat.toDigits 10 n ≠ '+' :: rest := fun rest hrest => by
    have hdigit := digits_toDigits n '+' (hrest ▸ List.mem_cons_self)
    cases hdigit
  rw [hchars, unsignedText?.eq_def]
  split
  · rename_i rest hrest
    exact absurd hrest (hplus rest)
  · exact magnitude?_toDigits n

theorem natural?_written (medium : Medium) {n limit : Nat} (h : n ≤ limit) :
    (written medium (.int n)).natural? limit = some n := by
  cases medium with
  | text =>
    show ((unsignedText? (toString (n : Int)).toList).bind fun n =>
      if n ≤ limit then some n else none) = some n
    rw [unsignedText?_toString, Option.bind_some, if_pos h]
  | value => simp [written, Value.ofJson, natural?, Value.untagged, naturalOf?, h]
  | buffered => simp [written, Value.ofJson, natural?, naturalOf?, h]

/-- A plain scalar is no null where its text means none. -/
theorem nullable_plain {s : String} (h : Plain.ofText s ≠ .null) :
    nullable (.text (.scalar none .plain s)) = some (some (.text (.scalar none .plain s))) := by
  have hnull : (s.isEmpty || Plain.isNullText s) = false := by
    cases hs : s.isEmpty || Plain.isNullText s with
    | false => rfl
    | true => exact absurd (by rw [Plain.ofText, if_pos hs]) h
  rw [nullable, if_neg (fun hp => hp rfl)]
  simp only [hnull, Bool.false_eq_true, if_false]

theorem nullable_spelling {s : String} (h : spelling? doc = some s) (hn : NumbersFit doc)
    (hd : doc ≠ .null) :
    nullable (.text (.scalar none .plain s)) = some (some (.text (.scalar none .plain s))) :=
  nullable_plain fun hnull => by
    have hmeans := (spelling?_means h hn).2
    rw [hnull] at hmeans
    exact hd (Option.some.inj hmeans).symm

theorem nullable_token (key : Bool) (s : String) :
    nullable (.text (tokenNode (stringToken key s))) =
      some (some (.text (tokenNode (stringToken key s)))) := by
  have hsuits := suits_form key s
  rw [stringToken, tokenNode, String.ofList_toList]
  cases hform : form key s with
  | plain =>
    rw [hform] at hsuits
    exact nullable_plain (by rw [ofText_of_not_wantsQuotes hsuits.2]; exact Plain.noConfusion)
  | single | double | literal => rfl

/-- Only a null is read as one. -/
theorem nullable_written (medium : Medium) (hd : doc ≠ .null) (hn : NumbersFit doc) :
    (written medium doc).nullable = some (some (written medium doc)) := by
  cases medium with
  | text =>
    match doc, hn with
    | .null, _ => exact absurd rfl hd
    | .bool true, hn | .bool false, hn | .int _, hn | .float _, hn =>
      exact nullable_spelling rfl hn hd
    | .str s, _ => exact nullable_token false s
    | .arr items, _ => rfl
    | .obj members, _ => rfl
  | value =>
    cases doc with
    | null => exact absurd rfl hd
    | _ => rfl
  | buffered =>
    cases doc with
    | null => exact absurd rfl hd
    | _ => rfl

theorem json?_written (medium : Medium) (hw : doc.WellFormed) (hn : NumbersFit doc) :
    (written medium doc).json? = some doc := by
  cases medium with
  | text => exact json?_docNode hw hn
  | value => exact Value.json?_ofJson doc hw hn
  | buffered => exact Value.json?_ofJson doc hw hn

theorem buffer?_written (medium : Medium) (hw : doc.WellFormed) (hn : NumbersFit doc) :
    (written medium doc).buffer? = some (written .buffered doc) := by
  cases medium with
  | text =>
    show (Value.ofNode? .bare (docNode doc)).map buffered = _
    rw [Value.ofNode?_docNode .bare doc hw hn]
    rfl
  | value =>
    show (if (Value.ofJson doc).hasTag then none else some (buffered (.ofJson doc))) = _
    rw [Value.hasTag_ofJson]
    rfl
  | buffered => rfl

/-! ## Lists and maps -/

theorem items?_written (medium : Medium) (items : List Json) :
    (written medium (.arr items)).items? = some (items.map (written medium)) := by
  cases medium with
  | text =>
    show some ((itemNodes items).map Source.text) = _
    rw [itemNodes_eq, List.map_map]
    rfl
  | value =>
    show some ((Value.ofJsonItems items).map Source.value) = _
    rw [Value.ofJsonItems_eq, List.map_map]
    rfl
  | buffered =>
    show some ((Value.ofJsonItems items).map Source.buffered) = _
    rw [Value.ofJsonItems_eq, List.map_map]
    rfl

/-- An entry as it is read, its name in front of its value. -/
def writtenEntry (medium : Medium) (entry : String × Json) : Source × Source :=
  (named medium entry.1, written medium entry.2)

theorem entries?_written (medium : Medium) (members : Members Json) :
    (written medium (.obj members)).entries? = some (members.map (writtenEntry medium)) := by
  cases medium with
  | text =>
    show some ((memberNodes members).map fun e => (Source.text e.1, Source.text e.2)) = _
    rw [memberNodes_eq, List.map_map]
    rfl
  | value =>
    show some ((Value.ofJsonMembers members).map fun e => (Source.value e.1, Source.value e.2)) = _
    rw [Value.ofJsonMembers_eq, List.map_map]
    rfl
  | buffered =>
    show some ((Value.ofJsonMembers members).map fun e =>
      (Source.buffered e.1, Source.buffered e.2)) = _
    rw [Value.ofJsonMembers_eq, List.map_map]
    rfl

theorem mapM_map_some {β γ : Type} {f : α → β} {read : β → Option γ} {result : α → γ} {l : List α}
    (h : ∀ a ∈ l, read (f a) = some (result a)) : (l.map f).mapM read = some (l.map result) := by
  induction l with
  | nil => rfl
  | cons a l ih =>
    obtain ⟨ha, hl⟩ := List.forall_mem_cons.mp h
    rw [List.map_cons, List.mapM_cons, ha, ih hl]
    rfl

/-- A list has its items, if each of them is read as it was. -/
theorem list?_written {toJson : α → Json} {read : Source → Option α} {items : List α}
    (hr : ∀ item ∈ items, read (written medium (toJson item)) = some item) :
    list? read (written medium (.arr (items.map toJson))) = some items := by
  rw [list?, items?_written, Option.bind_eq_bind, Option.bind_some, List.map_map]
  exact (mapM_map_some hr).trans (congrArg some (List.map_id items))

@[simp]
theorem list?_strings (medium : Medium) (values : List String) :
    list? string? (written medium (.strings values)) = some values :=
  list?_written fun value _ => string?_written medium value

/-- Written entries are put behind those that were read before, if each is read as it was. -/
theorem foldlM_written {toJson : α → Json} {read : Source → Option α} {entries : Members α}
    (hr : ∀ entry ∈ entries, read (written medium (toJson entry.2)) = some entry.2)
    (before : Members α) (hd : (before.keys ++ entries.keys).Nodup) :
    (entries.map fun entry => writtenEntry medium (entry.1, toJson entry.2)).foldlM
        (fun (found : Members α) entry => do
          some (found.put (← entry.1.string?) (← read entry.2))) before =
      some (before ++ entries) := by
  induction entries generalizing before with
  | nil => simp
  | cons entry rest ih =>
    obtain ⟨name, value⟩ := entry
    obtain ⟨hvalue, hrest⟩ := List.forall_mem_cons.mp hr
    obtain ⟨-, hput, hd⟩ := Members.put_new value hd
    rw [List.map_cons, List.foldlM_cons]
    simp only [writtenEntry, string?_named, hvalue, Option.bind_eq_bind, Option.bind_some,
      hput] at ih ⊢
    rw [ih hrest _ hd, List.append_assoc, List.singleton_append]

/-- A map has the entries that were written, if each of them is read as it was. -/
theorem members?_written {toJson : α → Json} {read : Source → Option α} {entries : Members α}
    (hr : ∀ entry ∈ entries, read (written medium (toJson entry.2)) = some entry.2)
    (hd : entries.keys.Nodup) :
    members? read (written medium (.obj (entries.map fun entry => (entry.1, toJson entry.2)))) =
      some entries := by
  rw [members?, entries?_written, List.map_map]
  exact foldlM_written hr [] hd

/-! ## Structures -/

theorem fieldName?_named (medium : Medium) (names : List String) (name : String) :
    fieldName? names (named medium name) = some name := by
  cases medium with
  | text => exact string?_named .text name
  | value => rfl
  | buffered => rfl

/-- The own fields of a structure among named entries; none of them may occur twice. -/
def keepOwn (names : List String) (fields : Members Source) (entry : String × Source) :
    Option (Members Source) :=
  if !names.contains entry.1 then some fields
  else if fields.contains entry.1 then none
  else some (fields.put entry.1 entry.2)

/-- A name and what is written for it. -/
def namedSource (medium : Medium) (entry : String × Json) : String × Source :=
  (entry.1, written medium entry.2)

theorem keepOwn_own (hn : ∀ entry ∈ members, entry.1 ∈ names) (before : Members Source)
    (hd : (before.keys ++ members.keys).Nodup) :
    (members.map (namedSource medium)).foldlM (keepOwn names) before =
      some (before ++ members.map (namedSource medium)) := by
  induction members generalizing before with
  | nil => simp
  | cons entry rest ih =>
    obtain ⟨name, value⟩ := entry
    obtain ⟨hname, hrest⟩ := List.forall_mem_cons.mp hn
    obtain ⟨hmissing, hput, hd⟩ := Members.put_new (written medium value) hd
    have hkeep : keepOwn names before (namedSource medium (name, value)) =
        some (before ++ [(name, written medium value)]) := by
      have hname : name ∈ names := hname
      simp [keepOwn, namedSource, hname, Members.contains, hmissing, hput]
    rw [List.map_cons, List.foldlM_cons, hkeep, Option.bind_eq_bind, Option.bind_some,
      ih hrest _ hd, List.append_assoc]
    rfl

theorem keepOwn_others (hn : ∀ entry ∈ members, entry.1 ∉ names) (before : Members Source) :
    (members.map (namedSource medium)).foldlM (keepOwn names) before = some before := by
  induction members with
  | nil => rfl
  | cons entry rest ih =>
    obtain ⟨hname, hrest⟩ := List.forall_mem_cons.mp hn
    have hkeep : keepOwn names before (namedSource medium entry) = some before := by
      simp [keepOwn, namedSource, hname]
    rw [List.map_cons, List.foldlM_cons, hkeep, Option.bind_eq_bind, Option.bind_some, ih hrest]

/-- Fields are collected as those of a structure are kept. -/
theorem collect_written (before : Members Source) (members : Members Json) :
    collect names before (members.map (writtenEntry medium)) =
      (members.map (namedSource medium)).foldlM (keepOwn names) before := by
  induction members generalizing before with
  | nil => rfl
  | cons entry rest ih =>
    have hstep : collect names before (writtenEntry medium entry :: rest.map (writtenEntry medium)) =
        (keepOwn names before (namedSource medium entry)).bind fun fields =>
          collect names fields (rest.map (writtenEntry medium)) := by
      rw [collect, writtenEntry, fieldName?_named, keepOwn]
      by_cases hname : entry.1 ∈ names
      · cases hagain : before.contains entry.1 <;> simp [namedSource, hname, hagain]
      · simp [namedSource, hname]
    rw [List.map_cons, List.map_cons, List.foldlM_cons, hstep]
    exact congrArg _ (funext ih)

/-- A structure finds exactly the fields that were written for it. -/
theorem fields?_written (hn : ∀ entry ∈ members, entry.1 ∈ names) (hd : members.keys.Nodup) :
    (written medium (.obj members)).fields? names = some (members.map (namedSource medium)) := by
  have hpositional : (written medium (.obj members)).positional? = none := by
    cases medium <;> rfl
  rw [fields?, hpositional, entries?_written]
  show collect names [] (members.map (writtenEntry medium)) = _
  rw [collect_written, keepOwn_own hn [] hd, List.nil_append]

/-- A structure that shares its mapping finds its own fields, and all others are buffered. -/
theorem sharedFields?_written {own others : Members Json} (hown : ∀ entry ∈ own, entry.1 ∈ names)
    (hothers : ∀ entry ∈ others, entry.1 ∉ names) (hd : own.keys.Nodup)
    (hfits : ∀ entry ∈ others, entry.2.WellFormed ∧ NumbersFit entry.2) :
    (written medium (.obj (own ++ others))).sharedFields? names =
      some (own.map (namedSource medium), others.map (writtenEntry .buffered)) := by
  have hnamed : ((own ++ others).map (writtenEntry medium)).mapM
      (fun entry => do some ((← entry.1.string?), entry.2)) =
        some ((own ++ others).map (namedSource medium)) :=
    mapM_map_some fun entry _ => by
      simp [writtenEntry, namedSource]
  have hkeep : ((own ++ others).map (namedSource medium)).foldlM (keepOwn names) [] =
      some (own.map (namedSource medium)) := by
    rw [List.map_append, List.foldlM_append, keepOwn_own hown [] hd]
    exact keepOwn_others hothers _
  have hfilter : ((own ++ others).map (namedSource medium)).filter
      (fun entry => !names.contains entry.1) = others.map (namedSource medium) := by
    rw [List.map_append, List.filter_append, List.filter_eq_nil_iff.mpr, List.nil_append,
      List.filter_eq_self.mpr]
    · intro entry hm
      obtain ⟨other, ho, rfl⟩ := List.mem_map.mp hm
      simpa [namedSource] using hothers other ho
    · intro entry hm
      obtain ⟨other, ho, rfl⟩ := List.mem_map.mp hm
      simpa [namedSource] using hown other ho
  have hbuffer : (others.map (namedSource medium)).mapM
      (fun entry => do some (Source.buffered (.str entry.1), ← entry.2.buffer?)) =
        some (others.map (writtenEntry .buffered)) :=
    mapM_map_some fun entry hm => by
      obtain ⟨hw, hn⟩ := hfits entry hm
      simp [namedSource, buffer?_written medium hw hn, writtenEntry, named]
  rw [sharedFields?, entries?_written, Option.bind_eq_bind, Option.bind_some, hnamed]
  show (((own ++ others).map (namedSource medium)).foldlM (keepOwn names) []).bind _ = _
  rw [hkeep, Option.bind_some, hfilter, hbuffer]
  rfl

end Source

end Yaml

end ClusterConfig
