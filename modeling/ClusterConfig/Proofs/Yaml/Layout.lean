import Mathlib
import ClusterConfig.Yaml.Printer
import ClusterConfig.Yaml.Document
import ClusterConfig.Proofs.Yaml.Numerals
import ClusterConfig.Proofs.Yaml.Strings

/-!
# How a document is laid out

The text of a document is that of its parts: the items of an array and the members of an object
stand on lines of their own at one indent. A member with a short name has its value on the line of
the name if that is a scalar or empty, and from the next line on if it is not.
-/

set_option autoImplicit false

namespace ClusterConfig.Yaml

/-- A document in a collection at `outer`. -/
def docText (outer : Option Nat) (doc : Json) : List Char :=
  valueText outer .start false (.ofJson doc)

/-- Items at an indent, all but the first line indented. -/
def itemLines (indent : Nat) (items : List Json) : List Char :=
  joinEntries indent (itemTexts indent (Value.ofJsonItems items))

/-- Members at an indent, all but the first line indented. -/
def memberLines (indent : Nat) (members : List (String × Json)) : List Char :=
  joinEntries indent (entryTexts indent (Value.ofJsonMembers members))

/-- The name is written in front of its colon. -/
def isShortName (name : String) : Bool := isShortKey (.str name)

/-- What follows the colon of a short name. -/
def shortValueText (indent : Nat) (doc : Json) : List Char :=
  valueText (some indent) .value true (.ofJson doc)

/-- A scalar or an empty collection. -/
def isInline : Json → Bool
  | .arr (_ :: _) => false
  | .obj (_ :: _) => false
  | _ => true

variable {outer : Option Nat} {indent : Nat} {doc : Json}

theorem valueText_inline (place : Place) (broken : Bool) (h : isInline doc = true) :
    valueText outer place broken (.ofJson doc) = lead place ++ docText outer doc := by
  match doc, h with
  | .null, _ | .bool _, _ | .int _, _ | .float _, _ | .str _, _ | .arr [], _ | .obj [], _ => rfl

theorem docText_arr (item : Json) (rest : List Json) :
    docText outer (.arr (item :: rest)) = itemLines (innerIndent outer) (item :: rest) := by
  simp [docText, itemLines, Value.ofJson, Value.ofJsonItems, valueText, lead]

theorem docText_obj (entry : String × Json) (rest : List (String × Json)) :
    docText outer (.obj (entry :: rest)) = memberLines (innerIndent outer) (entry :: rest) := by
  simp [docText, memberLines, Value.ofJson, Value.ofJsonMembers, valueText, lead]

/-- A value on the line of its dash, its question mark or its colon. -/
theorem valueText_lead {place : Place} (hp : place ≠ .start) (doc : Json) :
    valueText outer place false (.ofJson doc) = ' ' :: docText outer doc := by
  have hlead : lead place = [' '] := if_neg hp
  match doc with
  | .arr (item :: rest) =>
    rw [docText_arr]
    simp [itemLines, Value.ofJson, Value.ofJsonItems, valueText, hlead]
  | .obj (entry :: rest) =>
    rw [docText_obj]
    simp [memberLines, Value.ofJson, Value.ofJsonMembers, valueText, hlead]
  | .null | .bool _ | .int _ | .float _ | .str _ | .arr [] | .obj [] =>
    rw [valueText_inline place false rfl, hlead]
    rfl

theorem shortValueText_inline (h : isInline doc = true) :
    shortValueText indent doc = ' ' :: docText (some indent) doc := valueText_inline .value true h

theorem shortValueText_arr (item : Json) (rest : List Json) :
    shortValueText indent (.arr (item :: rest)) =
      '\n' :: (spaces indent ++ itemLines indent (item :: rest)) := by
  simp [shortValueText, itemLines, Value.ofJson, Value.ofJsonItems, valueText]

theorem shortValueText_obj (entry : String × Json) (rest : List (String × Json)) :
    shortValueText indent (.obj (entry :: rest)) =
      '\n' :: (spaces (indent + 2) ++ docText (some indent) (.obj (entry :: rest))) := by
  rw [docText_obj]
  simp [shortValueText, memberLines, Value.ofJson, Value.ofJsonMembers, valueText, innerIndent]

/-! ## Lines -/

theorem endLine_append (front : List Char) {back : List Char} (hb : back ≠ []) :
    endLine (front ++ back) = front ++ endLine back := by
  have hlast : (front ++ back).getLast? = back.getLast? := List.getLast?_append_of_ne_nil _ hb
  rw [endLine, endLine, hlast]
  split <;> simp

theorem endLine_cons (c : Char) {back : List Char} (hb : back ≠ []) :
    endLine (c :: back) = c :: endLine back := endLine_append [c] hb

/-- One member with its name. -/
def memberText (indent : Nat) (name : String) (doc : Json) : List Char :=
  if isShortName name then writeString true 0 name ++ ':' :: shortValueText indent doc
  else
    endLine ('?' :: ' ' :: writeString false (literalIndent (some indent)) name) ++
      (spaces indent ++ ':' :: ' ' :: docText (some indent) doc)

theorem itemLines_cons (item : Json) (rest : List Json) :
    itemLines indent (item :: rest) =
      match rest with
      | [] => '-' :: ' ' :: docText (some indent) item
      | _ => endLine ('-' :: ' ' :: docText (some indent) item) ++
          (spaces indent ++ itemLines indent rest) := by
  have hitem : valueText (some indent) .item false (.ofJson item) = _ :=
    valueText_lead (by decide) item
  cases rest <;> simp [itemLines, Value.ofJsonItems, itemTexts, joinEntries, hitem]

theorem entryTexts_cons (name : String) (doc : Json) (rest : List (Value × Value)) :
    entryTexts indent ((.str name, .ofJson doc) :: rest) =
      memberText indent name doc :: entryTexts indent rest := by
  have hkey : valueText (some indent) .explicit false (.str name) = _ :=
    valueText_lead (by decide) (.str name)
  have hvalue : valueText (some indent) .explicit false (.ofJson doc) = _ :=
    valueText_lead (by decide) doc
  rw [entryTexts, memberText, isShortName, hkey, hvalue]
  rfl

theorem memberLines_cons (name : String) (doc : Json) (rest : List (String × Json)) :
    memberLines indent ((name, doc) :: rest) =
      match rest with
      | [] => memberText indent name doc
      | _ => endLine (memberText indent name doc) ++
          (spaces indent ++ memberLines indent rest) := by
  match rest with
  | [] => simp [memberLines, Value.ofJsonMembers, entryTexts_cons, entryTexts, joinEntries]
  | (other, value) :: more =>
    simp [memberLines, Value.ofJsonMembers, entryTexts_cons, joinEntries]

/-! ## Plain scalars -/

mutual

/-- Every integer has 64 bits and every float is finite, as in every document that is read. -/
def NumbersFit : Json → Prop
  | .int n => Plain.fitsWord n = true
  | .float x => x.isFinite = true
  | .arr items => NumbersFitItems items
  | .obj members => NumbersFitMembers members
  | _ => True

def NumbersFitItems : List Json → Prop
  | [] => True
  | item :: rest => NumbersFit item ∧ NumbersFitItems rest

def NumbersFitMembers : List (String × Json) → Prop
  | [] => True
  | (_, value) :: rest => NumbersFit value ∧ NumbersFitMembers rest

end

/-- How a scalar is written that is no string. -/
def spelling? : Json → Option String
  | .null => some "null"
  | .bool true => some "true"
  | .bool false => some "false"
  | .int n => some (toString n)
  | .float x => some (floatText x)
  | _ => none

theorem docText_spelling {s : String} (h : spelling? doc = some s) :
    docText outer doc = s.toList := by
  match doc, h with
  | .null, rfl | .bool true, rfl | .bool false, rfl | .int _, rfl | .float _, rfl => rfl

/-- What a spelling may stand for itself and means. -/
theorem spelling?_means {s : String} (h : spelling? doc = some s) (hn : NumbersFit doc) :
    allowsPlain s.toList = true ∧ jsonOfPlain s (Plain.ofText s) = some doc := by
  match doc, h with
  | .null, rfl => exact ⟨by decide, rfl⟩
  | .bool true, rfl => exact ⟨by decide, rfl⟩
  | .bool false, rfl => exact ⟨by decide, rfl⟩
  | .int n, rfl =>
    refine ⟨allowsPlain_int n, ?_⟩
    rw [ofText_int hn]
    rfl
  | .float x, rfl =>
    refine ⟨allowsPlain_floatText hn, ?_⟩
    rw [ofText_floatText hn]
    exact congrArg some (if_pos hn)

theorem spelling?_ne_nil {s : String} (h : spelling? doc = some s) (hn : NumbersFit doc) :
    s.toList ≠ [] := by
  intro hs
  obtain rfl : s = "" := by simpa using hs
  have hnull : some Json.null = some doc := (spelling?_means h hn).2
  obtain rfl := Option.some.inj hnull
  simp [spelling?] at h

/-! ## What is written can be scanned -/

/-- The kinds of values that fit on one line. -/
theorem isInline_cases (h : isInline doc = true) :
    (∃ s, spelling? doc = some s) ∨ (∃ s, doc = .str s) ∨ doc = .arr [] ∨ doc = .obj [] := by
  match doc, h with
  | .null, _ | .bool true, _ | .bool false, _ | .int _, _ | .float _, _ => simp [spelling?]
  | .str _, _ | .arr [], _ | .obj [], _ => simp

theorem written_inline (h : isInline doc = true) (hn : NumbersFit doc) :
    Written (docText outer doc) := by
  rcases isInline_cases h with ⟨s, hs⟩ | ⟨s, rfl⟩ | rfl | rfl
  · rw [docText_spelling hs]
    exact written_plain (spelling?_means hs hn).1 (spelling?_ne_nil hs hn)
  · exact written_string false _ s
  · have hempty : Written ['[', ']'] := ⟨by simp,
      printable_cons (by decide) (printable_singleton (by decide)), by simp; decide⟩
    exact hempty
  · have hempty : Written ['{', '}'] := ⟨by simp,
      printable_cons (by decide) (printable_singleton (by decide)), by simp; decide⟩
    exact hempty

theorem Written.append {front back : List Char} (hf : Written front) (hb : Printable back) :
    Written (front ++ back) := by
  refine ⟨by simp [hf.nonempty], printable_append hf.printable hb, fun c hc => ?_⟩
  rw [List.head?_append_of_ne_nil _ hf.nonempty] at hc
  exact hf.first c hc

/-- What is put after an indicator and a space. -/
theorem Written.marked {back : List Char} (hb : Written back) {c : Char}
    (hc : isPrintable c = true ∧ isSpaceOrBreak c = false ∧ c ≠ '#') :
    Written (c :: ' ' :: back) := by
  have hc' : Written [c] := ⟨by simp, printable_singleton hc.1, by simpa using hc.2⟩
  exact hc'.append (printable_cons (by decide) hb.printable)

theorem written_memberText (name : String) (hdoc : Written (docText (some indent) doc))
    (hvalue : Printable (shortValueText indent doc)) : Written (memberText indent name doc) := by
  rw [memberText]
  split
  · exact (written_string true 0 name).append (printable_cons (by decide) hvalue)
  · have hkey := ((written_string false (literalIndent (some indent)) name).marked
      (by decide : isPrintable '?' = true ∧ _)).endLine
    exact hkey.append (printable_append (printable_spaces indent)
      (hdoc.marked (by decide : isPrintable ':' = true ∧ _)).printable)

mutual

/-- Every document is written with characters that may stand in a stream. -/
theorem written_docText (outer : Option Nat) (doc : Json) (hn : NumbersFit doc) :
    Written (docText outer doc) := by
  match doc, hn with
  | .arr (item :: rest), hn =>
    rw [docText_arr]
    exact written_itemLines _ (item :: rest) (List.cons_ne_nil _ _) hn
  | .obj (entry :: rest), hn =>
    rw [docText_obj]
    exact written_memberLines _ (entry :: rest) (List.cons_ne_nil _ _) hn
  | .null, hn | .bool _, hn | .int _, hn | .float _, hn | .str _, hn | .arr [], hn | .obj [], hn =>
    exact written_inline rfl hn

theorem printable_shortValueText (indent : Nat) (doc : Json) (hn : NumbersFit doc) :
    Printable (shortValueText indent doc) := by
  have hbreak : isPrintable '\n' = true := by decide
  match doc, hn with
  | .arr (item :: rest), hn =>
    rw [shortValueText_arr]
    exact printable_cons hbreak (printable_append (printable_spaces _)
      (written_itemLines _ (item :: rest) (List.cons_ne_nil _ _) hn).printable)
  | .obj (entry :: rest), hn =>
    rw [shortValueText_obj, docText_obj]
    exact printable_cons hbreak (printable_append (printable_spaces _)
      (written_memberLines _ (entry :: rest) (List.cons_ne_nil _ _) hn).printable)
  | .null, hn | .bool _, hn | .int _, hn | .float _, hn | .str _, hn | .arr [], hn | .obj [], hn =>
    rw [shortValueText_inline rfl]
    exact printable_cons (by decide) (written_inline rfl hn).printable

theorem written_itemLines (indent : Nat) (items : List Json) (hne : items ≠ [])
    (hn : NumbersFitItems items) : Written (itemLines indent items) := by
  match items, hne, hn with
  | item :: rest, _, ⟨hitem, hrest⟩ =>
    have hfirst := (written_docText (some indent) item hitem).marked
      (by decide : isPrintable '-' = true ∧ _)
    rw [itemLines_cons]
    cases rest with
    | nil => exact hfirst
    | cons next more =>
      exact hfirst.endLine.append (printable_append (printable_spaces indent)
        (written_itemLines indent (next :: more) (List.cons_ne_nil _ _) hrest).printable)

theorem written_memberLines (indent : Nat) (members : List (String × Json)) (hne : members ≠ [])
    (hn : NumbersFitMembers members) : Written (memberLines indent members) := by
  match members, hne, hn with
  | (name, doc) :: rest, _, ⟨hdoc, hrest⟩ =>
    have hfirst : Written (memberText indent name doc) := written_memberText name
      (written_docText (some indent) doc hdoc) (printable_shortValueText indent doc hdoc)
    rw [memberLines_cons]
    cases rest with
    | nil => exact hfirst
    | cons next more =>
      exact hfirst.endLine.append (printable_append (printable_spaces indent)
        (written_memberLines indent (next :: more) (List.cons_ne_nil _ _) hrest).printable)

end

end ClusterConfig.Yaml
