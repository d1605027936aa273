import Mathlib
import ClusterConfig.Proofs.Yaml.LiteralText

/-!
# Strings are scanned as one scalar

Whatever form the writer picks for a string, the scanner reads one scalar with the characters of the
string, in a style in which the scalar means that string and nothing else.
-/

set_option autoImplicit false

namespace ClusterConfig.Yaml

open Spot

/-- A text that can be put into a stream: it starts where a token starts, and every character may
stand there. -/
structure Written (text : List Char) : Prop where
  nonempty : text ≠ []
  printable : ∀ c ∈ text, isPrintable c = true
  first : ∀ c ∈ text.head?, isSpaceOrBreak c = false ∧ c ≠ '#'

theorem not_byteOrderMark_of_printable {c : Char} (h : isPrintable c = true) :
    isByteOrderMark c = false := by
  by_contra hc
  have hc : c = '\uFEFF' := by simpa [isByteOrderMark] using hc
  rw [hc] at h
  exact absurd h (by decide)

theorem Written.starts {text : List Char} (h : Written text) (tail : List Char) :
    Starts (text ++ tail) := by
  obtain ⟨hne, hp, hfirst⟩ := h
  obtain ⟨c, rest, rfl⟩ := List.exists_cons_of_ne_nil hne
  rintro x ⟨⟩
  have hc := hfirst c rfl
  exact ⟨hc.1, hc.2, not_byteOrderMark_of_printable (hp c (by simp))⟩

theorem Written.endLine {text : List Char} (h : Written text) : Written (endLine text) := by
  obtain ⟨hne, hp, hfirst⟩ := h
  obtain ⟨c, rest, rfl⟩ := List.exists_cons_of_ne_nil hne
  rw [Yaml.endLine]
  split
  · exact ⟨hne, hp, hfirst⟩
  · refine ⟨by simp, fun x hx => ?_, by simpa using hfirst⟩
    rcases List.mem_append.mp hx with hx | hx
    · exact hp x hx
    · rw [List.mem_singleton.mp hx]
      rfl

/-! ## Forms -/

/-- What the writer has seen to when it picks a form. -/
def Suits (s : String) : Form → Prop
  | .plain => allowsPlain s.toList = true ∧ wantsQuotes s = false
  | .single => allowsSingle s.toList = true ∧ '\n' ∉ s.toList
  | .double => True
  | .literal => allowsLiteral s.toList = true

theorem suits_flowForm {s : String} (hn : '\n' ∉ s.toList) :
    Suits s (flowForm (if wantsQuotes s then .single else .plain) s.toList) := by
  have hrest : Suits s (if allowsSingle s.toList then .single else .double) := by
    by_cases hs : allowsSingle s.toList = true
    · rw [if_pos hs]
      exact ⟨hs, hn⟩
    · rw [if_neg hs]
      trivial
  cases hw : wantsQuotes s with
  | true => simpa [flowForm] using hrest
  | false =>
    by_cases hp : allowsPlain s.toList = true
    · have hplain : Suits s .plain := ⟨hp, hw⟩
      simp [flowForm, hp, hplain]
    · simpa [flowForm, hp] using hrest

theorem suits_form (key : Bool) (s : String) : Suits s (form key s) := by
  rw [form]
  split
  · trivial
  · split
    · split
      · rename_i h
        exact (Bool.and_eq_true_iff.mp h).1
      · trivial
    · rename_i hn
      exact suits_flowForm (by simpa using hn)

theorem form_key_ne_literal (s : String) : form true s ≠ .literal := by
  rw [form, flowForm]
  split_ifs <;> simp_all

theorem ofText_of_not_wantsQuotes {s : String} (h : wantsQuotes s = false) :
    Plain.ofText s = .text := by
  obtain ⟨-, h⟩ := Bool.or_eq_false_iff.mp h
  split at h
  · assumption
  · cases h

theorem wantsQuotes_empty : wantsQuotes "" = true := by decide

/-- The token of a string in the form it has. -/
def stringToken (key : Bool) (s : String) : Token :=
  .scalar (match form key s with
    | .plain => .plain
    | .literal => .literal
    | _ => .quoted) s.toList

/-- Every character may stand for itself. -/
def Printable (text : List Char) : Prop := ∀ c ∈ text, isPrintable c = true

theorem printable_nil : Printable [] := by simp [Printable]

theorem printable_append {s t : List Char} (hs : Printable s) (ht : Printable t) :
    Printable (s ++ t) := fun c hc => (List.mem_append.mp hc).elim (hs c) (ht c)

theorem printable_cons {c : Char} {s : List Char} (hc : isPrintable c = true) (hs : Printable s) :
    Printable (c :: s) := List.forall_mem_cons.mpr ⟨hc, hs⟩

theorem printable_singleton {c : Char} (hc : isPrintable c = true) : Printable [c] :=
  printable_cons hc printable_nil

theorem printable_spaces (n : Nat) : Printable (spaces n) := by
  intro c hc
  rw [eq_space_of_mem_spaces hc]
  decide

theorem printable_singleInside {s : List Char} (indent : Nat) (atStart : Bool) (h : Printable s) :
    Printable (singleInside indent atStart s) := by
  have hstart (b : Bool) : Printable (if b then spaces indent else []) := by
    split
    · exact printable_spaces indent
    · simp [Printable]
  induction s generalizing atStart with
  | nil => exact hstart atStart
  | cons c rest ih =>
    obtain ⟨hc, hrest⟩ := List.forall_mem_cons.mp h
    rw [singleInside]
    split
    · exact printable_cons hc (ih true hrest)
    · refine printable_append (printable_append (hstart atStart) ?_) (ih false hrest)
      split
      · exact printable_cons (by decide) (printable_singleton (by decide))
      · exact printable_singleton hc

theorem printable_indentLines {s : List Char} (indent : Nat) (atStart : Bool) (h : Printable s) :
    Printable (indentLines indent atStart s) := by
  induction s generalizing atStart with
  | nil => simp [Printable, indentLines]
  | cons c rest ih =>
    obtain ⟨hc, hrest⟩ := List.forall_mem_cons.mp h
    rw [indentLines]
    split
    · exact printable_cons hc (ih true hrest)
    · refine printable_append ?_ (printable_cons hc (ih false hrest))
      split
      · exact printable_spaces indent
      · simp [Printable]

theorem printable_hexDigits (width n : Nat) : Printable (hexDigits width n) := by
  have hdigit : ∀ d < 16, isPrintable (Json.hexDigit d).toUpper = true := by decide
  induction width generalizing n with
  | zero => simp [Printable, hexDigits]
  | succ w ih =>
    rw [hexDigits]
    exact printable_append (ih _) (by simpa [Printable] using hdigit _ (Nat.mod_lt n (by decide)))

theorem Escapes.printable {c : Char} {written : List Char} (h : Escapes c written) :
    Printable written := by
  have hslash : isPrintable '\\' = true := by decide
  cases h with
  | self hp => exact printable_cons hp (by simp [Printable])
  | letter x _ hp => exact printable_cons hslash (printable_cons hp (by simp [Printable]))
  | number x width _ hp =>
    exact printable_cons hslash (printable_cons hp (printable_hexDigits width c.toNat))

theorem printable_literalHeader (s : List Char) : Printable (literalHeader s) := by
  rw [literalHeader_eq]
  refine printable_append ?_ ?_
  · split
    · exact printable_singleton (by decide)
    · exact printable_nil
  · cases lastBreaks s with
    | strip => exact printable_singleton (by decide)
    | clip => exact printable_nil
    | keep => exact printable_singleton (by decide)

theorem written_plain {s : List Char} (h : allowsPlain s = true) (hne : s ≠ []) : Written s := by
  have htext := plainText_of_allowsPlain h hne
  refine ⟨hne, fun c hc => ((allowsPlain_iff.mp h).1 c hc).1, fun c hc => ⟨htext.first c hc, ?_⟩⟩
  rintro rfl
  exact (List.append_nil s ▸ htext.not_comment []) hc

theorem written_string (key : Bool) (indent : Nat) (s : String) :
    Written (writeString key indent s) := by
  have h := suits_form key s
  rw [writeString]
  cases hf : form key s with
  | plain =>
    rw [hf] at h
    have hne : s.toList ≠ [] := fun hs => by
      have hempty : s = "" := by simpa using hs
      simp [Suits, hempty, wantsQuotes_empty] at h
    exact written_plain h.1 hne
  | single =>
    rw [hf] at h
    have hinside := printable_singleInside indent false (allowsSingle_iff.mp h.1).1
    exact ⟨by simp [writeSingle], printable_append (printable_cons (by decide) hinside)
      (printable_singleton (by decide)),
      by simp [writeSingle]; decide⟩
  | double =>
    have hinside : Printable (s.toList.flatMap escape) := fun c hc => by
      obtain ⟨x, -, hx⟩ := List.mem_flatMap.mp hc
      exact (escapes x).printable c hx
    exact ⟨by simp [writeDouble], printable_append (printable_cons (by decide) hinside)
      (printable_singleton (by decide)),
      by simp [writeDouble]; decide⟩
  | literal =>
    rw [hf] at h
    have hlines := printable_indentLines indent true (allowsLiteral_iff.mp h).1
    exact ⟨by simp [writeLiteral], printable_append (printable_cons (by decide)
      (printable_literalHeader _)) (printable_cons (by decide) hlines),
      by simp [writeLiteral]; decide⟩

/-! ## Scanning -/

theorem endLine_concat (text : List Char) {last : Char} (h : isLineBreak last = false) :
    endLine (text ++ [last]) = text ++ [last] ++ ['\n'] :=
  endLine_eq_append (by simpa using h)

/-- A string where a value may stand. -/
theorem scans_string (outer : Option Nat) (s : String) :
    Scans outer (endLine (writeString false (literalIndent outer) s)) [stringToken false s] := by
  have h := suits_form false s
  rw [writeString, stringToken]
  cases hf : form false s with
  | plain =>
    rw [hf] at h
    have hw := written_string false (literalIndent outer) s
    rw [writeString, hf] at hw
    have htext := plainText_of_allowsPlain h.1 hw.nonempty
    rw [endLine_eq_append fun c hc => htext.line c (List.mem_of_mem_getLast? hc)]
    exact scans_plain h.1 hw.nonempty outer
  | single =>
    rw [hf] at h
    have hi : 0 < literalIndent outer := by cases outer <;> simp [literalIndent]
    have hscan := scans_single h.1 h.2 hi outer
    rwa [writeSingle, ← endLine_concat _ (by decide)] at hscan
  | double =>
    have hscan := scans_double s.toList outer
    rwa [writeDouble, ← endLine_concat _ (by decide)] at hscan
  | literal =>
    rw [hf] at h
    exact scans_literal h outer

theorem length_le_utf8ByteSize (s : String) : s.toList.length ≤ s.utf8ByteSize := by
  rw [← String.utf8Len_toList]
  induction s.toList with
  | nil => simp
  | cons c rest ih =>
    have hc := Char.utf8Size_pos c
    simp only [List.length_cons, String.utf8Len_cons]
    omega

/-- A string where a key on one line may stand. -/
theorem scansKey_string {s : String} (hb : s.toList.any isLineBreak = false)
    (hlen : s.utf8ByteSize ≤ 128) : ScansKey (writeString true 0 s) (stringToken true s) := by
  have hlen' : s.toList.length ≤ 128 := (length_le_utf8ByteSize s).trans hlen
  have h := suits_form true s
  rw [writeString, stringToken]
  cases hf : form true s with
  | plain =>
    rw [hf] at h
    have hw := written_string true 0 s
    rw [writeString, hf] at hw
    exact scansKey_plain h.1 hw.nonempty (hlen'.trans (by decide))
  | single =>
    rw [hf] at h
    exact scansKey_single h.1 (by simpa using hb) hlen'
  | double => exact scansKey_double hlen'
  | literal => exact absurd hf (form_key_ne_literal s)

end ClusterConfig.Yaml
