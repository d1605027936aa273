import ClusterConfig.Proofs.Text.Parts
import ClusterConfig.Proofs.Variables.Expressions
import ClusterConfig.Variables.EnvFile

/-!
# Lines that set variables

A line of a file of variables is skipped, gives a variable, or is malformed, and the lines of a file
are read one by one: either none of them is malformed and their variables are those of the file, in
order, or the first malformed one is reported.
-/

set_option autoImplicit false

namespace ClusterConfig.Variables

open Text

variable {line name value : List Char} {ls : List (List Char)} {number failing : Nat}
  {entries : List (String × String)}

/-- A line without `export ` in front. -/
def withoutExport (line : List Char) : List Char :=
  ((afterStart? "export ".toList line).map trimStartChars).getD line

/-- The variable of a line without `export `, if it is well formed. -/
def assignment? (line : List Char) : Option (String × String) :=
  match splitFirst? '=' line with
  | none => none
  | some (name, value) =>
    if isName (trimChars name) then
      some (String.ofList (trimChars name), String.ofList (readValue (trimChars value)))
    else none

/-- A blank line, or a comment. -/
def Skipped (line : List Char) : Prop :=
  trimChars line = [] ∨ (trimChars line).head? = some '#'

instance (line : List Char) : Decidable (Skipped line) := inferInstanceAs (Decidable (_ ∨ _))

theorem readLine_eq (line : List Char) :
    readLine line =
      if Skipped line then none else some (assignment? (withoutExport (trimChars line))) := by
  rw [readLine]
  simp only [List.isEmpty_iff, Bool.or_eq_true, decide_eq_true_eq]
  change (if Skipped line then none else _) = _
  by_cases h : Skipped line
  · simp only [if_pos h]
  · simp only [if_neg h, assignment?, withoutExport]
    cases splitFirst? '=' _ with
    | none => rfl
    | some split => cases hn : isName (trimChars split.1) <;> simp [hn]

theorem assignment?_eq_none_iff :
    assignment? line = none ↔ '=' ∉ line ∨
      ∃ name value, line = name ++ '=' :: value ∧ '=' ∉ name ∧ isName (trimChars name) = false := by
  rw [assignment?]
  constructor
  · intro h
    split at h
    · rename_i hs
      exact .inl (splitFirst?_eq_none_iff.mp hs)
    · rename_i name value hs
      obtain ⟨hline, hmem⟩ := splitFirst?_eq_some_iff.mp hs
      split at h
      · cases h
      · rename_i hn
        exact .inr ⟨name, value, hline, hmem, Bool.eq_false_iff.mpr hn⟩
  · rintro (hmem | ⟨name, value, hline, hmem, hn⟩)
    · rw [splitFirst?_eq_none_iff.mpr hmem]
    · rw [splitFirst?_eq_some_iff.mpr ⟨hline, hmem⟩]
      simp [hn]

/-- A line that is not skipped and has no sign of equality, or no name before the first one. -/
def MalformedLine (line : List Char) : Prop :=
  let entry := withoutExport (trimChars line)
  ¬ Skipped line ∧
    ('=' ∉ entry ∨ ∃ name value, entry = name ++ '=' :: value ∧ '=' ∉ name ∧
      isName (trimChars name) = false)

theorem readLine_eq_malformed : readLine line = some none ↔ MalformedLine line := by
  rw [readLine_eq, MalformedLine, ← assignment?_eq_none_iff]
  by_cases h : Skipped line <;> simp [h]

/-! ## Lines one by one -/

/-- The variable of a line that has one. -/
def lineAssignment? (line : List Char) : Option (String × String) := (readLine line).join

theorem readLines_of_wellFormed (h : ∀ line ∈ ls, ¬ MalformedLine line) (number : Nat) :
    readLines number ls = .ok (ls.filterMap lineAssignment?) := by
  induction ls generalizing number with
  | nil => rfl
  | cons line rest ih =>
    obtain ⟨hline, hrest⟩ := List.forall_mem_cons.mp h
    rw [readLines, List.filterMap_cons, lineAssignment?]
    rw [← readLine_eq_malformed] at hline
    cases hread : readLine line with
    | none => exact ih hrest _
    | some found =>
      cases found with
      | none => exact absurd hread hline
      | some entry => simp [ih hrest, Except.map]

theorem readLines_of_malformed {before : List (List Char)}
    (hbefore : ∀ line ∈ before, ¬ MalformedLine line) (hline : MalformedLine line)
    (after : List (List Char)) (number : Nat) :
    readLines number (before ++ line :: after) = .error (number + before.length) := by
  induction before generalizing number with
  | nil =>
    rw [List.nil_append, readLines, readLine_eq_malformed.mpr hline]
    rfl
  | cons first before ih =>
    obtain ⟨hfirst, hbefore⟩ := List.forall_mem_cons.mp hbefore
    have hrest := ih hbefore (number + 1)
    rw [List.cons_append, readLines, hrest, List.length_cons, Nat.add_right_comm, Nat.add_assoc]
    rw [← readLine_eq_malformed] at hfirst
    cases hread : readLine first with
    | none => rfl
    | some found =>
      cases found with
      | none => exact absurd hread hfirst
      | some entry => rfl

/-- No line is malformed, or there is a first one. -/
theorem wellFormed_or_first (ls : List (List Char)) :
    (∀ line ∈ ls, ¬ MalformedLine line) ∨
      ∃ before line after, ls = before ++ line :: after ∧
        (∀ line ∈ before, ¬ MalformedLine line) ∧ MalformedLine line := by
  simp only [← readLine_eq_malformed]
  cases h : ls.find? (fun line => readLine line = some none) with
  | none => exact .inl (by simpa using h)
  | some line =>
    obtain ⟨hline, before, after, rfl, hbefore⟩ := List.find?_eq_some_iff_append.mp h
    exact .inr ⟨before, line, after, rfl, by simpa using hbefore, by simpa using hline⟩

/-- Lines are read into their variables exactly if none of them is malformed. -/
theorem readLines_eq_ok :
    readLines number ls = .ok entries ↔
      (∀ line ∈ ls, ¬ MalformedLine line) ∧ entries = ls.filterMap lineAssignment? := by
  constructor
  · intro h
    obtain hgood | ⟨before, line, after, rfl, hbefore, hline⟩ := wellFormed_or_first ls
    · rw [readLines_of_wellFormed hgood] at h
      exact ⟨hgood, (Except.ok.inj h).symm⟩
    · rw [readLines_of_malformed hbefore hline] at h
      cases h
  · rintro ⟨hgood, rfl⟩
    exact readLines_of_wellFormed hgood number

/-- The first malformed line is reported. -/
theorem readLines_eq_error :
    readLines number ls = .error failing ↔
      ∃ before line after, ls = before ++ line :: after ∧ (∀ line ∈ before, ¬ MalformedLine line) ∧
        MalformedLine line ∧ failing = number + before.length := by
  constructor
  · intro h
    obtain hgood | ⟨before, line, after, rfl, hbefore, hline⟩ := wellFormed_or_first ls
    · rw [readLines_of_wellFormed hgood] at h
      cases h
    · rw [readLines_of_malformed hbefore hline] at h
      exact ⟨before, line, after, rfl, hbefore, hline, (Except.error.inj h).symm⟩
  · rintro ⟨before, line, after, rfl, hbefore, hline, rfl⟩
    exact readLines_of_malformed hbefore hline after number

/-! ## Lines with a name -/

theorem isBlank_of_isNameChar {c : Char} (h : isNameChar c = true) : isBlank c = false := by
  rw [isNameChar, Bool.or_eq_true, decide_eq_true_eq] at h
  obtain h | rfl := h
  · exact isBlank_of_isAlphanum h
  · decide

theorem trimChars_name (hn : isName name = true) : trimChars name = name :=
  trimChars_of_not_blank fun c hc => isBlank_of_isNameChar (all_of_isName hn c hc)

theorem not_mem_name {c : Char} (hc : isNameChar c = false) (hn : isName name = true) : c ∉ name :=
  fun hm => by
    rw [all_of_isName hn c hm] at hc
    cases hc

theorem assignment?_name (hn : isName name = true) (value : List Char) :
    assignment? (name ++ '=' :: value) =
      some (String.ofList name, String.ofList (readValue (trimChars value))) := by
  have hmem : '=' ∉ name := not_mem_name (by decide) hn
  rw [assignment?, splitFirst?_eq_some_iff.mpr ⟨rfl, hmem⟩]
  simp [trimChars_name hn, hn]

/-- A line without `export ` is no different. -/
theorem withoutExport_name (hn : isName name = true) (value : List Char) :
    withoutExport (name ++ '=' :: value) = name ++ '=' :: value := by
  have hnone : afterStart? "export ".toList (name ++ '=' :: value) = none := by
    refine Option.eq_none_iff_forall_ne_some.mpr fun rest h => ?_
    obtain ⟨m, hname, hm⟩ | ⟨m, hname, hm⟩ :=
      List.append_eq_append_iff.mp (afterStart?_eq_some_iff.mp h)
    · cases m with
      | nil =>
        refine not_mem_name (c := ' ') (by decide) hn ?_
        rw [List.append_nil] at hname
        rw [← hname]
        decide
      | cons c m =>
        obtain ⟨rfl, -⟩ := List.cons.inj hm
        have hmem : '=' ∈ "export ".toList := by simp [hname]
        exact absurd hmem (by decide)
    · refine not_mem_name (c := ' ') (by decide) hn ?_
      simp [hname]
  rw [withoutExport, hnone]
  rfl

theorem withoutExport_export (hn : isName name = true) (value : List Char) :
    withoutExport ("export ".toList ++ (name ++ '=' :: value)) = name ++ '=' :: value := by
  rw [withoutExport, afterStart?_eq_some_iff.mpr rfl]
  obtain ⟨c, rest, rfl, -, -⟩ := isName_cons hn
  have hc := isBlank_of_isNameChar (all_of_isName hn c List.mem_cons_self)
  exact trimStartChars_cons hc _

/-- Only the end of the value is trimmed from a line that does not start with a blank. -/
theorem readLine_of_start {c : Char} {lead : List Char} (hc : isBlank c = false) (hmark : c ≠ '#')
    (hn : isName name = true)
    (hlead : ∀ value, withoutExport (c :: (lead ++ '=' :: value)) = name ++ '=' :: value)
    (value : List Char) :
    readLine (c :: (lead ++ '=' :: value)) =
      some (some (String.ofList name, String.ofList (readValue (trimChars value)))) := by
  have hequals : isBlank '=' = false := by decide
  have htrim : trimChars (c :: (lead ++ '=' :: value)) = c :: (lead ++ '=' :: trimEndChars value) := by
    rw [trimChars, trimStartChars_cons hc, trimEndChars_cons hc, trimEndChars_append hequals]
  have hskip : ¬ Skipped (c :: (lead ++ '=' :: value)) := by
    rw [Skipped, htrim]
    simp [hmark]
  rw [readLine_eq, if_neg hskip, htrim, hlead, assignment?_name hn, trimChars_trimEndChars]

/-- A name with a sign of equality behind it gives the variable the value that is written there. -/
theorem readLine_entry (hn : isName name = true) (value : List Char) :
    readLine (name ++ '=' :: value) =
      some (some (String.ofList name, String.ofList (readValue (trimChars value)))) := by
  obtain ⟨c, rest, hname, -, -⟩ := isName_cons hn
  have hchar : isNameChar c = true := all_of_isName hn c (hname ▸ List.mem_cons_self)
  have hmark : c ≠ '#' := by
    rintro rfl
    cases hchar
  have hlead (value : List Char) :
      withoutExport (c :: (rest ++ '=' :: value)) = name ++ '=' :: value := by
    rw [← List.cons_append, ← hname, withoutExport_name hn]
  have h := readLine_of_start (isBlank_of_isNameChar hchar) hmark hn hlead value
  rwa [← List.cons_append, ← hname] at h

theorem readLine_exported (hn : isName name = true) (value : List Char) :
    readLine ("export ".toList ++ (name ++ '=' :: value)) =
      some (some (String.ofList name, String.ofList (readValue (trimChars value)))) := by
  have hlead (value : List Char) :
      withoutExport ('e' :: ("xport ".toList ++ name ++ '=' :: value)) = name ++ '=' :: value := by
    simpa using withoutExport_export hn value
  simpa using readLine_of_start (by decide) (by decide) hn hlead value

/-- A file of one line has the variable of that line. -/
theorem parseEnvFile_line {entry : String × String} (hline : '\n' ∉ line) (hne : line ≠ [])
    (hread : readLine line = some (some entry)) :
    parseEnvFile (String.ofList line) = .ok [entry] := by
  rw [parseEnvFile, String.toList_ofList, lines_of_not_mem hline hne, readLines, hread]
  rfl

end ClusterConfig.Variables
