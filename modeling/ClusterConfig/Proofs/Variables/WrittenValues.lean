import Mathlib.Data.List.Infix
import ClusterConfig.Proofs.Variables.EntryLines

/-!
# Values as they are written

A value is written between single quotes as it is, or between double quotes with its quotes,
backslashes and newlines escaped. Either text has a quote at both ends, so whatever the value is
nothing of it is trimmed, taken for a comment or for the end of a line, and the lines of a list of
variables are read back into the list.

A value that is not in quotes ends before a blank and the mark of a comment. Quotes are looked for at
both ends of what stands on the line, remarks included, and its blanks are trimmed before a remark is
looked for. So a remark behind a word is left out; but behind quotes it makes them a part of the
value, and where there is no value it becomes the value itself.
-/

set_option autoImplicit false

namespace ClusterConfig.Variables

open Text

section Quotes

variable {quote : Char} {value text inner line : List Char} {entry : String × String}
  {entries : List (String × String)} {ls : List (List Char)}

/-! ## Escapes -/

/-- How a character is written between double quotes. -/
def escapeChar (c : Char) : List Char :=
  if c = '\\' then ['\\', '\\'] else if c = '"' then ['\\', '"'] else if c = '\n' then ['\\', 'n']
  else [c]

def escape (value : List Char) : List Char := value.flatMap escapeChar

theorem unescape_cons {c : Char} (hc : c ≠ '\\') (rest : List Char) :
    unescape (c :: rest) = c :: unescape rest := by
  rw [unescape]
  all_goals simp [hc]

theorem unescape_escape (value : List Char) : unescape (escape value) = value := by
  induction value with
  | nil => rfl
  | cons c rest ih =>
    rw [escape] at ih
    rw [escape, List.flatMap_cons]
    by_cases hslash : c = '\\'
    · simp [escapeChar, hslash, unescape, ih]
    by_cases hquote : c = '"'
    · simp [escapeChar, hquote, unescape, ih]
    by_cases hnewline : c = '\n'
    · simp [escapeChar, hnewline, unescape, ih]
    · simp [escapeChar, hslash, hquote, hnewline, unescape_cons, ih]

theorem newline_not_mem_escape (value : List Char) : '\n' ∉ escape value := by
  rw [escape, List.mem_flatMap]
  rintro ⟨c, -, hc⟩
  rw [escapeChar] at hc
  split_ifs at hc with hslash hquote hnewline
  · simp at hc
  · simp at hc
  · simp at hc
  · exact hnewline (List.mem_singleton.mp hc).symm

/-! ## Reading a value -/

theorem insideQuotes?_enclosed (quote : Char) (inner : List Char) :
    insideQuotes? quote (quote :: (inner ++ [quote])) = some inner := by
  have hstart : afterStart? [quote] (quote :: (inner ++ [quote])) = some (inner ++ [quote]) :=
    afterStart?_eq_some_iff.mpr rfl
  rw [insideQuotes?, hstart]
  exact beforeEnd?_eq_some_iff.mpr rfl

theorem insideQuotes?_of_head (h : text.head? ≠ some quote) : insideQuotes? quote text = none := by
  have hnone : afterStart? [quote] text = none := by
    refine Option.eq_none_iff_forall_ne_some.mpr fun rest hrest => h ?_
    rw [afterStart?_eq_some_iff.mp hrest]
    rfl
  rw [insideQuotes?, hnone]
  rfl

theorem readValue_single (inner : List Char) : readValue ('\'' :: (inner ++ ['\''])) = inner := by
  rw [readValue, insideQuotes?_enclosed]

theorem readValue_double (inner : List Char) :
    readValue ('"' :: (inner ++ ['"'])) = unescape inner := by
  have hsingle : insideQuotes? '\'' ('"' :: (inner ++ ['"'])) = none :=
    insideQuotes?_of_head (by simp)
  rw [readValue, hsingle, insideQuotes?_enclosed]

/-! ## Lines -/

/-- The texts in quotes that a value may be written as. -/
inductive Quotes (value : List Char) : List Char → Prop
  | double : Quotes value ('"' :: (escape value ++ ['"']))
  | single (h : '\n' ∉ value) : Quotes value ('\'' :: (value ++ ['\'']))

/-- The lines that a variable may be written as. -/
inductive Writes (entry : String × String) : List Char → Prop
  | plain {text : List Char} (hn : isName entry.1.toList = true)
      (hq : Quotes entry.2.toList text) : Writes entry (entry.1.toList ++ '=' :: text)
  | exported {text : List Char} (hn : isName entry.1.toList = true)
      (hq : Quotes entry.2.toList text) :
      Writes entry ("export ".toList ++ (entry.1.toList ++ '=' :: text))

theorem Quotes.read (h : Quotes value text) : readValue (trimChars text) = value := by
  cases h with
  | double => rw [trimChars_enclosed (by decide), readValue_double, unescape_escape]
  | single => rw [trimChars_enclosed (by decide), readValue_single]

/-- A text in quotes is on one line, and its last quote ends it. -/
theorem Quotes.isLine (h : Quotes value text) {lead : List Char} (hlead : '\n' ∉ lead) :
    IsLine (lead ++ '=' :: text) := by
  cases h with
  | double =>
    have hmem : '\n' ∉ lead ++ '=' :: '"' :: escape value := by
      simp [hlead, newline_not_mem_escape]
    simpa using isLine_concat (c := '"') hmem (by decide) (by decide)
  | single hvalue =>
    have hmem : '\n' ∉ lead ++ '=' :: '\'' :: value := by simp [hlead, hvalue]
    simpa using isLine_concat (c := '\'') hmem (by decide) (by decide)

theorem Writes.read (h : Writes entry line) : readLine line = some (some entry) := by
  cases h with
  | plain hn hq => rw [readLine_entry hn, hq.read, String.ofList_toList, String.ofList_toList]
  | exported hn hq => rw [readLine_exported hn, hq.read, String.ofList_toList, String.ofList_toList]

theorem readLines_written (h : List.Forall₂ Writes entries ls) (number : Nat) :
    readLines number ls = .ok entries := by
  induction h generalizing number with
  | nil => rfl
  | cons hline _ ih =>
    rw [readLines, hline.read]
    simp [ih, Except.map]

theorem Writes.isLine (h : Writes entry line) : IsLine line := by
  cases h with
  | plain hn hq => exact hq.isLine (not_mem_name (by decide) hn)
  | exported hn hq =>
    have hmem : '\n' ∉ entry.1.toList := not_mem_name (by decide) hn
    have hlead : '\n' ∉ "export ".toList ++ entry.1.toList := by simp [hmem]
    simpa using hq.isLine hlead

theorem Writes.ne_nil (h : Writes entry line) : line ≠ [] := by
  cases h <;> simp

theorem lines_of_written (h : List.Forall₂ Writes entries ls) :
    (∀ line ∈ ls, IsLine line) ∧ ∀ line ∈ ls, line ≠ [] := by
  induction h with
  | nil => simp
  | cons hline _ ih =>
    exact ⟨List.forall_mem_cons.mpr ⟨hline.isLine, ih.1⟩,
      List.forall_mem_cons.mpr ⟨hline.ne_nil, ih.2⟩⟩

theorem parseEnvFile_of_lines {chars : List Char} (h : List.Forall₂ Writes entries ls)
    (hlines : lines chars = ls) : parseEnvFile (String.ofList chars) = .ok entries := by
  rw [parseEnvFile, String.toList_ofList, hlines, readLines_written h]

/-- A list of variables with any values is read back from lines that write each of them, be there a
newline behind the last line or not. -/
theorem quoted_values_read_back (entries : List (String × String)) (ls : List (List Char))
    (h : List.Forall₂ Writes entries ls) :
    parseEnvFile (String.ofList (ls.flatMap (· ++ ['\n']))) = .ok entries ∧
      parseEnvFile (String.ofList (['\n'].intercalate ls)) = .ok entries := by
  obtain ⟨hlines, hne⟩ := lines_of_written h
  exact ⟨parseEnvFile_of_lines h (lines_ended hlines),
    parseEnvFile_of_lines h (lines_intercalate hlines hne)⟩

/-- A value of quotes, a backslash, a newline and a carriage return, one that is all blanks with
marks of comments, and an empty one. -/
theorem awkward_values_read_back :
    let entries := [("A", "\"'\\\n\x0d"), ("export", " #=' "), ("_1", "")]
    let ls := ["A=\"\\\"'\\\\\\n\x0d\"".toList, "export export=' #=' '".toList, "_1=''".toList]
    List.Forall₂ Writes entries ls ∧
    parseEnvFile "A=\"\\\"'\\\\\\n\x0d\"\nexport export=' #=' '\n_1=''\n" = .ok entries ∧
    parseEnvFile "A=\"\\\"'\\\\\\n\x0d\"\nexport export=' #=' '\n_1=''" = .ok entries := by
  intro entries ls
  have hwrites : List.Forall₂ Writes entries ls := by
    refine .cons (.plain (by decide) .double) (.cons (.exported (by decide) (.single (by decide)))
      (.cons (.plain (by decide) (.single (by decide))) .nil))
  obtain ⟨hended, hjoined⟩ := quoted_values_read_back entries ls hwrites
  exact ⟨hwrites, hended, hjoined⟩

end Quotes

section Remarks

variable {quote : Char} {name value text inner remark kept s rest : List Char}

/-! ## The part before a remark -/

/-- A blank with the mark of a comment behind it. -/
def remarkMark : List Char := [' ', '#']

theorem remarkMark_isPrefix_cons {c : Char} :
    remarkMark <+: c :: rest ↔ c = ' ' ∧ rest.head? = some '#' := by
  rw [remarkMark, List.cons_prefix_cons, eq_comm]
  cases rest <;> simp [eq_comm]

theorem beforeRemark?_append (s rest : List Char) :
    beforeRemark? (s ++ ' ' :: '#' :: rest) = some ((beforeRemark? s).getD s) := by
  induction s with
  | nil => simp [beforeRemark?]
  | cons c s ih =>
    have hhead : (s ++ ' ' :: '#' :: rest).head? = some '#' ↔ s.head? = some '#' := by
      cases s <;> simp
    rw [List.cons_append, beforeRemark?, beforeRemark?, ih]
    simp only [hhead]
    split
    · rfl
    · cases beforeRemark? s <;> rfl

theorem beforeRemark?_eq_none_iff : beforeRemark? s = none ↔ ¬ remarkMark <:+: s := by
  induction s with
  | nil => simp [beforeRemark?, remarkMark]
  | cons c s ih =>
    rw [beforeRemark?, List.infix_cons_iff, remarkMark_isPrefix_cons]
    by_cases h : c = ' ' ∧ s.head? = some '#'
    · simp [h]
    · have hd : (decide (c = ' ') && decide (s.head? = some '#')) = false := by simpa using h
      simp [hd, h, ih]

/-- A remark starts at the first mark of one. -/
theorem eq_append_of_beforeRemark? (h : beforeRemark? s = some kept) :
    ∃ rest, s = kept ++ ' ' :: '#' :: rest ∧ ¬ remarkMark <:+: kept := by
  induction s generalizing kept with
  | nil => cases h
  | cons c s ih =>
    rw [beforeRemark?] at h
    split at h
    · rename_i hmark
      obtain ⟨rfl, hs⟩ : c = ' ' ∧ s.head? = some '#' := by simpa using hmark
      obtain ⟨rest, rfl⟩ := List.head?_eq_some_iff.mp hs
      cases h
      exact ⟨rest, rfl, by simp [remarkMark]⟩
    · rename_i hmark
      obtain ⟨found, hfound, rfl⟩ := Option.map_eq_some_iff.mp h
      obtain ⟨rest, rfl, hnone⟩ := ih hfound
      refine ⟨rest, rfl, ?_⟩
      rw [List.infix_cons_iff, remarkMark_isPrefix_cons, not_or]
      refine ⟨fun hpre => hmark ?_, hnone⟩
      simp [hpre.1, hpre.2]

/-! ## Escapes -/

theorem length_unescape_le (s : List Char) : (unescape s).length ≤ s.length := by
  fun_induction unescape s <;> simp <;> omega

/-- A blank is not part of an escape. -/
theorem unescape_append_blank (s rest : List Char) :
    unescape (s ++ ' ' :: rest) = unescape s ++ ' ' :: unescape rest := by
  fun_induction unescape s with
  | case1 => exact unescape_cons (by decide) rest
  | case2 s ih => simp [unescape, ih]
  | case3 s ih => simp [unescape, ih]
  | case4 s ih => simp [unescape, ih]
  | case5 c s hn hquote hslash ih =>
    rw [List.cons_append, List.cons_append, ← ih, unescape]
    all_goals
      rintro more rfl hs
      cases s with
      | nil => cases hs
      | cons d s =>
        obtain ⟨rfl, -⟩ := List.cons.inj hs
        first
        | exact hn s rfl rfl
        | exact hquote s rfl rfl
        | exact hslash s rfl rfl

theorem remark_unescape (h : remarkMark <:+: s) : remarkMark <:+: unescape s := by
  obtain ⟨u, v, rfl⟩ := h
  have hsplit : u ++ remarkMark ++ v = u ++ ' ' :: '#' :: v := by simp [remarkMark]
  rw [hsplit, unescape_append_blank, unescape_cons (by decide)]
  exact ⟨unescape u, unescape v, by simp [remarkMark]⟩

/-! ## Values on their own -/

/-- A text without blanks, quotes and marks of comments. -/
def IsWord (text : List Char) : Prop :=
  ∀ c ∈ text, isBlank c = false ∧ c ≠ '\'' ∧ c ≠ '"' ∧ c ≠ '#'

instance (text : List Char) : Decidable (IsWord text) :=
  List.decidableBAll _ text

/-- How a value is written: as a word, which may be empty, or as a literal in either quotes. -/
inductive Denotes : List Char → List Char → Prop
  | word {text : List Char} (h : IsWord text) : Denotes text text
  | single (inner : List Char) : Denotes ('\'' :: (inner ++ ['\''])) inner
  | double (inner : List Char) : Denotes ('"' :: (inner ++ ['"'])) (unescape inner)

theorem IsWord.no_remark (h : IsWord text) : beforeRemark? text = none := by
  rw [beforeRemark?_eq_none_iff]
  intro hmark
  have hmem : '#' ∈ text := hmark.subset (by simp [remarkMark])
  exact (h '#' hmem).2.2.2 rfl

theorem IsWord.head?_ne (h : IsWord text) : text.head? ≠ some '\'' ∧ text.head? ≠ some '"' := by
  constructor
  · intro hhead
    exact (h _ (List.mem_of_head? hhead)).2.1 rfl
  · intro hhead
    exact (h _ (List.mem_of_head? hhead)).2.2.1 rfl

/-- A value that ends with no quote ends where its remark starts. -/
theorem readValue_unquoted (hsingle : insideQuotes? '\'' text = none)
    (hdouble : insideQuotes? '"' text = none) :
    readValue text = ((beforeRemark? text).map trimEndChars).getD text := by
  rw [readValue, hsingle, hdouble]
  cases beforeRemark? text <;> rfl

theorem Denotes.read (h : Denotes text value) : readValue (trimChars text) = value := by
  cases h with
  | word hword =>
    obtain ⟨hsingle, hdouble⟩ := hword.head?_ne
    rw [trimChars_of_not_blank fun c hc => (hword c hc).1,
      readValue_unquoted (insideQuotes?_of_head hsingle) (insideQuotes?_of_head hdouble),
      hword.no_remark]
    rfl
  | single => rw [trimChars_enclosed (by decide), readValue_single]
  | double => rw [trimChars_enclosed (by decide), readValue_double]

/-! ## Values with a remark behind them -/

/-- What may stand in a remark. -/
def IsRemark (remark : List Char) : Prop := ∀ c ∈ remark, c ≠ '\n' ∧ c ≠ '\'' ∧ c ≠ '"'

instance (remark : List Char) : Decidable (IsRemark remark) :=
  List.decidableBAll _ remark

theorem insideQuotes?_of_last (h : text.getLast? ≠ some quote) : insideQuotes? quote text = none := by
  rw [insideQuotes?, Option.bind_eq_none_iff]
  intro rest hrest
  refine beforeEnd?_of_last fun hlast => h ?_
  rw [afterStart?_eq_some_iff.mp hrest, List.getLast?_append, hlast]
  rfl

theorem readValue_remark (hquote : ∀ c ∈ remark, c ≠ '\'' ∧ c ≠ '"') (text : List Char) :
    readValue (text ++ ' ' :: '#' :: remark) =
      trimEndChars ((beforeRemark? text).getD text) := by
  have hlast {quote : Char} (h : quote ∉ '#' :: remark) :
      (text ++ ' ' :: '#' :: remark).getLast? ≠ some quote := by
    rw [List.append_cons, List.getLast?_append_of_ne_nil _ (List.cons_ne_nil _ _)]
    exact fun hlast => h (List.mem_of_getLast? hlast)
  have hsingle : '\'' ∉ '#' :: remark := by
    simpa using fun hm => (hquote _ hm).1 rfl
  have hdouble : '"' ∉ '#' :: remark := by
    simpa using fun hm => (hquote _ hm).2 rfl
  rw [readValue_unquoted (insideQuotes?_of_last (hlast hsingle)) (insideQuotes?_of_last (hlast hdouble)),
    beforeRemark?_append]
  rfl

theorem remark_of_enclosed (hspace : quote ≠ ' ') (hmark : quote ≠ '#')
    (h : remarkMark <:+: quote :: (inner ++ [quote])) : remarkMark <:+: inner := by
  rw [List.infix_cons_iff, remarkMark_isPrefix_cons, List.infix_concat_iff] at h
  obtain ⟨hquote, -⟩ | ⟨before, hend⟩ | h := h
  · exact absurd hquote hspace
  · have hlast := congrArg List.getLast? hend
    simp [remarkMark] at hlast
    exact absurd hlast.symm hmark
  · exact h

/-- Quotes in front of a remark are read as a part of the value. -/
theorem enclosed_ne (hblank : isBlank quote = false) (hmark : quote ≠ '#')
    (hlength : value.length ≤ inner.length)
    (hremark : remarkMark <:+: inner → remarkMark <:+: value) :
    trimEndChars ((beforeRemark? (quote :: (inner ++ [quote]))).getD (quote :: (inner ++ [quote]))) ≠
      value := by
  have hspace : quote ≠ ' ' := by
    rintro rfl
    cases hblank
  intro h
  cases hbefore : beforeRemark? (quote :: (inner ++ [quote])) with
  | none =>
    rw [hbefore, Option.getD_none, trimEndChars_cons hblank, trimEndChars_concat hblank] at h
    rw [← h] at hlength
    simp only [List.length_cons, List.length_append, List.length_nil] at hlength
    omega
  | some kept =>
    -- what looks like a remark inside the quotes is in the value, but not in what is kept
    obtain ⟨rest, htext, hnone⟩ := eq_append_of_beforeRemark? hbefore
    have hinside : remarkMark <:+: quote :: (inner ++ [quote]) :=
      ⟨kept, rest, by simp [htext, remarkMark]⟩
    have hvalue := hremark (remark_of_enclosed hspace hmark hinside)
    rw [hbefore, Option.getD_some] at h
    rw [← h] at hvalue
    exact hnone (hvalue.trans (trimEndChars_isPrefix kept).isInfix)

/-- Without a value in front of it the mark of a remark is read as a part of the value. -/
theorem readValue_mark_ne (remark : List Char) : readValue ('#' :: remark) ≠ [] := by
  rw [readValue_unquoted (insideQuotes?_of_head (by simp)) (insideQuotes?_of_head (by simp))]
  cases h : beforeRemark? ('#' :: remark) with
  | none => exact List.cons_ne_nil _ _
  | some kept =>
    obtain ⟨rest, hkept, -⟩ := eq_append_of_beforeRemark? h
    cases kept with
    | nil => cases hkept
    | cons c kept =>
      obtain ⟨rfl, -⟩ := List.cons.inj hkept
      rw [Option.map_some, Option.getD_some, trimEndChars_cons (by decide)]
      exact List.cons_ne_nil _ _

/-- Only the end of a remark is trimmed from a value that does not start with a blank. -/
theorem readValue_trimmed {c : Char} (hc : isBlank c = false) (hr : IsRemark remark)
    (text : List Char) :
    readValue (trimChars (c :: (text ++ ' ' :: '#' :: remark))) =
      trimEndChars ((beforeRemark? (c :: text)).getD (c :: text)) := by
  have htrim : trimChars (c :: (text ++ ' ' :: '#' :: remark)) =
      c :: text ++ ' ' :: '#' :: trimEndChars remark := by
    rw [trimChars, trimStartChars_cons hc, trimEndChars_cons hc, List.append_cons,
      trimEndChars_append (by decide)]
    simp
  rw [htrim]
  exact readValue_remark (fun d hd => (hr d ((trimEndChars_isPrefix remark).subset hd)).2) _

/-- What is read from a value with a remark behind it. -/
theorem Denotes.read_remark_iff (hv : Denotes text value) (hr : IsRemark remark) :
    readValue (trimChars (text ++ ' ' :: '#' :: remark)) = value ↔ IsWord text ∧ text ≠ [] := by
  cases hv with
  | word hword =>
    cases value with
    | nil =>
      have htrim : trimChars (' ' :: '#' :: remark) = '#' :: trimEndChars remark := by
        have hstart : trimStartChars (' ' :: '#' :: remark) = trimStartChars ('#' :: remark) :=
          trimStartChars_append_blanks (List.forall_mem_singleton.mpr (by decide)) _
        rw [trimChars, hstart, trimStartChars_cons (by decide), trimEndChars_cons (by decide)]
      rw [List.nil_append, htrim]
      exact iff_of_false (readValue_mark_ne _) fun h => h.2 rfl
    | cons c rest =>
      have hblank : ∀ d ∈ c :: rest, isBlank d = false := fun d hd => (hword d hd).1
      have hc := hblank c List.mem_cons_self
      have hend : trimEndChars (c :: rest) = c :: rest := by
        have htrim := trimChars_of_not_blank hblank
        rwa [trimChars, trimStartChars_cons hc] at htrim
      rw [List.cons_append, readValue_trimmed hc hr, hword.no_remark, Option.getD_none, hend]
      exact iff_of_true rfl ⟨hword, List.cons_ne_nil _ _⟩
  | single inner =>
    rw [List.cons_append, readValue_trimmed (by decide) hr]
    refine iff_of_false (enclosed_ne (by decide) (by decide) le_rfl id) fun h => ?_
    exact (h.1 '\'' List.mem_cons_self).2.1 rfl
  | double inner =>
    rw [List.cons_append, readValue_trimmed (by decide) hr]
    refine iff_of_false (enclosed_ne (by decide) (by decide) (length_unescape_le inner)
      remark_unescape) fun h => ?_
    exact (h.1 '"' List.mem_cons_self).2.2.1 rfl

/-- A line with a value and a remark behind it is read as the line without the remark exactly if the
value is a word that is not empty. -/
theorem remark_left_out_iff (name text value remark : List Char) (hn : isName name = true)
    (hv : Denotes text value) (hline : '\n' ∉ text) (hr : IsRemark remark) :
    ∃ read,
      parseEnvFile (String.ofList (name ++ '=' :: (text ++ ' ' :: '#' :: remark))) =
        .ok [(String.ofList name, String.ofList read)] ∧
      parseEnvFile (String.ofList (name ++ '=' :: text)) =
        .ok [(String.ofList name, String.ofList value)] ∧
      (read = value ↔ IsWord text ∧ text ≠ []) := by
  have hname : '\n' ∉ name := not_mem_name (by decide) hn
  have hremark : '\n' ∉ remark := fun hm => (hr _ hm).1 rfl
  refine ⟨readValue (trimChars (text ++ ' ' :: '#' :: remark)), ?_, ?_, hv.read_remark_iff hr⟩
  · exact parseEnvFile_line (by simp [hname, hline, hremark]) (by simp) (readLine_entry hn _)
  · have hread := readLine_entry hn text
    rw [hv.read] at hread
    exact parseEnvFile_line (by simp [hname, hline]) (by simp) hread

/-- A word loses its remark, and so does one with a blank and the mark of a comment in the remark. -/
theorem remark_left_out_behind_word :
    parseEnvFile "HOST=node-1 # first #one" = .ok [("HOST", "node-1")] ∧
      parseEnvFile "HOST=node-1" = .ok [("HOST", "node-1")] := by
  have hword : IsWord "node-1".toList := by decide
  have hremark : IsRemark " first #one".toList := by decide
  obtain ⟨read, hwith, hwithout, hiff⟩ := remark_left_out_iff "HOST".toList "node-1".toList
    "node-1".toList " first #one".toList (by decide) (.word hword) (by decide) hremark
  obtain rfl := hiff.mpr ⟨hword, by decide⟩
  exact ⟨hwith, hwithout⟩

/-- Behind quotes, or without a value, a remark gets into the value. -/
theorem remarks_become_values :
    parseEnvFile "NAME= #c" = .ok [("NAME", "#c")] ∧ parseEnvFile "NAME=" = .ok [("NAME", "")] ∧
    parseEnvFile "NAME=\"v\" #c" = .ok [("NAME", "\"v\"")] ∧
    parseEnvFile "NAME=\"v\"" = .ok [("NAME", "v")] ∧
    parseEnvFile "NAME='v' #c" = .ok [("NAME", "'v'")] ∧
    parseEnvFile "NAME='v'" = .ok [("NAME", "v")] := by
  decide +kernel

end Remarks

end ClusterConfig.Variables
