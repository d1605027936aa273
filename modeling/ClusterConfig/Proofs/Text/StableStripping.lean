import Mathlib
import ClusterConfig.Proofs.Text.StrippedLines

/-!
# Stripping a second time

Stripping goes from line to line, and all it knows of the lines before is which block scalar is open.
A comment that closes a block is a blank line the second time, which closes nothing. So a block may
last longer then, but never shorter, and what it covers in addition has lost its comments already.
-/

set_option autoImplicit false

namespace ClusterConfig.Text

variable {mark : Char} {content line out kept rest after cut s t : List Char}
  {ls : List (List Char)} {block again first : Option Nat}

/-! ## Lines and the block that is open -/

/-- A line without its comment, unless it is in the body of a block. -/
def strippedLine (block : Option Nat) (line : List Char) : List Char :=
  if inBlock block line then line else stripLine line

/-- The block that is open behind a line. -/
def blockBehind (block : Option Nat) (line : List Char) : Option Nat :=
  if inBlock block line then block else blockAfter line

def strippedLines : Option Nat → List (List Char) → List (List Char)
  | _, [] => []
  | block, line :: rest => strippedLine block line :: strippedLines (blockBehind block line) rest

theorem length_strippedLines (block : Option Nat) (ls : List (List Char)) :
    (strippedLines block ls).length = ls.length := by
  induction ls generalizing block with
  | nil => rfl
  | cons line rest ih => simp [strippedLines, ih]

theorem strippedLines_append (block : Option Nat) (ls more : List (List Char)) :
    strippedLines block (ls ++ more) =
      strippedLines block ls ++ strippedLines (ls.foldl blockBehind block) more := by
  induction ls generalizing block with
  | nil => rfl
  | cons line rest ih => simp [strippedLines, ih]

theorem strippedLine_isPrefix (block : Option Nat) (line : List Char) :
    strippedLine block line <+: line := by
  rw [strippedLine]
  split
  · exact List.prefix_rfl
  · exact stripLine_isPrefix line

theorem no_newline_strippedLines (h : ∀ line ∈ ls, '\n' ∉ line) (block : Option Nat) :
    ∀ line ∈ strippedLines block ls, '\n' ∉ line := by
  induction ls generalizing block with
  | nil => exact fun line hm => absurd hm List.not_mem_nil
  | cons line rest ih =>
    obtain ⟨hline, hrest⟩ := List.forall_mem_cons.mp h
    refine List.forall_mem_cons.mpr ⟨fun hm => hline ?_, ih hrest _⟩
    exact (strippedLine_isPrefix block line).mem hm

theorem strippedLines_ne_nil (h : ls ≠ []) : strippedLines block ls ≠ [] := by
  rw [← List.length_pos_iff, length_strippedLines]
  exact List.length_pos_iff.mpr h

/-- What is kept of the lines stands between the newlines that were there. -/
theorem stripRawLines_eq (h : Lines ls) (block : Option Nat) :
    stripRawLines block ls =
      ['\n'].intercalate (strippedLines block (splitAll '\n' ls.flatten)) := by
  induction h generalizing block with
  | nil =>
    have hempty : strippedLine block [] = [] := List.prefix_nil.mp (strippedLine_isPrefix _ _)
    simp [stripRawLines, splitAll, strippedLines, hempty]
  | last h =>
    rw [stripRawLines_last block h, List.flatten_singleton, splitAll_of_not_mem h]
    simp [strippedLines, strippedLine]
  | @cons content ls h _ ih =>
    have hlines : splitAll '\n' ((content ++ ['\n']) :: ls).flatten =
        content :: splitAll '\n' ls.flatten := by
      rw [List.flatten_cons, List.append_assoc, List.singleton_append, splitAll_append,
        splitAll_of_not_mem h, List.singleton_append]
    rw [stripRawLines_cons, hlines, strippedLines, List.intercalate_cons_of_ne_nil
      (strippedLines_ne_nil (splitAll_ne_nil _ _)), ← ih, strippedLine, blockBehind]
    split <;> simp

theorem stripComments_eq (text : String) :
    (stripComments text).toList =
      ['\n'].intercalate (strippedLines none (splitAll '\n' text.toList)) := by
  rw [stripComments, String.toList_ofList, stripRawLines_eq (lines_rawLines _), flatten_rawLines]

theorem splitAll_stripComments (text : String) :
    splitAll '\n' (stripComments text).toList = strippedLines none (splitAll '\n' text.toList) := by
  rw [stripComments_eq]
  exact splitAll_intercalate (strippedLines_ne_nil (splitAll_ne_nil _ _))
    (no_newline_strippedLines (not_mem_of_splitAll _ _) none)

/-! ## A line that has lost its comment -/

/-- The scan of a part in front of the comment goes as before and ends without one. -/
theorem beforeComment?_of_isPrefix {quoting : Quoting} {previous : Option Char}
    (h : beforeComment? quoting previous s = some kept) (ht : t <+: kept) :
    beforeComment? quoting previous t = none := by
  induction quoting, previous, s using beforeComment?.induct generalizing kept t with
  | case1 => simp [beforeComment?] at h
  | case2 previous c rest hc =>
    rw [beforeComment?, if_pos hc] at h
    cases h
    rw [List.prefix_nil.mp ht, beforeComment?]
  | case3 previous c rest hc ih =>
    rw [beforeComment?, if_neg hc] at h
    obtain ⟨more, hm, rfl⟩ := Option.map_eq_some_iff.mp h
    obtain rfl | ⟨t, rfl, htail⟩ := List.prefix_cons_iff.mp ht
    · rw [beforeComment?]
    · rw [beforeComment?, if_neg hc, ih hm htail, Option.map_none]
  | case4 previous rest ih =>
    rw [beforeComment?] at h
    obtain ⟨more, hm, rfl⟩ := Option.map_eq_some_iff.mp h
    obtain rfl | ⟨u, rfl, hu⟩ := List.prefix_cons_iff.mp ht
    · rw [beforeComment?]
    -- cut between two quotes, the first one closes the scalar, and nothing follows
    obtain rfl | ⟨t, rfl, htail⟩ := List.prefix_cons_iff.mp hu
    · simp [beforeComment?]
    · rw [beforeComment?, ih hm htail, Option.map_none]
  | case5 previous c rest hc ih =>
    rw [beforeComment?] at h
    · obtain ⟨more, hm, rfl⟩ := Option.map_eq_some_iff.mp h
      obtain rfl | ⟨t, rfl, htail⟩ := List.prefix_cons_iff.mp ht
      · rw [beforeComment?]
      · rw [beforeComment?, ih hm htail, Option.map_none]
        -- two quotes at the start of the part would be two quotes at the start of the rest
        rintro next hquote rfl
        obtain ⟨behind, hrest⟩ := htail.trans (beforeComment?_isPrefix hm)
        exact hc _ hquote hrest.symm
    · exact hc
  | case6 previous c rest ih =>
    rw [beforeComment?] at h
    obtain ⟨more, hm, rfl⟩ := Option.map_eq_some_iff.mp h
    obtain rfl | ⟨u, rfl, hu⟩ := List.prefix_cons_iff.mp ht
    · rw [beforeComment?]
    obtain rfl | ⟨t, rfl, htail⟩ := List.prefix_cons_iff.mp hu
    · simp [beforeComment?]
    · rw [beforeComment?, ih hm htail, Option.map_none]
  | case7 previous c rest hc ih =>
    rw [beforeComment?] at h
    · obtain ⟨more, hm, rfl⟩ := Option.map_eq_some_iff.mp h
      obtain rfl | ⟨t, rfl, htail⟩ := List.prefix_cons_iff.mp ht
      · rw [beforeComment?]
      · rw [beforeComment?, ih hm htail, Option.map_none]
        rintro next behind hquote rfl
        obtain ⟨behind, hrest⟩ := htail.trans (beforeComment?_isPrefix hm)
        exact hc _ _ hquote hrest.symm
    · exact hc

theorem stripLine_stripLine (line : List Char) : stripLine (stripLine line) = stripLine line := by
  cases h : beforeComment? .plain none line with
  | none =>
    have hsame : stripLine line = line := by rw [stripLine, h]
    rw [hsame, hsame]
  | some kept =>
    have hcut : stripLine line = trimEndChars kept := by rw [stripLine, h]
    have hnone := beforeComment?_of_isPrefix h (trimEndChars_isPrefix kept)
    rw [hcut, stripLine, hnone]

/-! ## Columns -/

theorem takeWhile_of_isPrefix {p : Char → Bool} (h : s <+: t) (hs : s.all p = false) :
    t.takeWhile p = s.takeWhile p := by
  obtain ⟨more, rfl⟩ := h
  rw [List.takeWhile_append, if_neg]
  intro hlength
  rw [List.all_eq_false] at hs
  obtain ⟨c, hc, hp⟩ := hs
  rw [← (List.takeWhile_prefix p).eq_of_length hlength] at hc
  exact hp (List.mem_takeWhile_imp hc)

/-- What is not blank starts in the same column. -/
theorem indentWidth_of_isPrefix (h : s <+: t) (hs : isBlankLine s = false) :
    indentWidth t = indentWidth s := by
  rw [indentWidth, indentWidth, takeWhile_of_isPrefix h hs]

theorem skipDashes_dash (fuel column : Nat) (after : List Char) :
    skipDashes (fuel + 1) column ('-' :: after) =
      if (trimStartChars after).length = after.length || (trimStartChars after).head? = some '|' ||
          (trimStartChars after).head? = some '>' then column
      else skipDashes fuel (column + 1 + byteCount (after.takeWhile isBlank))
        (trimStartChars after) := rfl

theorem skipDashes_other (h : rest.head? ≠ some '-') (fuel column : Nat) :
    skipDashes fuel column rest = column := by
  cases fuel with
  | zero => rfl
  | succ fuel =>
    rw [skipDashes]
    rintro after rfl
    exact h rfl

theorem le_skipDashes (fuel column : Nat) (rest : List Char) :
    column ≤ skipDashes fuel column rest := by
  induction fuel generalizing column rest with
  | zero => exact le_rfl
  | succ fuel ih =>
    by_cases hdash : rest.head? = some '-'
    · obtain ⟨after, rfl⟩ := List.head?_eq_some_iff.mp hdash
      rw [skipDashes_dash]
      split
      · exact le_rfl
      · refine le_trans ?_ (ih _ _)
        omega
    · rw [skipDashes_other hdash]

theorem indentWidth_le_parentColumn (line : List Char) : indentWidth line ≤ parentColumn line :=
  le_skipDashes _ _ _

/-! The marks of a header stand behind all dashes that are skipped, so what follows a header does
not count. -/

section Header

variable (hmark : mark = '|' ∨ mark = '>')

include hmark

theorem isBlank_headerMark : isBlank mark = false := by
  obtain rfl | rfl := hmark <;> decide

theorem mem_trimStartChars (hm : mark ∈ s) : mark ∈ trimStartChars s := by
  rw [← List.takeWhile_append_dropWhile (p := isBlank) (l := s), List.mem_append] at hm
  refine hm.resolve_left fun htake => ?_
  have hblank := List.mem_takeWhile_imp htake
  rw [isBlank_headerMark hmark] at hblank
  cases hblank

theorem trimStartChars_append (hm : mark ∈ s) (cut : List Char) :
    trimStartChars (s ++ cut) = trimStartChars s ++ cut := by
  have hne := List.ne_nil_of_mem (mem_trimStartChars hmark hm)
  rw [trimStartChars] at hne
  rw [trimStartChars, trimStartChars, List.dropWhile_append, if_neg (by simpa using hne)]

theorem isBlankLine_of_mem (hm : mark ∈ s) : isBlankLine s = false := by
  rw [isBlankLine, List.all_eq_false]
  exact ⟨mark, hm, by simp [isBlank_headerMark hmark]⟩

theorem skipDashes_append {fuel more column : Nat} (hm : mark ∈ rest) (hf : rest.length ≤ fuel)
    (hmore : rest.length ≤ more) (cut : List Char) :
    skipDashes more column (rest ++ cut) = skipDashes fuel column rest := by
  induction fuel generalizing more column rest with
  | zero =>
    rw [List.length_eq_zero_iff.mp (Nat.le_zero.mp hf)] at hm
    cases hm
  | succ fuel ih =>
    obtain ⟨c, after, rfl⟩ := List.exists_cons_of_ne_nil (List.ne_nil_of_mem hm)
    rw [List.length_cons] at hf hmore
    obtain ⟨more, rfl⟩ := Nat.exists_eq_add_one_of_ne_zero (by omega : more ≠ 0)
    by_cases hdash : c = '-'
    · subst hdash
      have hafter : mark ∈ after := (List.mem_cons.mp hm).resolve_left (by
        rintro rfl
        simp at hmark)
      have hitem := trimStartChars_append hmark hafter cut
      have hne := List.ne_nil_of_mem (mem_trimStartChars hmark hafter)
      have hblanks : (after ++ cut).takeWhile isBlank = after.takeWhile isBlank :=
        takeWhile_of_isPrefix (List.prefix_append _ _) (isBlankLine_of_mem hmark hafter)
      have hlength : (trimStartChars after).length ≤ after.length :=
        (List.dropWhile_suffix _).length_le
      rw [List.cons_append, skipDashes_dash, skipDashes_dash, hitem, hblanks, List.length_append,
        List.length_append, List.head?_append_of_ne_nil _ hne]
      simp only [Nat.add_right_cancel_iff]
      split
      · rfl
      · exact ih (mem_trimStartChars hmark hafter) (by omega) (by omega)
    · have hother : (c :: after).head? ≠ some '-' := by simpa using hdash
      rw [skipDashes_other hother, skipDashes_other (by simpa using hdash)]

theorem parentColumn_of_isPrefix (h : s <+: t) (hm : mark ∈ s) :
    parentColumn t = parentColumn s := by
  obtain ⟨cut, rfl⟩ := h
  have hlength : (trimStartChars s).length ≤ s.length := (List.dropWhile_suffix _).length_le
  rw [parentColumn, parentColumn, trimStartChars_append hmark hm,
    indentWidth_of_isPrefix (List.prefix_append s cut) (isBlankLine_of_mem hmark hm)]
  refine skipDashes_append hmark (mem_trimStartChars hmark hm) hlength ?_ cut
  rw [List.length_append]
  omega

end Header

theorem exists_mark_of_opensBlock (h : opensBlock s = true) :
    ∃ mark ∈ s, mark = '|' ∨ mark = '>' := by
  rw [opensBlock] at h
  split at h
  · cases h
  · rename_i mark before hheader
    rw [Bool.and_eq_true, Bool.or_eq_true, decide_eq_true_eq, decide_eq_true_eq] at h
    refine ⟨mark, (trimEndChars_isPrefix s).mem (List.mem_reverse.mp ?_), h.1⟩
    exact (List.dropWhile_suffix _).mem (hheader ▸ List.mem_cons_self)

theorem blockAfter_stripLine (line : List Char) :
    blockAfter (stripLine line) = blockAfter line := by
  rw [blockAfter, blockAfter, stripLine_stripLine]
  split
  · rename_i hopens
    obtain ⟨mark, hm, hmark⟩ := exists_mark_of_opensBlock hopens
    rw [parentColumn_of_isPrefix hmark (stripLine_isPrefix line) hm]
  · rfl

/-- A block that is opened by a line is indented at least as far as the line. -/
theorem le_of_blockAfter {parent : Nat} (h : parent ∈ blockAfter line) :
    isBlankLine (stripLine line) = false ∧ indentWidth (stripLine line) ≤ parent := by
  rw [blockAfter, Option.mem_def, Option.ite_none_right_eq_some] at h
  obtain ⟨hopens, hparent⟩ := h
  obtain ⟨mark, hm, hmark⟩ := exists_mark_of_opensBlock hopens
  have hblank := isBlankLine_of_mem hmark hm
  refine ⟨hblank, ?_⟩
  rw [← Option.some.inj hparent, ← indentWidth_of_isPrefix (stripLine_isPrefix line) hblank]
  exact indentWidth_le_parentColumn line

/-! ## Both runs -/

/-- Whatever is in the body of the block of the first run is in that of the second run. -/
def Outlasts (again first : Option Nat) : Prop :=
  ∀ parent ∈ first, ∃ outer ∈ again, outer ≤ parent

theorem Outlasts.refl (block : Option Nat) : Outlasts block block :=
  fun parent hm => ⟨parent, hm, le_rfl⟩

theorem Outlasts.inBlock (h : Outlasts again first) (hin : inBlock first line = true) :
    inBlock again line = true := by
  cases first with
  | none => cases hin
  | some parent =>
    obtain ⟨outer, rfl, hle⟩ := h parent rfl
    simp only [Text.inBlock, Bool.or_eq_true, decide_eq_true_eq] at hin ⊢
    exact hin.imp_right fun hlt => by omega

theorem strippedLine_again (h : Outlasts again first) (line : List Char) :
    strippedLine again (strippedLine first line) = strippedLine first line ∧
      Outlasts (blockBehind again (strippedLine first line)) (blockBehind first line) := by
  cases hfirst : inBlock first line with
  | true =>
    have hagain := h.inBlock hfirst
    simp only [strippedLine, blockBehind, hfirst, hagain, if_true]
    exact ⟨trivial, h⟩
  | false =>
    simp only [strippedLine, blockBehind, hfirst, Bool.false_eq_true, if_false]
    cases hagain : inBlock again (stripLine line) with
    | true =>
      -- the second run is still in a block; one that the first run opens here is inside of it
      refine ⟨if_pos rfl, fun parent hm => ?_⟩
      obtain ⟨hblank, hle⟩ := le_of_blockAfter hm
      cases again with
      | none => cases hagain
      | some outer =>
        simp only [inBlock, hblank, Bool.false_or, decide_eq_true_eq] at hagain
        exact ⟨outer, rfl, by omega⟩
    | false =>
      simp only [Bool.false_eq_true, if_false, stripLine_stripLine, blockAfter_stripLine]
      exact ⟨trivial, .refl _⟩

theorem strippedLines_again (h : Outlasts again first) (ls : List (List Char)) :
    strippedLines again (strippedLines first ls) = strippedLines first ls := by
  induction ls generalizing again first with
  | nil => rfl
  | cons line rest ih =>
    obtain ⟨hline, hbehind⟩ := strippedLine_again h line
    rw [strippedLines, strippedLines, hline, ih hbehind]

/-- Stripping a second time changes nothing. Every line stays in its place and loses at most its
end, and a line in the body of a block loses nothing. -/
theorem stripping_is_stable (text : String) :
    stripComments (stripComments text) = stripComments text ∧
    newlineCount (stripComments text).toList = newlineCount text.toList ∧
    ∀ before line after, splitAll '\n' text.toList = before ++ line :: after →
      ∃ kept, (splitAll '\n' (stripComments text).toList)[before.length]? = some kept ∧
        kept <+: line ∧
        (inBlock (before.foldl blockBehind none) line = true → kept = line) := by
  refine ⟨?_, ?_, fun before line after hlines => ?_⟩
  · rw [← String.toList_inj, stripComments_eq, splitAll_stripComments,
      strippedLines_again (.refl none), stripComments_eq]
  · have hcount := length_strippedLines none (splitAll '\n' text.toList)
    rw [← splitAll_stripComments, length_splitAll, length_splitAll] at hcount
    exact Nat.add_right_cancel hcount
  · refine ⟨strippedLine (before.foldl blockBehind none) line, ?_, strippedLine_isPrefix _ _,
      fun hin => ?_⟩
    · rw [splitAll_stripComments, hlines, strippedLines_append, strippedLines,
        List.getElem?_append_right (length_strippedLines _ _).le, length_strippedLines,
        Nat.sub_self, List.getElem?_cons_zero]
    · rw [strippedLine, if_pos hin]

/-- Blocks of one text that end earlier in the first run than in the second one. -/
def nestedBlocks : String := "a: |\n# b\n  c: | # d\n    # e\n  # f\n  g: '# h' # i\n"

/-- The line that looks like a comment is in the body of the second block and stays. -/
theorem nestedBlocks_stripped :
    ∃ before after,
      splitAll '\n' nestedBlocks.toList = before ++ "    # e".toList :: after ∧
      inBlock (before.foldl blockBehind none) "    # e".toList = true ∧
      (splitAll '\n' (stripComments nestedBlocks).toList)[before.length]? =
        some "    # e".toList ∧
      stripComments nestedBlocks = "a: |\n\n  c: |\n    # e\n\n  g: '# h'\n" ∧
      stripComments (stripComments nestedBlocks) = stripComments nestedBlocks := by
  obtain ⟨hagain, -, hlines⟩ := stripping_is_stable nestedBlocks
  have hsplit : splitAll '\n' nestedBlocks.toList =
      (["a: |", "# b", "  c: | # d"].map String.toList) ++
        "    # e".toList :: ["  # f", "  g: '# h' # i", ""].map String.toList := by decide +kernel
  have hin : inBlock ((["a: |", "# b", "  c: | # d"].map String.toList).foldl blockBehind none)
      "    # e".toList = true := by decide +kernel
  obtain ⟨kept, hkept, -, hsame⟩ := hlines _ _ _ hsplit
  exact ⟨_, _, hsplit, hin, hkept.trans (congrArg some (hsame hin)), by decide +kernel, hagain⟩

end ClusterConfig.Text
