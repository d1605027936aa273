import Mathlib.Data.List.Infix
import ClusterConfig.Proofs.Text.Parts
import ClusterConfig.Text.Comment

/-!
# Lines without their comments

Stripping keeps every line in its place and of every line a part from its start. So what stands at a
place of the stripped text stands at the same line and column of the text it comes from.
-/

set_option autoImplicit false

namespace ClusterConfig.Text

variable {content line kept before after s t : List Char} {ls : List (List Char)}

/-- Lines with their newlines; only the last one may lack it. -/
inductive Lines : List (List Char) → Prop
  | nil : Lines []
  | last {content : List Char} (h : '\n' ∉ content) : Lines [content]
  | cons {content : List Char} {ls : List (List Char)} (h : '\n' ∉ content) (hl : Lines ls) :
      Lines ((content ++ ['\n']) :: ls)

theorem lines_rawLines (s : List Char) : Lines (rawLines s) := by
  induction s with
  | nil => exact .nil
  | cons c s ih =>
    rw [rawLines]
    by_cases hc : c = '\n'
    · rw [if_pos hc, hc]
      have hempty : '\n' ∉ ([] : List Char) := by simp
      exact .cons hempty ih
    · rw [if_neg hc]
      have hmem {content : List Char} (h : '\n' ∉ content) : '\n' ∉ c :: content := by
        simp [h, Ne.symm hc]
      generalize rawLines s = ls at ih
      cases ih with
      | nil => exact .last (hmem (by simp))
      | last h => exact .last (hmem h)
      | cons h hl => exact .cons (hmem h) hl

theorem splitNewline_ended (content : List Char) :
    splitNewline (content ++ ['\n']) = (content, ['\n']) := by
  simp [splitNewline, beforeEnd?, afterStart?]

theorem splitNewline_last (h : '\n' ∉ content) : splitNewline content = (content, []) := by
  have hend : beforeEnd? ['\n'] content = none :=
    beforeEnd?_of_last fun hlast => h (List.mem_of_getLast? hlast)
  rw [splitNewline, hend]

/-! ## What is kept of a line -/

theorem beforeComment?_isPrefix {quoting : Quoting} {previous : Option Char}
    (h : beforeComment? quoting previous s = some kept) : kept <+: s := by
  induction quoting, previous, s using beforeComment?.induct generalizing kept with
  | case1 => simp [beforeComment?] at h
  | case2 previous c rest hc =>
    rw [beforeComment?, if_pos hc] at h
    cases h
    exact List.nil_prefix
  | case3 previous c rest hc ih =>
    rw [beforeComment?, if_neg hc] at h
    obtain ⟨more, hm, rfl⟩ := Option.map_eq_some_iff.mp h
    exact (List.prefix_cons_inj c).mpr (ih hm)
  | case4 previous rest ih =>
    rw [beforeComment?] at h
    obtain ⟨more, hm, rfl⟩ := Option.map_eq_some_iff.mp h
    exact (List.prefix_cons_inj _).mpr ((List.prefix_cons_inj _).mpr (ih hm))
  | case5 previous c rest hc ih =>
    rw [beforeComment?] at h
    · obtain ⟨more, hm, rfl⟩ := Option.map_eq_some_iff.mp h
      exact (List.prefix_cons_inj c).mpr (ih hm)
    · exact hc
  | case6 previous c rest ih =>
    rw [beforeComment?] at h
    obtain ⟨more, hm, rfl⟩ := Option.map_eq_some_iff.mp h
    exact (List.prefix_cons_inj _).mpr ((List.prefix_cons_inj _).mpr (ih hm))
  | case7 previous c rest hc ih =>
    rw [beforeComment?] at h
    · obtain ⟨more, hm, rfl⟩ := Option.map_eq_some_iff.mp h
      exact (List.prefix_cons_inj c).mpr (ih hm)
    · exact hc

theorem stripLine_isPrefix (content : List Char) : stripLine content <+: content := by
  rw [stripLine]
  split
  · rename_i kept h
    exact (trimEndChars_isPrefix kept).trans (beforeComment?_isPrefix h)
  · exact List.prefix_rfl

/-! ## Places -/

/-- The first text has the lines of the second, each from its start but not always to its end. -/
inductive Shortened : List Char → List Char → Prop
  | last {kept cut : List Char} (h : '\n' ∉ kept ++ cut) : Shortened kept (kept ++ cut)
  | line {kept cut s t : List Char} (h : '\n' ∉ kept ++ cut) (hs : Shortened s t) :
      Shortened (kept ++ '\n' :: s) (kept ++ cut ++ '\n' :: t)

theorem shortened_self (h : '\n' ∉ content) : Shortened content content := by
  have hline : '\n' ∉ content ++ [] := by simpa using h
  simpa using Shortened.last hline

theorem stripRawLines_cons (block : Option Nat) (content : List Char) (ls : List (List Char)) :
    stripRawLines block ((content ++ ['\n']) :: ls) =
      if inBlock block content then content ++ '\n' :: stripRawLines block ls
      else stripLine content ++ '\n' :: stripRawLines (blockAfter content) ls := by
  rw [stripRawLines, splitNewline_ended]
  simp

theorem stripRawLines_last (block : Option Nat) (h : '\n' ∉ content) :
    stripRawLines block [content] = if inBlock block content then content else stripLine content := by
  rw [stripRawLines, splitNewline_last h]
  simp [stripRawLines]

theorem shortened_stripRawLines (block : Option Nat) (h : Lines ls) :
    Shortened (stripRawLines block ls) ls.flatten := by
  induction h generalizing block with
  | nil => exact shortened_self List.not_mem_nil
  | @last content h =>
    rw [stripRawLines_last block h, List.flatten_singleton]
    split
    · exact shortened_self h
    · obtain ⟨cut, hcut⟩ := stripLine_isPrefix content
      have hlast := Shortened.last (hcut ▸ h)
      rwa [hcut] at hlast
  | @cons content ls h _ ih =>
    rw [stripRawLines_cons, List.flatten_cons, List.append_assoc, List.singleton_append]
    split
    · have hline : '\n' ∉ content ++ [] := by simpa using h
      simpa using Shortened.line hline (ih block)
    · obtain ⟨cut, hcut⟩ := stripLine_isPrefix content
      have hline := Shortened.line (hcut ▸ h) (ih (blockAfter content))
      rwa [hcut] at hline

theorem shortened_stripComments (text : String) :
    Shortened (stripComments text).toList text.toList := by
  have h := shortened_stripRawLines none (lines_rawLines text.toList)
  rw [flatten_rawLines] at h
  simpa [stripComments] using h

/-- The text from the start of its first line to the end of that line. -/
def firstLine (s : List Char) : List Char := s.takeWhile (· != '\n')

/-- The text behind its last newline. -/
def lastLine (s : List Char) : List Char := (s.reverse.takeWhile (· != '\n')).reverse

theorem firstLine_append (h : '\n' ∉ kept) (s : List Char) :
    firstLine (kept ++ s) = kept ++ firstLine s := by
  rw [firstLine, List.takeWhile_append_of_pos]
  · rfl
  · intro c hc
    simpa using fun he : c = '\n' => h (he ▸ hc)

theorem lastLine_append (u v : List Char) : lastLine (u ++ '\n' :: v) = lastLine v := by
  have hstop (w : List Char) : (w ++ '\n' :: u.reverse).takeWhile (· != '\n') =
      w.takeWhile (· != '\n') := by
    induction w with
    | nil => simp
    | cons c w ih => by_cases hc : c = '\n' <;> simp [hc, ih]
  simp [lastLine, hstop]

theorem newlineCount_append (u v : List Char) :
    newlineCount (u ++ v) = newlineCount u + newlineCount v := List.count_append

theorem newlineCount_eq_zero (h : '\n' ∉ s) : newlineCount s = 0 := List.count_eq_zero.mpr h

/-- Each place of a shortened text is a place on the same line and in the same column, where at least
the rest of the line follows. -/
theorem Shortened.place (h : Shortened s t) (hs : s = before ++ after) :
    ∃ u v, t = u ++ v ∧ newlineCount u = newlineCount before ∧ lastLine u = lastLine before ∧
      firstLine after <+: v := by
  induction h generalizing before after with
  | @last kept cut h =>
    refine ⟨before, after ++ cut, by simp [hs], rfl, rfl, ?_⟩
    exact (List.takeWhile_prefix _).trans (List.prefix_append after cut)
  | @line kept cut s t h hst ih =>
    obtain ⟨hkept, hcut⟩ : '\n' ∉ kept ∧ '\n' ∉ cut := by simpa using h
    -- the place is before the newline of this line, or behind it
    obtain ⟨m, rfl, ha⟩ | ⟨m, hb, hm⟩ := List.append_eq_append_iff.mp hs
    · cases m with
      | nil =>
        refine ⟨kept, cut ++ '\n' :: t, by simp, by simp, by simp, ?_⟩
        simp only [List.nil_append] at ha
        simp [← ha, firstLine]
      | cons c m =>
        obtain ⟨rfl, rfl⟩ := List.cons.inj ha
        obtain ⟨u, v, rfl, hn, hl, hv⟩ := ih rfl
        refine ⟨kept ++ cut ++ '\n' :: u, v, by simp, ?_, ?_, hv⟩
        · have hzero := newlineCount_eq_zero hcut
          simp only [newlineCount, List.count_append, List.count_cons] at hn hzero ⊢
          omega
        · rw [lastLine_append, lastLine_append, hl]
    · refine ⟨before, m ++ (cut ++ '\n' :: t), by simp [hb], rfl, rfl, ?_⟩
      have hm' : '\n' ∉ m := fun hmem => hkept (hb ▸ List.mem_append_right _ hmem)
      rw [hm, firstLine_append hm']
      simp [firstLine]

end ClusterConfig.Text
