import ClusterConfig.Proofs.Text.StrippedLines
import ClusterConfig.Proofs.Yaml.CutRuns
import ClusterConfig.Proofs.Yaml.ReadTokens
import ClusterConfig.Yaml.Document

/-!
# Documents without their comments

Stripping goes line by line, reading YAML does not: what stripping takes for a comment may be part of a
scalar. As long as it cuts off nothing but comments that reading skips, and in whose place no scalar
would go on, the stripped text holds the same document.
-/

set_option autoImplicit false

namespace ClusterConfig.Text

open Yaml

variable {free : List Nat} {content kept s t : List Char} {prev : Option Char}

/-! ## What is cut off a line -/

/-- What is cut off a line is one of the free comments, with nothing but spaces and tabs before it and
nothing behind it in the line; a carriage return belongs to the line end. -/
def cutIsFree (free : List Nat) (content after : List Char) : Bool :=
  match beforeComment? .plain none content with
  | none => true
  | some kept =>
    let comment := content.drop kept.length
    let line := if after.head? = some '\n' then (beforeEnd? ['\r'] comment).getD comment else comment
    free.contains (comment.length + after.length) &&
      (kept.drop (trimEndChars kept).length).all isSpaceOrTab && line.all (!isLineBreak ·)

/-- All that is cut off the lines is free. -/
def cutsAreFree (free : List Nat) : Option Nat → List (List Char) → Bool
  | _, [] => true
  | block, line :: rest =>
    let (content, newline) := splitNewline line
    if inBlock block content then cutsAreFree free block rest
    else cutIsFree free content (newline ++ rest.flatten) &&
      cutsAreFree free (blockAfter content) rest

/-- Stripping a text cuts off free comments only. -/
def stripsFreeComments (text : String) : Bool :=
  cutsAreFree (freeComments text.toList) none (rawLines text.toList)

/-- A comment starts with its mark, behind a blank or at the start of the text. -/
theorem beforeComment?_split {quoting : Quoting} (h : beforeComment? quoting prev s = some kept) :
    ∃ text, s = kept ++ '#' :: text ∧ followsBlank (kept.getLast?.or prev) = true := by
  have hlast (a : Char) (x : List Char) (p : Option Char) :
      (a :: x).getLast?.or p = x.getLast?.or (some a) := by
    rw [List.getLast?_cons]
    cases x.getLast? <;> rfl
  induction quoting, prev, s using beforeComment?.induct generalizing kept with
  | case1 => simp [beforeComment?] at h
  | case2 prev c rest hc =>
    rw [beforeComment?, if_pos hc] at h
    obtain rfl := Option.some.inj h
    rw [Bool.and_eq_true, decide_eq_true_eq] at hc
    exact ⟨rest, by rw [hc.1]; rfl, hc.2⟩
  | case3 prev c rest hc ih =>
    rw [beforeComment?, if_neg hc] at h
    obtain ⟨more, hm, rfl⟩ := Option.map_eq_some_iff.mp h
    obtain ⟨text, rfl, hblank⟩ := ih hm
    exact ⟨text, rfl, by rwa [hlast]⟩
  | case4 prev rest ih =>
    rw [beforeComment?] at h
    obtain ⟨more, hm, rfl⟩ := Option.map_eq_some_iff.mp h
    obtain ⟨text, rfl, hblank⟩ := ih hm
    exact ⟨text, rfl, by rwa [hlast, hlast]⟩
  | case5 prev c rest hc ih =>
    rw [beforeComment?] at h
    · obtain ⟨more, hm, rfl⟩ := Option.map_eq_some_iff.mp h
      obtain ⟨text, rfl, hblank⟩ := ih hm
      exact ⟨text, rfl, by rwa [hlast]⟩
    · exact hc
  | case6 prev c rest ih =>
    rw [beforeComment?] at h
    obtain ⟨more, hm, rfl⟩ := Option.map_eq_some_iff.mp h
    obtain ⟨text, rfl, hblank⟩ := ih hm
    refine ⟨text, rfl, ?_⟩
    rw [hlast, hlast]
    cases more with
    | nil => cases hblank
    | cons b more =>
      rw [hlast] at hblank ⊢
      exact hblank
  | case7 prev c rest hc ih =>
    rw [beforeComment?] at h
    · obtain ⟨more, hm, rfl⟩ := Option.map_eq_some_iff.mp h
      obtain ⟨text, rfl, hblank⟩ := ih hm
      exact ⟨text, rfl, by rwa [hlast]⟩
    · exact hc

/-! ## What is left -/

theorem uncommented_append {places : List Nat} {x : List Char}
    (h : Uncommented places (x.getLast?.or prev) s t) :
    Uncommented places prev (x ++ s) (x ++ t) := by
  induction x generalizing prev with
  | nil => exact h
  | cons c x ih =>
    refine .keep (ih ?_)
    rw [List.getLast?_cons] at h
    cases hx : x.getLast? <;> simpa [hx] using h

theorem getLast?_trimEndChars (s : List Char) : ∀ c ∈ (trimEndChars s).getLast?, isBlank c = false := by
  intro c hc
  rw [trimEndChars, List.getLast?_reverse] at hc
  have hstop := List.head?_dropWhile_not isBlank s.reverse
  rw [hc] at hstop
  simpa using hstop

theorem isBlank_of_isAsciiBlank {c : Char} (h : isAsciiBlank c = true) : isBlank c = true := by
  simp only [isAsciiBlank, Bool.or_eq_true, decide_eq_true_eq] at h
  obtain (((rfl | rfl) | rfl) | rfl) | rfl := h <;> decide

/-- The comment behind a line that is kept ends with the line. -/
theorem endsComment_of_line {text after : List Char}
    (hafter : after = [] ∨ after.head? = some '\n')
    (h : (if after.head? = some '\n' then (beforeEnd? ['\r'] ('#' :: text)).getD ('#' :: text)
      else '#' :: text).all (!isLineBreak ·)) :
    ∃ line cr, text = line ++ cr ∧ (∀ c ∈ line, isLineBreak c = false) ∧ EndsComment cr after := by
  obtain rfl | hhead := hafter
  · simp only [List.head?_nil, reduceCtorEq, if_false, List.all_cons, Bool.and_eq_true] at h
    exact ⟨text, [], by simp, by simpa using h.2, .inl ⟨rfl, rfl⟩⟩
  · rw [if_pos hhead] at h
    cases hend : beforeEnd? ['\r'] ('#' :: text) with
    | none =>
      rw [hend] at h
      simp only [Option.getD_none, List.all_cons, Bool.and_eq_true] at h
      exact ⟨text, [], by simp, by simpa using h.2, .inr ⟨.inl rfl, hhead⟩⟩
    | some line =>
      rw [hend] at h
      have htext := beforeEnd?_eq_some_iff.mp hend
      cases line with
      | nil => cases htext
      | cons c line =>
        obtain ⟨-, rfl⟩ := List.cons.inj htext
        simp only [Option.getD_some, List.all_cons, Bool.and_eq_true] at h
        exact ⟨line, ['\r'], rfl, by simpa using h.2, .inr ⟨.inr rfl, hhead⟩⟩

/-- A line loses its comment and the blanks before it. -/
theorem uncommented_stripLine {after rest : List Char} (hprev : ∀ c ∈ prev, c = '\n')
    (hafter : after = [] ∨ after.head? = some '\n')
    (hfree : cutIsFree free content after = true) (hrest : ∀ p, Uncommented free p after rest) :
    Uncommented free prev (content ++ after) (stripLine content ++ rest) := by
  rw [cutIsFree] at hfree
  rw [stripLine]
  split at hfree
  · rename_i hnone
    rw [hnone]
    exact uncommented_append (hrest _)
  · rename_i kept hkept
    simp only [hkept]
    obtain ⟨text, rfl, hblank⟩ := beforeComment?_split hkept
    obtain ⟨blanks, hblanks⟩ := trimEndChars_isPrefix kept
    have hlast := getLast?_trimEndChars kept
    simp only [List.drop_left, Bool.and_eq_true, List.contains_iff_mem] at hfree
    obtain ⟨⟨hplace, hspaces⟩, hline⟩ := hfree
    obtain ⟨line, cr, rfl, ht, hends⟩ := endsComment_of_line hafter hline
    generalize trimEndChars kept = start at *
    subst hblanks
    rw [List.drop_left] at hspaces
    rw [show (start ++ blanks) ++ '#' :: (line ++ cr) ++ after =
      start ++ (blanks ++ '#' :: (line ++ (cr ++ after))) by simp]
    refine uncommented_append (.cut (List.all_eq_true.mp hspaces) ?_ ht hends ?_ (hrest _))
    · intro c hc hne
      cases hstart : start.getLast? with
      | none =>
        rw [hstart] at hc
        exact absurd (hprev c hc) hne
      | some e =>
        rw [hstart, Option.some_or] at hc
        obtain rfl := Option.some.inj hc
        have he := hlast e hstart
        refine ⟨?_, ?_⟩
        · rintro rfl
          cases he
        · rintro rfl
          rw [List.append_nil, hstart] at hblank
          rw [isBlank_of_isAsciiBlank hblank] at he
          cases he
    · simpa [Nat.add_assoc, Nat.add_comm 1] using hplace

theorem uncommented_self {places : List Nat} (prev : Option Char) (s : List Char) :
    Uncommented places prev s s := by
  induction s generalizing prev with
  | nil => exact .nil
  | cons c s ih => exact .keep (ih _)

/-- What is left of some lines behind the end of a line. -/
theorem uncommented_stripRawLines {ls : List (List Char)} (h : Lines ls) {block : Option Nat}
    (hfree : cutsAreFree free block ls = true) (hprev : ∀ c ∈ prev, c = '\n') :
    Uncommented free prev ls.flatten (stripRawLines block ls) := by
  induction h generalizing block prev with
  | nil => exact .nil
  | @last content h =>
    rw [stripRawLines_last block h, List.flatten_singleton]
    simp only [cutsAreFree, splitNewline_last h] at hfree
    split
    · exact uncommented_self prev content
    · rename_i hblock
      rw [if_neg hblock, Bool.and_eq_true] at hfree
      have hline := uncommented_stripLine hprev (.inl rfl) hfree.1 fun _ => .nil
      simpa using hline
  | @cons content ls h _ ih =>
    rw [stripRawLines_cons, List.flatten_cons, List.append_assoc, List.singleton_append]
    simp only [cutsAreFree, splitNewline_ended] at hfree
    have hnewline {block : Option Nat} (hls : cutsAreFree free block ls = true) (p : Option Char) :
        Uncommented free p ('\n' :: ls.flatten) ('\n' :: stripRawLines block ls) :=
      .keep (ih hls (by simp))
    split
    · rename_i hblock
      rw [if_pos hblock] at hfree
      exact uncommented_append (hnewline hfree _)
    · rename_i hblock
      rw [if_neg hblock, Bool.and_eq_true] at hfree
      exact uncommented_stripLine hprev (.inr rfl) hfree.1 (hnewline hfree.2)

theorem uncommented_stripComments {text : String} (h : stripsFreeComments text = true) :
    Uncommented (freeComments text.toList) none text.toList (stripComments text).toList := by
  have hlines : Uncommented (freeComments text.toList) none _ _ :=
    uncommented_stripRawLines (lines_rawLines text.toList) h (by simp)
  rw [flatten_rawLines] at hlines
  simpa [stripComments] using hlines

end ClusterConfig.Text

namespace ClusterConfig.Yaml

open Text (stripComments stripsFreeComments)

variable {text : String}

theorem nodes_stripComments (h : stripsFreeComments text = true)
    (hread : ∀ node ∈ nodes text, node.isSome) : nodes (stripComments text) = nodes text := by
  have htokens := tokens_uncommented (Text.uncommented_stripComments h) (valid_of_nodes hread)
  rw [nodes, nodes, graphs, graphs, htokens]

theorem node?_stripComments {node : Node} (h : stripsFreeComments text = true)
    (hread : node? text = some node) : node? (stripComments text) = some node := by
  have hnodes : nodes text = [some node] := by
    rw [node?] at hread
    split at hread
    · rename_i heq
      rw [heq, Option.some.inj hread]
    · cases hread
  rw [node?, nodes_stripComments h (by simp [hnodes]), hnodes]

/-- A text that can be read as a document can be read once it is stripped, and holds the same document,
if stripping cuts off nothing but comments that reading skips, and in whose place no scalar would go
on. -/
theorem stripped_document_same (h : stripsFreeComments text = true) :
    (∀ node, node? text = some node → node? (stripComments text) = some node) ∧
      ∀ value, parseJson? text = some value → parseJson? (stripComments text) = some value := by
  refine ⟨fun node hread => node?_stripComments h hread, fun value hread => ?_⟩
  rw [parseJson?] at hread ⊢
  obtain ⟨node, hnode, hvalue⟩ := Option.bind_eq_some_iff.mp hread
  rw [node?_stripComments h hnode, Option.bind_some, hvalue]

/-- Comments behind a key, quotes, a header of a block scalar and in a flow collection. -/
theorem comments_of_nested_lists :
    let text := "a: # x\n- 'b # c' # d\n- |- # e\n  # f\n- [1, # g\n  2]\n# h\n"
    stripsFreeComments text = true ∧ ∃ value, value.compact = "\x7b\"a\":[\"b # c\",\"# f\",[1,2]]\x7d" ∧
      parseJson? text = some value ∧ parseJson? (stripComments text) = some value := by
  intro text
  have hfree : stripsFreeComments text = true := by decide +kernel
  have hread : (parseJson? text).map Json.compact = some "\x7b\"a\":[\"b # c\",\"# f\",[1,2]]\x7d" := by
    decide +kernel
  obtain ⟨value, hvalue, hcompact⟩ := Option.map_eq_some_iff.mp hread
  exact ⟨hfree, value, hcompact, hvalue, (stripped_document_same hfree).2 value hvalue⟩

/-- A quoted value right behind the colon of its key is cut off at its mark. -/
theorem value_of_compact_mapping_lost :
    let text := "\x7b\"a\":\"b # c\"\x7d"
    (parseJson? text).map Json.compact = some text ∧ parseJson? (stripComments text) = none := by
  have hread : (parseJson? (stripComments "\x7b\"a\":\"b # c\"\x7d")).isSome = false := by decide +kernel
  exact ⟨by decide +kernel, by simpa using hread⟩

end ClusterConfig.Yaml
