import ClusterConfig.Proofs.Yaml.CutLines

/-!
# What is skipped between tokens

Between two tokens the scanner skips blanks, line breaks and comments, line by line. A gap is the
list of these lines; the comments in it are those of a text that are no part of any scalar.

The scanner skips the same lines in a text and in what is left of it once comments are cut out, and
comes to the same place: only where the last line of the text ends in a comment that is cut does the
other text end further to the left.
-/

set_option autoImplicit false

namespace ClusterConfig.Yaml

variable {s t u : Scan} {fuel : Nat} {P : List Char → Prop}

/-- A blank where tabs are blanks or not. -/
def isBlankWith (tabs : Bool) (c : Char) : Bool := c = ' ' || (tabs && c = '\t')

/-- The blanks that are skipped at the start of a text, with a byte order mark before them at the
start of a line. -/
def leadingBlanks (lineStart tabs : Bool) : List Char → List Char
  | [] => []
  | c :: rest =>
    if lineStart && isByteOrderMark c then c :: rest.takeWhile (isBlankWith tabs)
    else (c :: rest).takeWhile (isBlankWith tabs)

namespace Scan

/-- Tabs are skipped where no key may start. -/
def skipsTabs (s : Scan) : Bool := s.inFlow || !s.keyAllowed

def blanks (s : Scan) : List Char :=
  leadingBlanks (s.cursor.column = 0) s.skipsTabs s.cursor.rest

/-- Where the blanks of a line end: at a comment, at a line break, at a token or with the text. -/
def stop (s : Scan) : Cursor := s.cursor.advance s.blanks.length

/-- The start of the next line, if there is only a comment before it. -/
def nextLine? (s : Scan) : Option Scan :=
  s.stop.skipComment.lineBreak?.map fun found =>
    (s.goTo found.2).allowKey (s.keyAllowed || !s.inFlow)

theorem skipBlanks_succ (fuel : Nat) (s : Scan) :
    skipBlanks (fuel + 1) s =
      match s.nextLine? with
      | some u => skipBlanks fuel u
      | none => s.goTo s.stop.skipComment := by
  have hstop : s.stop = (if s.cursor.column = 0 && s.cursor.startsWith isByteOrderMark then
      s.cursor.advance 1 else s.cursor).advanceWhile (isBlankWith s.skipsTabs) := by
    rw [stop, blanks, Cursor.advanceWhile]
    obtain ⟨rest, index, line, column⟩ := s.cursor
    cases rest with
    | nil => simp [leadingBlanks, Cursor.startsWith]
    | cons c rest =>
      simp only [leadingBlanks, Cursor.startsWith, List.head?_cons, Option.any_some]
      by_cases hmark : (decide (column = 0) && isByteOrderMark c) = true
      · simp only [hmark, if_true, Cursor.advance, List.drop_succ_cons, List.drop_zero,
          List.length_cons, Nat.add_assoc, Nat.add_comm 1]
      · simp only [hmark, Bool.false_eq_true, if_false]
  have hblank : (fun x => decide (x = ' ') || (s.inFlow || !s.keyAllowed) && decide (x = '\t')) =
      isBlankWith s.skipsTabs := rfl
  simp only [skipBlanks, hblank, ← hstop, nextLine?]
  cases s.stop.skipComment.lineBreak? <;> rfl

/-- The scanner skips blanks, line breaks and comments from one place to another. Every line but the
first starts with blanks of a kind. -/
inductive Skips (P : List Char → Prop) : Scan → Scan → Prop
  | stop {s : Scan} (h : s.nextLine? = none) : Skips P s (s.goTo s.stop.skipComment)
  | line {s u t : Scan} (h : s.nextLine? = some u) (hu : P u.blanks) (ht : Skips P u t) : Skips P s t

theorem length_advance (c : Cursor) (n : Nat) : (c.advance n).rest.length ≤ c.rest.length := by
  simp [Cursor.advance]

theorem length_skipComment (c : Cursor) : c.skipComment.rest.length ≤ c.rest.length := by
  rw [Cursor.skipComment]
  split
  · exact length_advance _ _
  · exact le_rfl

theorem length_nextLine (h : s.nextLine? = some u) :
    u.cursor.rest.length < s.stop.skipComment.rest.length := by
  obtain ⟨⟨b, next⟩, hb, rfl⟩ := Option.map_eq_some_iff.mp h
  obtain ⟨x, hx, hne, -, -, -⟩ := lineBreak?_eq_some hb
  have hlen := congrArg List.length hx
  have hpos := List.length_pos_iff.mpr hne
  simp only [List.length_append] at hlen
  simp only [allowKey, goTo]
  omega

theorem length_stop (s : Scan) : s.stop.rest.length ≤ s.cursor.rest.length := length_advance _ _

theorem length_nextLine_lt (h : s.nextLine? = some u) :
    u.cursor.rest.length < s.cursor.rest.length :=
  (length_nextLine h).trans_le ((length_skipComment s.stop).trans (length_stop s))

/-- A line of a gap: its blanks, and where they end. -/
structure GapLine where
  blanks : List Char
  stop : Cursor

/-- The lines of the gap that starts here, up to the next token. -/
def gapLines : Nat → Scan → List GapLine
  | 0, _ => []
  | fuel + 1, s =>
    ⟨s.blanks, s.stop⟩ :: match s.nextLine? with
      | some u => gapLines fuel u
      | none => []

def gap (s : Scan) : List GapLine := gapLines (s.cursor.rest.length + 1) s

theorem gapLines_eq (h : s.cursor.rest.length < fuel) : gapLines fuel s = s.gap := by
  have hfuel {n m : Nat} {s : Scan} (hn : s.cursor.rest.length < n) (hm : s.cursor.rest.length < m) :
      gapLines n s = gapLines m s := by
    induction n generalizing s m with
    | zero => omega
    | succ n ih =>
      obtain ⟨m, rfl⟩ : ∃ k, m = k + 1 := ⟨m - 1, by omega⟩
      rw [gapLines, gapLines]
      cases hnext : s.nextLine? with
      | none => rfl
      | some u =>
        have hlt := length_nextLine_lt hnext
        exact congrArg _ (ih (by omega) (by omega))
  exact hfuel h (Nat.lt_succ_self _)

theorem gap_eq (s : Scan) :
    s.gap = ⟨s.blanks, s.stop⟩ :: match s.nextLine? with
      | some u => u.gap
      | none => [] := by
  rw [gap, gapLines]
  cases hnext : s.nextLine? with
  | none => rfl
  | some u =>
    have hlt := length_nextLine_lt hnext
    exact congrArg _ (gapLines_eq (by omega))

theorem skips_skipBlanks (hP : ∀ line ∈ s.gap.tail, P line.blanks) (h : s.cursor.rest.length < fuel) :
    Skips P s (skipBlanks fuel s) := by
  induction fuel generalizing s with
  | zero => omega
  | succ fuel ih =>
    rw [skipBlanks_succ]
    rw [gap_eq] at hP
    cases hnext : s.nextLine? with
    | none => exact .stop hnext
    | some u =>
      rw [hnext] at hP
      have hlt := length_nextLine_lt hnext
      have hu : P u.blanks := hP ⟨u.blanks, u.stop⟩ (by simp [gap_eq u])
      exact .line hnext hu (ih (fun line hline => hP line (List.mem_of_mem_tail hline)) (by omega))

theorem Skips.eq (h : Skips P s t) (hf : s.cursor.rest.length < fuel) : skipBlanks fuel s = t := by
  induction h generalizing fuel with
  | stop hnext =>
    cases fuel with
    | zero => omega
    | succ fuel => rw [skipBlanks_succ, hnext]
  | @line s u t hnext _ _ ih =>
    cases fuel with
    | zero => omega
    | succ fuel =>
      rw [skipBlanks_succ, hnext]
      have hlt := length_nextLine_lt hnext
      exact ih (by omega)

/-- A gap is skipped with what is true of its lines. -/
theorem Skips.of_gap {Q : List Char → Prop} (hP : ∀ line ∈ s.gap.tail, P line.blanks)
    (h : Skips Q s t) : Skips P s t := by
  have hskips := skips_skipBlanks hP (Nat.lt_succ_self _)
  rwa [h.eq (Nat.lt_succ_self _)] at hskips

/-- A comment starts where so many characters are left. -/
def commentAt (c : Cursor) : List Nat := if c.rest.head? = some '#' then [c.rest.length] else []

/-- Where the comments of a gap start. -/
def gapComments (s : Scan) : List Nat := s.gap.flatMap fun line => commentAt line.stop

theorem gapComments_eq (s : Scan) :
    s.gapComments = commentAt s.stop ++ match s.nextLine? with
      | some u => u.gapComments
      | none => [] := by
  rw [gapComments, gap_eq]
  cases s.nextLine? <;> simp [gapComments]

theorem le_of_gapComments {p : Nat} (h : p ∈ s.gapComments) : p ≤ s.cursor.rest.length := by
  obtain ⟨n, hn⟩ : ∃ n, s.cursor.rest.length = n := ⟨_, rfl⟩
  induction n using Nat.strong_induction_on generalizing s with
  | _ n ih =>
    rw [gapComments_eq, List.mem_append, commentAt] at h
    obtain hp | hp := h
    · split at hp
      · rw [List.mem_singleton] at hp
        exact hp ▸ length_stop s
      · cases hp
    · cases hnext : s.nextLine? with
      | none => simp [hnext] at hp
      | some u =>
        rw [hnext] at hp
        have hlt := length_nextLine_lt hnext
        exact (ih _ (hn ▸ hlt) hp rfl).trans hlt.le

end Scan

end ClusterConfig.Yaml

/-! ## Gaps with comments cut out -/

namespace ClusterConfig.Yaml

variable {places : List Nat} {prev : Option Char} {r x y z : List Char} {s t u : Scan}
  {P : List Char → Prop} {keys : List (Option KeyPlace)} {i : Nat}

/-! ### Leading blanks -/

/-- Blanks are found again as far as they still stand there. -/
theorem leadingBlanks_again {start tabs : Bool} (h : leadingBlanks start tabs x = y ++ z)
    (hno : NoBlank r) (hmark : y = [] → start = true → r.head?.any isByteOrderMark = false) :
    leadingBlanks start tabs (y ++ r) = y := by
  have hstop : ∀ e ∈ r.head?, isBlankWith tabs e = false := by
    intro e he
    have hblank : isSpaceOrTab e = false := by simpa [NoBlank, Option.mem_def.mp he] using hno
    simp only [isSpaceOrTab, Bool.or_eq_false_iff, decide_eq_false_iff_not] at hblank
    simp [isBlankWith, hblank]
  cases y with
  | nil =>
    cases r with
    | nil => rfl
    | cons a r =>
      have hnot : ¬(start && isByteOrderMark a) = true := by
        rw [Bool.and_eq_true]
        rintro ⟨hs, ha⟩
        simp [ha] at hmark
        simp [hmark] at hs
      have ha := hstop a rfl
      rw [List.nil_append, leadingBlanks, if_neg hnot]
      simp [ha]
  | cons e y =>
    cases x with
    | nil => cases h
    | cons f x =>
      rw [leadingBlanks] at h
      split at h
      · rename_i hbom
        obtain ⟨rfl, hy⟩ := List.cons.inj h
        have hall : ∀ g ∈ y, isBlankWith tabs g := fun g hg => by
          apply List.mem_takeWhile_imp (l := x)
          rw [hy]
          exact List.mem_append_left z hg
        rw [List.cons_append, leadingBlanks, if_pos hbom, takeWhile_append_stop hall hstop]
      · rename_i hbom
        have hall : ∀ g ∈ e :: y, isBlankWith tabs g := fun g hg =>
          List.mem_takeWhile_imp (h ▸ List.mem_append_left z hg)
        obtain rfl : e = f := by
          cases hf : isBlankWith tabs f <;> simp [hf] at h
          exact h.1.symm
        rw [List.cons_append, leadingBlanks, if_neg hbom]
        exact takeWhile_append_stop hall hstop

theorem noBlank_of_break (h : r.head?.all isLineBreak) : NoBlank r := by
  cases r with
  | nil => rfl
  | cons e r =>
    by_contra hblank
    simp only [NoBlank, List.head?_cons, Option.all_some, Bool.not_eq_true', Bool.not_eq_false]
      at h hblank
    rw [isLineBreak_of_blank hblank] at h
    cases h

/-- What starts with a line break starts with no other mark. -/
theorem head?_any_of_break {p : Char → Bool} (hp : ∀ e, p e → isLineBreak e = false)
    (h : r.head?.all isLineBreak) : r.head?.any p = false := by
  cases r with
  | nil => rfl
  | cons e r =>
    by_contra he
    simp only [List.head?_cons, Option.all_some, Option.any_some, Bool.not_eq_false] at h he
    simp [hp e he] at h

/-- A comment has no blank in front of it, nor has what may stand in its place. -/
theorem IsComment.noBlank_append {comment : List Char} (h : IsComment comment)
    (hr : comment = [] → NoBlank r) : NoBlank (comment ++ r) := by
  obtain rfl | ⟨text, rfl, -⟩ := h
  · exact hr rfl
  · rfl

theorem head?_append_congr (hhead : x.head? = y.head?) (z : List Char) :
    (z ++ x).head? = (z ++ y).head? := by
  rw [List.head?_append, List.head?_append, hhead]

namespace Scan

/-! ### A line -/

/-- The scanner at the same place of another text. -/
def onto (s : Scan) (rest : List Char) (index : Nat) (keys : List (Option KeyPlace)) : Scan :=
  { s with cursor := { s.cursor with rest := rest, index := index }, keys := keys }

theorem skipsTabs_onto (hk : keys.length = s.keys.length) :
    (s.onto r i keys).skipsTabs = s.skipsTabs := by
  simp only [skipsTabs, inFlow, onto, hk]

theorem stop_rest (s : Scan) : s.cursor.rest = s.blanks ++ s.stop.rest := by
  have hprefix : s.blanks <+: s.cursor.rest := by
    rw [blanks]
    generalize s.cursor.rest = x
    cases x with
    | nil => exact List.prefix_rfl
    | cons e x =>
      rw [leadingBlanks]
      split
      · exact List.cons_prefix_cons.mpr ⟨rfl, List.takeWhile_prefix _⟩
      · exact List.takeWhile_prefix _
  obtain ⟨q, hq⟩ := hprefix
  rw [stop, Cursor.advance, ← hq, List.drop_left]

/-- A byte order mark at the start of a line is a blank. -/
theorem no_mark_of_blanks (h : s.blanks = []) (hc : s.cursor.column = 0) :
    s.stop.rest.head?.any isByteOrderMark = false := by
  have hrest := stop_rest s
  rw [h, List.nil_append] at hrest
  rw [← hrest]
  rw [blanks] at h
  cases hr : s.cursor.rest with
  | nil => rfl
  | cons e x =>
    rw [hr, leadingBlanks] at h
    split at h
    · cases h
    · rename_i hmark
      simpa [hc] using hmark

/-- A comment, and what stands behind it. -/
theorem skipComment_split (c : Cursor) :
    ∃ comment rest, c.rest = comment ++ rest ∧ IsComment comment ∧
      (comment = [] → rest.head? ≠ some '#') ∧ (comment ≠ [] → rest.head?.all isLineBreak) ∧
      c.skipComment = ⟨rest, c.index + comment.length, c.line, c.column + comment.length⟩ := by
  obtain ⟨text, index, line, column⟩ := c
  by_cases hhead : text.head? = some '#'
  · obtain ⟨q, rfl⟩ := List.head?_eq_some_iff.mp hhead
    obtain ⟨text, rest, rfl, htext, hrest⟩ := exists_line q
    exact ⟨'#' :: text, rest, rfl, .inr ⟨text, rfl, htext⟩, by simp, fun _ => hrest,
      skipComment_of htext hrest index line column⟩
  · exact ⟨[], text, rfl, .inl rfl, fun _ => hhead, by simp, skipComment_of_ne hhead⟩

theorem skipComment_append {comment : List Char} (hcomment : IsComment comment)
    (hword : comment = [] → r.head? ≠ some '#') (hrest : comment ≠ [] → r.head?.all isLineBreak)
    (index line column : Nat) :
    Cursor.skipComment ⟨comment ++ r, index, line, column⟩ =
      ⟨r, index + comment.length, line, column + comment.length⟩ := by
  obtain rfl | ⟨text, rfl, ht⟩ := hcomment
  · exact skipComment_of_ne (hword rfl)
  · rw [List.cons_append, skipComment_of ht (hrest (by simp)), List.length_cons]

/-- A line of another text that starts with some of the blanks of this one. -/
theorem line_onto {comment : List Char} (hk : keys.length = s.keys.length) (hb : s.blanks = y ++ z)
    (hcomment : IsComment comment) (hno : NoBlank (comment ++ r))
    (hword : comment = [] → r.head? ≠ some '#') (hrest : comment ≠ [] → r.head?.all isLineBreak)
    (hmark : y = [] → s.cursor.column = 0 → (comment ++ r).head?.any isByteOrderMark = false) :
    (s.onto (y ++ (comment ++ r)) i keys).blanks = y ∧
      (s.onto (y ++ (comment ++ r)) i keys).stop.skipComment =
        ⟨r, i + y.length + comment.length, s.cursor.line,
          s.cursor.column + y.length + comment.length⟩ := by
  have hblanks : (s.onto (y ++ (comment ++ r)) i keys).blanks = y := by
    rw [blanks, skipsTabs_onto hk]
    exact leadingBlanks_again hb hno fun hy hstart => hmark hy (of_decide_eq_true hstart)
  refine ⟨hblanks, ?_⟩
  have hstop : (s.onto (y ++ (comment ++ r)) i keys).stop =
      ⟨comment ++ r, i + y.length, s.cursor.line, s.cursor.column + y.length⟩ := by
    rw [stop, hblanks]
    simp [onto, Cursor.advance]
  rw [hstop, skipComment_append hcomment hword hrest]

theorem Skips.length_le (h : Skips P s t) : t.cursor.rest.length ≤ s.cursor.rest.length := by
  induction h with
  | stop => exact (length_skipComment _).trans (length_stop _)
  | line hnext _ _ ih => exact ih.trans (length_nextLine_lt hnext).le

theorem nextLine_eq_some (h : s.nextLine? = some u) :
    ∃ b d, s.stop.skipComment.lineBreak? = some (b, d) ∧
      u = (s.goTo d).allowKey (s.keyAllowed || !s.inFlow) := by
  obtain ⟨⟨b, d⟩, hb, rfl⟩ := Option.map_eq_some_iff.mp h
  exact ⟨b, d, hb, rfl⟩

theorem line_skipComment (s : Scan) : s.stop.skipComment.line = s.cursor.line := by
  obtain ⟨comment, rest, -, -, -, -, hskip⟩ := skipComment_split s.stop
  rw [hskip]
  rfl

theorem line_nextLine (h : s.nextLine? = some u) : u.cursor.line = s.cursor.line + 1 := by
  obtain ⟨b, d, hb, rfl⟩ := nextLine_eq_some h
  obtain ⟨x, -, -, -, hd, -⟩ := lineBreak?_eq_some hb
  rw [← line_skipComment s]
  exact congrArg Cursor.line hd

theorem Skips.line_le (h : Skips P s t) : s.cursor.line ≤ t.cursor.line := by
  induction h with
  | @stop s => exact (line_skipComment s).ge
  | line hnext _ _ ih =>
    rw [line_nextLine hnext] at ih
    exact (Nat.le_succ _).trans ih

theorem lineBreak?_eq_none_iff (c : Cursor) :
    c.lineBreak? = none ↔ ∀ e ∈ c.rest.head?, isLineBreak e = false := by
  refine ⟨fun h => ?_, lineBreak?_eq_none⟩
  obtain ⟨text, index, line, column⟩ := c
  cases text with
  | nil => simp
  | cons e text =>
    intro f hf
    obtain rfl : e = f := by simpa using hf
    by_contra he
    obtain ⟨b, d, hb⟩ := lineBreak?_of_break (by simpa using he) text index line column
    rw [h] at hb
    cases hb

/-! ### The gap -/

/-- The scanner comes to a place of the other text as it comes to the place `t` of this one from `s`,
or both texts are over. -/
def ComesTo (places : List Nat) (keys : List (Option KeyPlace)) (i : Nat) (s t t' : Scan) : Prop :=
  (t.cursor.rest ≠ [] ∧ ∃ prev r j, t' = t.onto r j keys ∧
      Uncommented places prev t.cursor.rest r ∧
      (t.cursor.line = s.cursor.line → j + s.cursor.index = t.cursor.index + i)) ∨
    (t.cursor.rest = [] ∧ ∃ j k, t' = { t with cursor := ⟨[], j, t.cursor.line, k⟩, keys := keys } ∧
      (t.cursor.line = s.cursor.line → j + s.cursor.index ≤ t.cursor.index + i))

theorem mem_commentAt {c : Cursor} {p : Nat} (h : p ∈ commentAt c) : p = c.rest.length := by
  rw [commentAt] at h
  split at h
  · exact List.mem_singleton.mp h
  · cases h

/-- The last line of a gap that stays as it is. -/
theorem lastLine_same {comment rest t' : List Char} {prev' : Option Char}
    (hk : keys.length = s.keys.length) (hstop : s.stop.rest = comment ++ rest)
    (hcomment : IsComment comment) (hno : NoBlank (comment ++ rest))
    (hword : comment = [] → rest.head? ≠ some '#') (hrest : comment ≠ [] → rest.head?.all isLineBreak)
    (hbreak : ∀ e ∈ rest.head?, isLineBreak e = false) (hhead : t'.head? = rest.head?)
    (hu : Uncommented places prev' rest t') :
    (∃ z, s.blanks = (s.onto (s.blanks ++ (comment ++ t')) i keys).blanks ++ z) ∧
      (s.onto (s.blanks ++ (comment ++ t')) i keys).nextLine? = none ∧
      ComesTo places keys i s
        (s.goTo ⟨rest, s.stop.index + comment.length, s.stop.line, s.stop.column + comment.length⟩)
        ((s.onto (s.blanks ++ (comment ++ t')) i keys).goTo
          (s.onto (s.blanks ++ (comment ++ t')) i keys).stop.skipComment) := by
  have hindex : s.stop.index = s.cursor.index + s.blanks.length := rfl
  have hcolumn : s.stop.column = s.cursor.column + s.blanks.length := rfl
  have hline : s.stop.line = s.cursor.line := rfl
  obtain ⟨hblanks, hskip⟩ := line_onto (i := i) (y := s.blanks) (z := []) (r := t') hk
    (by simp) hcomment (by rwa [NoBlank, head?_append_congr hhead])
    (fun hnil => by rw [hhead]; exact hword hnil) (fun hne => by rw [hhead]; exact hrest hne)
    (fun hnil hc => by
      rw [head?_append_congr hhead, ← hstop]
      exact no_mark_of_blanks hnil hc)
  refine ⟨⟨[], by rw [hblanks, List.append_nil]⟩, ?_, ?_⟩
  · rw [nextLine?, hskip, lineBreak?_eq_none fun e he => hbreak e (hhead ▸ he)]
    rfl
  · rw [hskip]
    by_cases hnil : rest = []
    · subst hnil
      obtain rfl := hu.nil_eq
      exact .inr ⟨rfl, _, _, rfl, fun _ => by simp only [goTo, hindex]; omega⟩
    · refine .inl ⟨hnil, prev', t', i + s.blanks.length + comment.length, ?_, hu,
        fun _ => by simp only [goTo, hindex]; omega⟩
      simp only [goTo, onto, hline, hcolumn]

/-- The last line of a gap whose comment is cut off with some of its blanks. -/
theorem lastLine_over {blanks : List Char} (n m : Nat) (hk : keys.length = s.keys.length)
    (hb : s.blanks = y ++ blanks) :
    (∃ z, s.blanks = (s.onto y i keys).blanks ++ z) ∧ (s.onto y i keys).nextLine? = none ∧
      ComesTo places keys i s (s.goTo ⟨[], s.stop.index + n, s.stop.line, m⟩)
        ((s.onto y i keys).goTo (s.onto y i keys).stop.skipComment) := by
  have hindex : s.stop.index = s.cursor.index + s.blanks.length := rfl
  obtain ⟨hblanks, hskip⟩ := line_onto (i := i) (r := []) hk hb (.inl rfl) rfl
    (by simp) (by simp) (by simp)
  simp only [List.append_nil, List.length_nil, Nat.add_zero] at hblanks hskip
  refine ⟨⟨blanks, by rw [hblanks, hb]⟩, ?_, ?_⟩
  · rw [nextLine?, hskip, lineBreak?_eq_none (by simp)]
    rfl
  · rw [hskip]
    refine .inr ⟨rfl, _, _, rfl, fun _ => ?_⟩
    simp only [goTo, hindex, hb, List.length_append]
    omega

/-- The last line of a gap is the last line of the other gap. -/
theorem lastLine_cut (hnext : s.nextLine? = none) (hno : NoBlank s.stop.skipComment.rest)
    (hk : keys.length = s.keys.length) (hu : Uncommented places prev s.cursor.rest r)
    (hp : ∀ p ∈ places, p ≤ s.cursor.rest.length →
      p ∈ commentAt s.stop ∨ p ≤ s.stop.skipComment.rest.length) :
    (∃ z, s.blanks = (s.onto r i keys).blanks ++ z) ∧ (s.onto r i keys).nextLine? = none ∧
      ComesTo places keys i s (s.goTo s.stop.skipComment)
        ((s.onto r i keys).goTo (s.onto r i keys).stop.skipComment) := by
  obtain ⟨comment, rest, hstop, hcomment, hword, hrest, hskip⟩ := skipComment_split s.stop
  have hbreak : ∀ e ∈ rest.head?, isLineBreak e = false := by
    rwa [nextLine?, Option.map_eq_none_iff, hskip, lineBreak?_eq_none_iff] at hnext
  -- behind a comment there is a line break or nothing, and this line has no break
  have hend : comment ≠ [] → rest = [] := by
    intro hne
    have hhead := hrest hne
    cases rest with
    | nil => rfl
    | cons e rest => simp [hbreak e rfl] at hhead
  rw [hskip] at hno hp ⊢
  have hno' : NoBlank (comment ++ rest) := hcomment.noBlank_append fun _ => hno
  rw [stop_rest s, hstop] at hu hp
  obtain ⟨prev', t', rfl, hu'⟩ | ⟨hne, y, blanks, cr, q, t', hb, hcr, -, rfl, hu'⟩ :=
    hu.line_rest hcomment hno' hword hrest fun p hmem hlen =>
      (hp p hmem hlen).imp_left fun hp => hstop ▸ mem_commentAt hp
  · have hhead : t'.head? = rest.head? := by
      cases rest with
      | nil => rw [hu'.nil_eq]
      | cons e rest =>
        have hnil : comment = [] := by
          by_contra hne
          cases hend hne
        obtain ⟨t'', rfl, -⟩ := hu'.keeps (by
          rintro rfl
          exact hword hnil rfl) (by simpa [NoBlank] using hno)
        rfl
    exact lastLine_same hk hstop hcomment hno' hword hrest hbreak hhead hu'
  · obtain rfl := hend hne
    obtain ⟨rfl, rfl⟩ := List.append_eq_nil_iff.mp hcr.symm
    obtain rfl := hu'.nil_eq
    rw [List.append_nil]
    exact lastLine_over _ _ hk hb

/-- Another line of a gap is a line of the other gap, with the same line break behind it. -/
theorem nextLine_cut (hnext : s.nextLine? = some u) (hk : keys.length = s.keys.length)
    (hu : Uncommented places prev s.cursor.rest r)
    (hp : ∀ p ∈ places, p ≤ s.cursor.rest.length →
      p ∈ commentAt s.stop ∨ p ≤ u.cursor.rest.length) :
    (∃ z, s.blanks = (s.onto r i keys).blanks ++ z) ∧
      ∃ q j e, (s.onto r i keys).nextLine? = some (u.onto q j keys) ∧
        Uncommented places (some e) u.cursor.rest q := by
  obtain ⟨comment, rest, hstop, hcomment, hword, hrest, hskip⟩ := skipComment_split s.stop
  obtain ⟨ch, d, hbreak, rfl⟩ := nextLine_eq_some hnext
  have hlen := length_nextLine hnext
  rw [hskip] at hbreak hlen
  obtain ⟨x, -, -, -, hd, -⟩ := lineBreak?_eq_some hbreak
  have hno : NoBlank (comment ++ rest) :=
    hcomment.noBlank_append fun _ => noBlank_of_break (head_of_lineBreak? hbreak)
  rw [stop_rest s, hstop] at hu hp
  obtain ⟨w, rest', q, n, rfl, hw, hhead, ⟨e, hq⟩, hagain⟩ :=
    hu.next_line hcomment hno (fun p hmem hle => (hp p hmem hle).imp
      (fun hp => hstop ▸ mem_commentAt hp) fun hle => hle.trans hlen.le) rfl hbreak
  have hnomark : rest'.head?.any isByteOrderMark = false :=
    head?_any_of_break (by simp [isByteOrderMark]; decide) hhead
  have hnocomment : rest'.head? ≠ some '#' := no_comment_of_break hhead
  -- the line has the same blanks and the same comment, or no comment and some of its blanks
  obtain ⟨z, hb, hskip'⟩ : ∃ z, s.blanks = (s.onto (w ++ rest') i keys).blanks ++ z ∧
      (s.onto (w ++ rest') i keys).stop.skipComment =
        ⟨rest', i + w.length, s.cursor.line, s.cursor.column + w.length⟩ := by
    obtain rfl | ⟨⟨z, hz⟩, hnewline⟩ := hw
    · obtain ⟨hblanks, hskip'⟩ := line_onto (i := i) (z := []) hk
        (List.append_nil s.blanks).symm hcomment
        (hcomment.noBlank_append fun _ => noBlank_of_break hhead) (fun _ => hnocomment)
        (fun _ => hhead) (fun _ _ => by
          obtain rfl | ⟨text, rfl, -⟩ := hcomment
          · exact hnomark
          · rfl)
      rw [List.append_assoc]
      refine ⟨[], by rw [hblanks, List.append_nil], ?_⟩
      rw [hskip', List.length_append, Nat.add_assoc, Nat.add_assoc]
    · obtain ⟨hblanks, hskip'⟩ := line_onto (i := i) hk hz (.inl rfl)
        (noBlank_of_break hhead) (fun _ => hnocomment) (by simp) (fun _ _ => hnomark)
      exact ⟨z, hz.trans (congrArg (· ++ z) hblanks.symm), hskip'⟩
  refine ⟨⟨z, hb⟩, q, i + w.length + n, e, ?_, hq⟩
  rw [nextLine?, hskip', hagain, Option.map_some, hd]
  simp only [onto, allowKey, goTo, inFlow, hk]
  rfl

/-- The gap of a text is skipped in what is left of it once some of its comments are cut out. -/
theorem Skips.cut (hP : ∀ x y, P (x ++ y) → P x) (h : Skips P s t) (hno : NoBlank t.cursor.rest)
    (hk : keys.length = s.keys.length) (hu : Uncommented places prev s.cursor.rest r)
    (hp : ∀ p ∈ places, p ≤ s.cursor.rest.length → p ∈ s.gapComments ∨ p ≤ t.cursor.rest.length) :
    (∃ z, s.blanks = (s.onto r i keys).blanks ++ z) ∧
      ∃ t', Skips P (s.onto r i keys) t' ∧ ComesTo places keys i s t t' := by
  induction h generalizing prev r i with
  | @stop s hnext =>
    obtain ⟨hblanks, hnext', hcomes⟩ := lastLine_cut (i := i) hnext hno hk hu fun p hmem hle => by
      rw [gapComments_eq, hnext, List.append_nil] at hp
      exact hp p hmem hle
    exact ⟨hblanks, _, .stop hnext', hcomes⟩
  | @line s u t hnext hPu ht ih =>
    have hlen := ht.length_le
    have hcomments : ∀ p ∈ s.gapComments, p ∈ commentAt s.stop ∨ p ∈ u.gapComments := by
      rw [gapComments_eq, hnext]
      exact fun p => List.mem_append.mp
    obtain ⟨hblanks, q, j, e, hnext', hq⟩ := nextLine_cut (i := i) hnext hk hu fun p hmem hle => by
      obtain hgap | hle := hp p hmem hle
      · exact (hcomments p hgap).imp_right le_of_gapComments
      · exact .inr (hle.trans hlen)
    have hkeys : keys.length = u.keys.length := by
      obtain ⟨b, d, -, rfl⟩ := nextLine_eq_some hnext
      exact hk
    obtain ⟨⟨z, hz⟩, t', hskips, hcomes⟩ := ih (i := j) hno hkeys hq fun p hmem hle => by
      refine (hp p hmem (hle.trans (length_nextLine_lt hnext).le)).imp_left fun hgap => ?_
      refine (hcomments p hgap).resolve_left fun hstop => ?_
      have := (length_nextLine hnext).trans_le (length_skipComment s.stop)
      have := mem_commentAt hstop
      omega
    refine ⟨hblanks, t', .line hnext' (hP _ z (hz ▸ hPu)) hskips, ?_⟩
    -- the gap ends on another line
    have hline := ht.line_le
    rw [line_nextLine hnext] at hline
    obtain ⟨hne, prev', r', j, rfl, hu', -⟩ | ⟨hnil, j, k, rfl, -⟩ := hcomes
    · exact .inl ⟨hne, prev', r', j, rfl, hu', fun heq => by omega⟩
    · exact .inr ⟨hnil, j, k, rfl, fun heq => by omega⟩

end Scan

end ClusterConfig.Yaml
