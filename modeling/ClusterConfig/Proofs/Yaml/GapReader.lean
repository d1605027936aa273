import ClusterConfig.Proofs.Yaml.LineReaders
import ClusterConfig.Yaml.Scalar

/-!
# Gaps inside scalars

The blanks and line breaks between two words of a scalar. They are read again in front of another
text; where that goes on with a line break, so does the gap.
-/

set_option autoImplicit false

namespace ClusterConfig.Yaml

variable {c d : Cursor} {q r x y blanks : List Char} {indent fuel : Nat} {gap : Gap}

/-- No blank starts the text. -/
def NoBlank (s : List Char) : Prop := s.head?.all (!isSpaceOrTab ·)

/-- A word starts the text, or the text is over. -/
def AtWord (s : List Char) : Prop := s.head?.all (!isSpaceOrBreak ·)

theorem AtWord.noBlank (h : AtWord q) : NoBlank q := by
  cases q with
  | nil => rfl
  | cons e q =>
    simp only [AtWord, NoBlank, List.head?_cons, Option.all_some, isSpaceOrBreak,
      Bool.not_or, Bool.and_eq_true] at h ⊢
    exact h.1

theorem AtWord.no_break (h : AtWord q) : ∀ e ∈ q.head?, isLineBreak e = false := by
  intro e he
  simp only [AtWord, Option.mem_def.mp he, Option.all_some, isSpaceOrBreak, Bool.not_or,
    Bool.and_eq_true, Bool.not_eq_true'] at h
  exact h.2

theorem atWord_dropWhile (s : List Char) : AtWord (s.dropWhile isSpaceOrBreak) :=
  head?_dropWhile_all isSpaceOrBreak s

theorem takeWhile_blanks (hx : ∀ e ∈ x, isSpaceOrTab e) (hr : NoBlank r) :
    (x ++ r).takeWhile isSpaceOrTab = x := by
  apply takeWhile_append_stop hx
  intro e he
  simpa [NoBlank, Option.mem_def.mp he] using hr

/-- Every text starts with its blanks. -/
theorem exists_blanks (s : List Char) :
    ∃ x r, s = x ++ r ∧ (∀ e ∈ x, isSpaceOrTab e) ∧ NoBlank r :=
  ⟨_, _, (List.takeWhile_append_dropWhile (p := isSpaceOrTab)).symm,
    fun _ he => List.mem_takeWhile_imp he, head?_dropWhile_all isSpaceOrTab s⟩

theorem isLineBreak_of_blank {e : Char} (h : isSpaceOrTab e = true) : isLineBreak e = false := by
  simp only [isSpaceOrTab, Bool.or_eq_true, decide_eq_true_eq] at h
  obtain rfl | rfl := h <;> rfl

namespace Gap

theorem lines_stop (hq : ∀ e ∈ c.rest.head?, isLineBreak e = false) (fuel : Nat) :
    read.lines indent fuel c = some (empty, c) := by
  cases fuel with
  | zero => rfl
  | succ fuel => rw [read.lines, lineBreak?_eq_none hq]

/-- What is found behind some blanks and line breaks, with these. -/
def behind (blanks breaks : List Char) (found : Gap × Cursor) : Gap × Cursor :=
  (⟨blanks ++ found.1.blanks, breaks ++ found.1.breaks⟩, found.2)

@[simp]
theorem behind_nil : behind [] [] = id := rfl

@[simp]
theorem behind_comp (a b c d : List Char) :
    behind a b ∘ behind c d = behind (a ++ c) (b ++ d) := by
  funext found
  simp [behind]

theorem lines_break {b : Char} {next : Cursor} (indent : Nat) (hb : c.lineBreak? = some (b, next))
    (hx : ∀ e ∈ x, isSpaceOrTab e) (hr : NoBlank r) (hrest : next.rest = x ++ r) (fuel : Nat) :
    read.lines indent (fuel + 1) c =
      if (x.take (indent - next.column)).contains '\t' then none
      else (read.lines indent fuel ⟨r, next.index + x.length, next.line,
        next.column + x.length⟩).map (behind [] [b]) := by
  rw [read.lines, hb]
  simp only [hrest, takeWhile_blanks hx hr, Cursor.advance, List.drop_left, Option.bind_eq_bind,
    Option.map_eq_bind]
  split <;> rfl

/-- The lines `y` of a gap, up to some blanks before its end, are read again from the same line and
column in front of another text. -/
structure LinesAgain (indent line column : Nat) (y blanks q : List Char) (gap : Gap) (d : Cursor) :
    Prop where
  rest : d.rest = q
  line_le : line ≤ d.line
  no_blanks : gap.blanks = []
  column_le : blanks.length ≤ d.column
  again : ∀ r i fuel, (y ++ r).length ≤ fuel → NoBlank r → SameBreak y (blanks ++ q) r →
    ∃ left, r.length ≤ left ∧ read.lines indent fuel ⟨y ++ r, i, line, column⟩ =
      (read.lines indent left ⟨r, i + y.length, d.line, d.column - blanks.length⟩).map
        (behind [] gap.breaks)

/-- Of a gap without lines there is nothing to read. -/
theorem linesAgain_nil (indent line column index : Nat) (blanks q : List Char) :
    LinesAgain indent line column [] blanks q empty
      ⟨q, index, line, column + blanks.length⟩ where
  rest := rfl
  line_le := le_rfl
  no_blanks := rfl
  column_le := Nat.le_add_left _ _
  again r i fuel hf _ _ := ⟨fuel, by simpa using hf, by simp [empty]⟩

/-- A line break and the blanks behind it are read again in front of lines that are. -/
theorem LinesAgain.behind_break {b : Char} {line column : Nat} {z : List Char} (hne : x ≠ [])
    (hbreak : ∀ r i, SameBreak (x ++ (z ++ y)) (blanks ++ q) r →
      Cursor.lineBreak? ⟨x ++ (z ++ y) ++ r, i, line, column⟩ =
        some (b, ⟨(z ++ y) ++ r, i + x.length, line + 1, 0⟩))
    (hz : ∀ e ∈ z, isSpaceOrTab e) (htab : ¬ (z.take (indent - 0)).contains '\t' = true)
    (hy : ∀ r, NoBlank r → NoBlank (y ++ r))
    (h : LinesAgain indent (line + 1) (0 + z.length) y blanks q gap d) :
    LinesAgain indent line column (x ++ (z ++ y)) blanks q (behind [] [b] (gap, d)).1 d where
  rest := h.rest
  line_le := (Nat.le_succ line).trans h.line_le
  no_blanks := by simp [behind, h.no_blanks]
  column_le := h.column_le
  again r i fuel hf hr hsame := by
    have hpos := List.length_pos_iff.mpr hne
    simp only [List.length_append] at hf
    obtain ⟨k, rfl⟩ : ∃ k, fuel = k + 1 := ⟨fuel - 1, by omega⟩
    obtain ⟨left, hleft, hread⟩ := h.again r (i + x.length + z.length) k
      (by rw [List.length_append]; omega) hr hsame.of_append.of_append
    refine ⟨left, hleft, ?_⟩
    rw [lines_break indent (hbreak r i hsame) hz (hy r hr) (List.append_assoc ..), if_neg htab, hread,
      Option.map_map, behind_comp]
    simp [behind, Nat.add_assoc]

/-- Some lines of a gap, up to some blanks before its end, are read again. -/
theorem lines_again {index line column : Nat} (hy : ∀ e ∈ y, isSpaceOrBreak e) (hstart : NoBlank y)
    (hblanks : ∀ e ∈ blanks, isSpaceOrTab e) (hempty : y = [] → blanks = []) (hq : AtWord q)
    (hf : (y ++ (blanks ++ q)).length ≤ fuel)
    (h : read.lines indent fuel ⟨y ++ (blanks ++ q), index, line, column⟩ = some (gap, d)) :
    LinesAgain indent line column y blanks q gap d := by
  induction fuel generalizing y gap index line column with
  | zero =>
    obtain ⟨rfl, hbq⟩ := List.append_eq_nil_iff.mp (List.length_eq_zero_iff.mp (Nat.le_zero.mp hf))
    obtain ⟨rfl, rfl⟩ := List.append_eq_nil_iff.mp hbq
    obtain ⟨rfl, rfl⟩ := Prod.mk.inj (Option.some.inj h)
    exact linesAgain_nil indent line column index [] []
  | succ fuel ih =>
    cases y with
    | nil =>
      obtain rfl := hempty rfl
      rw [lines_stop (by simpa using hq.no_break)] at h
      obtain ⟨rfl, rfl⟩ := Prod.mk.inj (Option.some.inj h)
      exact linesAgain_nil indent line column index [] q
    | cons e y =>
      have he : isLineBreak e = true := by
        have hspace := hy e (by simp)
        simp only [NoBlank, List.head?_cons, Option.all_some, Bool.not_eq_true'] at hstart
        simpa [isSpaceOrBreak, hstart] using hspace
      have hfollow : ∀ f ∈ (blanks ++ q).head?, isLineBreak f = false := by
        cases blanks with
        | nil => exact hq.no_break
        | cons f blanks => simpa using isLineBreak_of_blank (hblanks f (by simp))
      obtain ⟨b, next, hb⟩ : ∃ b next, Cursor.lineBreak?
          ⟨e :: y ++ (blanks ++ q), index, line, column⟩ = some (b, next) :=
        lineBreak?_of_break he _ index line column
      obtain ⟨x, z, hyz, hne, rfl, hagain⟩ := lineBreak?_within hfollow hb
      obtain ⟨z₁, z₂, rfl, hz₁, hz₂⟩ := exists_blanks z
      rw [hyz] at hy hf hb hagain h ⊢
      cases z₂ with
      | nil =>
        -- the last line: its blanks are read with those at the end of the gap
        rw [List.append_nil] at hb h
        rw [lines_break indent hb (List.forall_mem_append.mpr ⟨hz₁, hblanks⟩) hq.noBlank
          (List.append_assoc ..).symm, Option.ite_none_left_eq_some, lines_stop hq.no_break] at h
        obtain ⟨htab, h⟩ := h
        obtain ⟨rfl, rfl⟩ := Prod.mk.inj (Option.some.inj h)
        have htab' : ¬ (z₁.take (indent - 0)).contains '\t' = true := by
          simp only [List.contains_eq_mem, decide_eq_true_eq] at htab ⊢
          exact fun hmem => htab (((List.prefix_append z₁ blanks).take _).subset hmem)
        have hlast := linesAgain_nil indent (line + 1) (0 + z₁.length)
          (index + x.length + (z₁ ++ blanks).length) blanks q
        rw [Nat.add_assoc 0, ← List.length_append] at hlast
        exact hlast.behind_break hne hagain hz₁ htab' fun r hr => hr
      | cons f z₂ =>
        have hnoblank (s : List Char) : NoBlank ((f :: z₂) ++ s) := hz₂
        rw [lines_break indent hb hz₁ (hnoblank _) (List.append_assoc ..),
          Option.ite_none_left_eq_some] at h
        obtain ⟨htab, h⟩ := h
        obtain ⟨⟨gap', d'⟩, hlines, heq⟩ := Option.map_eq_some_iff.mp h
        obtain ⟨rfl, rfl⟩ := Prod.mk.inj heq
        have hpos := List.length_pos_iff.mpr hne
        have hrest := ih (fun g hg => hy g (by simp [hg])) hz₂ (by simp)
          (by simp only [List.length_append] at hf ⊢; omega) hlines
        exact hrest.behind_break hne hagain hz₁ htab fun r _ => hnoblank r

theorem read_blanks (indent : Nat) (hx : ∀ e ∈ x, isSpaceOrTab e) (hr : NoBlank r)
    (index line column : Nat) :
    read indent ((x ++ r).length + 1) ⟨x ++ r, index, line, column⟩ =
      (read.lines indent r.length ⟨r, index + x.length, line, column + x.length⟩).map
        (behind x []) := by
  induction x generalizing index column with
  | nil =>
    rw [read.eq_def]
    cases r with
    | nil => rfl
    | cons e r =>
      have he : isSpaceOrTab e = false := by simpa [NoBlank] using hr
      simp [he]
  | cons e x ih =>
    have hread := ih (fun f hf => hx f (by simp [hf])) (index + 1) (column + 1)
    rw [read.eq_def]
    simp only [List.cons_append, List.length_cons, hx e (by simp), if_true, Cursor.advance,
      List.drop_succ_cons, List.drop_zero, hread, Option.bind_eq_bind, Option.bind_map]
    rw [Option.map_eq_bind]
    simp [behind, Function.comp_def, Nat.add_comm, Nat.add_left_comm]

/-- A gap up to some blanks before its end. Before another text it is the same gap, with the lines
that the other text adds to it. -/
theorem read_again (hc : c.rest = y ++ (blanks ++ q)) (hy : ∀ e ∈ y, isSpaceOrBreak e)
    (hblanks : ∀ e ∈ blanks, isSpaceOrTab e) (hq : AtWord q)
    (h : read indent (c.rest.length + 1) c = some (gap, d)) :
    d.rest = q ∧ c.line ≤ d.line ∧ blanks.length ≤ d.column ∧
      ∀ r i, NoBlank r → SameBreak y (blanks ++ q) r →
        ∃ left before, r.length ≤ left ∧ (blanks = [] → before = gap.blanks) ∧
          read indent ((y ++ r).length + 1) ⟨y ++ r, i, c.line, c.column⟩ =
            (read.lines indent left ⟨r, i + y.length, d.line, d.column - blanks.length⟩).map
              (behind before gap.breaks) := by
  obtain ⟨text, index, line, column⟩ := c
  obtain rfl : text = y ++ (blanks ++ q) := hc
  obtain ⟨x, z, rfl, hx, hz⟩ := exists_blanks y
  cases z with
  | nil =>
    -- the gap has no lines: all its blanks are read at once
    rw [List.append_nil] at h ⊢
    have hread := read_blanks indent (List.forall_mem_append.mpr ⟨hx, hblanks⟩) hq.noBlank index line
      column
    rw [List.append_assoc] at hread
    rw [hread, lines_stop hq.no_break] at h
    obtain ⟨rfl, rfl⟩ := Prod.mk.inj (Option.some.inj h)
    have hcolumn : column + (x ++ blanks).length - blanks.length = column + x.length := by
      rw [List.length_append]
      omega
    refine ⟨rfl, le_rfl, by simp; omega, fun r i hr _ => ⟨r.length, x, le_rfl, ?_, ?_⟩⟩
    · rintro rfl
      simp [empty]
    · rw [read_blanks indent hx hr, hcolumn]
      rfl
  | cons f z =>
    have hnoblank (s : List Char) : NoBlank ((f :: z) ++ s) := hz
    rw [List.append_assoc, read_blanks indent hx (hnoblank _)] at h
    obtain ⟨⟨gap', d'⟩, hlines, heq⟩ := Option.map_eq_some_iff.mp h
    obtain ⟨rfl, rfl⟩ := Prod.mk.inj heq
    obtain ⟨hd, hline, hgap, hcolumn, hagain⟩ := lines_again
      (fun g hg => hy g (List.mem_append_right _ hg)) hz hblanks (by simp) hq le_rfl hlines
    refine ⟨hd, hline, hcolumn, fun r i hr hsame => ?_⟩
    obtain ⟨left, hleft, hread⟩ := hagain r (i + x.length) _ le_rfl hr hsame.of_append
    refine ⟨left, x, hleft, fun _ => by simp [hgap], ?_⟩
    rw [List.append_assoc, read_blanks indent hx (hnoblank r), hread, Option.map_map, behind_comp]
    simp [Nat.add_assoc]

/-- A gap is read again before any other word. -/
theorem read_word (h : read indent (c.rest.length + 1) c = some (gap, d)) :
    ∃ x, c.rest = x ++ d.rest ∧ (∀ e ∈ x, isSpaceOrBreak e) ∧ AtWord d.rest ∧ c.line ≤ d.line ∧
      ∀ r i, AtWord r → read indent ((x ++ r).length + 1) ⟨x ++ r, i, c.line, c.column⟩ =
        some (gap, ⟨r, i + x.length, d.line, d.column⟩) := by
  have hx : ∀ e ∈ c.rest.takeWhile isSpaceOrBreak, isSpaceOrBreak e :=
    fun e he => List.mem_takeWhile_imp he
  have hsplit : c.rest = c.rest.takeWhile isSpaceOrBreak ++
      ([] ++ c.rest.dropWhile isSpaceOrBreak) := by
    rw [List.nil_append, List.takeWhile_append_dropWhile]
  obtain ⟨hd, hline, -, hagain⟩ := read_again hsplit hx (by simp) (atWord_dropWhile _) h
  refine ⟨_, by rw [hd]; exact hsplit, hx, by rw [hd]; exact atWord_dropWhile _, hline,
    fun r i hr => ?_⟩
  have hsame : SameBreak (c.rest.takeWhile isSpaceOrBreak)
      ([] ++ c.rest.dropWhile isSpaceOrBreak) r := by
    intro _ hhead
    have hbreak := hr.no_break '\n' hhead
    cases hbreak
  obtain ⟨left, before, -, hbefore, hread⟩ := hagain r i hr.noBlank hsame
  rw [hread, lines_stop hr.no_break, hbefore rfl]
  simp [behind, empty]

end Gap

end ClusterConfig.Yaml
