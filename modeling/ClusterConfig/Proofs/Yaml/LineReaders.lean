import ClusterConfig.Proofs.Yaml.WordReaders

/-!
# Readers that go to the end of a line

What may stand at the end of a line, the line break behind it, and directives, which take both.
-/

set_option autoImplicit false

namespace ClusterConfig.Yaml

variable {α : Type} {c d : Cursor} {a : α} {r s x : List Char}

/-! ## Line breaks -/

/-- A carriage return at the end of the one text does not take a line feed from the other. -/
def SameBreak (x rest r : List Char) : Prop :=
  x.getLast? = some '\r' → r.head? = some '\n' → rest.head? = some '\n'

theorem SameBreak.append {z rest : List Char} (h : SameBreak (x ++ z) rest r) :
    SameBreak x (z ++ rest) (z ++ r) := by
  intro hlast hhead
  cases z with
  | nil => exact h (by simpa using hlast) hhead
  | cons e z => simpa using hhead

theorem SameBreak.of_append {z rest : List Char} (h : SameBreak (x ++ z) rest r) :
    SameBreak z rest r := by
  intro hlast
  exact h (by simp [List.getLast?_append, hlast])

theorem lineBreak?_eq_some {b : Char} (h : c.lineBreak? = some (b, d)) :
    ∃ x, c.rest = x ++ d.rest ∧ x ≠ [] ∧ (∀ e ∈ x, isLineBreak e) ∧
      d = ⟨d.rest, c.index + x.length, c.line + 1, 0⟩ ∧
      ∀ r index line column, SameBreak x d.rest r →
        Cursor.lineBreak? ⟨x ++ r, index, line, column⟩ =
          some (b, ⟨r, index + x.length, line + 1, 0⟩) := by
  obtain ⟨text, index, line, column⟩ := c
  rw [Cursor.lineBreak?] at h
  split at h
  · rename_i rest heq
    obtain rfl : text = _ := heq
    obtain ⟨rfl, rfl⟩ := Prod.mk.inj (Option.some.inj h)
    exact ⟨['\r', '\n'], rfl, by simp, by simp; decide, rfl, fun r i l k _ => rfl⟩
  · rename_i e rest hpair heq
    obtain rfl : text = _ := heq
    rw [Option.ite_none_right_eq_some] at h
    obtain ⟨he, h⟩ := h
    obtain ⟨rfl, rfl⟩ := Prod.mk.inj (Option.some.inj h)
    refine ⟨[e], rfl, by simp, by simpa using he, rfl, fun r i l k hr => ?_⟩
    rw [Cursor.lineBreak?]
    split
    · rename_i more heq
      obtain ⟨rfl, rfl⟩ : e = '\r' ∧ r = '\n' :: more := by simpa using heq
      obtain ⟨q, rfl⟩ : ∃ q, rest = '\n' :: q := List.head?_eq_some_iff.mp (hr rfl rfl)
      exact (hpair q rfl rfl).elim
    · rename_i e' more _ heq
      obtain ⟨rfl, rfl⟩ : e = e' ∧ r = more := by simpa using heq
      rw [if_pos he]
      rfl
    · rename_i heq
      simp at heq
  · cases h

/-- A line break at the start of a text lies in its first part, if no break starts the second. -/
theorem lineBreak?_within {b : Char} {y q : List Char} {index line column : Nat}
    (hq : ∀ e ∈ q.head?, isLineBreak e = false)
    (h : Cursor.lineBreak? ⟨y ++ q, index, line, column⟩ = some (b, d)) :
    ∃ x z, y = x ++ z ∧ x ≠ [] ∧ d = ⟨z ++ q, index + x.length, line + 1, 0⟩ ∧
      ∀ r i, SameBreak y q r → Cursor.lineBreak? ⟨y ++ r, i, line, column⟩ =
        some (b, ⟨z ++ r, i + x.length, line + 1, 0⟩) := by
  obtain ⟨x, hx, hne, hbreaks, hd, hagain⟩ := lineBreak?_eq_some h
  obtain ⟨z, rfl, hz⟩ : ∃ z, y = x ++ z ∧ d.rest = z ++ q := by
    obtain ⟨v, rfl, hv⟩ | ⟨z, hz, hrest⟩ := List.append_eq_append_iff.mp hx
    · cases v with
      | nil => exact ⟨[], by simp, by simpa using hv.symm⟩
      | cons e v =>
        have he : isLineBreak e = true := hbreaks e (by simp)
        simp [hq e (by simp [hv])] at he
    · exact ⟨z, hz, hrest⟩
  rw [hz] at hd hagain
  refine ⟨x, z, rfl, hne, hd, fun r i hr => ?_⟩
  rw [List.append_assoc]
  exact hagain (z ++ r) i line column hr.append

theorem lineBreak?_of_break {e : Char} (he : isLineBreak e = true) (s : List Char)
    (index line column : Nat) :
    ∃ b next, Cursor.lineBreak? ⟨e :: s, index, line, column⟩ = some (b, next) := by
  rw [Cursor.lineBreak?]
  split
  · exact ⟨_, _, rfl⟩
  · rename_i b rest _ heq
    obtain ⟨rfl, rfl⟩ := List.cons.inj heq
    rw [if_pos he]
    exact ⟨_, _, rfl⟩
  · rename_i heq
    cases heq

theorem lineBreak?_newline (s : List Char) (index line column : Nat) :
    Cursor.lineBreak? ⟨'\n' :: s, index, line, column⟩ =
      some ('\n', ⟨s, index + 1, line + 1, 0⟩) := by
  simp [Cursor.lineBreak?, isLineBreak, isSeparator]

/-- The line break at the cursor, if the text goes on, is passed again. -/
theorem skipBreak_again (hc : c.rest.head?.all isLineBreak) :
    ∃ x, c.rest = x ++ c.skipBreak.rest ∧ (∀ e ∈ x, isLineBreak e) ∧
      c.line ≤ c.skipBreak.line ∧ (c.rest ≠ [] → x ≠ []) ∧
      ∀ r index, SameBreak x c.skipBreak.rest r → (c.rest = [] → r = []) →
        Cursor.skipBreak ⟨x ++ r, index, c.line, c.column⟩ =
          ⟨r, index + x.length, c.skipBreak.line, c.skipBreak.column⟩ := by
  obtain ⟨text, index, line, column⟩ := c
  cases text with
  | nil =>
    refine ⟨[], rfl, by simp, le_rfl, by simp, fun r i _ hr => ?_⟩
    obtain rfl := hr rfl
    rfl
  | cons e s =>
    obtain ⟨b, next, hnext⟩ := lineBreak?_of_break (by simpa using hc) s index line column
    have hskip : Cursor.skipBreak ⟨e :: s, index, line, column⟩ = next := by
      rw [Cursor.skipBreak, hnext]
    rw [hskip]
    obtain ⟨x, hx, hne, hbreaks, hplace, hagain⟩ := lineBreak?_eq_some hnext
    refine ⟨x, hx, hbreaks, by rw [hplace]; exact Nat.le_succ _, fun _ => hne,
      fun r i hr _ => ?_⟩
    rw [Cursor.skipBreak, hagain r i line column hr, hplace]

/-! ## The rest of a line -/

/-- A comment or nothing. -/
def IsComment (w : List Char) : Prop :=
  w = [] ∨ ∃ text, w = '#' :: text ∧ ∀ e ∈ text, isLineBreak e = false

/-- Blanks, and a comment or nothing behind them. -/
def IsLineRest (w : List Char) : Prop :=
  ∃ blanks comment, w = blanks ++ comment ∧ (∀ e ∈ blanks, isSpaceOrTab e) ∧ IsComment comment

theorem skipComment_of {text rest : List Char} (ht : ∀ e ∈ text, isLineBreak e = false)
    (hrest : rest.head?.all isLineBreak) (index line column : Nat) :
    Cursor.skipComment ⟨'#' :: (text ++ rest), index, line, column⟩ =
      ⟨rest, index + (text.length + 1), line, column + (text.length + 1)⟩ := by
  have htake : (('#' :: text) ++ rest).takeWhile (fun x => !isLineBreak x) = '#' :: text := by
    apply takeWhile_append_stop
    · intro e he
      cases he with
      | head => rfl
      | tail _ he => simp [ht e he]
    · intro e he
      simpa [Option.mem_def.mp he] using hrest
  rw [List.cons_append] at htake
  simp [Cursor.skipComment, Cursor.advanceWhile, Cursor.advance, htake]

theorem skipComment_of_ne (h : c.rest.head? ≠ some '#') : c.skipComment = c := by
  rw [Cursor.skipComment]
  split
  · rename_i heq
    exact absurd (by rw [heq]; rfl) h
  · rfl

theorem restOfLine?_of {w rest : List Char} (hw : IsLineRest w)
    (hrest : rest.head?.all isLineBreak) (index line column : Nat) :
    Cursor.restOfLine? ⟨w ++ rest, index, line, column⟩ =
      some (Cursor.skipBreak ⟨rest, index + w.length, line, column + w.length⟩) := by
  obtain ⟨blanks, comment, rfl, hb, hcomment⟩ := hw
  have hstop : ∀ e ∈ (comment ++ rest).head?, isSpaceOrTab e = false := by
    intro e he
    obtain rfl | ⟨text, rfl, -⟩ := hcomment
    · have hbreak : isLineBreak e = true := by
        rw [List.nil_append] at he
        simpa [Option.mem_def.mp he] using hrest
      by_contra hblank
      simp only [Bool.not_eq_false, isSpaceOrTab, Bool.or_eq_true, decide_eq_true_eq] at hblank
      obtain rfl | rfl := hblank <;> cases hbreak
    · obtain rfl : e = '#' := by simpa [eq_comm] using he
      rfl
  have hblanks : (blanks ++ (comment ++ rest)).takeWhile isSpaceOrTab = blanks :=
    takeWhile_append_stop hb hstop
  have hskip : Cursor.skipComment
      ⟨comment ++ rest, index + blanks.length, line, column + blanks.length⟩ =
        ⟨rest, index + (blanks ++ comment).length, line, column + (blanks ++ comment).length⟩ := by
    obtain rfl | ⟨text, rfl, ht⟩ := hcomment
    · rw [skipComment_of_ne]
      · simp
      · rintro heq
        rw [List.nil_append] at heq
        rw [show rest.head? = some '#' from heq] at hrest
        cases hrest
    · rw [List.cons_append, skipComment_of ht hrest]
      simp [Nat.add_assoc]
  simp only [Cursor.restOfLine?, Cursor.skipSpacesAndTabs, Cursor.advanceWhile, Cursor.advance,
    List.append_assoc, hblanks, List.drop_left, hskip]
  rw [if_pos]
  cases rest with
  | nil => rfl
  | cons e s => simpa [Cursor.atEnd, Cursor.atBreak, Cursor.startsWith] using hrest

/-- Every text starts with a line. -/
theorem exists_line (s : List Char) :
    ∃ l r, s = l ++ r ∧ (∀ e ∈ l, isLineBreak e = false) ∧ r.head?.all isLineBreak :=
  ⟨_, _, (List.takeWhile_append_dropWhile (p := (!isLineBreak ·))).symm,
    fun e he => by simpa using List.mem_takeWhile_imp he,
    by simpa using head?_dropWhile_all (!isLineBreak ·) s⟩

theorem restOfLine?_eq_some (h : c.restOfLine? = some d) :
    ∃ w rest, c.rest = w ++ rest ∧ IsLineRest w ∧ rest.head?.all isLineBreak ∧
      d = Cursor.skipBreak ⟨rest, c.index + w.length, c.line, c.column + w.length⟩ := by
  obtain ⟨text, index, line, column⟩ := c
  -- what the line may hold is found again, so all that is left is to name it
  have hfound {w r : List Char} (ht : text = w ++ r) (hw : IsLineRest w)
      (hrest : r.head?.all isLineBreak) : ∃ w rest, text = w ++ rest ∧ IsLineRest w ∧
        rest.head?.all isLineBreak ∧
        d = Cursor.skipBreak ⟨rest, index + w.length, line, column + w.length⟩ := by
    rw [ht, restOfLine?_of hw hrest] at h
    exact ⟨w, r, ht, hw, hrest, (Option.some.inj h).symm⟩
  have hblanks : ∀ e ∈ text.takeWhile isSpaceOrTab, isSpaceOrTab e :=
    fun e he => List.mem_takeWhile_imp he
  have hsplit := (List.takeWhile_append_dropWhile (p := isSpaceOrTab) (l := text)).symm
  have hdrop := Spot.drop_length_takeWhile isSpaceOrTab text
  match hq : text.dropWhile isSpaceOrTab with
  | [] =>
    rw [hq] at hsplit
    exact hfound hsplit ⟨_, [], by simp, hblanks, .inl rfl⟩ rfl
  | e :: q =>
    rw [hq] at hsplit hdrop
    by_cases he : e = '#'
    · subst he
      obtain ⟨comment, r, rfl, hcomment, hbreak⟩ := exists_line q
      refine hfound (w := text.takeWhile isSpaceOrTab ++ '#' :: comment) (r := r) ?_
        ⟨_, _, rfl, hblanks, .inr ⟨_, rfl, hcomment⟩⟩ hbreak
      rw [List.append_assoc, List.cons_append]
      exact hsplit
    · cases hbreak : isLineBreak e with
      | true => exact hfound hsplit ⟨_, [], by simp, hblanks, .inl rfl⟩ (by simpa using hbreak)
      | false =>
        simp [Cursor.restOfLine?, Cursor.skipSpacesAndTabs, Cursor.advanceWhile, Cursor.advance,
          hdrop, Cursor.skipComment, he, Cursor.atEnd, Cursor.atBreak, Cursor.startsWith,
          hbreak] at h

/-- The rest of a line is passed again wherever it stands, as long as it ends there as before. -/
theorem restOfLine?_again (h : c.restOfLine? = some d) :
    ∃ x, c.rest = x ++ d.rest ∧ c.line ≤ d.line ∧
      (d.rest ≠ [] → ∃ e ∈ x.getLast?, isLineBreak e) ∧
      ∀ r index, SameBreak x d.rest r → (d.rest = [] → r = []) →
        Cursor.restOfLine? ⟨x ++ r, index, c.line, c.column⟩ =
          some ⟨r, index + x.length, d.line, d.column⟩ := by
  obtain ⟨w, rest, hrest, hw, hbreak, rfl⟩ := restOfLine?_eq_some h
  obtain ⟨x, hx, hxb, hline, hne, hagain⟩ :=
    skipBreak_again (c := ⟨rest, c.index + w.length, c.line, c.column + w.length⟩) hbreak
  generalize Cursor.skipBreak ⟨rest, c.index + w.length, c.line, c.column + w.length⟩ = d at *
  simp only at hx hline hne hagain
  subst hx
  refine ⟨w ++ x, by rw [hrest, List.append_assoc], hline, fun hd => ?_, fun r i hr hend => ?_⟩
  · obtain ⟨e, he⟩ : ∃ e, x.getLast? = some e := by
      cases hl : x.getLast? with
      | none =>
        rw [List.getLast?_eq_none_iff] at hl
        exact absurd hl (hne (by simp [hd]))
      | some e => exact ⟨e, rfl⟩
    refine ⟨e, ?_, hxb e (List.mem_of_getLast? he)⟩
    simp [List.getLast?_append, he]
  · have hbreak' : (x ++ r).head?.all isLineBreak := by
      cases x with
      | nil =>
        have hnil : d.rest = [] := by
          by_contra hd
          exact hne (by simpa using hd) rfl
        simp [hend hnil]
      | cons e x => simpa using hxb e (by simp)
    rw [List.append_assoc, restOfLine?_of hw hbreak', hagain]
    · simp [Nat.add_assoc]
    · intro hlast hhead
      apply hr _ hhead
      simp [List.getLast?_append, hlast]
    · intro hnil
      exact hend (by simp_all)

/-! ## Directives -/

/-- A reader takes a part of a line. -/
abbrev TakesLine (read : Cursor → Option (α × Cursor)) : Cursor → α → Cursor → Prop :=
  Takes (fun _ => True) read

theorem Takes.line {P : Char → Prop} {read : Cursor → Option (α × Cursor)}
    (h : Takes P read c a d) : TakesLine read c a d := by
  obtain ⟨x, hx, -, hline, hfinds⟩ := h
  exact ⟨x, hx, fun _ _ => trivial, hline, hfinds⟩

/-- Blanks before a word that is read are passed. -/
theorem Takes.afterBlanks {read : Cursor → Option (α × Cursor)}
    (h : TakesWord read c.skipSpacesAndTabs a d)
    (hlt : d.rest.length < c.skipSpacesAndTabs.rest.length) :
    TakesLine (fun c => read c.skipSpacesAndTabs) c a d := by
  obtain ⟨text, index, line, column⟩ := c
  obtain ⟨x, hx, hxw, hline, hfinds⟩ := h
  have hblanks : ∀ e ∈ text.takeWhile isSpaceOrTab, isSpaceOrTab e :=
    fun e he => List.mem_takeWhile_imp he
  simp only [Cursor.skipSpacesAndTabs, Cursor.advanceWhile, Cursor.advance,
    Spot.drop_length_takeWhile] at hx hlt hline hfinds
  refine ⟨text.takeWhile isSpaceOrTab ++ x, ?_, fun _ _ => trivial, hline, fun r i hr => ?_⟩
  · rw [List.append_assoc, ← hx, List.takeWhile_append_dropWhile]
  · cases x with
    | nil =>
      rw [hx, List.nil_append] at hlt
      exact absurd hlt (Nat.lt_irrefl _)
    | cons e x =>
      have htake : (text.takeWhile isSpaceOrTab ++ (e :: x ++ r)).takeWhile isSpaceOrTab =
          text.takeWhile isSpaceOrTab := by
        apply takeWhile_append_stop hblanks
        intro b hb
        obtain rfl : e = b := by simpa using hb
        exact (Bool.or_eq_false_iff.mp (hxw e (by simp))).1
      have hread := hfinds r (i + (text.takeWhile isSpaceOrTab).length) hr
      simp only [Cursor.skipSpacesAndTabs, Cursor.advanceWhile, Cursor.advance, List.append_assoc,
        htake, List.drop_left]
      rw [hread, List.length_append, Nat.add_assoc]

theorem takesWord_readVersionPart {n : Nat} (h : readVersionPart c = some (n, d)) :
    TakesWord readVersionPart c n d ∧ d.rest.length < c.rest.length := by
  obtain ⟨text, index, line, column⟩ := c
  simp only [readVersionPart, Option.ite_none_left_eq_some] at h
  obtain ⟨hdigits, h⟩ := h
  obtain ⟨rfl, rfl⟩ := Prod.mk.inj (Option.some.inj h)
  simp only [Cursor.advance]
  refine ⟨⟨text.takeWhile Char.isDigit, by simp [Spot.drop_length_takeWhile], ?_, rfl,
    fun r i hr => ?_⟩, ?_⟩
  · exact fun e he => ofWords_isDigit e (List.mem_takeWhile_imp he)
  · simp only [readVersionPart, takeWhile_again ofWords_isDigit hr, Cursor.advance, List.drop_left]
    rw [if_neg hdigits]
  · rw [Bool.or_eq_true, not_or] at hdigits
    have hpos := List.length_pos_iff.mpr (mt List.isEmpty_iff.mpr hdigits.1)
    have hle := (List.takeWhile_prefix Char.isDigit (l := text)).length_le
    rw [List.length_drop]
    omega

def readMinor (major : Nat) (c : Cursor) : Option (Token × Cursor) :=
  if c.rest.head? = some '.' then
    (readVersionPart (c.advance 1)).map fun found => (.version major found.1, found.2)
  else none

theorem readVersionDirective_eq (c : Cursor) :
    readVersionDirective c =
      (readVersionPart c.skipSpacesAndTabs).bind fun found => readMinor found.1 found.2 := by
  simp only [readVersionDirective, Option.bind_eq_bind]
  congr 1
  funext found
  obtain ⟨major, q, index, line, column⟩ := found
  cases q with
  | nil => rfl
  | cons e q =>
    by_cases he : e = '.'
    · subst he
      simp only [readMinor, List.head?_cons, if_true, Option.map_eq_bind]
      rfl
    · simp [he, readMinor]

theorem takesLine_readVersionDirective {token : Token}
    (h : readVersionDirective c = some (token, d)) :
    TakesLine readVersionDirective c token d := by
  rw [funext readVersionDirective_eq] at h ⊢
  obtain ⟨⟨major, e⟩, hmajor, h⟩ := Option.bind_eq_some_iff.mp h
  obtain ⟨htaken, hlt⟩ := takesWord_readVersionPart hmajor
  refine Takes.bind (htaken.afterBlanks hlt) ?_
  simp only [readMinor, Option.ite_none_right_eq_some] at h
  obtain ⟨hpoint, h⟩ := h
  obtain ⟨⟨minor, d'⟩, hminor, heq⟩ := Option.map_eq_some_iff.mp h
  obtain ⟨rfl, rfl⟩ := Prod.mk.inj heq
  exact Takes.expect trivial hpoint
    ((takesWord_readVersionPart hminor).1.line.map (Token.version major))

def readReplacement (name : List Char) (c : Cursor) : Option (Token × Cursor) :=
  if c.atSpaceOrTab then
    (readAddress true c.skipSpacesAndTabs).bind fun found =>
      if found.2.atWordEnd then some (.handle name found.1, found.2) else none
  else none

def readHandleTail (name : List Char) (c : Cursor) : Option (Token × Cursor) :=
  if name = ['!'] || (1 < name.length && name.getLast? = some '!') then readReplacement name c
  else none

theorem readHandleDirective_eq (c : Cursor) :
    readHandleDirective c = (some (handleText c.skipSpacesAndTabs)).bind fun found =>
      readHandleTail found.1 found.2 := by
  simp only [readHandleDirective, Option.bind_eq_bind, Option.bind_some]
  cases handleText c.skipSpacesAndTabs with
  | mk name d =>
    by_cases hname : (name = ['!'] || (1 < name.length && name.getLast? = some '!')) = true <;>
      by_cases hblank : d.atSpaceOrTab = true <;> simp [readHandleTail, readReplacement, hname, hblank]

theorem takesLine_readReplacement {name : List Char} {token : Token}
    (h : readReplacement name c = some (token, d)) :
    TakesLine (readReplacement name) c token d := by
  simp only [readReplacement, Option.ite_none_right_eq_some] at h
  obtain ⟨hblank, h⟩ := h
  obtain ⟨⟨uri, e⟩, huri, h⟩ := Option.bind_eq_some_iff.mp h
  rw [Option.ite_none_right_eq_some] at h
  obtain ⟨hend, heq⟩ := h
  obtain ⟨rfl, rfl⟩ := Prod.mk.inj (Option.some.inj heq)
  have hlt := length_readAddress huri
  have hle : c.skipSpacesAndTabs.rest.length ≤ c.rest.length := by
    simp [Cursor.skipSpacesAndTabs, Cursor.advanceWhile, Cursor.advance]
  have hword : TakesLine (fun d => if d.atWordEnd then some (Token.handle name uri, d) else none) e
      (.handle name uri) e := by
    refine ⟨[], rfl, by simp, rfl, fun r i hr => ?_⟩
    have hend' : Cursor.atWordEnd ⟨r, i, e.line, e.column⟩ = true :=
      (endsWord_congr hr).trans hend
    simp [hend']
  have hread := ((takesWord_readAddress huri).afterBlanks hlt).bind
    (g := fun uri d => if d.atWordEnd then some (Token.handle name uri, d) else none) hword
  exact hread.startsWith hblank (hlt.trans_le hle)

theorem takesLine_readHandleDirective {token : Token}
    (h : readHandleDirective c = some (token, d)) :
    TakesLine readHandleDirective c token d := by
  rw [funext readHandleDirective_eq] at h ⊢
  have htail : readHandleTail (handleText c.skipSpacesAndTabs).1
      (handleText c.skipSpacesAndTabs).2 = some (token, d) := h
  simp only [readHandleTail, Option.ite_none_right_eq_some] at htail
  obtain ⟨hname, htail⟩ := htail
  have hne : (handleText c.skipSpacesAndTabs).1 ≠ [] := by
    rintro hnil
    simp [hnil] at hname
  have hread : readHandleTail (handleText c.skipSpacesAndTabs).1 =
      readReplacement (handleText c.skipSpacesAndTabs).1 := by
    funext c
    rw [readHandleTail, if_pos hname]
  refine Takes.bind (f := fun c => some (handleText c.skipSpacesAndTabs)) (g := readHandleTail)
    ((takesWord_handleText _).afterBlanks (length_handleText hne)) ?_
  rw [hread]
  exact takesLine_readReplacement htail

def readNamed (name : List Char) (c : Cursor) : Option (Token × Cursor) :=
  if name = ['Y', 'A', 'M', 'L'] then readVersionDirective c
  else if name = ['T', 'A', 'G'] then readHandleDirective c
  else none

/-- A directive but for the end of its line. -/
def readInstruction (c : Cursor) : Option (Token × Cursor) :=
  let name := (c.advance 1).rest.takeWhile isNameChar
  let d := (c.advance 1).advance name.length
  if d.atWordEnd then readNamed name d else none

theorem readDirective_eq (c : Cursor) :
    readDirective c = (readInstruction c).bind fun found =>
      found.2.restOfLine?.map fun d => (found.1, d) := by
  simp only [readDirective, readInstruction]
  generalize (c.advance 1).rest.takeWhile isNameChar = name
  generalize (c.advance 1).advance name.length = d
  cases hend : d.atWordEnd with
  | false => simp
  | true =>
    by_cases hversion : name = ['Y', 'A', 'M', 'L']
    · simp [readNamed, hversion, Option.map_eq_bind]
    · by_cases hhandle : name = ['T', 'A', 'G'] <;>
        simp [readNamed, hversion, hhandle, Option.map_eq_bind]

theorem takesLine_readNamed {name : List Char} {token : Token}
    (h : readNamed name c = some (token, d)) : TakesLine (readNamed name) c token d := by
  by_cases hversion : name = ['Y', 'A', 'M', 'L']
  · have hread : readNamed name = readVersionDirective := by
      funext c
      rw [readNamed, if_pos hversion]
    rw [hread] at h ⊢
    exact takesLine_readVersionDirective h
  · by_cases hhandle : name = ['T', 'A', 'G']
    · have hread : readNamed name = readHandleDirective := by
        funext c
        rw [readNamed, if_neg hversion, if_pos hhandle]
      rw [hread] at h ⊢
      exact takesLine_readHandleDirective h
    · rw [readNamed, if_neg hversion, if_neg hhandle] at h
      cases h

theorem takesLine_readInstruction {token : Token} (hc : c.rest.head? = some '%')
    (h : readInstruction c = some (token, d)) : TakesLine readInstruction c token d := by
  obtain ⟨s, hs⟩ := List.head?_eq_some_iff.mp hc
  obtain ⟨text, index, line, column⟩ := c
  obtain rfl : text = '%' :: s := hs
  simp only [readInstruction, Option.ite_none_right_eq_some] at h
  obtain ⟨hend, h⟩ := h
  obtain ⟨x, hx, -, hline, hfinds⟩ := takesLine_readNamed h
  simp only [Cursor.advance, List.drop_succ_cons, List.drop_zero, Cursor.atWordEnd]
    at hend hx hline hfinds
  refine ⟨'%' :: s.takeWhile isNameChar ++ x, ?_, fun _ _ => trivial, hline, fun r i hr => ?_⟩
  · simp only [List.append_assoc, ← hx, Spot.drop_length_takeWhile, List.cons_append,
      List.takeWhile_append_dropWhile]
  · -- the name is taken again as it stands before the end of a word
    have hword : firstWord (x ++ r) = firstWord (s.drop (s.takeWhile isNameChar).length) :=
      hx ▸ firstWord_append hr x
    have htake := takeWhile_again ofWords_isNameChar hword
    have hread := hfinds r (i + 1 + (s.takeWhile isNameChar).length) hr
    simp only [readInstruction, Cursor.advance, List.cons_append, List.append_assoc,
      List.drop_succ_cons, List.drop_zero, htake, List.drop_left, Cursor.atWordEnd,
      endsWord_congr hword, hend, if_true] at hread ⊢
    rw [hread]
    simp [Nat.add_assoc, Nat.add_comm, Nat.add_left_comm]

/-- A directive is read again wherever it stands, as long as its line ends there as before. -/
theorem readDirective_again {token : Token} (hc : c.rest.head? = some '%')
    (h : readDirective c = some (token, d)) :
    ∃ x, c.rest = x ++ d.rest ∧ c.line ≤ d.line ∧
      (d.rest ≠ [] → ∃ e ∈ x.getLast?, isLineBreak e) ∧
      ∀ r index, SameBreak x d.rest r → (d.rest = [] → r = []) →
        readDirective ⟨x ++ r, index, c.line, c.column⟩ =
          some (token, ⟨r, index + x.length, d.line, d.column⟩) := by
  rw [readDirective_eq] at h
  obtain ⟨⟨token', e⟩, hread, h⟩ := Option.bind_eq_some_iff.mp h
  obtain ⟨d', hrest, heq⟩ := Option.map_eq_some_iff.mp h
  obtain ⟨rfl, rfl⟩ := Prod.mk.inj heq
  obtain ⟨x, hx, -, hline, hfinds⟩ := takesLine_readInstruction hc hread
  obtain ⟨y, hy, hyline, hybreak, hagain⟩ := restOfLine?_again hrest
  refine ⟨x ++ y, by rw [hx, hy, List.append_assoc], hline ▸ hyline, fun hne => ?_,
    fun r i hr hend => ?_⟩
  · obtain ⟨b, hb, hbreak⟩ := hybreak hne
    exact ⟨b, by simp [List.getLast?_append, Option.mem_def.mp hb], hbreak⟩
  · have hword : firstWord (y ++ r) = firstWord e.rest := by
      rw [hy]
      by_cases hne : d'.rest = []
      · rw [hne, hend hne]
      · obtain ⟨b, hb, hbreak⟩ := hybreak hne
        apply firstWord_append_of_space (List.mem_of_getLast? (Option.mem_def.mp hb))
        rw [isSpaceOrBreak, hbreak, Bool.or_true]
    have hsame : SameBreak y d'.rest r := by
      intro hlast hhead
      apply hr _ hhead
      simp [List.getLast?_append, hlast]
    rw [readDirective_eq, List.append_assoc, hfinds (y ++ r) i hword, Option.bind_some,
      hagain r _ hsame hend, Option.map_some, List.length_append, Nat.add_assoc]

end ClusterConfig.Yaml
