import ClusterConfig.Proofs.Yaml.CutScalars

/-!
# Block scalars behind which comments are cut

The comment behind the header of a block scalar may be cut, and so may comments behind its text: the
lines that then stand there are blank or left of the text, so the scalar ends among them.
-/

set_option autoImplicit false

namespace ClusterConfig.Yaml

variable {places : List Nat} {prev : Option Char} {r blanks text : List Char} {c d e : Cursor}
  {folded : Bool} {parent known : Option Nat} {header : BlockHeader} {y : List Char} {g : BlockGap}

/-! ## The line of the header -/

theorem commentAt_skipSpacesAndTabs {comment rest : List Char}
    (hblanks : ∀ a ∈ blanks, isSpaceOrTab a) (hno : NoBlank (comment ++ rest))
    (hc : c.rest = blanks ++ (comment ++ rest)) :
    Scan.commentAt c.skipSpacesAndTabs =
      if (comment ++ rest).head? = some '#' then [(comment ++ rest).length] else [] := by
  have hrest : c.skipSpacesAndTabs.rest = comment ++ rest := by
    rw [Cursor.skipSpacesAndTabs, Cursor.advanceWhile, hc, takeWhile_blanks hblanks hno,
      Cursor.advance, hc, List.drop_left]
  rw [Scan.commentAt, hrest]

/-- The rest of the last line of a text is such a rest again. -/
theorem Uncommented.last_line {comment : List Char} (h : Uncommented places prev (blanks ++ comment) r)
    (hblanks : ∀ a ∈ blanks, isSpaceOrTab a) (hcomment : IsComment comment) (hno : NoBlank comment)
    (hp : ∀ p ∈ places, p ≤ (blanks ++ comment).length → p = comment.length ∨ p = 0) :
    IsLineRest r := by
  rw [← List.append_nil comment] at h hno
  obtain ⟨prev', t', rfl, hu⟩ | ⟨-, y, bs, cr, s, t', rfl, hcr, -, rfl, hu⟩ :=
    h.line_rest hcomment hno (by simp) (by simp) (by simpa using hp)
  · obtain rfl := hu.nil_eq
    exact ⟨blanks, comment, by simp, hblanks, hcomment⟩
  · obtain ⟨rfl, rfl⟩ := List.append_eq_nil_iff.mp hcr.symm
    obtain rfl := hu.nil_eq
    exact ⟨y, [], rfl, fun f hf => hblanks f (List.mem_append_left _ hf), .inl rfl⟩

/-- The rest of a line with or without a comment that is cut, and what stands behind it. -/
theorem Uncommented.rest_of_line {a : Char} (h : Uncommented places (some a) c.rest r)
    (hd : c.restOfLine? = some d) (hp : ∀ p ∈ places, p ≤ c.rest.length →
      p ∈ Scan.commentAt c.skipSpacesAndTabs ∨ p ≤ d.rest.length) :
    (∀ p ∈ Scan.commentAt c.skipSpacesAndTabs, d.rest.length < p) ∧
      (d.rest = [] ∨ d.column = 0) ∧ d.rest.length ≤ c.rest.length ∧
      ∀ i, ∃ q j k, Cursor.restOfLine? ⟨r, i, c.line, c.column⟩ = some ⟨q, j, d.line, k⟩ ∧
        (d.rest = [] ∧ q = [] ∨ k = d.column ∧ ∃ e, Uncommented places (some e) d.rest q) := by
  obtain ⟨w, rest, hrest, ⟨blanks, comment, rfl, hblanks, hcomment⟩, hbreak, rfl⟩ :=
    restOfLine?_eq_some hd
  have hno : NoBlank (comment ++ rest) :=
    hcomment.noBlank_append fun _ => noBlank_of_break hbreak
  have hnocomment : rest.head? ≠ some '#' := no_comment_of_break hbreak
  rw [List.append_assoc] at hrest
  have hcomments : ∀ p ∈ Scan.commentAt c.skipSpacesAndTabs,
      p = (comment ++ rest).length ∧ rest.length < p := by
    intro p hmem
    rw [commentAt_skipSpacesAndTabs hblanks hno hrest] at hmem
    split at hmem
    · rename_i hhead
      obtain rfl := List.mem_singleton.mp hmem
      refine ⟨rfl, ?_⟩
      cases comment with
      | nil => exact absurd hhead hnocomment
      | cons f comment => simp
    · cases hmem
  rw [hrest] at h hp
  cases rest with
  | nil =>
    refine ⟨fun p hmem => (hcomments p hmem).2, .inl rfl, Nat.zero_le _, fun i => ?_⟩
    rw [List.append_nil] at h hp hno hcomments
    have hline : IsLineRest r := h.last_line hblanks hcomment hno fun p hmem hlen =>
      (hp p hmem hlen).imp (fun hgap => (hcomments p hgap).1) Nat.le_zero.mp
    have hread : Cursor.restOfLine? ⟨r ++ [], i, c.line, c.column⟩ = _ :=
      restOfLine?_of hline rfl i c.line c.column
    rw [List.append_nil] at hread
    exact ⟨[], _, _, hread, .inl ⟨rfl, rfl⟩⟩
  | cons f rest =>
    obtain ⟨b, next, hb⟩ := lineBreak?_of_break (by simpa using hbreak) rest
      (c.index + (blanks ++ comment).length) c.line (c.column + (blanks ++ comment).length)
    rw [Cursor.skipBreak, hb] at hp ⊢
    simp only at hp ⊢
    obtain ⟨x, hx, hne, -, hnext, -⟩ := lineBreak?_eq_some hb
    have hlt : next.rest.length < (f :: rest).length := by
      have hpos := List.length_pos_iff.mpr hne
      rw [show f :: rest = x ++ next.rest from hx, List.length_append]
      omega
    refine ⟨fun p hmem => hlt.trans (hcomments p hmem).2, .inr (by rw [hnext]), ?_, fun i => ?_⟩
    · rw [hrest]
      simp only [List.length_append] at hlt ⊢
      omega
    obtain ⟨w, rest', q, n, rfl, hw, hhead, hu, hagain⟩ := h.next_line hcomment hno
      (fun p hmem hlen => (hp p hmem hlen).imp (fun hgap => (hcomments p hgap).1)
        fun hle => hle.trans hlt.le) rfl hb
    have hline : IsLineRest w := by
      obtain rfl | ⟨⟨z, rfl⟩, -⟩ := hw
      · exact ⟨blanks, comment, rfl, hblanks, hcomment⟩
      · exact ⟨w, [], by simp, fun f hf => hblanks f (List.mem_append_left _ hf), .inl rfl⟩
    refine ⟨q, i + w.length + n, 0, ?_, .inr ⟨by rw [hnext], hu⟩⟩
    rw [restOfLine?_of hline hhead, Cursor.skipBreak, hagain, hnext]

/-- The mark of a block scalar and its header stand in what is left of the text. -/
theorem Uncommented.block_header (h : Uncommented places prev c.rest r)
    (hmark : c.startsWith (fun a => a = '|' || a = '>') = true)
    (hheader : blockHeader? (c.advance 1) = some (header, d))
    (hp : ∀ p ∈ places, p ≤ c.rest.length → p ≤ d.rest.length) :
    ∃ r' a, Uncommented places (some a) d.rest r' ∧ ∀ i, ∃ j,
      blockHeader? (Cursor.advance ⟨r, i, c.line, c.column⟩ 1) =
        some (header, ⟨r', j, d.line, d.column⟩) := by
  obtain ⟨⟨x, hx, hxw, -, hfinds⟩, -⟩ := takesWord_blockHeader? hheader
  obtain ⟨a, ha, hrest⟩ : ∃ a, isSpaceOrBreak a = false ∧ c.rest = (a :: x) ++ d.rest := by
    rw [Cursor.startsWith] at hmark
    rw [Cursor.advance] at hx
    cases hq : c.rest with
    | nil => simp [hq] at hmark
    | cons a q =>
      rw [hq] at hx hmark
      refine ⟨a, ?_, congrArg (a :: ·) hx⟩
      simp only [List.head?_cons, Option.any_some, Bool.or_eq_true, decide_eq_true_eq] at hmark
      obtain rfl | rfl := hmark <;> rfl
  have hword : isSpaceOrBreak ((a :: x).getLast (by simp)) = false := by
    obtain heq | hmem := List.mem_cons.mp (List.getLast_mem (l := a :: x) (by simp))
    · rw [heq]
      exact ha
    · exact hxw _ hmem
  have hlast := List.getLast?_eq_some_getLast (l := a :: x) (by simp)
  rw [hrest] at h hp
  obtain ⟨r', rfl, hu⟩ := h.split_last ⟨_, hlast, (Bool.or_eq_false_iff.mp hword).1⟩ hp
  rw [hlast] at hu
  exact ⟨r', _, hu, fun i => ⟨_, hfinds r' (i + 1) (hu.firstWord_eq hword)⟩⟩

/-- A block scalar is read from the line behind its header on. -/
theorem Uncommented.block_start (folded : Bool) {b : Cursor}
    (h : Uncommented places prev b.rest r)
    (hmark : b.startsWith (fun a => a = '|' || a = '>') = true)
    (hheader : blockHeader? (b.advance 1) = some (header, c)) (hline : c.restOfLine? = some d)
    (hp : ∀ p ∈ places, p ≤ b.rest.length →
      p ∈ Scan.commentAt c.skipSpacesAndTabs ∨ p ≤ d.rest.length) :
    (∀ p ∈ Scan.commentAt c.skipSpacesAndTabs, d.rest.length < p) ∧
      (d.rest = [] ∨ d.column = 0) ∧ d.rest.length ≤ b.rest.length ∧
      ∀ i, ∃ q j k,
        (∀ parent, readBlock folded parent ⟨r, i, b.line, b.column⟩ =
          blockContent folded parent header ⟨q, j, d.line, k⟩) ∧
        (d.rest = [] ∧ q = [] ∨ k = d.column ∧ ∃ e, Uncommented places (some e) d.rest q) := by
  have hle : c.rest.length ≤ b.rest.length := by
    obtain ⟨⟨x, hx, -⟩, -⟩ := takesWord_blockHeader? hheader
    have hlen := congrArg List.length hx
    have hadvance := Scan.length_advance b 1
    rw [List.length_append] at hlen
    omega
  have hlong : ∀ p ∈ Scan.commentAt c.skipSpacesAndTabs, p ≤ c.rest.length := fun p hmem =>
    (Scan.mem_commentAt hmem).trans_le (Scan.length_advance _ _)
  have hlen : d.rest.length ≤ c.rest.length := by
    obtain ⟨w, hw, -⟩ := restOfLine?_again hline
    rw [hw, List.length_append]
    omega
  obtain ⟨r', a, hu, hheader'⟩ := h.block_header hmark hheader fun p hmem hle' =>
    (hp p hmem hle').elim (hlong p) fun hle' => hle'.trans hlen
  obtain ⟨hlt, hcolumn, -, hagain⟩ := hu.rest_of_line hline fun p hmem hle' =>
    hp p hmem (hle'.trans hle)
  refine ⟨hlt, hcolumn, hlen.trans hle, fun i => ?_⟩
  obtain ⟨i', hheader'⟩ := hheader' i
  obtain ⟨q, j, k, hline', hcases⟩ := hagain i'
  refine ⟨q, j, k, fun parent => ?_, hcases⟩
  rw [readBlock_eq_bind, hheader', Option.bind_some, hline', Option.bind_some]

/-! ## The text -/

theorem blockGap_newline {fuel index line column : Nat} (r : List Char) :
    blockGap known (fuel + 1) ⟨'\n' :: r, index, line, column⟩ =
      (blockGap known fuel ⟨r, index + 1, line + 1, 0⟩).map (.behind ['\n'] column) := by
  rw [blockGap_here (by simp [Indented]), blockGapFrom, lineBreak?_newline]
  simp

/-- A line left of the text ends it. -/
theorem blockStops_of_lt {least : Nat} (hknown : ∀ n ∈ known, max least 1 ≤ n)
    (h : g.after.rest = [] ∨ g.after.column < max least 1) : blockStops least known g = true := by
  rw [blockStops, blockEnds, Bool.or_eq_true]
  obtain hnil | hlt := h
  · exact .inr (by simp [Cursor.atEnd, hnil])
  · left
    have hle : max least 1 ≤ blockIndentOf least known g.widest := by
      cases hk : known with
      | some n => exact hknown n hk
      | none =>
        simp only [blockIndentOf]
        omega
    simp only [decide_eq_true_eq, ne_eq]
    omega

namespace Scan

variable {s s₁ s' u : Scan} {i : Nat} {keys : List (Option KeyPlace)} {x y₁ : List Char}

theorem sameKeys_none (c : Cursor) (i : Nat) : SameKeys c i [none] [none] := .cons .none .nil

/-- A block scalar whose gap goes on as before is read again. -/
theorem blockContent_uncut
    (h : BlockParts folded parent header c text s₁.cursor y e known g) (hk : s₁.keys = [none])
    (hs : Skips (fun _ => True) s₁ s') (hat : AtToken s'.cursor.rest)
    (hx : e.rest = x ++ s₁.cursor.rest) (hu : Uncommented places prev s₁.cursor.rest r)
    (hhead : r.head? = s₁.cursor.rest.head?) (hsame : SameBreak y e.rest (x ++ r))
    (hends : e.rest = [] → x ++ r = [])
    (hfree : ∀ p ∈ places, p ≤ s₁.cursor.rest.length →
      p ∈ s₁.gapComments ∨ p ≤ s'.cursor.rest.length) (i : Nat) :
    ∃ d t', blockContent folded parent header ⟨y ++ (x ++ r), i, c.line, c.column⟩ =
      some (text, d) ∧ Skips (fun _ => True) (s₁.goTo d) t' ∧ Meets places s' t' := by
  obtain ⟨x', hx', -, hagain⟩ := blockGap_same h.gap
  rw [h.after] at hx' hagain
  obtain rfl : x' = x := List.append_cancel_right (hx'.symm.trans hx)
  have hgap := hagain r (i + y.length) _ (Nat.lt_succ_self _) hhead
  have hend : r.isEmpty = s₁.cursor.rest.isEmpty := by
    revert hhead
    cases r <;> cases s₁.cursor.rest <;> simp
  have hstops : blockStops (blockLeast parent) known ⟨g.breaks, g.widest,
      ⟨r, i + y.length + x'.length, s₁.cursor.line, s₁.cursor.column⟩⟩ = true := by
    have hstops := h.stops
    rw [blockStops, blockEnds, h.after] at hstops
    rwa [blockStops, blockEnds, Cursor.atEnd, hend]
  obtain ⟨-, t', ht, hcomes⟩ := hs.cut (i := i + y.length + x'.length)
    (fun _ _ _ => trivial) hat.noBlank rfl hu hfree
  refine ⟨_, t', h.again _ i _ hsame hends hgap hstops fun _ => rfl, ht,
    hcomes.meets_self ?_ hs.keys_eq hs.line_le⟩
  rw [hk]
  exact sameKeys_none _ _

section Cut

variable (h : BlockParts folded parent header c text s₁.cursor y e known g)
  (hblanks : ∀ a ∈ blanks, isSpaceOrTab a) (hx : e.rest = y₁ ++ (blanks ++ s₁.cursor.rest))
  (hcut : CutHere places (y₁.getLast?.or prev) blanks s₁.cursor.rest r)
  (hsame : SameBreak y e.rest (y₁ ++ r)) (hkeep : header.chomping ≠ .keep)

include h hblanks hx hcut hsame hkeep

/-- Before a comment that is cut the scalar reads on in the lines that stand in its place. -/
theorem blockContent_cut (i : Nat) :
    ∃ left, r.length < left ∧ ∀ g',
      blockGap known left ⟨r, i + y.length + y₁.length, s₁.cursor.line,
        s₁.cursor.column - blanks.length⟩ = some g' →
      (g'.after.rest = [] ∨ g'.after.column < max (blockLeast parent) 1) →
        blockContent folded parent header ⟨y ++ (y₁ ++ r), i, c.line, c.column⟩ =
          some (text, g'.after) := by
  have hnone : e.rest ≠ [] := by
    obtain ⟨text, q, hq, -⟩ := hcut.cases
    rw [hx, hq]
    simp
  obtain ⟨-, -, widest, -, hagain⟩ := blockGap_again (y := y₁) (z := blanks) h.gap
    (by rw [h.after, hx]) fun a ha => isLineBreak_of_blank (hblanks a ha)
  rw [h.after] at hagain
  obtain ⟨left, hleft, hread⟩ := hagain r (i + y.length) _ (Nat.lt_succ_self _)
    (by
      intro hhead
      obtain rfl | ⟨r', rfl⟩ := hcut.head <;> cases hhead)
    (by
      intro hlast
      refine absurd ?_ hcut.same_break
      rw [hlast]
      rfl)
  refine ⟨left, hleft, fun g' hg' hlt => ?_⟩
  rw [hg', Option.map_some] at hread
  exact h.again (y₁ ++ r) i (g'.behind g.breaks widest) hsame (fun hnil => absurd hnil hnone)
    hread (blockStops_of_lt h.least hlt) fun heq => absurd heq hkeep

/-- Where the text ends in a comment that is cut the scalar ends with the other text. -/
theorem blockContent_end (hk : s₁.keys = [none]) (hr : r = []) (hs' : s' = s₁.goTo s'.cursor)
    (hnil : s'.cursor.rest = []) (hline : s'.cursor.line = s₁.cursor.line) (i : Nat) :
    ∃ d t', blockContent folded parent header ⟨y ++ (y₁ ++ r), i, c.line, c.column⟩ =
      some (text, d) ∧ Skips (fun _ => True) (s₁.goTo d) t' ∧ Meets places s' t' := by
  obtain ⟨left, hleft, hagain⟩ := blockContent_cut h hblanks hx hcut hsame hkeep i
  obtain ⟨left, rfl⟩ : ∃ n, left = n + 1 := ⟨left - 1, by omega⟩
  have hread := hagain _ (blockGap_nil hr) (.inl hr)
  refine ⟨_, _, hread, .of_nil hr, .inr ⟨hnil, hr, hline.symm, ?_, ?_, ?_⟩⟩
  · rw [hs']
    rfl
  · rw [hs']
    rfl
  · have hkeys : s'.keys = [none] := by
      rw [hs']
      exact hk
    change NearerKeys _ _ s'.keys s₁.keys
    rw [hkeys, hk]
    exact .cons .none .nil

/-- Where a line follows a comment that is cut the scalar reads the blank lines there, and ends. -/
theorem blockContent_line {r₁ : List Char} (hk : s₁.keys = [none])
    (hallowed : s₁.keyAllowed = true) (hr : r = '\n' :: r₁)
    (hu : u = (s₁.goTo u.cursor).allowKey (s₁.keyAllowed || !s₁.inFlow))
    (hline : u.cursor.line = s₁.cursor.line + 1) (hcolumn : u.cursor.column = 0)
    (hspaces : (∀ a ∈ u.blanks, a = ' ') ∧ u.blanks.length < max (blockLeast parent) 1)
    (hs : Skips (fun b => (∀ a ∈ b, a = ' ') ∧ b.length < max (blockLeast parent) 1) u s')
    (hat : AtToken s'.cursor.rest) (hu₁ : Uncommented places (some '\n') u.cursor.rest r₁)
    (hfree : ∀ p ∈ places, p ≤ u.cursor.rest.length →
      p ∈ u.gapComments ∨ p ≤ s'.cursor.rest.length) (i : Nat) :
    ∃ d t', blockContent folded parent header ⟨y ++ (y₁ ++ r), i, c.line, c.column⟩ =
      some (text, d) ∧ Skips (fun _ => True) (s₁.goTo d) t' ∧ Meets places s' t' := by
  obtain ⟨left, hleft, hagain⟩ := blockContent_cut h hblanks hx hcut hsame hkeep i
  obtain ⟨left, rfl⟩ : ∃ n, left = n + 1 := ⟨left - 1, by omega⟩
  rw [hr, List.length_cons] at hleft
  have hukeys : u.keys = [none] := by
    rw [hu]
    exact hk
  have hus : u = s₁.goTo u.cursor := by
    rw [hu, hallowed, Bool.true_or]
    exact congrArg (fun allowed => (s₁.goTo u.cursor).allowKey allowed) hallowed.symm
  obtain ⟨⟨z, hz⟩, t', hskips, hcomes⟩ := hs.cut (i := i + y.length + y₁.length + 1)
    (fun b b' hb => ⟨fun a ha => hb.1 a (List.mem_append_left _ ha), by
      have hlt := hb.2
      rw [List.length_append] at hlt
      omega⟩) hat.noBlank rfl hu₁ hfree
  obtain ⟨g', hg', hlt, -, hskips'⟩ := hskips.blockGap known left
    (fun b hb => hb) h.least (hcomes.word hat).1 (by
      rw [hz] at hspaces
      exact ⟨fun a ha => hspaces.1 a (List.mem_append_left _ ha), by
        have hlt := hspaces.2
        rw [List.length_append] at hlt
        omega⟩) hcolumn (by
      rw [hus]
      exact hallowed) (show r₁.length < left by omega)
  have hread := hagain (g'.behind ['\n'] (s₁.cursor.column - blanks.length)) (by
    rw [hr, blockGap_newline, ← hline, ← hcolumn]
    exact congrArg (Option.map _) hg') (.inr hlt)
  refine ⟨_, t', hread, ?_, hcomes.meets_self ?_ hs.keys_eq hs.line_le⟩
  · have hplace : (u.onto r₁ (i + y.length + y₁.length + 1) u.keys).goTo g'.after =
        s₁.goTo g'.after := by
      rw [hus]
      rfl
    exact (hplace ▸ hskips').any
  · rw [hukeys]
    exact sameKeys_none _ _

end Cut

theorem blockContent_length (hpos : ∀ n ∈ header.indent, 1 ≤ n)
    (h : blockContent folded parent header c = some (text, d)) : d.rest.length ≤ c.rest.length := by
  obtain ⟨y, e, known, g, hparts⟩ := blockContent_parts hpos h
  have hsuffix := (blockGap_suffix hparts.gap).length_le
  rw [hparts.after] at hsuffix
  rw [hparts.rest, List.length_append]
  omega

/-- What stands before the gap that ends a block scalar stays. -/
theorem blockParts_split {a : Char}
    (h : BlockParts folded parent header c text s₁.cursor y e known g)
    (hu : Uncommented places (some a) c.rest r)
    (hp : ∀ p ∈ places, p ≤ c.rest.length → p ≤ s₁.cursor.rest.length) :
    ∃ r', r = y ++ r' ∧ Uncommented places (y.getLast?.or (some a)) e.rest r' := by
  have hsuffix := (blockGap_suffix h.gap).length_le
  rw [h.after] at hsuffix
  rw [h.rest] at hu hp
  obtain ⟨r', rfl, hu'⟩ | ⟨y', blanks, more, q, r', rfl, hne, hmore, -, hblanks, hcut⟩ :=
    hu.split fun p hmem hlen => (hp p hmem hlen).trans hsuffix
  · exact ⟨r', rfl, hu'⟩
  · exfalso
    obtain ⟨text, w, hq, -⟩ := hcut.cases
    obtain hnil | ⟨hnil, -⟩ | ⟨-, b, hb, hbreak⟩ := h.start
    · simp [hmore, hq] at hnil
    · exact hne (List.append_eq_nil_iff.mp hnil).2
    · rw [List.getLast?_append_of_ne_nil _ hne] at hb
      have hblank := hblanks b (List.mem_append_left _ (List.mem_of_getLast? hb))
      simp [isLineBreak_of_blank hblank] at hbreak

theorem blockContent_steps {a : Char} (hpos : ∀ n ∈ header.indent, 1 ≤ n)
    (h : blockContent folded parent header c = some (text, s₁.cursor))
    (hc : c.rest = [] ∨ c.column = 0) (hk : s₁.keys = [none]) (hallowed : s₁.keyAllowed = true)
    (hs : Skips (fun _ => True) s₁ s') (hat : AtToken s'.cursor.rest)
    (hu : Uncommented places (some a) c.rest r)
    (hfree : ∀ p ∈ places, p ≤ c.rest.length →
      (s₁.spaced = true ∧ s₁.leftOf (max (blockLeast parent) 1) = true ∧ header.chomping ≠ .keep ∧
        p ∈ s₁.gapComments) ∨ p ≤ s'.cursor.rest.length) (i : Nat) :
    ∃ d t', blockContent folded parent header ⟨r, i, c.line, c.column⟩ = some (text, d) ∧
      Skips (fun _ => True) (s₁.goTo d) t' ∧ Meets places s' t' := by
  obtain ⟨y, e, known, g, hparts⟩ := blockContent_parts hpos h
  have hword : AtWord s₁.cursor.rest := by
    rw [← hparts.after]
    refine atWord_of_blockStops ?_ hparts.gap hparts.stops
    obtain hnil | ⟨-, rfl⟩ | ⟨hzero, -⟩ := hparts.start
    · exact .inl hnil
    · exact hc
    · exact .inr hzero
  have hle : ∀ p ∈ places, p ≤ c.rest.length → p ≤ s₁.cursor.rest.length := by
    intro p hmem hlen
    obtain ⟨-, -, -, hgap⟩ | hle := hfree p hmem hlen
    · exact le_of_gapComments hgap
    · exact hle.trans hs.length_le
  obtain ⟨x, hx⟩ := blockGap_suffix hparts.gap
  rw [hparts.after] at hx
  have hlen := congrArg List.length hparts.rest
  rw [← hx, List.length_append, List.length_append] at hlen
  obtain ⟨r, rfl, hu'⟩ := blockParts_split hparts hu hle
  have hfollows : MayFollow y e.rest r := hu'.mayFollow
  rw [← hx] at hu'
  obtain ⟨r, rfl, hr, hhead⟩ | ⟨y₁, blanks, r, rfl, hblanks, rfl, hcut⟩ :=
    hu'.gap_cases hword fun p hmem hlen' => hle p hmem (by
      rw [List.length_append] at hlen'
      omega)
  · exact blockContent_uncut hparts hk hs hat hx.symm hr hhead hfollows.same hfollows.ends
      (fun p hmem hlen' => (hfree p hmem (by omega)).imp_left fun h => h.2.2.2) i
  · rw [List.append_assoc] at hx
    obtain ⟨hlt, -⟩ := hs.cutHere hcut
    -- the comment that is cut is one of those that are free
    obtain ⟨hspaced, hleft, hkeep, -⟩ : s₁.spaced = true ∧
        s₁.leftOf (max (blockLeast parent) 1) = true ∧ header.chomping ≠ .keep ∧
          s₁.cursor.rest.length ∈ s₁.gapComments := by
      obtain hfound | hlen' := hfree _ hcut.mem_places (by omega)
      · exact hfound
      · omega
    have hskips : Skips (fun b => (∀ a ∈ b, a = ' ') ∧ b.length < max (blockLeast parent) 1)
        s₁ s' :=
      hs.of_gap fun line hline => ⟨by simpa using List.all_eq_true.mp hspaced line hline,
        by simpa using List.all_eq_true.mp hleft line hline⟩
    obtain ⟨hr, hnil, hline, -, hs'⟩ | ⟨u, r₁, hr, hspaces, hskips, heq, hline, hcolumn,
      hcomments, hult, hu₁⟩ := (hskips.cutHere hcut).2
    · exact blockContent_end hparts hblanks hx.symm hcut hfollows.same hkeep hk hr hs' hnil hline i
    · refine blockContent_line hparts hblanks hx.symm hcut hfollows.same hkeep hk hallowed hr heq
        hline hcolumn hspaces hskips hat hu₁ (fun p hmem hlen' => ?_) i
      obtain ⟨-, -, -, hgap⟩ | hle := hfree p hmem (by omega)
      · rw [hcomments, List.mem_cons] at hgap
        exact .inl (hgap.resolve_left (by omega))
      · exact .inr hle

/-! ## The token -/

/-- The scanner behind a block scalar. -/
def behindBlock (folded : Bool) (s : Scan) (found : List Char × Cursor) : Scan :=
  ((s.allowKey true).goTo found.2).put (.scalar (if folded then .folded else .literal) found.1)

theorem blockScalar_eq (folded : Bool) :
    (blockScalar · folded) = fun s => s.dropKey.bind fun s =>
      (readBlock folded s.indent s.cursor).map (behindBlock folded s) := by
  funext s
  rw [blockScalar]
  refine congrArg (Option.bind _) (funext fun s => ?_)
  rw [Option.map_eq_bind]
  rfl

/-- A block scalar is its header, the rest of that line, and what stands behind the line. -/
theorem blockScalar_parts (h : s.blockScalar folded = some s₁) :
    ∃ header d c text d', s.dropKey = some (s.setKey none) ∧
      blockHeader? (s.cursor.advance 1) = some (header, d) ∧ d.restOfLine? = some c ∧
      blockContent folded s.indent header c = some (text, d') ∧
      s₁ = behindBlock folded (s.setKey none) (text, d') := by
  rw [show s.blockScalar folded = _ from congrFun (blockScalar_eq folded) s] at h
  obtain ⟨s₂, hs₂, h⟩ := Option.bind_eq_some_iff.mp h
  obtain ⟨⟨text, d'⟩, hread, rfl⟩ := Option.map_eq_some_iff.mp h
  obtain rfl : s.setKey none = s₂ := by
    rw [dropKey, Option.ite_none_left_eq_some] at hs₂
    exact Option.some.inj hs₂.2
  rw [readBlock_eq_bind] at hread
  obtain ⟨⟨header, d⟩, hheader, hread⟩ := Option.bind_eq_some_iff.mp hread
  obtain ⟨c, hline, hread⟩ := Option.bind_eq_some_iff.mp hread
  exact ⟨header, d, c, text, d', hs₂, hheader, hline, hread, rfl⟩

/-- In block context no key is pending once one is given up. -/
theorem dropKey_block (h : s.dropKey = some (s.setKey none)) (hflow : s.inFlow = false)
    (hkeys : SameKeys s.cursor i s.keys keys) (r : List Char) :
    (s.setKey none).keys = [none] ∧
      (s.onto r i keys).dropKey = some ((s.setKey none).onto r i [none]) := by
  obtain ⟨-, hagain⟩ := carries_dropKey s _ h
  obtain ⟨keys₁, hdrop, hsame⟩ := hagain r i keys hkeys
  have hnone : (s.setKey none).keys = [none] := by
    have hlen : ¬1 < s.keys.length := of_decide_eq_false hflow
    rw [setKey]
    cases hk : s.keys with
    | nil => rfl
    | cons key more =>
      rw [hk, List.length_cons] at hlen
      rw [List.tail_cons, List.length_eq_zero_iff.mp (show more.length = 0 by omega)]
  rw [hnone] at hsame
  obtain rfl : keys₁ = [none] := by
    cases hsame with
    | cons hkey hmore =>
      cases hkey
      cases hmore
      rfl
  exact ⟨hnone, hdrop⟩

/-- A block scalar is read in what is left of the text, if the comments that are cut behind its header
and behind its text are free. -/
theorem blockScalar_steps (h : s.blockScalar folded = some s₁) (hstarts : s.startsBlock = true)
    (hs : Skips (fun _ => True) s₁ s') (hat : AtToken s'.cursor.rest)
    (hu : Uncommented places prev s.cursor.rest r) (hkeys : SameKeys s.cursor i s.keys keys)
    (hfree : ∀ p ∈ places, p ≤ s.cursor.rest.length → p ∈ s.headerComment ∨
      (s₁.spaced = true ∧ s₁.leftOf (max (blockLeast s.indent) 1) = true ∧
        s.keepsBreaks = false ∧ p ∈ s₁.gapComments) ∨ p ≤ s'.cursor.rest.length) :
    Steps (blockScalar · folded) places s' (s.onto r i keys) := by
  obtain ⟨header, d₀, c, text, d, hs₂, hheader, hline, hread, rfl⟩ := blockScalar_parts h
  have hcomment : s.headerComment = commentAt d₀.skipSpacesAndTabs := by
    rw [headerComment, hstarts, hheader]
  have hkeep : s.keepsBreaks = false → header.chomping ≠ .keep := by
    rw [keepsBreaks, hheader]
    obtain ⟨chomping, indent⟩ := header
    rintro hk rfl
    cases hk
  rw [startsBlock, Bool.and_eq_true, Bool.not_eq_true'] at hstarts
  obtain ⟨hflow, hmark⟩ := hstarts
  obtain ⟨hnone, hdrop⟩ := dropKey_block hs₂ hflow hkeys r
  rw [hcomment] at hfree
  obtain ⟨-, hpos⟩ := takesWord_blockHeader? hheader
  obtain ⟨hlt, hc, hlength, hagain⟩ := hu.block_start folded hmark hheader hline
    fun p hmem hlen => (hfree p hmem hlen).imp_right fun h => by
      have hcontent := blockContent_length hpos hread
      obtain ⟨-, -, -, hgap⟩ | hle := h
      · exact (le_of_gapComments hgap).trans hcontent
      · exact hle.trans (hs.length_le.trans hcontent)
  obtain ⟨q, j, k, hread', hcases⟩ := hagain i
  have hstep {d' : Cursor} (hcontent : blockContent folded s.indent header ⟨q, j, c.line, k⟩ =
      some (text, d')) : (s.onto r i keys).blockScalar folded =
        some (behindBlock folded ((s.setKey none).onto r i [none]) (text, d')) := by
    rw [show (s.onto r i keys).blockScalar folded = _ from congrFun (blockScalar_eq folded) _, hdrop,
      Option.bind_some]
    exact congrArg (Option.map _) ((hread' s.indent).trans hcontent)
  obtain ⟨hnil, rfl⟩ | ⟨rfl, e, hu₂⟩ := hcases
  · -- there is nothing behind the line of the header
    rw [blockContent_nil _ _ _ hnil] at hread
    obtain ⟨rfl, rfl⟩ := Prod.mk.inj (Option.some.inj hread)
    obtain rfl := (hs.eq (Nat.lt_succ_self _)).symm.trans
      ((Skips.of_nil (P := fun _ => True) hnil).eq (Nat.lt_succ_self _))
    have hkeys' : NearerKeys c j (s.setKey none).keys [none] := by
      rw [hnone]
      exact .cons .none .nil
    exact ⟨_, _, hstep (blockContent_nil _ _ _ rfl), .of_nil rfl,
      .inr ⟨hnil, rfl, rfl, rfl, rfl, hkeys'⟩⟩
  · have hkeys₁ : (behindBlock folded (s.setKey none) (text, d)).keys = [none] := hnone
    obtain ⟨d', t', hcontent, hskips, hmeets⟩ := blockContent_steps hpos hread hc hkeys₁ rfl hs hat hu₂
      (fun p hmem hlen => by
        obtain hcomment | ⟨hspaced, hleft, hclip, hgap⟩ | hle' := hfree p hmem (by omega)
        · have := hlt p hcomment
          omega
        · exact .inl ⟨hspaced, hleft, hkeep hclip, hgap⟩
        · exact .inr hle') j
    have hplace : (behindBlock folded (s.setKey none) (text, d)).goTo d' =
        behindBlock folded ((s.setKey none).onto r i [none]) (text, d') := by
      simp only [behindBlock, goTo, allowKey, put, onto, ← hnone]
    exact ⟨_, t', hstep hcontent, hplace ▸ hskips, hmeets⟩

theorem length_blockScalar (h : s.blockScalar folded = some s₁) (hne : s.cursor.rest ≠ []) :
    s₁.cursor.rest.length < s.cursor.rest.length := by
  obtain ⟨header, d₀, c, text, d, -, hheader, hline, hread, rfl⟩ := blockScalar_parts h
  obtain ⟨⟨x, hx, -⟩, hpos⟩ := takesWord_blockHeader? hheader
  obtain ⟨w, hw, -⟩ := restOfLine?_again hline
  have hlength := blockContent_length hpos hread
  have hnonempty := List.length_pos_iff.mpr hne
  have hadvance := congrArg List.length (hx.trans (congrArg (x ++ ·) hw))
  rw [Cursor.advance, List.length_drop, List.length_append, List.length_append] at hadvance
  change d.rest.length < s.cursor.rest.length
  omega

end Scan

end ClusterConfig.Yaml
