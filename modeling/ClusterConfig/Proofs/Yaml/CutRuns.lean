import ClusterConfig.Proofs.Yaml.CutBlocks

/-!
# The scanner on a text with comments cut out

Whatever token stands next, the scanner reads it in what is left of a text as it does in the text, as
long as the comments that are cut up to the token behind it are free ones.

The free comments behind a token are those that one step may do without. So from one token to the next
the scanner comes to the same places of both texts, and at the end it has found the same tokens.
-/

set_option autoImplicit false

namespace ClusterConfig.Yaml

section Tokens

variable {places : List Nat} {prev : Option Char} {r : List Char}

namespace Scan

variable {s s₁ s' t t' : Scan} {i fuel : Nat} {keys : List (Option KeyPlace)}
  {P : List Char → Prop}

/-! ## A token -/

/-- A token that is read from its characters. -/
theorem Reads.steps {f : Scan → Option Scan} (h : Reads f s s₁)
    (hs : Skips (fun _ => True) s₁ s') (hat : AtToken s'.cursor.rest)
    (hu : Uncommented places prev s.cursor.rest r) (hkeys : SameKeys s.cursor i s.keys keys)
    (hfree : ∀ p ∈ places, p ≤ s.cursor.rest.length →
      p ∈ s₁.gapComments ∨ p ≤ s'.cursor.rest.length) : Steps f places s' (s.onto r i keys) := by
  obtain ⟨x, hx, -, hlast, -, hread⟩ := h
  have hlen := congrArg List.length hx
  rw [List.length_append] at hlen
  rw [hx] at hu
  obtain ⟨r, rfl, hr⟩ : ∃ r', r = x ++ r' ∧
      Uncommented places (x.getLast?.or prev) s₁.cursor.rest r' := by
    obtain ⟨r', hr, hu'⟩ | ⟨y, blanks, more, q, r', hy, hne, hmore, -, hblanks, hcut⟩ :=
      hu.split fun p hmem hle => by
        obtain hgap | hle' := hfree p hmem (by rwa [hx])
        · exact le_of_gapComments hgap
        · exact hle'.trans hs.length_le
    · exact ⟨r', hr, hu'⟩
    · exfalso
      obtain ⟨text, w, hq, -⟩ := hcut.cases
      obtain hnil | hlast := hlast
      · simp [hnil, hq] at hmore
      · rw [hy, List.getLast?_append_of_ne_nil _ hne] at hlast
        have hblank := hblanks _ (List.mem_append_left more (List.getLast_mem hne))
        rw [hlast _ (List.getLast?_eq_some_getLast hne)] at hblank
        cases hblank
  obtain ⟨keys₁, hread, hsame⟩ := hread r i keys hr.mayFollow hkeys
  obtain ⟨-, t', ht, hcomes⟩ := hs.cut (i := i + x.length) (fun _ _ _ => trivial)
    hat.noBlank hsame.length_eq hr fun p hmem hle => hfree p hmem (by omega)
  exact ⟨_, t', hread, ht, hcomes.meets_self hsame hs.keys_eq hs.line_le⟩

theorem releases_plain (h : s.plainScalar = some s₁) :
    s.releases s₁ s' = (s₁.spaced && s.endsPlain s') := by
  rw [plainScalar_eq] at h
  obtain ⟨s₂, -, h⟩ := Option.bind_eq_some_iff.mp h
  obtain ⟨found, -, rfl⟩ := Option.map_eq_some_iff.mp h
  rfl

theorem releases_block {folded : Bool} (h : s.blockScalar folded = some s₁) :
    s.releases s₁ s' =
      (s₁.spaced && s₁.leftOf (max (blockLeast s.indent) 1) && !s.keepsBreaks) := by
  obtain ⟨header, d, c, text, d', -, -, -, -, rfl⟩ := blockScalar_parts h
  cases folded <;> rfl

/-- A token is read in what is left of a text as in the text, if the comments that are cut in front of
the next token are free. -/
theorem next_steps (h : s.next = some s₁) (hs : Skips (fun _ => True) s₁ s')
    (hat : AtToken s'.cursor.rest) (hu : Uncommented places prev s.cursor.rest r)
    (hkeys : SameKeys s.cursor i s.keys keys)
    (hfree : ∀ p ∈ places, p ≤ s.cursor.rest.length → p ∈ s.headerComment ∨
      (s.releases s₁ s' = true ∧ p ∈ s₁.gapComments) ∨ p ≤ s'.cursor.rest.length) :
    Steps next places s' (s.onto r i keys) := by
  obtain ⟨a, q, hrest, ha, hcomment⟩ := next_head h
  have hfirst : firstWord r = firstWord s.cursor.rest := by
    rw [hrest] at hu ⊢
    obtain ⟨q', rfl, hq⟩ := hu.keeps hcomment (Bool.or_eq_false_iff.mp ha).1
    rw [firstWord_cons, firstWord_cons, hq.firstWord_eq ha]
  suffices hsteps : Steps s.reader places s' (s.onto r i keys) by
    obtain ⟨t₁, t', hread, ht, hmeets⟩ := hsteps
    exact ⟨t₁, t', by rw [next_eq, reader_onto hrest ha hfirst hkeys.length_eq, hread], ht, hmeets⟩
  rw [next_eq] at h
  cases hblock : s.startsBlock with
  | true =>
    obtain ⟨folded, hreader⟩ := reader_of_startsBlock hblock
    rw [hreader] at h ⊢
    refine blockScalar_steps h hblock hs hat hu hkeys fun p hmem hle => ?_
    refine (hfree p hmem hle).imp_right fun hfree => hfree.imp_left fun ⟨hrel, hgap⟩ => ?_
    rw [releases_block h, Bool.and_eq_true, Bool.and_eq_true, Bool.not_eq_true'] at hrel
    exact ⟨hrel.1.1, hrel.1.2, hrel.2, hgap⟩
  | false =>
    have hheader : s.headerComment = [] := by rw [headerComment, hblock]
    rw [hheader] at hfree
    obtain hreads | hstarts | ⟨hreader, hstop⟩ := readsOrScalar_reader hrest ha s₁ h
    · refine hreads.steps hs hat hu hkeys fun p hmem hle => ?_
      obtain hnone | ⟨-, hgap⟩ | hle := hfree p hmem hle
      · cases hnone
      · exact .inl hgap
      · exact .inr hle
    · rw [hblock] at hstarts
      cases hstarts
    · rw [hreader] at h ⊢
      refine plainScalar_steps h hstop hs hat hu hkeys fun p hmem hle => ?_
      obtain hnone | ⟨hrel, hgap⟩ | hle := hfree p hmem hle
      · cases hnone
      · rw [releases_plain h, Bool.and_eq_true] at hrel
        exact .inl ⟨hrel.1, hrel.2, hgap⟩
      · exact .inr hle

/-- Every token takes a character. -/
theorem length_next (h : s.next = some s₁) : s₁.cursor.rest.length < s.cursor.rest.length := by
  obtain ⟨a, q, hrest, ha, -⟩ := next_head h
  rw [next_eq] at h
  obtain ⟨x, hx, hne, -⟩ | hstarts | ⟨hreader, hstop⟩ := readsOrScalar_reader hrest ha s₁ h
  · have hpos := List.length_pos_iff.mpr hne
    rw [hx, List.length_append]
    omega
  · obtain ⟨folded, hreader⟩ := reader_of_startsBlock hstarts
    rw [hreader] at h
    exact length_blockScalar h (by simp [hrest])
  · rw [hreader, plainScalar_eq] at h
    obtain ⟨s₂, hs₂, h⟩ := Option.bind_eq_some_iff.mp h
    obtain ⟨hcursor, hflow, -⟩ := saveKey_same hs₂
    rw [← hcursor, ← hflow] at hstop
    obtain ⟨y, x, text, e, passed, hparts⟩ := plainToken_parts h hstop
    have hy : y ≠ [] := by
      rintro rfl
      obtain ⟨b, hb, -⟩ := hparts.last
      cases hb
    have hpos := List.length_pos_iff.mpr hy
    rw [← hcursor, hparts.rest, List.length_append, List.length_append]
    omega

end Scan

end Tokens

section Runs

variable {places : List Nat}

namespace Scan

variable {s s₁ s₂ s' t : Scan} {fuel : Nat} {P : List Char → Prop}

/-! ## Whether a key may start -/

theorem closeBlocks_allowKey (s : Scan) (allowed : Bool) (column : Option Nat) :
    (s.allowKey allowed).closeBlocks column = (s.closeBlocks column).allowKey allowed := by
  rw [closeBlocks, closeBlocks, show (s.allowKey allowed).inFlow = s.inFlow from rfl]
  split <;> rfl

theorem dropKey_allowKey (s : Scan) (allowed : Bool) :
    (s.allowKey allowed).dropKey = s.dropKey.map (allowKey · allowed) := by
  rw [dropKey, dropKey, show (s.allowKey allowed).key = s.key from rfl]
  split <;> rfl

theorem dropStaleKeys_allowKey (s : Scan) (allowed : Bool) :
    (s.allowKey allowed).dropStaleKeys = s.dropStaleKeys.map (allowKey · allowed) := by
  rw [dropStaleKeys_eq, dropStaleKeys_eq, Option.map_map]
  rfl

theorem atTopLevel_allowKey (s : Scan) (allowed : Bool) (f : Scan → Option Scan) :
    (s.allowKey allowed).atTopLevel f = s.atTopLevel f := by
  rw [atTopLevel, atTopLevel, closeBlocks_allowKey, dropKey_allowKey]
  cases (s.closeBlocks none).dropKey <;> rfl

theorem flowEntry_allowKey (s : Scan) (allowed : Bool) :
    (s.allowKey allowed).flowEntry = s.flowEntry := by
  rw [flowEntry, flowEntry, dropKey_allowKey]
  cases s.dropKey <;> rfl

theorem closeFlow_allowKey (s : Scan) (allowed : Bool) (token : Token) :
    (s.allowKey allowed).closeFlow token = s.closeFlow token := by
  rw [closeFlow, closeFlow, dropKey_allowKey]
  cases s.dropKey with
  | none => rfl
  | some s =>
    simp only [Option.map_some, Option.bind_eq_bind, Option.bind_some,
      show (s.allowKey allowed).inFlow = s.inFlow from rfl]
    split <;> rfl

/-- A token that does not depend on whether a key may start here. -/
theorem IgnoresKey.next_allowKey (h : s.IgnoresKey) (hend : s.cursor.atEnd = false)
    (allowed : Bool) : (s.allowKey allowed).next = s.next := by
  rw [next, next, show (s.allowKey allowed).cursor = s.cursor from rfl]
  simp only [atTopLevel_allowKey]
  obtain hover | hboundary | ⟨-, hmark⟩ := h
  · rw [hover] at hend
    cases hend
  · obtain ⟨b, hb⟩ := Option.isSome_iff_exists.mp hboundary
    rw [hb]
    cases b <;> rfl
  · cases hb : boundary? s.cursor with
    | some b => cases b <;> rfl
    | none =>
      cases hrest : s.cursor.rest with
      | nil => rfl
      | cons a q =>
        rw [Cursor.startsWith, hrest] at hmark
        simp only [List.head?_cons, Option.any_some, Bool.or_eq_true, decide_eq_true_eq,
          or_assoc] at hmark
        obtain rfl | rfl | rfl := hmark <;> simp [flowEntry_allowKey, closeFlow_allowKey]

theorem dropStaleKeys_same {u : Scan} (h : s.dropStaleKeys = some u) :
    u.cursor = s.cursor ∧ u.keyAllowed = s.keyAllowed ∧ u.inFlow = s.inFlow := by
  rw [dropStaleKeys_eq] at h
  obtain ⟨keys, hkeys, rfl⟩ := Option.map_eq_some_iff.mp h
  exact ⟨rfl, rfl, by simp only [inFlow, length_mapM_option hkeys]⟩

theorem closeBlocks_keyAllowed (s : Scan) (column : Option Nat) :
    (s.closeBlocks column).keyAllowed = s.keyAllowed := by
  rw [closeBlocks]
  split <;> rfl

theorem IgnoresKey.closed {u : Scan} (h : s.IgnoresKey) (hu : s.dropStaleKeys = some u)
    (column : Option Nat) : (u.closeBlocks column).IgnoresKey := by
  obtain ⟨hcursor, -, hflow⟩ := dropStaleKeys_same hu
  obtain ⟨hcursor', hkeys⟩ := closeBlocks_keys u column
  have hflow' : (u.closeBlocks column).inFlow = u.inFlow := by rw [inFlow, hkeys]; rfl
  rwa [IgnoresKey, hcursor', hcursor, hflow', hflow]

/-! ## A run -/

/-- Giving up stale keys and closing collections leaves the scanner at the same place of both texts. -/
theorem Alike.settled {t u : Scan} (h : Alike places s t) (hu : s.dropStaleKeys = some u)
    (column : Option Nat) :
    ∃ v, t.dropStaleKeys = some v ∧ v.cursor.column = u.cursor.column ∧
      Alike places (u.closeBlocks column) (v.closeBlocks column) := by
  obtain ⟨prev, r, i, keys, allowed, rfl, hcut, hkeys, hallowed⟩ := h
  have hu' : (s.allowKey allowed).dropStaleKeys = some (u.allowKey allowed) := by
    rw [dropStaleKeys_allowKey, hu]
    rfl
  obtain ⟨keys₁, hdrop, -, hkeys₁⟩ := dropStaleKeys_onto (s := s.allowKey allowed) hkeys hu' r
  obtain ⟨hcursor, hclosed⟩ := closeBlocks_keys u column
  refine ⟨_, hdrop, rfl, prev, r, i, keys₁, allowed, ?_, ?_, ?_, ?_⟩
  · rw [closeBlocks_onto hkeys₁.length_eq, closeBlocks_allowKey]
  · rw [hcursor, (dropStaleKeys_same hu).1]
    exact hcut
  · rw [hcursor, hclosed]
    exact hkeys₁
  · refine hallowed.imp (fun heq => ?_) fun hignores => hignores.closed hu column
    rw [closeBlocks_keyAllowed, (dropStaleKeys_same hu).2.1, heq]

/-! ## Free comments -/

theorem length_skipComment_lt {c : Cursor} {p : Nat} (hp : p ∈ commentAt c) :
    c.skipComment.rest.length < p := by
  obtain ⟨comment, rest, hrest, -, hword, -, hskip⟩ := skipComment_split c
  rw [commentAt] at hp
  split at hp
  · rename_i hhead
    have hne : comment ≠ [] := by
      rintro rfl
      rw [hrest] at hhead
      exact hword rfl hhead
    have hpos := List.length_pos_iff.mpr hne
    rw [List.mem_singleton.mp hp, hskip, hrest, List.length_append]
    change rest.length < _
    omega
  · cases hp

/-- A comment of a gap starts in front of the token behind the gap. -/
theorem Skips.lt_of_gapComments {p : Nat} (h : Skips P s t) (hp : p ∈ s.gapComments) :
    t.cursor.rest.length < p := by
  induction h with
  | stop hnext =>
    rw [gapComments_eq, hnext, List.append_nil] at hp
    exact length_skipComment_lt hp
  | line hnext _ ht ih =>
    rw [gapComments_eq, hnext, List.mem_append] at hp
    obtain hp | hp := hp
    · exact (ht.length_le.trans_lt (length_nextLine hnext)).trans (length_skipComment_lt hp)
    · exact ih hp

theorem length_restOfLine_lt {c d : Cursor} {p : Nat} (h : c.restOfLine? = some d)
    (hp : p ∈ commentAt c.skipSpacesAndTabs) : d.rest.length < p := by
  simp only [Cursor.restOfLine?, Option.ite_none_right_eq_some] at h
  obtain rfl := Option.some.inj h.2
  refine lt_of_le_of_lt ?_ (length_skipComment_lt hp)
  rw [Cursor.skipBreak]
  split
  · rename_i hbreak
    obtain ⟨x, hx, -⟩ := lineBreak?_eq_some hbreak
    rw [hx, List.length_append]
    exact Nat.le_add_left _ _
  · exact le_rfl

/-- The comment behind a header lies within its block scalar. -/
theorem headerComment_bounds {p : Nat} (h : s.next = some s₁) (hp : p ∈ s.headerComment) :
    s₁.cursor.rest.length < p ∧ p ≤ s.cursor.rest.length := by
  rw [headerComment] at hp
  split at hp
  · rename_i chomping c hstarts hheader
    obtain ⟨folded, hreader⟩ := reader_of_startsBlock hstarts
    rw [next_eq, hreader] at h
    obtain ⟨header, d₀, c₁, text, d, -, hheader', hline, hread, rfl⟩ := blockScalar_parts h
    obtain ⟨rfl, rfl⟩ := Prod.mk.inj (Option.some.inj (hheader.symm.trans hheader'))
    obtain ⟨⟨x, hx, -⟩, hpos⟩ := takesWord_blockHeader? hheader
    have hlength := blockContent_length hpos hread
    refine ⟨hlength.trans_lt (length_restOfLine_lt hline hp), ?_⟩
    rw [commentAt] at hp
    split at hp
    · rw [List.mem_singleton.mp hp]
      have hadvance := length_advance s.cursor 1
      rw [hx, List.length_append] at hadvance
      have hskip := length_advance c (c.rest.takeWhile isSpaceOrTab).length
      change (c.advance _).rest.length ≤ _
      omega
    · cases hp
  · cases hp

theorem mem_freeComments {p : Nat} (hs : s.next = some s₁) (hs₂ : s₁.settle = some s₂)
    (hp : p ∈ freeComments fuel s) : p ∈ s.headerComment ∨
      (s.releases s₁ s₂ = true ∧ p ∈ s₁.gapComments) ∨ p ∈ freeComments (fuel - 1) s₂ := by
  cases fuel with
  | zero => cases hp
  | succ fuel =>
    rw [freeComments, hs, Option.bind_some, hs₂] at hp
    simp only [Option.map_some, List.mem_append, or_assoc] at hp
    refine hp.imp_right fun hp => hp.imp_left fun hp => ?_
    split at hp
    · exact ⟨‹_›, hp⟩
    · cases hp

/-- Settling is skipping the gap, giving up stale keys and closing collections. -/
theorem settle_parts (h : s.settle = some s₂) :
    ∃ s' u, Skips (fun _ => True) s s' ∧ s'.dropStaleKeys = some u ∧
      s₂ = u.closeBlocks (some u.cursor.column) ∧ s₂.cursor = s'.cursor := by
  obtain ⟨u, hu, rfl⟩ := Option.map_eq_some_iff.mp h
  refine ⟨_, u, skips_skipBlanks (fun _ _ => trivial) (Nat.lt_succ_self _), hu, rfl, ?_⟩
  rw [(closeBlocks_keys u _).1, (dropStaleKeys_same hu).1]

theorem settle_of_skips {u : Scan} (h : Skips P s s') (hu : s'.dropStaleKeys = some u) :
    s.settle = some (u.closeBlocks (some u.cursor.column)) := by
  rw [settle, h.eq (Nat.lt_succ_self _), hu]
  rfl

theorem le_of_freeComments {p : Nat} (hp : p ∈ freeComments fuel s) : p ≤ s.cursor.rest.length := by
  induction fuel generalizing s with
  | zero => cases hp
  | succ fuel ih =>
    cases hs : s.next with
    | none => simp [freeComments, hs] at hp
    | some s₁ =>
      cases hs₂ : s₁.settle with
      | none => simp [freeComments, hs, hs₂] at hp
      | some s₂ =>
        have hlt := length_next hs
        obtain hp | ⟨-, hp⟩ | hp := mem_freeComments hs hs₂ hp
        · exact (headerComment_bounds hs hp).2
        · exact (le_of_gapComments hp).trans hlt.le
        · have hle := ih hp
          obtain ⟨s', u, hskips, -, -, hcursor⟩ := settle_parts hs₂
          have hlength := hskips.length_le
          rw [hcursor] at hle
          omega

/-- The token behind a gap is read, or the text is over. -/
theorem atToken_of_resume (h : Token.invalid ∉ resume fuel s) : AtToken s.cursor.rest := by
  rw [resume] at h
  split at h
  · rename_i hend
    rw [Cursor.atEnd, List.isEmpty_iff] at hend
    simp [AtToken, hend]
  · split at h
    · rename_i hnext
      obtain ⟨a, q, hrest, ha, hcomment⟩ := next_head hnext
      rw [hrest]
      simp [AtToken, ha, hcomment]
    · simp at h

theorem resume_of_next {f : Nat} (h : s.next = some s₁) : resume f s = run f s₁ := by
  obtain ⟨a, q, hrest, -⟩ := next_head h
  rw [resume, if_neg (by simp [Cursor.atEnd, hrest]), h]

theorem releases_congr (h : s₂.cursor = s'.cursor) (hr : s.releases s₁ s₂ = true) :
    s.releases s₁ s' = true := by
  simpa only [releases, endsPlain, h] using hr

theorem run_succ {f : Nat} (h : Token.invalid ∉ run (f + 1) s) :
    ∃ s₂, s.settle = some s₂ ∧ run (f + 1) s = resume f s₂ := by
  cases hs : s.settle with
  | some s₂ => exact ⟨s₂, rfl, run_eq_resume hs f⟩
  | none =>
    rw [settle, Option.map_eq_none_iff] at hs
    simp [run, hs] at h

/-- Where both texts go on with a token, the same token is read, and the scanner comes to the same
place of both texts behind the gap that follows. -/
theorem Alike.step {f n : Nat} (h : Alike places s t) (hlive : s.cursor.atEnd = false)
    (hvalid : Token.invalid ∉ resume f s)
    (hfree : ∀ p ∈ places, p ≤ s.cursor.rest.length → p ∈ freeComments n s) :
    ∃ s₁ s' t₁ t', s.next = some s₁ ∧ t.next = some t₁ ∧ Skips (fun _ => True) s₁ s' ∧
      Skips (fun _ => True) t₁ t' ∧ Meets places s' t' ∧
      ∀ s₂, s₁.settle = some s₂ → ∀ p ∈ places, p ≤ s₂.cursor.rest.length →
        p ∈ freeComments (n - 1) s₂ := by
  obtain ⟨prev, r, i, keys, allowed, rfl, hcut, hkeys, hallowed⟩ := h
  obtain ⟨s₁, hs₁⟩ : ∃ s₁, s.next = some s₁ := by
    cases hnext : s.next with
    | some s₁ => exact ⟨s₁, rfl⟩
    | none => simp [resume, hlive, hnext] at hvalid
  have hallow : (s.allowKey allowed).next = some s₁ := by
    obtain rfl | hignores := hallowed
    · exact hs₁
    · rw [hignores.next_allowKey hlive, hs₁]
  rw [resume_of_next hs₁] at hvalid
  obtain ⟨f, rfl⟩ : ∃ k, f = k + 1 := by
    cases f with
    | zero => simp [run] at hvalid
    | succ k => exact ⟨k, rfl⟩
  obtain ⟨s₂, hs₂, hrun⟩ := run_succ hvalid
  obtain ⟨s', u, hskips, -, -, hcursor⟩ := settle_parts hs₂
  have hat : AtToken s'.cursor.rest := by
    rw [← hcursor]
    exact atToken_of_resume (hrun ▸ hvalid)
  obtain ⟨t₁, t', hread, hskips', hmeets⟩ := next_steps hallow hskips hat hcut hkeys
    fun p hmem hle => by
      refine (mem_freeComments hs₁ hs₂ (hfree p hmem hle)).imp_right fun hp => ?_
      refine hp.imp (.imp_left (releases_congr hcursor)) fun hp => ?_
      exact hcursor ▸ le_of_freeComments hp
  refine ⟨s₁, s', t₁, t', hs₁, hread, hskips, hskips', hmeets, fun s₂' hs₂' p hmem hle => ?_⟩
  obtain rfl := Option.some.inj (hs₂.symm.trans hs₂')
  rw [hcursor] at hle
  have hlength := hskips.length_le
  have hlt := length_next hs₁
  -- what is behind the gap is neither behind the header nor in the gap
  obtain hp | ⟨-, hp⟩ | hp := mem_freeComments hs₁ hs₂ (hfree p hmem (by omega))
  · have := (headerComment_bounds hs₁ hp).1
    omega
  · have := hskips.lt_of_gapComments hp
    omega
  · exact hp

/-- Where both texts are over, the same tokens were read. -/
theorem Over.run_eq {f f' : Nat} {t' u : Scan} (h : Over s t') (hrest : s.cursor.rest = [])
    (ht : Skips (fun _ => True) t t') (hu : s.dropStaleKeys = some u)
    (hvalid : Token.invalid ∉ resume f (u.closeBlocks (some u.cursor.column))) :
    run (f' + 1) t = resume f (u.closeBlocks (some u.cursor.column)) := by
  have hover : (u.closeBlocks (some u.cursor.column)).cursor.atEnd = true := by
    rw [Cursor.atEnd, (closeBlocks_keys u _).1, (dropStaleKeys_same hu).1, hrest]
    rfl
  rw [resume, if_pos hover] at hvalid ⊢
  cases hfinish : (u.closeBlocks (some u.cursor.column)).finish with
  | none => simp [hfinish] at hvalid
  | some w =>
    obtain ⟨v, w', hv, hfinish', htokens⟩ := finish_nearer (some t'.cursor.column)
      h.keys h.line h.tokens h.indents hu hfinish
    have hsettle := settle_of_skips ht hv
    have hcursor' : v.cursor = t'.cursor := (dropStaleKeys_same hv).1
    rw [run_eq_resume hsettle, resume, Cursor.atEnd, (closeBlocks_keys v _).1, hcursor',
      h.rest, List.isEmpty_nil, if_pos rfl, hfinish']
    exact htokens

/-- The rest of a text is scanned into the same tokens once free comments are cut out of it, if the
scanner comes to the same place of both texts behind the gap. -/
theorem run_again {f f' n : Nat} {s t s' t' : Scan} (hs : Skips (fun _ => True) s s')
    (ht : Skips (fun _ => True) t t') (hmeets : Meets places s' t')
    (hfree : ∀ s₂, s.settle = some s₂ → ∀ p ∈ places, p ≤ s₂.cursor.rest.length →
      p ∈ freeComments n s₂)
    (hvalid : Token.invalid ∉ run f s) (hfuel : t.cursor.rest.length < f') :
    run f' t = run f s := by
  induction f generalizing f' n s t s' t' with
  | zero => simp [run] at hvalid
  | succ f ih =>
    obtain ⟨f', rfl⟩ : ∃ k, f' = k + 1 := ⟨f' - 1, by omega⟩
    obtain ⟨s₂, hs₂, hrun⟩ := run_succ hvalid
    obtain ⟨s'', u, hskips, hu, rfl, hcursor⟩ := settle_parts hs₂
    obtain rfl : s'' = s' := (hskips.eq (Nat.lt_succ_self _)).symm.trans (hs.eq (Nat.lt_succ_self _))
    rw [hrun] at hvalid ⊢
    obtain ⟨hne, halike⟩ | ⟨hnil, hover⟩ := hmeets
    · obtain ⟨v, hv, hcolumn, halike⟩ := halike.settled hu (some u.cursor.column)
      have hlive : (u.closeBlocks (some u.cursor.column)).cursor.atEnd = false := by
        rw [Cursor.atEnd, hcursor, List.isEmpty_eq_false_iff]
        exact hne
      obtain ⟨s₃, s₃', t₃, t₃', hs₃, ht₃, hskips₃, hskips₃', hmeets₃, hfree₃⟩ :=
        halike.step hlive hvalid (hfree _ hs₂)
      have hsettle := settle_of_skips ht hv
      rw [hcolumn] at hsettle
      rw [resume_of_next hs₃] at hvalid ⊢
      rw [run_eq_resume hsettle, resume_of_next ht₃]
      refine ih hskips₃ hskips₃' hmeets₃ hfree₃ hvalid ?_
      have hlt := length_next ht₃
      have hlength := ht.length_le
      rw [(closeBlocks_keys v _).1, (dropStaleKeys_same hv).1] at hlt
      omega
    · exact hover.run_eq hnil ht hu hvalid

end Scan

/-! ## Texts -/

open Scan

theorem tokens_eq_settle (text : List Char) :
    tokens text =
      if (withoutMark text).all isStreamChar then
        (Scan.run ((withoutMark text).length + 1) (.ofChars (withoutMark text))).reverse
      else [.invalid] := by
  cases text <;> rfl

/-- A byte order mark at the start stays. -/
theorem Uncommented.withoutMark {text rest : List Char} (h : Uncommented places none text rest) :
    ∃ prev, Uncommented places prev (withoutMark text) (withoutMark rest) := by
  cases text with
  | nil =>
    obtain rfl := h.nil_eq
    exact ⟨none, h⟩
  | cons c s =>
    obtain ⟨t, rfl, hs⟩ | ⟨blanks, r, hr, hblanks, hcut⟩ := h.cons_cases
    · cases hc : isByteOrderMark c with
      | true => exact ⟨some c, by simpa [Yaml.withoutMark, hc] using hs⟩
      | false => exact ⟨none, by simpa [Yaml.withoutMark, hc] using h⟩
    · have hc : isByteOrderMark c = false := by
        cases blanks with
        | nil =>
          obtain ⟨text, cr, s', rfl, -⟩ := hcut
          rw [(List.cons.inj hr).1]
          decide
        | cons b blanks =>
          have hb := hblanks b (by simp)
          rw [isSpaceOrTab, Bool.or_eq_true, decide_eq_true_eq, decide_eq_true_eq] at hb
          rw [(List.cons.inj hr).1]
          obtain rfl | rfl := hb <;> decide
      have hrest : Yaml.withoutMark rest = rest := by
        obtain rfl | ⟨t', rfl⟩ := hcut.head <;> rfl
      rw [hrest]
      exact ⟨none, by simpa only [Yaml.withoutMark, hc, Bool.false_eq_true, if_false] using h⟩

theorem Uncommented.mem {prev : Option Char} {s t : List Char} (h : Uncommented places prev s t) :
    ∀ c ∈ t, c ∈ s := by
  induction h with
  | nil => exact fun _ h => h
  | keep _ ih => exact fun c hc => List.mem_cons.mpr ((List.mem_cons.mp hc).imp id (ih c))
  | cut _ _ _ _ _ _ ih => exact fun c hc => by simp [ih c hc]

/-- Free comments that are cut out of a text change none of its tokens. -/
theorem tokens_uncommented {text rest : List Char}
    (h : Uncommented (freeComments text) none text rest) (hvalid : Token.invalid ∉ tokens text) :
    tokens rest = tokens text := by
  obtain ⟨prev, hu⟩ := h.withoutMark
  rw [tokens_eq_settle] at hvalid
  split at hvalid
  · rename_i hchars
    have hchars' : (withoutMark rest).all isStreamChar = true :=
      List.all_eq_true.mpr fun c hc => List.all_eq_true.mp hchars c (hu.mem c hc)
    rw [List.mem_reverse] at hvalid
    rw [tokens_eq_settle, tokens_eq_settle, if_pos hchars, if_pos hchars']
    obtain ⟨s₂, hs₂, hrun⟩ := run_succ hvalid
    obtain ⟨s', u, hskips, -, -, hcursor⟩ := settle_parts hs₂
    have hfree : freeComments text =
        (Scan.ofChars (withoutMark text)).gapComments ++ s₂.freeComments (text.length + 1) := by
      rw [freeComments, hs₂]
    have hat : AtToken s'.cursor.rest := by
      rw [← hcursor]
      exact atToken_of_resume (hrun ▸ hvalid)
    have hkeys : SameKeys (Scan.ofChars (withoutMark text)).cursor 0
        (Scan.ofChars (withoutMark text)).keys [none] := sameKeys_none _ _
    obtain ⟨-, t', hskips', hcomes⟩ := hskips.cut (i := 0) (fun _ _ _ => trivial) hat.noBlank
      hkeys.length_eq hu fun p hmem _ => by
        rw [hfree, List.mem_append] at hmem
        exact hmem.imp_right fun hp => hcursor ▸ le_of_freeComments hp
    refine congrArg List.reverse ?_
    refine run_again (n := text.length + 1) hskips hskips'
      (hcomes.meets_self hkeys hskips.keys_eq hskips.line_le) (fun s₂' hs₂' p hmem hle => ?_) hvalid
      (Nat.lt_succ_self _)
    obtain rfl := Option.some.inj (hs₂.symm.trans hs₂')
    rw [hfree, List.mem_append] at hmem
    obtain hp | hp := hmem
    · have hlt := hskips.lt_of_gapComments hp
      rw [hcursor] at hle
      omega
    · exact hp
  · simp at hvalid

end Runs

end ClusterConfig.Yaml
