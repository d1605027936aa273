import ClusterConfig.Proofs.Yaml.AlikeScans
import ClusterConfig.Proofs.Yaml.QuotedReader
import ClusterConfig.Proofs.Yaml.PlainReader
import ClusterConfig.Proofs.Yaml.Gaps
import ClusterConfig.Proofs.Yaml.BlockReader

/-!
# Tokens in front of another text

Every token but a plain scalar and a block scalar is read from the characters it takes and the word
behind them. So it is read again wherever these stand, and leaves the scanner in the same state.

The comments that may be cut are those that no scalar reads, and whose line a scalar could go on from
does not. Those behind the header of a block scalar and between two tokens are such, but behind a
scalar that is not quoted only where the scalar ends in front of the lines that follow in any case: it
does not if a line of the gap starts with a tab, if the next token could go on a plain scalar, if a
line is indented as the text of a block scalar is, or if the block scalar keeps the line breaks behind
it.
-/

set_option autoImplicit false

namespace ClusterConfig.Yaml

/-! ## Comments that may be cut -/

namespace Scan

/-- A block scalar starts here. -/
def startsBlock (s : Scan) : Bool :=
  !s.inFlow && s.cursor.startsWith fun c => c = '|' || c = '>'

/-- The comment behind the header of a block scalar. -/
def headerComment (s : Scan) : List Nat :=
  match s.startsBlock, blockHeader? (s.cursor.advance 1) with
  | true, some (_, c) => commentAt c.skipSpacesAndTabs
  | _, _ => []

/-- The block scalar here keeps the line breaks at its end. -/
def keepsBreaks (s : Scan) : Bool :=
  match blockHeader? (s.cursor.advance 1) with
  | some (⟨.keep, _⟩, _) => true
  | _ => false

/-- Every line of the gap but the first starts with nothing but spaces. -/
def spaced (s : Scan) : Bool := s.gap.tail.all fun line => line.blanks.all (· = ' ')

/-- Every line of the gap but the first starts with fewer blanks. -/
def leftOf (column : Nat) (s : Scan) : Bool :=
  s.gap.tail.all fun line => line.blanks.length < column

/-- What the scanner finds there cannot go on a plain scalar that starts here. -/
def endsPlain (s t : Scan) : Bool :=
  t.cursor.atEnd || (boundary? t.cursor).isSome ||
    if s.inFlow then t.cursor.startsWith fun c => c = ',' || c = ']' || c = '\x7d'
    else s.indent.any (t.cursor.column ≤ ·)

/-- The token that is read from the one place to the second does not depend on the comments between
there and the third place. -/
def releases (s s₁ s₂ : Scan) : Bool :=
  match s₁.tokens with
  | .scalar .quoted _ :: _ => true
  | .scalar .plain _ :: _ => s₁.spaced && s.endsPlain s₂
  | .scalar _ _ :: _ =>
    s₁.spaced && s₁.leftOf (max (blockLeast s.indent) 1) && !s.keepsBreaks
  | _ => true

/-- The free comments from a token on, by how many characters are left where they start. -/
def freeComments : Nat → Scan → List Nat
  | 0, _ => []
  | fuel + 1, s =>
    match s.next.bind fun s₁ => s₁.settle.map fun s₂ => (s₁, s₂) with
    | none => []
    | some (s₁, s₂) =>
      s.headerComment ++ (if s.releases s₁ s₂ then s₁.gapComments else []) ++ freeComments fuel s₂

end Scan

/-- The text behind a byte order mark. -/
def withoutMark : List Char → List Char
  | [] => []
  | c :: rest => if isByteOrderMark c then rest else c :: rest

/-- The free comments of a text, by how many characters are left where they start. -/
def freeComments (text : List Char) : List Nat :=
  let s := Scan.ofChars (withoutMark text)
  s.gapComments ++ match s.settle with
    | some t => t.freeComments (text.length + 1)
    | none => []

/-! ## Texts that may follow -/

variable {x rest r : List Char} {n : Nat}

/-- A text may follow in the place of another one: a word goes on as before, and so do a line break
of two characters and the end of the text. -/
structure MayFollow (x rest r : List Char) : Prop where
  word : (∃ e ∈ x.getLast?, isSpaceOrBreak e = false) → firstWord r = firstWord rest
  same : SameBreak x rest r
  ends : rest = [] → r = []

theorem MayFollow.refl (x rest : List Char) : MayFollow x rest rest :=
  ⟨fun _ => rfl, fun _ h => h, fun h => h⟩

/-- What is left of a text once comments are cut may follow in its place. -/
theorem Uncommented.mayFollow {places : List Nat} {prev : Option Char}
    (h : Uncommented places (x.getLast?.or prev) rest r) : MayFollow x rest r := by
  refine ⟨?_, ?_, ?_⟩
  · rintro ⟨e, he, hword⟩
    rw [Option.mem_def.mp he, Option.some_or] at h
    exact h.firstWord_eq hword
  · intro hlast hhead
    rw [hlast, Option.some_or] at h
    exact h.head_newline hhead
  · rintro rfl
    exact h.nil_eq

namespace Scan

variable {s s₁ s₂ : Scan}

/-- A step that reads a text reads it again in front of any text that may follow. -/
def Reads (f : Scan → Option Scan) (s s₁ : Scan) : Prop :=
  ∃ x, s.cursor.rest = x ++ s₁.cursor.rest ∧ x ≠ [] ∧
    (s₁.cursor.rest = [] ∨ ∀ e ∈ x.getLast?, isSpaceOrTab e = false) ∧
    s.cursor.line ≤ s₁.cursor.line ∧
    ∀ r i keys, MayFollow x s₁.cursor.rest r → SameKeys s.cursor i s.keys keys →
      ∃ keys₁, f (s.onto (x ++ r) i keys) = some (s₁.onto r (i + x.length) keys₁) ∧
        SameKeys s₁.cursor (i + x.length) s₁.keys keys₁

theorem Reads.of_carries {f : Scan → Option Scan} (hf : Carries n f) (h : f s = some s₁)
    {q : List Char} (hrest : s.cursor.rest = x ++ q) (hn : x.length = n)
    (hlast : ∃ e ∈ x.getLast?, isSpaceOrBreak e = false) : Reads f s s₁ := by
  subst hn
  obtain ⟨hcursor, hagain⟩ := hf s s₁ h
  obtain ⟨e, he, hword⟩ := hlast
  have hq : s₁.cursor.rest = q := by
    rw [hcursor, Cursor.advance, hrest, List.drop_left]
  refine ⟨x, by rw [hq, hrest], ?_, .inr ?_, ?_, fun r i keys _ hkeys => ?_⟩
  · rintro rfl
    cases he
  · intro f hf
    obtain rfl : f = e := Option.some.inj ((Option.mem_def.mp hf).symm.trans (Option.mem_def.mp he))
    exact (Bool.or_eq_false_iff.mp hword).1
  · rw [hcursor]
    exact le_rfl
  · obtain ⟨keys₁, hread, hsame⟩ := hagain (x ++ r) i keys hkeys
    rw [List.drop_left] at hread
    exact ⟨keys₁, hread, hsame⟩

/-- A step before it that stays in its place. -/
theorem Reads.behind {f g : Scan → Option Scan} (hf : Carries 0 f) (hs : f s = some s₂)
    (h : Reads g s₂ s₁) : Reads (fun s => (f s).bind g) s s₁ := by
  obtain ⟨hcursor, hagain⟩ := hf s s₂ hs
  have hplace : s₂.cursor = s.cursor := by
    rw [hcursor]
    simp [Cursor.advance]
  obtain ⟨x, hx, hne, hlast, hline, hread⟩ := h
  rw [hplace] at hx hline
  refine ⟨x, hx, hne, hlast, hline, fun r i keys hr hkeys => ?_⟩
  obtain ⟨keys₂, hf', hkeys₂⟩ := hagain (x ++ r) i keys hkeys
  obtain ⟨keys₁, hg', hkeys₁⟩ := hread r i keys₂ hr hkeys₂
  exact ⟨keys₁, by simp only [hf', Option.bind_some, List.drop_zero, Nat.add_zero, hg'], hkeys₁⟩

/-- Puts the token that a reader finds. -/
def into (read : Cursor → Option (Token × Cursor)) (s : Scan) : Option Scan :=
  (read s.cursor).map fun found => (s.goTo found.2).put found.1

theorem Reads.into {read : Cursor → Option (Token × Cursor)} {token : Token} {d : Cursor}
    (h : read s.cursor = some (token, d)) (hrest : s.cursor.rest = x ++ d.rest) (hne : x ≠ [])
    (hlast : d.rest = [] ∨ ∀ e ∈ x.getLast?, isSpaceOrTab e = false)
    (hline : s.cursor.line ≤ d.line)
    (hagain : ∀ r i, MayFollow x d.rest r → read ⟨x ++ r, i, s.cursor.line, s.cursor.column⟩ =
      some (token, ⟨r, i + x.length, d.line, d.column⟩)) :
    Reads (into read) s ((s.goTo d).put token) := by
  have hindex : d.index = s.cursor.index + x.length := by
    have hself := hagain d.rest s.cursor.index (.refl x d.rest)
    rw [← hrest, show (⟨s.cursor.rest, s.cursor.index, s.cursor.line, s.cursor.column⟩ : Cursor) =
      s.cursor from rfl, h] at hself
    exact congrArg (·.2.index) (Option.some.inj hself)
  refine ⟨x, hrest, hne, hlast, hline, fun r i keys hr hkeys => ⟨keys, ?_, ?_⟩⟩
  · rw [Scan.into, show (s.onto (x ++ r) i keys).cursor = ⟨x ++ r, i, s.cursor.line,
      s.cursor.column⟩ from rfl, hagain r i hr]
    rfl
  · refine hkeys.later hline fun _ => ?_
    change i + x.length + s.cursor.index = d.index + i
    omega

theorem atom_eq (read : Cursor → Option (Token × Cursor)) :
    (atom · read) = fun s =>
      (s.saveKey.bind fun s => some (s.allowKey false)).bind (into read) := by
  funext s
  rw [atom, Option.bind_assoc]
  refine congrArg (Option.bind _) (funext fun s => ?_)
  rw [Option.bind_some, Scan.into, Option.map_eq_bind]
  rfl

/-- A token that may be a key. -/
theorem reads_atom {read : Cursor → Option (Token × Cursor)} (h : s.atom read = some s₁)
    (hread : ∀ token d, read s.cursor = some (token, d) → ∃ x, s.cursor.rest = x ++ d.rest ∧
      (∃ e ∈ x.getLast?, isSpaceOrBreak e = false) ∧ s.cursor.line ≤ d.line ∧
      Finds read s.cursor token d x) : Reads (atom · read) s s₁ := by
  rw [atom_eq]
  have h' := h
  rw [show s.atom read = (fun s => (s.saveKey.bind fun s => some (s.allowKey false)).bind
    (into read)) s from congrFun (atom_eq read) s] at h'
  obtain ⟨s₂, hs₂, h'⟩ := Option.bind_eq_some_iff.mp h'
  have hcarries : Carries 0 fun s => s.saveKey.bind fun s => some (s.allowKey false) :=
    carries_saveKey.bind (carries_allowKey false)
  refine .behind hcarries hs₂ ?_
  have hplace : s₂.cursor = s.cursor := by
    rw [(hcarries s s₂ hs₂).1]
    simp [Cursor.advance]
  obtain ⟨⟨token, d⟩, hfound, rfl⟩ := Option.map_eq_some_iff.mp h'
  rw [hplace] at hfound
  obtain ⟨x, hx, ⟨e, he, hword⟩, hline, hfinds⟩ := hread token d hfound
  rw [← hplace] at hfound hx hline hfinds
  refine .into hfound hx ?_ (.inr ?_) hline fun r i hr => hfinds r i (hr.word ⟨e, he, hword⟩)
  · rintro rfl
    cases he
  · intro f hf
    obtain rfl : f = e := Option.some.inj ((Option.mem_def.mp hf).symm.trans (Option.mem_def.mp he))
    exact (Bool.or_eq_false_iff.mp hword).1

/-! ## Atoms -/

theorem last_of_word (hx : ∀ e ∈ x, isSpaceOrBreak e = false) (hne : x ≠ []) :
    ∃ e ∈ x.getLast?, isSpaceOrBreak e = false :=
  ⟨_, List.getLast?_eq_some_getLast hne, hx _ (List.getLast_mem hne)⟩

theorem reads_named {token : List Char → Token} {mark : Char} (hmark : mark = '*' ∨ mark = '&')
    (hc : s.cursor.rest.head? = some mark) (h : s.atom (named token) = some s₁) :
    Reads (atom · (named token)) s s₁ := by
  refine reads_atom h fun tok d hread => ?_
  obtain ⟨⟨name, d'⟩, hname, heq⟩ := Option.map_eq_some_iff.mp hread
  obtain ⟨rfl, rfl⟩ := Prod.mk.inj heq
  have hword : ∀ e ∈ s.cursor.rest.head?, isSpaceOrBreak e = false := by
    intro e he
    rw [hc] at he
    obtain rfl := Option.some.inj he
    obtain rfl | rfl := hmark <;> rfl
  obtain ⟨x, hx, hxw, hline, hfinds⟩ := (takesWord_readAnchor hword hname).map token
  refine ⟨x, hx, last_of_word hxw ?_, hline.ge, hfinds⟩
  rintro rfl
  -- the name ends at a mark of its own, which its indicator is not
  simp only [readAnchor, Option.ite_none_left_eq_some] at hname
  obtain ⟨hend, heq⟩ := hname
  rw [(Prod.mk.inj (Option.some.inj heq)).2] at hend
  obtain ⟨q, hq⟩ := List.head?_eq_some_iff.mp hc
  rw [List.nil_append] at hx
  rw [← hx, hq] at hend
  obtain rfl | rfl := hmark <;>
    simp [endsAnchor, isSpaceOrBreak, isSpaceOrTab, isLineBreak, isSeparator] at hend

theorem reads_tag {flow : Bool} (hc : s.cursor.rest.head? = some '!')
    (h : s.atom (readTag flow) = some s₁) : Reads (atom · (readTag flow)) s s₁ := by
  refine reads_atom h fun tok d hread => ?_
  obtain ⟨x, hx, hxw, hline, hfinds⟩ := takesWord_readTag hread
  refine ⟨x, hx, last_of_word hxw ?_, hline.ge, hfinds⟩
  rintro rfl
  rw [List.nil_append] at hx
  rw [readTag_eq] at hread
  obtain ⟨⟨tok', d'⟩, -, hend⟩ := Option.bind_eq_some_iff.mp hread
  rw [Option.ite_none_right_eq_some] at hend
  obtain ⟨hend, heq⟩ := hend
  obtain ⟨rfl, rfl⟩ := Prod.mk.inj (Option.some.inj heq)
  obtain ⟨q, hq⟩ := List.head?_eq_some_iff.mp hc
  simp only [Cursor.atWordEnd, ← hx, hq] at hend
  simp [endsWord, isSpaceOrBreak, isSpaceOrTab, isLineBreak, isSeparator] at hend

theorem reads_quoted {quote : Char} (hquote : quote = '\'' ∨ quote = '"')
    (hc : s.cursor.rest.head? = some quote) (h : s.atom (quotedScalar quote) = some s₁) :
    Reads (atom · (quotedScalar quote)) s s₁ := by
  refine reads_atom h fun tok d hread => ?_
  obtain ⟨x, hx, hlast, hline, hfinds⟩ := quotedScalar_again hquote hc hread
  refine ⟨x, hx, ⟨quote, hlast, ?_⟩, hline, hfinds⟩
  obtain rfl | rfl := hquote <;> rfl

/-! ## Marks and directives -/

/-- A mark of one character. -/
theorem reads_mark {f : Scan → Option Scan} {mark : Char} (hf : Carries 1 f)
    (hc : s.cursor.rest.head? = some mark) (hmark : isSpaceOrBreak mark = false)
    (h : f s = some s₁) : Reads f s s₁ := by
  obtain ⟨q, hq⟩ := List.head?_eq_some_iff.mp hc
  exact .of_carries (x := [mark]) hf h hq rfl ⟨mark, rfl, hmark⟩

/-- A boundary between documents. -/
theorem reads_boundary {token : Token} {mark : Char} {q : List Char}
    (hc : s.cursor.rest = mark :: mark :: mark :: q) (hmark : isSpaceOrBreak mark = false)
    (h : s.atTopLevel (fun s => some (s.mark token 3)) = some s₁) :
    Reads (atTopLevel · fun s => some (s.mark token 3)) s s₁ :=
  .of_carries (x := [mark, mark, mark]) (carries_atTopLevel (carries_mark token 3)) h hc rfl
    ⟨mark, rfl, hmark⟩

theorem reads_directive (hc : s.cursor.rest.head? = some '%') (h : s.directive = some s₁) :
    Reads directive s s₁ := by
  have heq : directive = fun s => (s.atTopLevel some).bind (into readDirective) := by
    funext s
    simp only [directive, atTopLevel, Option.bind_eq_bind, Option.bind_assoc]
    rfl
  rw [heq] at h ⊢
  obtain ⟨s₂, hs₂, h⟩ := Option.bind_eq_some_iff.mp h
  have htop : Carries 0 (atTopLevel · some) := carries_atTopLevel fun s s₁ hs => by
    cases hs
    exact ⟨by simp [Cursor.advance], fun r i keys hsame => ⟨keys, rfl, hsame⟩⟩
  refine .behind htop hs₂ ?_
  have hplace : s₂.cursor = s.cursor := by
    rw [(htop s s₂ hs₂).1]
    simp [Cursor.advance]
  obtain ⟨⟨token, d⟩, hfound, rfl⟩ := Option.map_eq_some_iff.mp h
  rw [← hplace] at hc
  obtain ⟨x, hx, hline, hlast, hagain⟩ := readDirective_again hc hfound
  refine .into hfound hx ?_ ?_ hline fun r i hr => hagain r i hr.same hr.ends
  · rintro rfl
    obtain ⟨q, hq⟩ := List.head?_eq_some_iff.mp hc
    rw [List.nil_append] at hx
    obtain ⟨e, he, -⟩ := hlast (by rw [← hx, hq]; simp)
    cases he
  · by_cases hnil : d.rest = []
    · exact .inl hnil
    · obtain ⟨e, he, hbreak⟩ := hlast hnil
      right
      intro f hf
      obtain rfl : f = e := Option.some.inj ((Option.mem_def.mp hf).symm.trans (Option.mem_def.mp he))
      by_contra hblank
      rw [Bool.not_eq_false] at hblank
      rw [isLineBreak_of_blank hblank] at hbreak
      cases hbreak

/-! ## The next token -/

theorem boundary?_start {c : Cursor} (h : boundary? c = some .start) :
    ∃ q, c.rest = '-' :: '-' :: '-' :: q := by
  rw [boundary?] at h
  split at h
  · split at h
    · rename_i q heq
      exact ⟨q, heq⟩
    · split at h <;> cases h
    · cases h
  · cases h

theorem boundary?_stop {c : Cursor} (h : boundary? c = some .stop) :
    ∃ q, c.rest = '.' :: '.' :: '.' :: q := by
  rw [boundary?] at h
  split at h
  · split at h
    · split at h <;> cases h
    · rename_i q heq
      exact ⟨q, heq⟩
    · cases h
  · cases h

/-- How the token at the cursor is read. -/
def reader (s : Scan) : Scan → Option Scan :=
  match boundary? s.cursor with
  | some .start => (atTopLevel · fun s => some (s.mark .documentStart 3))
  | some .stop => (atTopLevel · fun s => some (s.mark .documentEnd 3))
  | none =>
    match s.cursor.rest with
    | [] => fun _ => none
    | x :: rest =>
      if x = '%' && s.cursor.column = 0 then directive
      else if x = '[' then (openFlow · .flowSequence)
      else if x = '\x7b' then (openFlow · .flowMapping)
      else if x = ']' then (closeFlow · .flowSequenceEnd)
      else if x = '\x7d' then (closeFlow · .flowMappingEnd)
      else if x = ',' then flowEntry
      else if x = '-' && endsWord rest then blockEntry
      else if x = '?' && (s.inFlow || endsWord rest) then explicitKey
      else if x = ':' && (s.inFlow || endsWord rest) then mappingValue
      else if x = '*' then (atom · (named .alias))
      else if x = '&' then (atom · (named .anchor))
      else if x = '!' then (atom · (readTag s.inFlow))
      else if x = '|' && !s.inFlow then (blockScalar · false)
      else if x = '>' && !s.inFlow then (blockScalar · true)
      else if x = '\'' || x = '"' then (atom · (quotedScalar x))
      else if startsPlain s.inFlow x rest then plainScalar
      else fun _ => none

theorem next_eq (s : Scan) : s.next = s.reader s := by
  rw [next, reader]
  cases boundary? s.cursor with
  | some b => cases b <;> rfl
  | none =>
    cases s.cursor.rest with
    | nil => rfl
    | cons x rest => simp only [ite_apply]

theorem startsPlain_congr {flow : Bool} {a : Char} {q q' : List Char}
    (h : firstWord q' = firstWord q) (hdash : ¬(a = '-' && endsWord q) = true) :
    startsPlain flow a q' = startsPlain flow a q := by
  rw [startsPlain, startsPlain, endsWord_congr h]
  split
  · rename_i ha
    have hword {s : List Char} (hs : endsWord s = false) : s.head?.any isSpaceOrTab = false := by
      cases s with
      | nil => cases hs
      | cons e s => exact (Bool.or_eq_false_iff.mp hs).1
    have hq : endsWord q = false := by simpa [ha] using hdash
    rw [hword hq, hword ((endsWord_congr h).trans hq)]
  · rfl

/-- The same word is read in the same way. -/
theorem reader_onto {i : Nat} {keys : List (Option KeyPlace)} {a : Char} {q : List Char}
    (hrest : s.cursor.rest = a :: q) (ha : isSpaceOrBreak a = false)
    (h : firstWord r = firstWord s.cursor.rest) (hk : keys.length = s.keys.length) :
    (s.onto r i keys).reader = s.reader := by
  have hword := h
  rw [hrest] at hword
  obtain ⟨q', rfl, hq⟩ := cons_of_firstWord ha hword
  have hboundary : boundary? (s.onto (a :: q') i keys).cursor = boundary? s.cursor :=
    boundary?_congr h rfl
  rw [reader, reader, hboundary]
  cases boundary? s.cursor with
  | some b => cases b <;> rfl
  | none =>
    rw [hrest, show (s.onto (a :: q') i keys).cursor.rest = a :: q' from rfl, inFlow_onto hk,
      show (s.onto (a :: q') i keys).cursor.column = s.cursor.column from rfl]
    simp only [endsWord_congr hq]
    by_cases hdash : (a = '-' && endsWord q) = true
    · simp only [hdash, if_true]
    · rw [startsPlain_congr hq hdash]

theorem stopsPlain_of_startsPlain {c : Cursor} {flow : Bool} {a : Char} {q : List Char}
    (hrest : c.rest = a :: q) (ha : isSpaceOrBreak a = false) (hb : boundary? c = none)
    (h : startsPlain flow a q = true) : stopsPlain flow c = false := by
  have hgoes : ¬((a = ':' && endsWord q) || (flow && isFlowIndicator a)) = true ∧ a ≠ '#' := by
    rw [startsPlain] at h
    split at h
    · rename_i hdash
      subst hdash
      simp [isFlowIndicator]
    · split at h
      · rename_i hmark
        rw [Bool.and_eq_true, Bool.not_eq_true', Bool.not_eq_true'] at h
        simp only [Bool.or_eq_true, decide_eq_true_eq] at hmark
        rw [h.1, h.2]
        obtain rfl | rfl := hmark <;> simp
      · rename_i hmark
        simp only [Bool.or_eq_true, decide_eq_true_eq, not_or] at hmark
        simp [ha] at h
        simp [isFlowIndicator, hmark, h]
  rw [stopsPlain, hb, hrest, plainRun_cons ha, if_neg hgoes.1]
  split
  · simp [hgoes.2]
  · cases plainRun flow q <;> simp [hgoes.2]

/-- What reads the token at the cursor reads it from its characters, unless it is a block scalar or a
plain one. -/
def ReadsOrScalar (s : Scan) (f : Scan → Option Scan) : Prop :=
  ∀ s₁, f s = some s₁ → Reads f s s₁ ∨ s.startsBlock = true ∨
    f = plainScalar ∧ stopsPlain s.inFlow s.cursor = false

theorem ReadsOrScalar.of_mark {f : Scan → Option Scan} {mark : Char} (hf : Carries 1 f)
    (hc : s.cursor.rest.head? = some mark) (hmark : isSpaceOrBreak mark = false) :
    ReadsOrScalar s f := fun _ h => .inl (reads_mark hf hc hmark h)

theorem readsOrScalar_reader {a : Char} {q : List Char} (hrest : s.cursor.rest = a :: q)
    (ha : isSpaceOrBreak a = false) : ReadsOrScalar s s.reader := by
  have hhead : s.cursor.rest.head? = some a := by rw [hrest]; rfl
  rw [reader]
  split
  · rename_i hstart
    obtain ⟨q, hq⟩ := boundary?_start hstart
    exact fun _ h => .inl (reads_boundary hq (by decide) h)
  · rename_i hstop
    obtain ⟨q, hq⟩ := boundary?_stop hstop
    exact fun _ h => .inl (reads_boundary hq (by decide) h)
  · rename_i hboundary
    rw [hrest]
    have hmark {f : Scan → Option Scan} (hf : Carries 1 f) : ReadsOrScalar s f :=
      .of_mark hf hhead ha
    refine iteInduction (fun h _ hs => .inl (reads_directive ?_ hs)) fun _ => ?_
    · rw [Bool.and_eq_true, decide_eq_true_eq] at h
      rw [hhead, h.1]
    refine iteInduction (fun _ => hmark (carries_openFlow _)) fun _ => ?_
    refine iteInduction (fun _ => hmark (carries_openFlow _)) fun _ => ?_
    refine iteInduction (fun _ => hmark (carries_closeFlow _)) fun _ => ?_
    refine iteInduction (fun _ => hmark (carries_closeFlow _)) fun _ => ?_
    refine iteInduction (fun _ => hmark carries_flowEntry) fun _ => ?_
    refine iteInduction (fun _ => hmark carries_blockEntry) fun _ => ?_
    refine iteInduction (fun _ => hmark carries_explicitKey) fun _ => ?_
    refine iteInduction (fun _ => hmark carries_mappingValue) fun _ => ?_
    refine iteInduction (fun h _ hs => .inl (reads_named (.inl rfl) (h ▸ hhead) hs)) fun _ => ?_
    refine iteInduction (fun h _ hs => .inl (reads_named (.inr rfl) (h ▸ hhead) hs)) fun _ => ?_
    refine iteInduction (fun h _ hs => .inl (reads_tag (h ▸ hhead) hs)) fun _ => ?_
    have hblock {mark : Char} {f : Scan → Option Scan} (hm : mark = '|' ∨ mark = '>')
        (h : (a = mark && !s.inFlow) = true) : ReadsOrScalar s f := by
      rw [Bool.and_eq_true, decide_eq_true_eq] at h
      refine fun _ _ => .inr (.inl ?_)
      rw [startsBlock, h.2, Cursor.startsWith, hhead, h.1]
      obtain rfl | rfl := hm <;> rfl
    refine iteInduction (hblock (.inl rfl)) fun _ => ?_
    refine iteInduction (hblock (.inr rfl)) fun _ => ?_
    refine iteInduction (fun h _ hs => .inl (reads_quoted ?_ hhead hs)) fun _ => ?_
    · simpa using h
    refine iteInduction (fun h _ _ => .inr (.inr ⟨rfl, ?_⟩)) fun _ _ hs => ?_
    · exact stopsPlain_of_startsPlain hrest ha hboundary h
    · cases hs

/-- A block scalar is read where one starts. -/
theorem reader_of_startsBlock (h : s.startsBlock = true) :
    ∃ folded, s.reader = (blockScalar · folded) := by
  rw [startsBlock, Bool.and_eq_true, Bool.not_eq_true', Cursor.startsWith] at h
  obtain ⟨hflow, hmark⟩ := h
  cases hrest : s.cursor.rest with
  | nil => simp [hrest] at hmark
  | cons a q =>
    simp only [hrest, List.head?_cons, Option.any_some, Bool.or_eq_true, decide_eq_true_eq] at hmark
    have hboundary : boundary? s.cursor = none := by
      rw [boundary?, hrest]
      obtain rfl | rfl := hmark <;> simp
    rw [reader, hboundary, hrest, hflow]
    obtain rfl | rfl := hmark
    · exact ⟨false, rfl⟩
    · exact ⟨true, rfl⟩

/-- A token starts with a character of a word that starts no comment. -/
theorem next_head (h : s.next = some s₁) :
    ∃ a q, s.cursor.rest = a :: q ∧ isSpaceOrBreak a = false ∧ a ≠ '#' := by
  rw [next] at h
  split at h
  · rename_i hstart
    obtain ⟨q, hq⟩ := boundary?_start hstart
    exact ⟨_, _, hq, by decide⟩
  · rename_i hstop
    obtain ⟨q, hq⟩ := boundary?_stop hstop
    exact ⟨_, _, hq, by decide⟩
  · split at h
    · cases h
    · rename_i a q hrest
      refine ⟨a, q, hrest, ?_⟩
      by_contra hnot
      have hmark (b : Char) (hb : isSpaceOrBreak b = false ∧ b ≠ '#') : a ≠ b := by
        rintro rfl
        exact hnot hb
      have hplain : startsPlain s.inFlow a q = false := by
        rw [startsPlain, if_neg (hmark '-' (by decide)), if_neg (by
          simp [hmark '?' (by decide), hmark ':' (by decide)])]
        by_cases ha : isSpaceOrBreak a = true
        · simp [ha]
        · obtain rfl : a = '#' := by
            by_contra hne
            exact hnot ⟨by simpa using ha, hne⟩
          simp
      simp [hmark '%' (by decide), hmark '[' (by decide), hmark '\x7b' (by decide),
        hmark ']' (by decide), hmark '\x7d' (by decide), hmark ',' (by decide),
        hmark '-' (by decide), hmark '?' (by decide), hmark ':' (by decide), hmark '*' (by decide),
        hmark '&' (by decide), hmark '!' (by decide), hmark '|' (by decide), hmark '>' (by decide),
        hmark '\'' (by decide), hmark '"' (by decide), hplain] at h

end Scan

end ClusterConfig.Yaml
