import ClusterConfig.Proofs.Yaml.BlankLines
import ClusterConfig.Proofs.Yaml.CutTokens

/-!
# Scalars behind which comments are cut

A plain scalar or a block scalar reads on in the place of a comment that is cut. The lines it reads
there the scanner would have skipped, so it comes to the same place behind them.
-/

set_option autoImplicit false

namespace ClusterConfig.Yaml

variable {places : List Nat} {prev : Option Char} {r blanks : List Char}

namespace Scan

variable {s t u s₁ : Scan} {P : List Char → Prop} {i : Nat} {keys : List (Option KeyPlace)}

/-! ## Where the gap ends -/

/-- The next token does not depend on whether a key may start here. -/
def IgnoresKey (s : Scan) : Prop :=
  s.cursor.atEnd = true ∨ (boundary? s.cursor).isSome = true ∨
    s.inFlow = true ∧ s.cursor.startsWith (fun c => c = ',' || c = ']' || c = '\x7d') = true

/-- The scanner stands at the same place of what is left of the text. -/
def Alike (places : List Nat) (s t : Scan) : Prop :=
  ∃ prev r i keys allowed, t = (s.allowKey allowed).onto r i keys ∧
    Uncommented places prev s.cursor.rest r ∧ SameKeys s.cursor i s.keys keys ∧
    (allowed = s.keyAllowed ∨ s.IgnoresKey)

/-- Both texts are over. -/
structure Over (s t : Scan) : Prop where
  rest : t.cursor.rest = []
  line : t.cursor.line = s.cursor.line
  tokens : t.tokens = s.tokens
  indents : t.indents = s.indents
  keys : NearerKeys s.cursor t.cursor.index s.keys t.keys

/-- Behind a gap the scanner stands at the same place of both texts, or both are over. -/
def Meets (places : List Nat) (s t : Scan) : Prop :=
  s.cursor.rest ≠ [] ∧ Alike places s t ∨ s.cursor.rest = [] ∧ Over s t

theorem Skips.keys_eq (h : Skips P s t) : t.keys = s.keys := by
  induction h with
  | stop => rfl
  | line hline _ _ ih =>
    obtain ⟨b, d, -, rfl⟩ := nextLine_eq_some hline
    exact ih

theorem ComesTo.meets {t' : Scan} {allowed : Bool} (h : ComesTo places keys i s t t')
    (hkeys : SameKeys s.cursor i s.keys keys) (hkeys' : t.keys = s.keys)
    (hline : s.cursor.line ≤ t.cursor.line)
    (hallowed : allowed = t.keyAllowed ∨ t.IgnoresKey) :
    Meets places t (t'.allowKey allowed) := by
  rw [← hkeys'] at hkeys
  obtain ⟨hne, prev, r, j, rfl, hu, hindex⟩ | ⟨hnil, j, k, rfl, hindex⟩ := h
  · exact .inl ⟨hne, prev, r, j, keys, allowed, rfl, hu, hkeys.later hline hindex, hallowed⟩
  · exact .inr ⟨hnil, rfl, rfl, rfl, rfl, hkeys.nearer hline hindex⟩

theorem ComesTo.allowKey_self {t' : Scan} (h : ComesTo places keys i s t t') :
    t'.allowKey t.keyAllowed = t' := by
  obtain ⟨-, prev, r, j, rfl, -⟩ | ⟨-, j, k, rfl, -⟩ := h <;> rfl

theorem ComesTo.meets_self {t' : Scan} (h : ComesTo places keys i s t t')
    (hkeys : SameKeys s.cursor i s.keys keys) (hkeys' : t.keys = s.keys)
    (hline : s.cursor.line ≤ t.cursor.line) : Meets places t t' :=
  h.allowKey_self ▸ h.meets hkeys hkeys' hline (.inl rfl)

/-- A step reads a token in what is left of the text, and the gap behind it is skipped. -/
def Steps (f : Scan → Option Scan) (places : List Nat) (s' t : Scan) : Prop :=
  ∃ t₁ t', f t = some t₁ ∧ Skips (fun _ => True) t₁ t' ∧ Meets places s' t'

theorem Skips.any (h : Skips P s t) : Skips (fun _ => True) s t := by
  induction h with
  | stop hnone => exact .stop hnone
  | line hline _ _ ih => exact .line hline trivial ih

/-- A gap that starts with a comment that is cut: the text ends with it, or it goes on with the next
line in both texts. -/
theorem Skips.cutHere (h : Skips P s t) (hcut : CutHere places prev blanks s.cursor.rest r) :
    t.cursor.rest.length < s.cursor.rest.length ∧
      ((r = [] ∧ t.cursor.rest = [] ∧ t.cursor.line = s.cursor.line ∧
          s.cursor.index ≤ t.cursor.index ∧ t = s.goTo t.cursor) ∨
        ∃ u r₁, r = '\n' :: r₁ ∧ P u.blanks ∧ Skips P u t ∧
          u = (s.goTo u.cursor).allowKey (s.keyAllowed || !s.inFlow) ∧
          u.cursor.line = s.cursor.line + 1 ∧ u.cursor.column = 0 ∧
          s.gapComments = s.cursor.rest.length :: u.gapComments ∧
          u.cursor.rest.length < s.cursor.rest.length ∧
          Uncommented places (some '\n') u.cursor.rest r₁) := by
  obtain ⟨text, q, hrest, ht, hcases⟩ := hcut.cases
  have hblanks : s.blanks = [] := by
    rw [Scan.blanks, hrest, leadingBlanks]
    simp [isByteOrderMark, isBlankWith]
  have hstop : s.stop = s.cursor := by
    rw [Scan.stop, hblanks]
    simp [Cursor.advance]
  have hbreak : q.head?.all isLineBreak := by
    obtain ⟨rfl, -⟩ | ⟨q₁, r₁, rfl | rfl, -⟩ := hcases <;> rfl
  have hskip : s.stop.skipComment = ⟨q, s.cursor.index + (text.length + 1), s.cursor.line,
      s.cursor.column + (text.length + 1)⟩ := by
    rw [hstop, show s.cursor = ⟨s.cursor.rest, s.cursor.index, s.cursor.line, s.cursor.column⟩
      from rfl, hrest]
    exact skipComment_of ht hbreak _ _ _
  obtain ⟨rfl, rfl⟩ | ⟨q₁, r₁, hq, rfl, hu⟩ := hcases
  · have hnone : s.nextLine? = none := by
      rw [nextLine?, hskip, lineBreak?_eq_none (by simp)]
      rfl
    cases h with
    | stop =>
      rw [hskip]
      refine ⟨by rw [hrest]; simp [goTo], .inl ⟨rfl, rfl, rfl, ?_, rfl⟩⟩
      exact Nat.le_add_right _ _
    | line hline =>
      rw [hnone] at hline
      cases hline
  · have hbreak' : Cursor.lineBreak? ⟨q, s.cursor.index + (text.length + 1), s.cursor.line,
        s.cursor.column + (text.length + 1)⟩ = some ('\n', ⟨q₁, s.cursor.index + (text.length + 1) +
          (q.length - q₁.length), s.cursor.line + 1, 0⟩) := by
      obtain rfl | rfl := hq
      · rw [lineBreak?_newline]
        simp
      · simp [Cursor.lineBreak?]
        omega
    cases h with
    | stop hnone =>
      rw [nextLine?, hskip, hbreak'] at hnone
      cases hnone
    | @line _ u _ hline hPu ht =>
      have hcomments : s.gapComments = s.cursor.rest.length :: u.gapComments := by
        rw [gapComments_eq, hline, hstop, commentAt, if_pos (by rw [hrest]; rfl)]
        rfl
      obtain ⟨b, d, hb, rfl⟩ := nextLine_eq_some hline
      rw [hskip, hbreak'] at hb
      obtain ⟨rfl, rfl⟩ := Prod.mk.inj (Option.some.inj hb)
      have hlt : q₁.length < s.cursor.rest.length := by
        rw [hrest]
        obtain rfl | rfl := hq <;> simp <;> omega
      exact ⟨(ht.length_le).trans_lt hlt, .inr ⟨_, r₁, rfl, hPu, ht, rfl, rfl, rfl, hcomments, hlt, hu⟩⟩

theorem Skips.of_nil (h : s.cursor.rest = []) : Skips P s s := by
  have hblanks : s.blanks = [] := by rw [Scan.blanks, h]; rfl
  have hstop : s.stop = s.cursor := by
    rw [Scan.stop, hblanks]
    simp [Cursor.advance]
  have hskip : s.stop.skipComment = s.cursor := by
    rw [hstop, skipComment_of_ne (by simp [h])]
  have hnone : s.nextLine? = none := by
    rw [nextLine?, hskip, lineBreak?_eq_none (by simp [h])]
    rfl
  have hskips := Skips.stop (P := P) hnone
  rwa [hskip] at hskips

/-- A token or the end of the text. -/
def AtToken (s : List Char) : Prop := ∀ e ∈ s.head?, isSpaceOrBreak e = false ∧ e ≠ '#'

theorem AtToken.noBlank {q : List Char} (h : AtToken q) : NoBlank q := by
  cases q with
  | nil => rfl
  | cons e q => simpa [NoBlank] using (Bool.or_eq_false_iff.mp (h e rfl).1).1

/-- At a token both texts go on with the same word. -/
theorem ComesTo.word {t' : Scan} (h : ComesTo places keys i s t t') (hat : AtToken t.cursor.rest) :
    NoBlank t'.cursor.rest ∧ (t'.cursor.rest = [] ∨
      firstWord t'.cursor.rest = firstWord t.cursor.rest ∧ t'.cursor.column = t.cursor.column) := by
  obtain ⟨hne, prev, r, j, rfl, hu, -⟩ | ⟨-, j, k, rfl, -⟩ := h
  · obtain ⟨a, q, hq⟩ := List.exists_cons_of_ne_nil hne
    rw [hq] at hat hu
    obtain ⟨hword, hcomment⟩ := hat a rfl
    obtain ⟨q', rfl, hq'⟩ := hu.keeps hcomment (Bool.or_eq_false_iff.mp hword).1
    refine ⟨by simpa [NoBlank, onto] using (Bool.or_eq_false_iff.mp hword).1, .inr ⟨?_, rfl⟩⟩
    rw [hq, show (t.onto (a :: q') j keys).cursor.rest = a :: q' from rfl, firstWord_cons,
      firstWord_cons, hq'.firstWord_eq hword]
  · exact ⟨rfl, .inl rfl⟩

/-! ## Plain scalars -/

/-- The plain scalar at the cursor. -/
def plainToken (s : Scan) : Option Scan :=
  (readPlain s.inFlow (blockLeast s.indent) s.cursor).map fun found =>
    ((s.allowKey found.passedBreak).goTo found.after).put (.scalar .plain found.text)

theorem plainScalar_eq : plainScalar = fun s => s.saveKey.bind plainToken := by
  funext s
  rw [plainScalar]
  refine congrArg (Option.bind _) (funext fun s => ?_)
  rw [plainToken, Option.map_eq_bind]
  rfl

/-- What ends a plain scalar in the one text ends it in the other. -/
theorem ends_of_endsPlain {d : Cursor} (h : s.endsPlain t = true)
    (hd : d.rest = [] ∨ firstWord d.rest = firstWord t.cursor.rest ∧ d.column = t.cursor.column) :
    (!s.inFlow && d.column < blockLeast s.indent || stopsPlain s.inFlow d) = true := by
  obtain hnil | ⟨hword, hcolumn⟩ := hd
  · rw [Bool.or_eq_true]
    right
    simp [stopsPlain, hnil, plainRun]
  · rw [endsPlain, Bool.or_eq_true, Bool.or_eq_true] at h
    rw [Bool.or_eq_true]
    obtain (hend | hboundary) | hmark := h
    · right
      have hnil : t.cursor.rest = [] := by simpa [Cursor.atEnd] using hend
      rw [hnil] at hword
      rw [stopsPlain, plainRun_end hword]
      simp
    · right
      rw [stopsPlain, boundary?_congr hword hcolumn, hboundary]
      rfl
    · cases hflow : s.inFlow with
      | true =>
        right
        rw [hflow, if_pos rfl, Cursor.startsWith] at hmark
        cases hq : t.cursor.rest with
        | nil => simp [hq] at hmark
        | cons a q =>
          simp only [hq, List.head?_cons, Option.any_some, Bool.or_eq_true, decide_eq_true_eq]
            at hmark
          have ha : isSpaceOrBreak a = false ∧ isFlowIndicator a = true ∧ a ≠ ':' := by
            obtain (rfl | rfl) | rfl := hmark <;> decide
          rw [hq] at hword
          obtain ⟨q', hq', -⟩ := cons_of_firstWord ha.1 hword
          rw [stopsPlain, hq', plainRun_cons ha.1]
          simp [ha.2.1, ha.2.2]
      | false =>
        left
        rw [hflow, if_neg (by simp)] at hmark
        cases hindent : s.indent with
        | none => simp [hindent] at hmark
        | some n =>
          rw [hindent, Option.any_some, decide_eq_true_eq] at hmark
          rw [Bool.not_false, Bool.true_and, hcolumn]
          exact decide_eq_true (Nat.lt_succ_of_le hmark)

theorem ignoresKey_of_endsPlain (h : s.endsPlain t = true) (hs : s.inFlow = true)
    (ht : t.inFlow = true) : t.IgnoresKey := by
  rw [endsPlain, if_pos hs, Bool.or_eq_true, Bool.or_eq_true] at h
  obtain (hend | hboundary) | hmark := h
  · exact .inl hend
  · exact .inr (.inl hboundary)
  · exact .inr (.inr ⟨ht, hmark⟩)

/-- A plain scalar up to its last word, and the gap behind it that it reads. -/
structure PlainParts (s s₁ : Scan) (y x text : List Char) (e : Cursor) (passed : Bool) : Prop where
  rest : s.cursor.rest = y ++ (x ++ s₁.cursor.rest)
  last : ∃ a ∈ y.getLast?, isSpaceOrBreak a = false
  spaces : ∀ a ∈ x, isSpaceOrBreak a
  word : AtWord s₁.cursor.rest
  index : s₁.cursor.index = s.cursor.index + y.length + x.length
  line : s.cursor.line ≤ s₁.cursor.line
  eq : s₁ = ((s.allowKey passed).goTo s₁.cursor).put (.scalar .plain text)
  gap : e.rest = x ++ s₁.cursor.rest
  ends : plainEnd s.inFlow (blockLeast s.indent) e = some (passed, s₁.cursor)
  ends_again : ∀ r i, AtWord r → firstWord r = firstWord s₁.cursor.rest →
    plainEnd s.inFlow (blockLeast s.indent) ⟨x ++ r, i, e.line, e.column⟩ =
      some (passed, ⟨r, i + x.length, s₁.cursor.line, s₁.cursor.column⟩)
  again : ∀ r i keys passed' d, keys.length = s.keys.length → firstWord r = firstWord e.rest →
    plainEnd s.inFlow (blockLeast s.indent) ⟨r, i + y.length, e.line, e.column⟩ =
      some (passed', d) →
    (s.onto (y ++ r) i keys).plainToken =
      some ((((s.onto (y ++ r) i keys).allowKey passed').goTo d).put (.scalar .plain text))

theorem plainToken_parts (h : s.plainToken = some s₁) (hstop : stopsPlain s.inFlow s.cursor = false) :
    ∃ y x text e passed, PlainParts s s₁ y x text e passed := by
  obtain ⟨found, hread, rfl⟩ := Option.map_eq_some_iff.mp h
  obtain ⟨y, e, hy, -, hlast, hline, hend, hagain⟩ := plainFrom_words hstop hread
  obtain ⟨hword, heline, x, hx, hxs, hendagain⟩ := plainEnd_again hend
  have hindex : found.after.index = s.cursor.index + y.length + x.length := by
    have hself := hendagain found.after.rest (s.cursor.index + y.length) hword rfl
    rw [← hx] at hself
    have hread' := hagain e.rest s.cursor.index (s.cursor.rest.length + 1) _ _
      (by rw [hy]; exact Nat.lt_succ_self _) rfl hself
    rw [← hy] at hread'
    have heq := hread.symm.trans hread'
    rw [(PlainScalar.mk.inj (Option.some.inj heq)).2.2]
  refine ⟨y, x, found.text, e, found.passedBreak, ?_, hlast, hxs, hword, hindex,
    hline.trans heline, rfl, hx, hend, hendagain, fun r i keys passed' d hk hr hd => ?_⟩
  · rw [hy, hx]
    rfl
  · have hread' := hagain r i ((y ++ r).length + 1) passed' d (Nat.lt_succ_self _) hr hd
    rw [plainToken, inFlow_onto hk]
    exact congrArg (Option.map _) hread'

variable {s' : Scan} {y x text : List Char} {e : Cursor} {passed : Bool}

/-- A plain scalar whose gap goes on as before is read again. -/
theorem PlainParts.steps_uncut (h : PlainParts s s₁ y x text e passed)
    (hs : Skips (fun _ => True) s₁ s') (hat : AtToken s'.cursor.rest)
    (hu : Uncommented places prev s₁.cursor.rest r) (hhead : r.head? = s₁.cursor.rest.head?)
    (hkeys : SameKeys s.cursor i s.keys keys)
    (hfree : ∀ p ∈ places, p ≤ s₁.cursor.rest.length →
      p ∈ s₁.gapComments ∨ p ≤ s'.cursor.rest.length) :
    Steps plainToken places s' (s.onto (y ++ (x ++ r)) i keys) := by
  have hfirst := hu.firstWord_of_head h.word hhead
  have hword : AtWord r := by
    rw [AtWord, hhead]
    exact h.word
  have hk : s₁.keys = s.keys := by rw [h.eq]; rfl
  have hread := h.again (x ++ r) i keys passed _ hkeys.length_eq
    (by rw [h.gap]; exact firstWord_append hfirst x) (h.ends_again r (i + y.length) hword hfirst)
  have hsame : SameKeys s₁.cursor (i + y.length + x.length) s₁.keys keys := by
    rw [hk]
    refine hkeys.later h.line fun _ => ?_
    rw [h.index]
    omega
  obtain ⟨-, t', ht, hcomes⟩ := hs.cut (i := i + y.length + x.length) (fun _ _ _ => trivial)
    hat.noBlank hsame.length_eq hu hfree
  refine ⟨_, t', hread, ?_, hcomes.meets_self hsame hs.keys_eq hs.line_le⟩
  have hplace : s₁.onto r (i + y.length + x.length) keys =
      (((s.onto (y ++ (x ++ r)) i keys).allowKey passed).goTo
        ⟨r, i + y.length + x.length, s₁.cursor.line, s₁.cursor.column⟩).put
          (.scalar .plain text) := by
    rw [h.eq]
    rfl
  rwa [← hplace]

section Cut

variable {y₁ : List Char} (h : PlainParts s s₁ y (y₁ ++ blanks) text e passed)
  (hblanks : ∀ a ∈ blanks, isSpaceOrTab a)
  (hcut : CutHere places (y₁.getLast?.or prev) blanks s₁.cursor.rest r)
  (hfirst : firstWord (y₁ ++ r) = firstWord e.rest)

include h hblanks hcut hfirst

/-- Before a comment that is cut the scalar reads on in the lines that stand in its place. -/
theorem PlainParts.again_cut (i : Nat) :
    ∃ left, r.length ≤ left ∧ ∀ gap d keys, keys.length = s.keys.length →
      Gap.read.lines (blockLeast s.indent) left ⟨r, i + y.length + y₁.length, s₁.cursor.line,
        s₁.cursor.column - blanks.length⟩ = some (gap, d) →
      (!s.inFlow && d.column < blockLeast s.indent || stopsPlain s.inFlow d) = true →
        (s.onto (y ++ (y₁ ++ r)) i keys).plainToken =
          some ((((s.onto (y ++ (y₁ ++ r)) i keys).allowKey (passed || !gap.breaks.isEmpty)).goTo
            d).put (.scalar .plain text)) := by
  have hnoblank : NoBlank r := by
    obtain rfl | ⟨r', rfl⟩ := hcut.head <;> rfl
  have hsame : SameBreak y₁ (blanks ++ s₁.cursor.rest) r := by
    intro hlast
    refine absurd ?_ hcut.same_break
    rw [hlast]
    rfl
  obtain ⟨-, left, hleft, hagain⟩ := plainEnd_cut h.ends (by rw [h.gap, List.append_assoc])
    (fun a ha => h.spaces a (List.mem_append_left _ ha)) hblanks (i + y.length) hnoblank hsame
  exact ⟨left, hleft, fun gap d keys hk hlines hend =>
    h.again (y₁ ++ r) i keys _ d hk hfirst (hagain gap d hlines hend)⟩

/-- Where the text ends in a comment that is cut the scalar ends with the other text. -/
theorem PlainParts.steps_end (hr : r = []) (hs' : s' = s₁.goTo s'.cursor)
    (hnil : s'.cursor.rest = []) (hline : s'.cursor.line = s₁.cursor.line)
    (hindex : s₁.cursor.index ≤ s'.cursor.index) (hkeys : SameKeys s.cursor i s.keys keys) :
    Steps plainToken places s' (s.onto (y ++ (y₁ ++ r)) i keys) := by
  obtain ⟨left, -, hagain⟩ := h.again_cut hblanks hcut hfirst i
  have hread := hagain .empty _ keys hkeys.length_eq
    (Gap.lines_stop (by rw [hr]; simp) left) (by simp [stopsPlain, hr, plainRun])
  refine ⟨_, _, hread, .of_nil hr, .inr ⟨hnil, hr, hline.symm, ?_, ?_, ?_⟩⟩
  · rw [hs', h.eq]
    rfl
  · rw [hs', h.eq]
    rfl
  · have hk : s'.keys = s.keys := by
      rw [hs', h.eq]
      rfl
    rw [hk]
    refine hkeys.nearer (hline ▸ h.line) fun _ => ?_
    have hplace := h.index
    rw [List.length_append] at hplace
    change i + y.length + y₁.length + s.cursor.index ≤ s'.cursor.index + i
    omega

/-- Where a line follows a comment that is cut the scalar reads the blank lines there, and ends. -/
theorem PlainParts.steps_line {u : Scan} {r₁ : List Char} (hr : r = '\n' :: r₁)
    (hu : u = (s₁.goTo u.cursor).allowKey (s₁.keyAllowed || !s₁.inFlow))
    (hline : u.cursor.line = s₁.cursor.line + 1) (hcolumn : u.cursor.column = 0)
    (hspaces : ∀ a ∈ u.blanks, a = ' ')
    (hs : Skips (fun b => ∀ a ∈ b, a = ' ') u s') (hat : AtToken s'.cursor.rest)
    (hends : s.endsPlain s' = true) (hu₁ : Uncommented places (some '\n') u.cursor.rest r₁)
    (hfree : ∀ p ∈ places, p ≤ u.cursor.rest.length →
      p ∈ u.gapComments ∨ p ≤ s'.cursor.rest.length)
    (hkeys : SameKeys s.cursor i s.keys keys) :
    Steps plainToken places s' (s.onto (y ++ (y₁ ++ r)) i keys) := by
  obtain ⟨left, hleft, hagain⟩ := h.again_cut hblanks hcut hfirst i
  have hk : u.keys = s.keys := by
    rw [hu, h.eq]
    rfl
  have hkline := h.line
  have hsame : SameKeys u.cursor (i + y.length + y₁.length + 1) u.keys keys := by
    rw [hk]
    exact hkeys.later (by omega) fun _ => by omega
  obtain ⟨⟨z, hz⟩, t', hskips, hcomes⟩ := hs.cut (i := i + y.length + y₁.length + 1)
    (fun b b' hb a ha => hb a (List.mem_append_left _ ha)) hat.noBlank hsame.length_eq hu₁ hfree
  obtain ⟨hnoblank, hword⟩ := hcomes.word hat
  generalize hv : u.onto r₁ (i + y.length + y₁.length + 1) keys = v at hskips hz
  have hvblanks : ∀ a ∈ v.blanks, a = ' ' := fun a ha =>
    hspaces a (hz ▸ List.mem_append_left _ ha)
  have hvcolumn : v.cursor.column = 0 := by rw [← hv]; exact hcolumn
  have hvrest : v.cursor.rest = r₁ := by rw [← hv]; rfl
  have hvflow : v.inFlow = s.inFlow := by
    rw [← hv, inFlow_onto hsame.length_eq, inFlow, hk, inFlow]
  obtain ⟨left, rfl⟩ : ∃ n, left = n + 1 := ⟨left - 1, by rw [hr] at hleft; simp at hleft; omega⟩
  obtain ⟨gap, d, hlines, hd, hskips'⟩ := hskips.lines (blockLeast s.indent) left
    (fun b hb => hb) hnoblank hvblanks hvcolumn (by
      have hle := length_stop v
      rw [hvrest] at hle
      rw [hr, List.length_cons] at hleft
      omega)
  have hnewline := lineBreak?_newline r₁ (i + y.length + y₁.length) s₁.cursor.line
    (s₁.cursor.column - blanks.length)
  rw [← hline, ← hcolumn, show (⟨r₁, i + y.length + y₁.length + 1, u.cursor.line,
    u.cursor.column⟩ : Cursor) = v.cursor from hv ▸ rfl] at hnewline
  have hbreak := lines_behind_break (blockLeast s.indent) left hnewline hvblanks
    (hskips.stop_noBlank hnoblank)
  rw [hlines, Option.map_some, ← hr] at hbreak
  have hend : (!s.inFlow && d.column < blockLeast s.indent || stopsPlain s.inFlow d) = true := by
    obtain hcomment | rfl := hd
    · rw [Bool.or_eq_true]
      right
      simp [stopsPlain, hcomment]
    · exact ends_of_endsPlain hends hword
  have hread := hagain _ d keys hkeys.length_eq hbreak hend
  refine ⟨_, t'.allowKey (s.inFlow || s'.keyAllowed), hread, ?_, ?_⟩
  · have hplace : (((s.onto (y ++ (y₁ ++ r)) i keys).allowKey
        (passed || !('\n' :: gap.breaks).isEmpty)).goTo d).put (.scalar .plain text) =
          (v.goTo d).allowKey true := by
      rw [← hv, hu, h.eq, Bool.or_comm]
      rfl
    refine Skips.any (P := fun b => ∀ a ∈ b, a = ' ') (hplace ▸ ?_)
    cases hflow : s.inFlow with
    | true => exact hskips'.allowKey (hvflow.trans hflow) true
    | false =>
      have hvallowed : v.keyAllowed = true := by
        have hflow₁ : s₁.inFlow = false := by
          rw [h.eq]
          exact hflow
        rw [← hv, hu, hflow₁]
        exact Bool.or_true _
      rw [Bool.false_or, hcomes.allowKey_self]
      rwa [hvallowed, Bool.true_or] at hskips'
  · refine hcomes.meets hsame hs.keys_eq hs.line_le ?_
    cases hflow : s.inFlow with
    | false => exact .inl rfl
    | true =>
      have hsflow : s'.inFlow = s.inFlow := by rw [inFlow, hs.keys_eq, hk, inFlow]
      exact .inr (ignoresKey_of_endsPlain hends hflow (hsflow.trans hflow))

end Cut

theorem saveKey_same (h : s.saveKey = some s₁) :
    s₁.cursor = s.cursor ∧ s₁.inFlow = s.inFlow ∧ s₁.indent = s.indent := by
  rw [saveKey] at h
  split at h
  · obtain ⟨s₂, hs₂, heq⟩ := Option.bind_eq_some_iff.mp h
    obtain rfl := Option.some.inj heq
    rw [dropKey, Option.ite_none_left_eq_some] at hs₂
    obtain rfl := Option.some.inj hs₂.2
    refine ⟨rfl, ?_, rfl⟩
    cases hk : s.keys <;> simp [inFlow, setKey, hk]
  · obtain rfl := Option.some.inj h
    exact ⟨rfl, rfl, rfl⟩

/-- A plain scalar is read in what is left of the text, if the comments that are cut behind it are
free. -/
theorem plainScalar_steps (h : s.plainScalar = some s₁)
    (hstop : stopsPlain s.inFlow s.cursor = false) (hs : Skips (fun _ => True) s₁ s')
    (hat : AtToken s'.cursor.rest) (hu : Uncommented places prev s.cursor.rest r)
    (hkeys : SameKeys s.cursor i s.keys keys)
    (hfree : ∀ p ∈ places, p ≤ s.cursor.rest.length →
      (s₁.spaced = true ∧ s.endsPlain s' = true ∧ p ∈ s₁.gapComments) ∨
        p ≤ s'.cursor.rest.length) :
    Steps plainScalar places s' (s.onto r i keys) := by
  rw [plainScalar_eq] at h ⊢
  obtain ⟨s₂, hs₂, h⟩ := Option.bind_eq_some_iff.mp h
  obtain ⟨hcursor, hflow, hindent⟩ := saveKey_same hs₂
  obtain ⟨keys₂, hsave, hkeys₂⟩ := (carries_saveKey s s₂ hs₂).2 r i keys hkeys
  rw [List.drop_zero, Nat.add_zero] at hsave
  suffices hsteps : Steps plainToken places s' (s₂.onto r i keys₂) by
    obtain ⟨t₁, t', hread, hskips, hmeets⟩ := hsteps
    exact ⟨t₁, t', by simp only [hsave, Option.bind_some, hread], hskips, hmeets⟩
  have hends : s₂.endsPlain s' = s.endsPlain s' := by rw [endsPlain, endsPlain, hflow, hindent]
  rw [← hcursor, ← hflow] at hstop
  rw [← hcursor] at hu
  rw [← hcursor, ← hends] at hfree
  rw [Nat.add_zero] at hkeys₂
  obtain ⟨y, x, text, e, passed, hparts⟩ := plainToken_parts h hstop
  obtain ⟨a, ha, hword⟩ := hparts.last
  have hle : ∀ p ∈ places, p ≤ s₂.cursor.rest.length → p ≤ s₁.cursor.rest.length := by
    intro p hmem hlen
    obtain ⟨-, -, hgap⟩ | hle := hfree p hmem hlen
    · exact le_of_gapComments hgap
    · exact hle.trans hs.length_le
  have hlen := congrArg List.length hparts.rest
  simp only [List.length_append] at hlen
  rw [hparts.rest] at hu
  obtain ⟨r, rfl, hu'⟩ := hu.split_last ⟨a, ha, (Bool.or_eq_false_iff.mp hword).1⟩
    fun p hmem hlen => by
      rw [← hparts.rest] at hlen
      exact (hle p hmem hlen).trans (by simp)
  rw [Option.mem_def.mp ha] at hu'
  have hfirst := hu'.firstWord_eq hword
  obtain ⟨r, rfl, hr, hhead⟩ | ⟨y₁, blanks, r, rfl, hblanks, rfl, hcut⟩ :=
    hu'.gap_cases hparts.word fun p hmem hlen => hle p hmem (by
      rw [List.length_append] at hlen
      omega)
  · exact hparts.steps_uncut hs hat hr hhead hkeys₂ fun p hmem hlen =>
      (hfree p hmem (by omega)).imp_left fun h => h.2.2
  · rw [← hparts.gap] at hfirst
    obtain ⟨hlt, hcases⟩ := hs.cutHere hcut
    -- the comment that is cut is one of those that are free
    obtain ⟨hspaced, hends, -⟩ : s₁.spaced = true ∧ s₂.endsPlain s' = true ∧
        s₁.cursor.rest.length ∈ s₁.gapComments := by
      obtain hfound | hlen := hfree _ hcut.mem_places (by omega)
      · exact hfound
      · omega
    have hskips : Skips (fun b => ∀ a ∈ b, a = ' ') s₁ s' :=
      hs.of_gap fun line hline => by simpa using List.all_eq_true.mp hspaced line hline
    obtain ⟨hr, hnil, hline, hindex, hs'⟩ | ⟨u, r₁, hr, hspaces, hskips, heq, hline, hcolumn,
      hcomments, hult, hu₁⟩ := (hskips.cutHere hcut).2
    · exact hparts.steps_end hblanks hcut hfirst hr hs' hnil hline hindex hkeys₂
    · refine hparts.steps_line hblanks hcut hfirst hr heq hline hcolumn hspaces hskips hat hends
        hu₁ (fun p hmem hlen => ?_) hkeys₂
      obtain ⟨-, -, hgap⟩ | hle := hfree p hmem (by omega)
      · rw [hcomments, List.mem_cons] at hgap
        exact .inl (hgap.resolve_left (by omega))
      · exact .inr hle

end Scan

end ClusterConfig.Yaml
