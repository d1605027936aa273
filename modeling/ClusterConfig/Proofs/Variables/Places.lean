import ClusterConfig.Documents.Reading
import ClusterConfig.Proofs.Text.StrippedLines
import ClusterConfig.Proofs.Variables.Table

/-!
# Where expansion fails

The line of an error is that of the dollar sign of the expression that fails. Words are expanded
where they stand, so this holds at every depth; and as comments are taken away without moving what
is left, the dollar sign is on that line of the document itself.
-/

set_option autoImplicit false

namespace ClusterConfig.Variables

open Text (newlineCount newlineCount_append newlineCount_eq_zero firstLine lastLine)

variable {text word rest before after name : List Char} {colon : Bool} {operator : Operator}
  {line : Nat} {vars : Bindings} {out : Outcome} {e : ExpansionError}

/-- The text starts with the expression that fails. -/
def Fails : ExpansionError → List Char → Prop
  | .unset name _, text => isName name.toList = true ∧ ∃ rest, Mentions name.toList text rest
  | .required name _ _, text =>
    isName name.toList = true ∧ ∃ colon word rest, Balanced word ∧
      text = braced (wordBody name.toList colon .require word) ++ rest
  | .unterminated _, text =>
    ∃ rest, text = '$' :: '\x7b' :: rest ∧
      ∀ body after, Balanced body → rest ≠ body ++ '\x7d' :: after
  | .invalid body _, text =>
    Balanced body.toList ∧ Malformed body.toList ∧ ∃ rest, text = braced body.toList ++ rest

/-- How the text of an expression that fails starts: where a variable is to blame, with its name. -/
def Opens : ExpansionError → List Char → Prop
  | .unset name _, text | .required name _ _, text =>
    '$' :: name.toList <+: text ∨ '$' :: '\x7b' :: name.toList <+: text
  | .unterminated _, text | .invalid _ _, text => ['$', '\x7b'] <+: text

/-- A brace that opens inside a balanced text is closed there. -/
theorem Balanced.closes {u v : List Char} (h : Balanced (u ++ '\x7b' :: v)) :
    ∃ inner s, Balanced inner ∧ v = inner ++ '\x7d' :: s := by
  generalize hs : u ++ '\x7b' :: v = t at h
  induction h generalizing u v with
  | nil => simp at hs
  | char hopen _ _ ih =>
    cases u with
    | nil => exact absurd (List.cons.inj hs).1.symm hopen
    | cons x u => exact ih (List.cons.inj hs).2
  | @braces inner t hinner _ ihi ih =>
    cases u with
    | nil => exact ⟨inner, t, hinner, (List.cons.inj hs).2⟩
    | cons x u =>
      obtain ⟨m, rfl, hv⟩ | ⟨m, hu, hv⟩ := List.append_eq_append_iff.mp (List.cons.inj hs).2
      · cases m with
        | nil => cases hv
        | cons y m =>
          obtain ⟨rfl, rfl⟩ := List.cons.inj hv
          obtain ⟨i, s, hi, rfl⟩ := ihi rfl
          exact ⟨i, s ++ '\x7d' :: t, hi, by simp⟩
      · cases m with
        | nil => cases hv
        | cons y m => exact ih (List.cons.inj hv).2.symm

/-- What fails inside a word fails where the word stands. -/
theorem Fails.inside (hw : Balanced (before ++ text)) (h : Fails e text) (rest : List Char) :
    Fails e (text ++ '\x7d' :: rest) := by
  cases e with
  | unset name _ =>
    obtain ⟨hn, more, hm⟩ := h
    refine ⟨hn, more ++ '\x7d' :: rest, ?_⟩
    cases hm with
    | bare hends =>
      have hends : EndsName (more ++ '\x7d' :: rest) := by
        cases more with
        | nil => simp [EndsName]; decide
        | cons c more => exact hends
      simpa using Mentions.bare hends
    | braced =>
      rw [List.append_assoc]
      exact .braced _
  | required name _ _ =>
    obtain ⟨hn, colon, word, more, hb, rfl⟩ := h
    exact ⟨hn, colon, word, more ++ '\x7d' :: rest, hb, by simp⟩
  | unterminated _ =>
    obtain ⟨more, rfl, hopen⟩ := h
    have hw' : Balanced ((before ++ ['$']) ++ '\x7b' :: more) := by simpa using hw
    obtain ⟨inner, s, hi, rfl⟩ := hw'.closes
    exact absurd rfl (hopen inner s hi)
  | invalid body _ =>
    obtain ⟨hb, hm, more, rfl⟩ := h
    exact ⟨hb, hm, more ++ '\x7d' :: rest, by simp⟩

theorem newlineCount_braced (hn : isName name = true) :
    newlineCount (braced (wordBody name colon operator word)) = newlineCount word := by
  have h : (Piece.braced (wordBody name colon operator word)).newlines = newlineCount word :=
    newlines_wordBody hn
  simpa [braced, newlineCount, Piece.newlines] using h

theorem newlineCount_lead (hn : isName name = true) :
    newlineCount ('$' :: '\x7b' :: (name ++ operator.mark colon)) = 0 := by
  have h : newlineCount (braced (wordBody name colon operator [])) = newlineCount [] :=
    newlineCount_braced hn
  simpa [braced, wordBody, newlineCount] using h

theorem newlineCount_mentioned (hn : isName name = true) (h : Mentions name text rest) :
    ∃ lead, text = lead ++ rest ∧ newlineCount lead = 0 := by
  have hz : newlineCount name = 0 := by simpa [Piece.newlines] using newlines_name hn
  cases h with
  | bare => exact ⟨'$' :: name, by simp, by simpa [newlineCount] using hz⟩
  | braced => exact ⟨braced name, rfl, by simpa [braced, newlineCount] using hz⟩

/-- An error comes from an expression at a place of the text, and its line is the line of that place. -/
def FailsAt (e : ExpansionError) (line : Nat) (text : List Char) : Prop :=
  ∃ before after, text = before ++ after ∧ e.line = line + newlineCount before ∧ Fails e after

theorem FailsAt.here (h : Fails e text) (hl : e.line = line) : FailsAt e line text :=
  ⟨[], text, rfl, by simpa [newlineCount] using hl, h⟩

theorem FailsAt.behind (lead : List Char) (h : FailsAt e (line + newlineCount lead) text) :
    FailsAt e line (lead ++ text) := by
  obtain ⟨before, after, rfl, hl, hf⟩ := h
  exact ⟨lead ++ before, after, by simp, by rw [hl, newlineCount_append]; omega, hf⟩

theorem FailsAt.inside {lead : List Char} (hw : Balanced word) (hz : newlineCount lead = 0)
    (h : FailsAt e line word) (rest : List Char) :
    FailsAt e line (lead ++ (word ++ '\x7d' :: rest)) := by
  obtain ⟨before, after, rfl, hl, hf⟩ := h
  refine ⟨lead ++ before, after ++ '\x7d' :: rest, by simp, ?_, hf.inside hw rest⟩
  rw [hl, newlineCount_append, hz, Nat.zero_add]

theorem behind_error {lead : List Char} (h : (out.behind lead).result = .error e) :
    out.result = .error e := by
  obtain ⟨vars, result⟩ := out
  cases result with
  | error _ => exact h
  | ok _ => cases h

theorem failsAt_of_expands (h : Expands text line vars out) (he : out.result = .error e) :
    FailsAt e line text := by
  induction h with
  | nil => cases he
  | @char c _ _ _ _ _ _ ih => exact (ih (behind_error he)).behind [c]
  | escaped _ ih =>
    exact FailsAt.behind ['$', '$'] (by simpa [newlineCount] using ih (behind_error he))
  | lone _ _ ih =>
    exact FailsAt.behind ['$'] (by simpa [newlineCount] using ih (behind_error he))
  | value hn ht _ _ ih =>
    obtain ⟨lead, rfl, hz⟩ := newlineCount_mentioned hn ht
    exact FailsAt.behind _ (by simpa [hz] using ih (behind_error he))
  | unset hn ht _ =>
    cases he
    exact .here ⟨by simpa using hn, _, by simpa using ht⟩ rfl
  | unused hn _ _ _ ih =>
    exact FailsAt.behind _ (by simpa [newlineCount_braced hn] using ih (behind_error he))
  | inserted hn _ _ _ _ _ _ ih =>
    exact FailsAt.behind _ (by simpa [newlineCount_braced hn] using ih (behind_error he))
  | assigned hn _ _ _ _ _ ih =>
    exact FailsAt.behind _ (by simpa [newlineCount_braced hn] using ih (behind_error he))
  | @required _ _ rest _ colon _ _ _ hn hw _ _ _ =>
    cases he
    exact .here ⟨by simpa using hn, colon, _, rest, hw, by simp⟩ rfl
  | @failed name word rest colon operator _ _ _ _ hn hw _ _ ih =>
    cases he
    have hsplit : braced (wordBody name colon operator word) ++ rest =
        ('$' :: '\x7b' :: (name ++ operator.mark colon)) ++ (word ++ '\x7d' :: rest) := by
      simp [braced, wordBody]
    rw [hsplit]
    exact (ih rfl).inside hw (newlineCount_lead hn) rest
  | @malformed _ rest _ _ hb hm =>
    cases he
    exact .here ⟨by simpa using hb, by simpa using hm, rest, by simp⟩ rfl
  | unterminated h =>
    cases he
    exact .here ⟨_, rfl, h⟩ rfl

/-! ## Documents -/

/-- The start of an expression that fails stands on one line. -/
theorem Fails.opens (h : Fails e text) : Opens e (firstLine text) := by
  have hname {s : List Char} (hs : isName s = true) : '\n' ∉ s :=
    fun hm => absurd (all_of_isName hs _ hm) (by decide)
  have hbare {s : List Char} (hs : isName s = true) (rest : List Char) :
      '$' :: s <+: firstLine ('$' :: (s ++ rest)) := by
    rw [← List.cons_append, Text.firstLine_append (by simpa using hname hs)]
    exact List.prefix_append _ _
  have hbraced {s : List Char} (hs : isName s = true) (rest : List Char) :
      '$' :: '\x7b' :: s <+: firstLine ('$' :: '\x7b' :: (s ++ rest)) := by
    rw [← List.cons_append, ← List.cons_append, Text.firstLine_append (by simpa using hname hs)]
    exact List.prefix_append _ _
  cases e with
  | unset name _ =>
    obtain ⟨hn, rest, hm⟩ := h
    cases hm with
    | bare _ => exact .inl (hbare hn rest)
    | braced => exact .inr (by simpa [braced] using hbraced hn ('\x7d' :: rest))
  | required name _ _ =>
    obtain ⟨hn, colon, word, rest, -, rfl⟩ := h
    refine .inr ?_
    simpa [braced, wordBody] using
      hbraced hn (Operator.require.mark colon ++ (word ++ '\x7d' :: rest))
  | unterminated _ =>
    obtain ⟨rest, rfl, -⟩ := h
    exact ⟨firstLine rest, rfl⟩
  | invalid body _ =>
    obtain ⟨-, -, rest, rfl⟩ := h
    exact ⟨firstLine (body.toList ++ ('\x7d' :: rest)), by simp [braced, firstLine]⟩

theorem Opens.mono {longer : List Char} (h : Opens e text) (hp : text <+: longer) :
    Opens e longer := by
  cases e with
  | unset _ _ => exact h.imp (·.trans hp) (·.trans hp)
  | required _ _ _ => exact h.imp (·.trans hp) (·.trans hp)
  | unterminated _ => exact h.trans hp
  | invalid _ _ => exact h.trans hp

/-- Expanding a document without its comments fails at a place of the document: the line in the error
is the line of that place, the text before it on its line is there in both, and the expression that
fails starts there. -/
def FailsIn (e : ExpansionError) (document : String) : Prop :=
  ∃ before after u v, document.toList = before ++ after ∧ e.line = newlineCount before + 1 ∧
    Opens e after ∧ (Text.stripComments document).toList = u ++ v ∧
    newlineCount u = newlineCount before ∧ lastLine u = lastLine before ∧ Fails e v

theorem failsIn_of_substitute {document : String} {later : Bindings}
    (h : substitute (Text.stripComments document) vars = (later, .error e)) :
    FailsIn e document := by
  have hexpands : Expands (Text.stripComments document).toList 1 vars ⟨later, .error e⟩ :=
    substitute_iff.mpr h
  obtain ⟨u, v, hs, hline, hfails⟩ := failsAt_of_expands hexpands rfl
  obtain ⟨before, after, hd, hn, hl, hp⟩ := (Text.shortened_stripComments document).place hs
  exact ⟨before, after, u, v, hd, by omega, hfails.opens.mono hp, hs, hn.symm, hl.symm, hfails⟩

/-- When a document cannot be expanded, the error names a line of the document as it was before its
comments were taken away: the line of the dollar sign that the failing expression starts with. -/
theorem reported_line_in_document {decrypt : Encryption.Decryptor} {path source : String}
    {content : ByteArray} {vars later : Bindings} {e : ExpansionError}
    (h : Documents.readBytes decrypt path content vars = (later, .error (.expand source e))) :
    ∃ plain document, Encryption.unwrap decrypt content = .ok plain ∧
      String.fromUTF8? plain = some document ∧ FailsIn e document := by
  rw [Documents.readBytes] at h
  split at h
  · cases h
  · rename_i plain hplain
    split at h
    · cases h
    · rename_i document hdocument
      refine ⟨plain, document, hplain, hdocument, ?_⟩
      rcases hs : substitute (Text.stripComments document) vars with ⟨after, failure | text⟩
      · rw [hs] at h
        cases h
        exact failsIn_of_substitute hs
      · rw [hs] at h
        cases h

/-- A variable that is missing in a word on the fourth line, behind a comment. -/
theorem missing_in_word_behind_comment :
    let document := "a: 1\n# note\nb: $\x7bX:-c # $Z\n  $Y\x7d\n"
    let e := ExpansionError.unset "Y" 4
    Documents.readBytes Encryption.Decryptor.unavailable "c" document.toUTF8 {} =
      ({}, .error (.expand "c" e)) ∧
    ∃ plain text, Encryption.unwrap Encryption.Decryptor.unavailable document.toUTF8 = .ok plain ∧
      String.fromUTF8? plain = some text ∧ FailsIn e text := by
  intro document e
  have hplain : Encryption.isEncrypted document.toUTF8 = false := by decide +kernel
  have htext : String.fromUTF8? document.toUTF8 = some document := by decide +kernel
  have hstripped : (Text.stripComments document).toList = "a: 1\n\nb: ".toList ++
      (braced (wordBody ['X'] true .default ("c\n  ".toList ++ ['$', 'Y'])) ++ ['\n']) := by
    decide +kernel
  have hname : Mentions ['Y'] ['$', 'Y'] [] := .bare (by simp [EndsName])
  have hword : Expands ("c\n  ".toList ++ ['$', 'Y']) 3 {} ⟨{}, .error e⟩ :=
    .literal (by decide) (.unset (by decide) hname (by decide))
  have hexpands : Expands (Text.stripComments document).toList 1 {} ⟨{}, .error e⟩ := by
    rw [hstripped]
    exact .literal (by decide) (.failed (by decide) (by decide) (by decide) hword)
  have hread : Documents.readBytes Encryption.Decryptor.unavailable "c" document.toUTF8 {} =
      ({}, .error (.expand "c" e)) := by
    have hs := substitute_iff.mp hexpands
    rw [Documents.readBytes, Encryption.unwrap_plain _ hplain]
    simp only [htext, hs]
    rfl
  exact ⟨hread, reported_line_in_document hread⟩

end ClusterConfig.Variables
