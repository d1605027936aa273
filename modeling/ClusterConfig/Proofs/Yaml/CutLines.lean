import ClusterConfig.Proofs.Yaml.GapReader

/-!
# Lines of blanks and a comment

A line that holds nothing but blanks and a comment is still such a line once comments are cut out,
with the same line break behind it.
-/

set_option autoImplicit false

namespace ClusterConfig.Yaml

variable {places : List Nat} {prev : Option Char} {b comment rest t x : List Char} {c d : Cursor}

theorem head_of_lineBreak? {ch : Char} (h : c.lineBreak? = some (ch, d)) :
    c.rest.head?.all isLineBreak := by
  obtain ⟨x, hx, hne, hbreaks, -, -⟩ := lineBreak?_eq_some h
  obtain ⟨e, x, rfl⟩ := List.exists_cons_of_ne_nil hne
  rw [hx]
  simpa using hbreaks e (by simp)

theorem no_comment_of_break (h : rest.head?.all isLineBreak) : rest.head? ≠ some '#' := by
  intro heq
  rw [heq] at h
  cases h

/-- What is cut at a comment is the comment. -/
theorem CutHere.comment_eq {blanks text : List Char} (ht : ∀ e ∈ text, isLineBreak e = false)
    (hrest : rest.head?.all isLineBreak) (h : CutHere places prev blanks ('#' :: (text ++ rest)) t) :
    ∃ cr s, rest = cr ++ s ∧ EndsComment cr s ∧ Uncommented places (some '#') s t := by
  obtain ⟨text', cr, s, heq, -, ht', he, -, hu⟩ := h
  refine ⟨cr, s, ?_, he, hu⟩
  have hend : (cr ++ s).head?.all isLineBreak := by
    obtain ⟨rfl, rfl⟩ | ⟨rfl | rfl, hs⟩ := he
    · rfl
    · simp [hs, isLineBreak]
    · rfl
  have hstop {w : List Char} (hw : w.head?.all isLineBreak) : ∀ e ∈ w.head?, (!isLineBreak e) = false := by
    intro e hmem
    simpa [Option.mem_def.mp hmem] using hw
  have htake := congrArg (List.takeWhile (!isLineBreak ·)) (List.cons.inj heq).2
  rw [takeWhile_append_stop (by simpa using ht) (hstop hrest),
    takeWhile_append_stop (by simpa using ht') (hstop hend)] at htake
  subst htake
  exact List.append_cancel_left (List.cons.inj heq).2

/-- No blanks stand in front of what starts with a mark. -/
theorem blanks_eq_nil {blanks q s : List Char} (hblanks : ∀ e ∈ blanks, isSpaceOrTab e)
    (hq : '#' :: s = blanks ++ q) : blanks = [] := by
  cases blanks with
  | nil => rfl
  | cons e blanks =>
    have he := hblanks e (by simp)
    rw [← (List.cons.inj hq).1] at he
    cases he

/-- Blanks and a comment behind them stay, or the comment is cut off with some of the blanks. -/
theorem Uncommented.line_rest (h : Uncommented places prev (b ++ (comment ++ rest)) t)
    (hcomment : IsComment comment) (hno : NoBlank (comment ++ rest))
    (hword : comment = [] → rest.head? ≠ some '#')
    (hrest : comment ≠ [] → rest.head?.all isLineBreak)
    (hp : ∀ p ∈ places, p ≤ (b ++ (comment ++ rest)).length →
      p = (comment ++ rest).length ∨ p ≤ rest.length) :
    (∃ prev' t', t = b ++ (comment ++ t') ∧ Uncommented places prev' rest t') ∨
      comment ≠ [] ∧ ∃ y blanks cr s t', b = y ++ blanks ∧ rest = cr ++ s ∧ EndsComment cr s ∧
        t = y ++ t' ∧ Uncommented places (some '#') s t' := by
  have hle : ∀ p ∈ places, p ≤ (b ++ (comment ++ rest)).length → p ≤ (comment ++ rest).length := by
    intro p hmem hlen
    obtain rfl | hlt := hp p hmem hlen
    · exact le_rfl
    · rw [List.length_append]
      omega
  obtain rfl | ⟨text, rfl, ht⟩ := hcomment
  · obtain ⟨t', rfl, hu⟩ | ⟨y, blanks, more, q, t', -, -, hmore, -, hblanks, text, cr, s, rfl, -⟩ :=
      h.split hle
    · exact .inl ⟨_, t', rfl, hu⟩
    · rw [List.nil_append] at hno hmore
      subst hmore
      cases more with
      | nil => exact absurd rfl (hword rfl)
      | cons e more =>
        have he := hblanks e (by simp)
        simp [NoBlank, he] at hno
  · have hbreak := hrest (by simp)
    obtain ⟨t₁, rfl, hu⟩ | ⟨y, blanks, more, q, t', rfl, -, hmore, rfl, hblanks, hcut⟩ := h.split hle
    · obtain ⟨t₂, rfl, hu₂⟩ | ⟨blanks, q, hq, hblanks, hcut⟩ := hu.cons_cases
      · -- there is no place within the comment, and no other comment behind it
        obtain ⟨t', rfl, hu'⟩ | ⟨y, blanks, more, q, t', -, -, rfl, -, hmore, hcut⟩ :=
          hu₂.split (x := text) (r := rest) fun p hmem hlen => by
            obtain rfl | hlt := hp p hmem (by simp at hlen ⊢; omega)
            · simp at hlen
            · exact hlt
        · exact .inl ⟨_, t', rfl, hu'⟩
        · obtain ⟨text', cr, s, rfl, -⟩ := hcut
          cases more with
          | nil => cases hbreak
          | cons e more =>
            have he := isLineBreak_of_blank (hmore e (by simp))
            simp [he] at hbreak
      · obtain rfl := blanks_eq_nil hblanks hq
        rw [List.nil_append] at hq
        subst hq
        obtain ⟨cr, s, rfl, he, hu⟩ := hcut.comment_eq ht hbreak
        exact .inr ⟨by simp, b, [], cr, s, _, by simp, rfl, he, rfl, hu⟩
    · obtain rfl := blanks_eq_nil (fun e he => hblanks e (List.mem_append_right _ he)) hmore
      rw [List.nil_append] at hmore
      subst hmore
      obtain ⟨cr, s, rfl, he, hu⟩ := hcut.comment_eq ht hbreak
      exact .inr ⟨by simp, y, blanks, cr, s, _, rfl, rfl, he, rfl, hu⟩

/-- The line break behind is the same one, and what stands behind it. -/
theorem Uncommented.next_line {ch : Char} (h : Uncommented places prev (b ++ (comment ++ rest)) t)
    (hcomment : IsComment comment) (hno : NoBlank (comment ++ rest))
    (hp : ∀ p ∈ places, p ≤ (b ++ (comment ++ rest)).length →
      p = (comment ++ rest).length ∨ p ≤ rest.length)
    (hc : c.rest = rest) (hd : c.lineBreak? = some (ch, d)) :
    ∃ w rest' q n, t = w ++ rest' ∧ (w = b ++ comment ∨ (∃ z, b = w ++ z) ∧ rest'.head? = some '\n') ∧
      rest'.head?.all isLineBreak ∧ (∃ e, Uncommented places (some e) d.rest q) ∧
      ∀ i l k, Cursor.lineBreak? ⟨rest', i, l, k⟩ = some (ch, ⟨q, i + n, l + 1, 0⟩) := by
  obtain ⟨x, hx, hne, hbreaks, hnext, hagain⟩ := lineBreak?_eq_some hd
  have hhead : rest.head?.all isLineBreak := hc ▸ head_of_lineBreak? hd
  obtain ⟨prev', t', rfl, hu⟩ | ⟨-, y, blanks, cr, s, t', rfl, hcr, he, rfl, hu⟩ :=
    h.line_rest hcomment hno (fun _ => no_comment_of_break hhead) (fun _ => hhead) hp
  · rw [← hc, hx] at hu
    obtain ⟨q, rfl, hq⟩ := hu.keeps_breaks hbreaks
    obtain ⟨e, hlast⟩ : ∃ e, x.getLast? = some e := ⟨_, List.getLast?_eq_some_getLast hne⟩
    rw [hlast, Option.some_or] at hq
    refine ⟨b ++ comment, x ++ q, q, x.length, by simp, .inl rfl, ?_, ⟨e, hq⟩,
      fun i l k => hagain q i l k ?_⟩
    · obtain ⟨f, x', rfl⟩ := List.exists_cons_of_ne_nil hne
      simpa using hbreaks f (by simp)
    · rintro hcr hhead'
      obtain rfl : e = '\r' := by simpa [hlast] using hcr
      exact hq.head_newline hhead'
  · have hfound : ∃ s₁ q, ch = '\n' ∧ d.rest = s₁ ∧ t' = '\n' :: q ∧
        Uncommented places (some '\n') s₁ q := by
      obtain ⟨rfl, rfl⟩ | ⟨s₁, q, rfl, rfl, hq⟩ := he.head hu
      · obtain ⟨rfl, -⟩ | ⟨-, hs⟩ := he
        · rw [hc, hcr] at hx
          simp [hne] at hx
        · cases hs
      · obtain ⟨text, index, line, column⟩ := c
        obtain rfl : text = cr ++ '\n' :: s₁ := hc.trans hcr
        obtain ⟨rfl, -⟩ | ⟨rfl | rfl, -⟩ := he
        all_goals
          simp [Cursor.lineBreak?, isLineBreak, isSeparator] at hd
          exact ⟨s₁, q, hd.1.symm, by rw [← hd.2], rfl, hq⟩
    obtain ⟨s₁, q, rfl, rfl, rfl, hq⟩ := hfound
    exact ⟨y, '\n' :: q, q, 1, rfl, .inr ⟨⟨blanks, rfl⟩, rfl⟩, rfl, ⟨_, hq⟩,
      fun i l k => lineBreak?_newline q i l k⟩

/-- The blanks and line breaks behind a scalar stay up to a word behind them, or the word is a comment
that is cut off with some of the blanks before it. -/
theorem Uncommented.gap_cases (h : Uncommented places prev (x ++ rest) t) (hno : AtWord rest)
    (hp : ∀ p ∈ places, p ≤ (x ++ rest).length → p ≤ rest.length) :
    (∃ r, t = x ++ r ∧ Uncommented places (x.getLast?.or prev) rest r ∧ r.head? = rest.head?) ∨
      ∃ y blanks r, x = y ++ blanks ∧ (∀ e ∈ blanks, isSpaceOrTab e) ∧ t = y ++ r ∧
        CutHere places (y.getLast?.or prev) blanks rest r := by
  obtain ⟨r, rfl, hu⟩ | ⟨y, blanks, more, q, r, rfl, -, rfl, rfl, hblanks, hcut⟩ := h.split hp
  · cases rest with
    | nil => exact .inl ⟨r, rfl, hu, by rw [hu.nil_eq]⟩
    | cons e rest =>
      obtain ⟨r', rfl, hr⟩ | ⟨blanks, q, hq, hblanks, hcut⟩ := hu.cons_cases
      · exact .inl ⟨e :: r', rfl, hu, rfl⟩
      · cases blanks with
        | nil =>
          rw [List.nil_append] at hq
          subst hq
          exact .inr ⟨x, [], r, (List.append_nil x).symm, by simp, rfl, hcut⟩
        | cons b blanks =>
          have hb := hblanks b (by simp)
          rw [← (List.cons.inj hq).1] at hb
          simp [AtWord, isSpaceOrBreak, hb] at hno
  · cases more with
    | nil =>
      rw [List.append_nil] at hblanks hcut
      exact .inr ⟨y, blanks, r, rfl, hblanks, rfl, hcut⟩
    | cons b more =>
      have hb := hblanks b (by simp)
      simp [AtWord, isSpaceOrBreak, hb] at hno

/-- A word that still starts with its first character is there in full. -/
theorem Uncommented.firstWord_of_head (h : Uncommented places prev rest t) (hword : AtWord rest)
    (hhead : t.head? = rest.head?) : firstWord t = firstWord rest := by
  cases rest with
  | nil => rw [h.nil_eq]
  | cons e rest =>
    have he : isSpaceOrBreak e = false := by simpa [AtWord] using hword
    obtain ⟨t', rfl, ht⟩ | ⟨blanks, q, hq, hblanks, hcut⟩ := h.cons_cases
    · rw [firstWord_cons, firstWord_cons, ht.firstWord_eq he]
    · exfalso
      rw [List.head?_cons] at hhead
      obtain rfl | ⟨t', rfl⟩ := hcut.head
      · cases hhead
      · cases hhead
        cases he

/-- A cut comment with the end of the text or the line feed behind it. -/
theorem CutHere.cases {blanks r : List Char} (h : CutHere places prev blanks rest r) :
    ∃ text q, rest = '#' :: (text ++ q) ∧ (∀ e ∈ text, isLineBreak e = false) ∧
      ((q = [] ∧ r = []) ∨ ∃ q₁ r₁, (q = '\n' :: q₁ ∨ q = '\r' :: '\n' :: q₁) ∧ r = '\n' :: r₁ ∧
        Uncommented places (some '\n') q₁ r₁) := by
  obtain ⟨text, cr, s, rfl, -, ht, he, -, hu⟩ := h
  refine ⟨text, cr ++ s, rfl, ht, ?_⟩
  obtain ⟨rfl, rfl⟩ | ⟨q₁, r₁, rfl, rfl, hq⟩ := he.head hu
  · obtain ⟨rfl, -⟩ | ⟨-, hs⟩ := he
    · exact .inl ⟨rfl, rfl⟩
    · cases hs
  · refine .inr ⟨q₁, r₁, ?_, rfl, hq⟩
    obtain ⟨rfl, -⟩ | ⟨rfl | rfl, -⟩ := he
    · exact .inl rfl
    · exact .inl rfl
    · exact .inr rfl

/-- A cut comment does not stand behind a carriage return. -/
theorem CutHere.same_break {blanks r : List Char} (h : CutHere places prev blanks rest r) :
    prev ≠ some '\r' := by
  obtain ⟨text, cr, s, -, hprev, -⟩ := h
  rintro rfl
  exact (hprev '\r' rfl (by decide)).1 rfl

end ClusterConfig.Yaml
