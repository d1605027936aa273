import Mathlib.Data.List.TakeWhile
import Mathlib.Tactic.Tauto
import ClusterConfig.Variables.Expansion

/-!
# The texts of expressions

How an expression is spelled, as a grammar beside the reader: braces in pairs, a name, a mark and a
word. Reading a spelled expression gives its parts back, and whatever is spelled in no way is
malformed.
-/

set_option autoImplicit false

namespace ClusterConfig.Variables

/-! ## Braces -/

/-- Texts in which every brace has its partner. -/
inductive Balanced : List Char → Prop
  | nil : Balanced []
  | char {c : Char} {s : List Char} (hopen : c ≠ '\x7b') (hclose : c ≠ '\x7d') (h : Balanced s) :
      Balanced (c :: s)
  | braces {inner s : List Char} (hinner : Balanced inner) (h : Balanced s) :
      Balanced ('\x7b' :: (inner ++ '\x7d' :: s))

variable {s u v w body after name word : List Char}

theorem Balanced.append (hu : Balanced u) (hv : Balanced v) : Balanced (u ++ v) := by
  induction hu with
  | nil => exact hv
  | char hopen hclose _ ih => exact .char hopen hclose ih
  | braces hinner _ _ ih =>
    rw [List.cons_append, List.append_assoc, List.cons_append]
    exact .braces hinner ih

/-- A balanced text may be put anywhere into another. -/
theorem Balanced.insert (hw : Balanced w) (h : Balanced (u ++ v)) : Balanced (u ++ (w ++ v)) := by
  generalize hs : u ++ v = s at h
  induction h generalizing u v with
  | nil =>
    obtain ⟨rfl, rfl⟩ := List.append_eq_nil_iff.mp hs
    simpa using hw
  | @char c s hopen hclose h ih =>
    cases u with
    | nil =>
      obtain rfl : v = c :: s := hs
      exact hw.append (.char hopen hclose h)
    | cons x u =>
      obtain ⟨rfl, htail⟩ := List.cons.inj hs
      exact .char hopen hclose (ih htail)
  | @braces inner s hinner h ihi ih =>
    cases u with
    | nil =>
      obtain rfl : v = _ := hs
      exact hw.append (.braces hinner h)
    | cons x u =>
      obtain ⟨rfl, htail⟩ := List.cons.inj hs
      -- the place lies between the two braces or behind the second one
      obtain ⟨m, rfl, hv⟩ | ⟨m, hu, hv⟩ := List.append_eq_append_iff.mp htail
      · have hin := Balanced.braces (ihi rfl) h
        rw [hv]
        simpa using hin
      · cases m with
        | nil =>
          obtain rfl : u = inner := by simpa using hu
          obtain rfl : '\x7d' :: s = v := by simpa using hv
          have hin := Balanced.braces (ihi (List.append_nil u)) h
          simpa using hin
        | cons y m =>
          obtain ⟨rfl, hmore⟩ := List.cons.inj hv
          have hout := Balanced.braces hinner (ih hmore.symm)
          rw [hu]
          simpa using hout

theorem closingBrace?_balanced (h : Balanced w) (depth : Nat) (s : List Char) :
    closingBrace? depth (w ++ s) =
      (closingBrace? depth s).map fun split => (w ++ split.1, split.2) := by
  induction h generalizing depth s with
  | nil => simp
  | char hopen hclose _ ih =>
    simp only [List.cons_append, closingBrace?, hopen, hclose, if_false, decide_false,
      Bool.false_and, Bool.false_eq_true, ih, Option.map_map]
    rfl
  | @braces inner t _ _ ihi ih =>
    have hd : ('\x7b' = '\x7d') = False := by decide
    simp only [List.cons_append, closingBrace?, hd, if_false, if_true, decide_false,
      Bool.false_and, Bool.false_eq_true, List.append_assoc, ihi, ih, decide_true, Bool.true_and,
      Nat.add_one_ne_zero, Nat.add_sub_cancel, Option.map_map]
    congr 1

theorem balanced_of_closingBrace? {depth : Nat}
    (h : closingBrace? depth s = some (body, after)) :
    s = body ++ '\x7d' :: after ∧ Balanced (List.replicate depth '\x7b' ++ body) := by
  induction s generalizing depth body with
  | nil => cases h
  | cons c s ih =>
    rw [closingBrace?] at h
    split at h
    · rename_i hc
      obtain ⟨rfl, rfl⟩ : c = '\x7d' ∧ depth = 0 := by simpa using hc
      cases h
      exact ⟨rfl, .nil⟩
    · rename_i hc
      obtain ⟨⟨more, rest⟩, hs, heq⟩ := Option.map_eq_some_iff.mp h
      cases heq
      obtain ⟨rfl, hb⟩ := ih hs
      refine ⟨rfl, ?_⟩
      by_cases hclose : c = '\x7d'
      · -- the pair of the last open brace and this one is put into what is balanced without it
        obtain ⟨depth, rfl⟩ : ∃ n, depth = n + 1 :=
          Nat.exists_eq_succ_of_ne_zero fun h0 => hc (by simp [hclose, h0])
        have hpair : Balanced ['\x7b', '\x7d'] := .braces .nil .nil
        rw [if_pos hclose, Nat.add_sub_cancel] at hb
        rw [hclose, List.replicate_succ', List.append_assoc]
        exact hpair.insert hb
      · rw [if_neg hclose] at hb
        by_cases hopen : c = '\x7b'
        · rw [if_pos hopen, List.replicate_succ', List.append_assoc] at hb
          rwa [hopen]
        · rw [if_neg hopen] at hb
          exact (Balanced.char hopen hclose .nil).insert hb

/-- The brace that closes an expression is the one that leaves a balanced text before it. -/
theorem closingBrace?_eq_some_iff :
    closingBrace? 0 s = some (body, after) ↔ Balanced body ∧ s = body ++ '\x7d' :: after := by
  constructor
  · intro h
    obtain ⟨hs, hb⟩ := balanced_of_closingBrace? h
    exact ⟨hb, hs⟩
  · rintro ⟨hb, rfl⟩
    simp [closingBrace?_balanced hb, closingBrace?]

theorem balanced_iff : Balanced w ↔ closingBrace? 0 (w ++ ['\x7d']) = some (w, []) := by
  simp [closingBrace?_eq_some_iff]

instance : DecidablePred Balanced := fun _ => decidable_of_iff _ balanced_iff.symm

/-! ## Marks and words -/

/-- The character of an operator. -/
def Operator.sign : Operator → Char
  | .default => '-'
  | .assign => '='
  | .alternative => '+'
  | .require => '?'

/-- An operator as it stands behind a name. -/
def Operator.mark (operator : Operator) (colon : Bool) : List Char :=
  if colon then [':', operator.sign] else [operator.sign]

/-- What stands between the braces of an expression with a word. -/
def wordBody (name : List Char) (colon : Bool) (operator : Operator) (word : List Char) :
    List Char :=
  name ++ (operator.mark colon ++ word)

/-- An expression in braces. -/
def braced (body : List Char) : List Char := '$' :: '\x7b' :: (body ++ ['\x7d'])

/-- What stands between braces and is no expression. -/
def Malformed (body : List Char) : Prop :=
  ∀ name, isName name = true →
    body ≠ name ∧ ∀ colon operator word, body ≠ wordBody name colon operator word

variable {colon : Bool} {operator : Operator}

theorem usage_mark (colon : Bool) (operator : Operator) (word : List Char) :
    usage (operator.mark colon ++ word) = .word colon operator word := by
  cases colon <;> cases operator <;> rfl

theorem sign_of_ofChar? {c : Char} (h : Operator.ofChar? c = some operator) :
    operator.sign = c := by
  unfold Operator.ofChar? at h
  split at h <;> cases h <;> rfl

theorem mark_of_usage (h : usage s = .word colon operator word) :
    s = operator.mark colon ++ word := by
  have hword {t : List Char} {b : Bool} (ht : wordUsage b t = .word colon operator word) :
      b = colon ∧ t = operator.sign :: word := by
    cases t with
    | nil => cases ht
    | cons c t =>
      rw [wordUsage] at ht
      split at ht
      · rename_i hc
        cases ht
        exact ⟨rfl, by rw [sign_of_ofChar? hc]⟩
      · cases ht
  cases s with
  | nil => cases h
  | cons c t =>
    rw [usage] at h
    split at h
    · rename_i hc
      obtain ⟨rfl, rfl⟩ := hword h
      simp [hc, Operator.mark]
    · obtain ⟨rfl, hs⟩ := hword h
      simp [hs, Operator.mark]

theorem eq_nil_of_usage (h : usage s = .value) : s = [] := by
  have hword {t : List Char} {b : Bool} : wordUsage b t ≠ .value := by
    cases t with
    | nil => exact Usage.noConfusion
    | cons c t => rw [wordUsage]; split <;> exact Usage.noConfusion
  cases s with
  | nil => rfl
  | cons c t =>
    rw [usage] at h
    split at h <;> exact absurd h hword

/-- Nothing follows that would make a name longer. -/
def EndsName (s : List Char) : Prop := ∀ c ∈ s.head?, isNameChar c = false

theorem endsName_mark (colon : Bool) (operator : Operator) (word : List Char) :
    EndsName (operator.mark colon ++ word) := by
  cases colon <;> cases operator <;> simp [EndsName, Operator.mark, Operator.sign] <;> decide

theorem endsName_dropWhile (s : List Char) : EndsName (s.dropWhile isNameChar) := by
  intro c hc
  have h := List.head?_dropWhile_not isNameChar s
  rwa [hc] at h

theorem all_of_isName (h : isName name = true) : ∀ c ∈ name, isNameChar c = true := by
  unfold isName at h
  split at h
  · cases h
  · exact List.all_eq_true.mp (Bool.and_eq_true_iff.mp h).2

theorem takeWhile_name (hn : isName name = true) (hs : EndsName s) :
    (name ++ s).takeWhile isNameChar = name := by
  rw [List.takeWhile_append_of_pos (all_of_isName hn)]
  cases s with
  | nil => simp
  | cons c s => simp [hs c rfl]

theorem dropWhile_name (hn : isName name = true) (hs : EndsName s) :
    (name ++ s).dropWhile isNameChar = s := by
  rw [List.dropWhile_append_of_pos (all_of_isName hn)]
  cases s with
  | nil => simp
  | cons c s => simp [hs c rfl]

theorem isName_cons (h : isName name = true) :
    ∃ c rest, name = c :: rest ∧ isNameStart c = true ∧ ∀ x ∈ rest, isNameChar x = true := by
  cases name with
  | nil => cases h
  | cons c rest =>
    refine ⟨c, rest, rfl, (Bool.and_eq_true_iff.mp h).1, fun x hx => ?_⟩
    exact all_of_isName h x (List.mem_cons_of_mem _ hx)

theorem isName_of_start {c : Char} (hc : isNameStart c = true) (s : List Char) :
    isName (c :: s.takeWhile isNameChar) = true := by
  have hchar : isNameChar c = true := by
    simp only [isNameStart, isNameChar, Bool.or_eq_true, Char.isAlphanum] at hc ⊢
    tauto
  simp only [isName, hc, List.all_cons, hchar, Bool.true_and, List.all_eq_true]
  exact fun x hx => List.mem_takeWhile_imp hx

/-! ## What an expression demands -/

variable {line : Nat} {vars : Bindings}

theorem bracedDemand_name (hn : isName name = true) :
    bracedDemand name line vars = lookup vars (String.ofList name) line := by
  have hends : EndsName [] := by simp [EndsName]
  have htake := takeWhile_name hn hends
  have hdrop := dropWhile_name hn hends
  rw [List.append_nil] at htake hdrop
  simp [bracedDemand, htake, hdrop, hn, usage]

theorem bracedDemand_word (hn : isName name = true) :
    bracedDemand (wordBody name colon operator word) line vars =
      operator.demand (String.ofList name)
        (countsAsSet colon (vars.get? (String.ofList name)))
        ((vars.get? (String.ofList name)).getD "") word := by
  have hmark := endsName_mark colon operator word
  simp [bracedDemand, wordBody, takeWhile_name hn hmark, dropWhile_name hn hmark, hn, usage_mark]

theorem bracedDemand_malformed (h : Malformed body) :
    bracedDemand body line vars = .fail (.invalid (String.ofList body) line) := by
  rw [bracedDemand]
  by_cases hn : isName (body.takeWhile isNameChar) = true
  · have hbody : body.takeWhile isNameChar ++ body.dropWhile isNameChar = body :=
      List.takeWhile_append_dropWhile
    obtain ⟨hname, hword⟩ := h _ hn
    simp only [hn, if_true]
    split
    · rename_i hu
      rw [eq_nil_of_usage hu, List.append_nil] at hbody
      exact absurd hbody.symm hname
    · rfl
    · rename_i hu
      rw [mark_of_usage hu] at hbody
      exact absurd hbody.symm (hword _ _ _)
  · simp [hn]

/-- What stands between braces is a name, a name with a mark and a word, or malformed. -/
theorem body_cases (body : List Char) :
    isName body = true ∨
      (∃ name colon operator word, isName name = true ∧ body = wordBody name colon operator word) ∨
        Malformed body := by
  by_cases h : Malformed body
  · exact .inr (.inr h)
  · simp only [Malformed, not_forall] at h
    obtain ⟨name, hn, h⟩ := h
    by_cases hb : body = name
    · exact .inl (hb ▸ hn)
    · simp only [not_and, not_forall, not_not] at h
      obtain ⟨colon, operator, word, hw⟩ := h hb
      exact .inr (.inl ⟨name, colon, operator, word, hn, hw⟩)

theorem balanced_append_iff (h : ∀ c ∈ u, c ≠ '\x7b' ∧ c ≠ '\x7d') :
    Balanced (u ++ v) ↔ Balanced v := by
  induction u with
  | nil => rfl
  | cons c u ih =>
    obtain ⟨hopen, hclose⟩ := h c List.mem_cons_self
    rw [List.cons_append, ← ih fun x hx => h x (List.mem_cons_of_mem _ hx)]
    refine ⟨fun hb => ?_, .char hopen hclose⟩
    generalize hs : c :: (u ++ v) = s at hb
    cases hb with
    | nil => cases hs
    | char _ _ hb =>
      obtain ⟨-, rfl⟩ := List.cons.inj hs
      exact hb
    | braces _ _ => exact absurd (List.cons.inj hs).1 hopen

theorem not_brace_of_name (hn : isName name = true) : ∀ c ∈ name, c ≠ '\x7b' ∧ c ≠ '\x7d' := by
  intro c hc
  have hchar := all_of_isName hn c hc
  constructor <;> (rintro rfl; exact absurd hchar (by decide))

theorem not_brace_of_mark (colon : Bool) (operator : Operator) :
    ∀ c ∈ operator.mark colon, c ≠ '\x7b' ∧ c ≠ '\x7d' := by
  cases colon <;> cases operator <;> simp [Operator.mark, Operator.sign]

/-- The braces of an expression are balanced exactly where those of its word are. -/
theorem balanced_wordBody_iff (hn : isName name = true) :
    Balanced (wordBody name colon operator word) ↔ Balanced word := by
  rw [wordBody, balanced_append_iff (not_brace_of_name hn),
    balanced_append_iff (not_brace_of_mark colon operator)]

end ClusterConfig.Variables
