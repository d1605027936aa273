import ClusterConfig.Proofs.Variables.Places

/-!
# Expansion of texts put together

No expression that is complete goes on behind a newline. So a text that ends with its last line is
expanded in the same way whatever follows it, and what follows is expanded with the variables it
leaves, only further down. A text whose dollar signs are doubled stands for itself.
-/

set_option autoImplicit false

namespace ClusterConfig

/-- The error of an expression that stands some lines further down. -/
def ExpansionError.below (lines : Nat) : ExpansionError → ExpansionError
  | .unset name line => .unset name (line + lines)
  | .required name message line => .required name message (line + lines)
  | .unterminated line => .unterminated (line + lines)
  | .invalid expression line => .invalid expression (line + lines)

namespace Variables

open Text (newlineCount newlineCount_append)

variable {u v text rest more name kept : List Char} {line : Nat} {vars after : Bindings}
  {out later : Outcome}

/-! ## Lines further down -/

/-- The outcome of a text that starts some lines further down. -/
def Outcome.below (out : Outcome) (lines : Nat) : Outcome :=
  ⟨out.vars, out.result.mapError (·.below lines)⟩

theorem behind_below (out : Outcome) (lead : List Char) (lines : Nat) :
    (out.behind lead).below lines = (out.below lines).behind lead := by
  obtain ⟨vars, result⟩ := out
  cases result <;> rfl

theorem behind_eq_ok {lead : List Char} :
    out.behind lead = ⟨after, .ok text⟩ ↔ ∃ rest, out = ⟨after, .ok rest⟩ ∧ text = lead ++ rest := by
  obtain ⟨vars, result⟩ := out
  cases result <;> simp [Outcome.behind, Except.map, eq_comm]

theorem behind_eq_error {lead : List Char} {e : ExpansionError} :
    out.behind lead = ⟨after, .error e⟩ ↔ out = ⟨after, .error e⟩ := by
  obtain ⟨vars, result⟩ := out
  cases result <;> simp [Outcome.behind, Except.map]

theorem below_eq_ok {lines : Nat} : out.below lines = ⟨after, .ok text⟩ ↔ out = ⟨after, .ok text⟩ := by
  obtain ⟨vars, result⟩ := out
  cases result <;> simp [Outcome.below, Except.mapError]

theorem below_eq_error {lines : Nat} {e : ExpansionError} :
    out.below lines = ⟨after, .error e⟩ ↔ ∃ own, out = ⟨after, .error own⟩ ∧ e = own.below lines := by
  obtain ⟨vars, result⟩ := out
  cases result <;> simp [Outcome.below, Except.mapError, eq_comm]

/-- Where a text starts is seen in the lines of errors only. -/
theorem Expands.moved (h : Expands text line vars out) (lines : Nat) :
    Expands text (line + lines) vars (out.below lines) := by
  induction h with
  | nil => exact .nil
  | char hc _ ih =>
    rw [behind_below]
    rw [Nat.add_right_comm] at ih
    exact .char hc ih
  | escaped _ ih =>
    rw [behind_below]
    exact .escaped ih
  | lone hr _ ih =>
    rw [behind_below]
    exact .lone hr ih
  | value hn ht hv _ ih =>
    rw [behind_below]
    exact .value hn ht hv ih
  | unset hn ht hv => exact .unset hn ht hv
  | unused hn hw hu _ ih =>
    rw [behind_below]
    rw [Nat.add_right_comm] at ih
    exact .unused hn hw hu ih
  | inserted hn hw ho hu _ _ ihword ih =>
    rw [behind_below]
    rw [Nat.add_right_comm] at ih
    exact .inserted hn hw ho hu ihword ih
  | assigned hn hw hu _ _ ihword ih =>
    rw [behind_below]
    rw [Nat.add_right_comm] at ih
    exact .assigned hn hw hu ihword ih
  | required hn hw hu _ ihword => exact .required hn hw hu ihword
  | failed hn hw hu _ ihword => exact .failed hn hw hu ihword
  | malformed hb hm => exact .malformed hb hm
  | unterminated hr => exact .unterminated hr

/-! ## Texts that end with their last line -/

/-- A text that is empty or ends with a newline. -/
def EndsLine (text : List Char) : Prop := text = [] ∨ ['\n'] <:+ text

instance (text : List Char) : Decidable (EndsLine text) :=
  inferInstanceAs (Decidable (_ ∨ _))

theorem EndsLine.getLast? (h : EndsLine text) : ∀ c ∈ text.getLast?, c = '\n' := by
  obtain rfl | ⟨lead, rfl⟩ := h
  · simp
  · simp

theorem EndsLine.behind (h : EndsLine (u ++ v)) : EndsLine v := by
  cases v using List.reverseRecOn with
  | nil => exact .inl rfl
  | append_singleton v c =>
    obtain rfl : c = '\n' := h.getLast? c (by simp)
    exact .inr (List.suffix_append v ['\n'])

/-- Behind a character that is no newline there has to be something. -/
theorem EndsLine.ne_nil {c : Char} (h : EndsLine (u ++ c :: v)) (hc : c ≠ '\n') : v ≠ [] := by
  rintro rfl
  exact hc (h.getLast? c (by simp))

/-- A name that ends before the text does ends in the same place if more text follows. -/
theorem Mentions.append (hn : isName name = true) (ht : Mentions name text rest)
    (hl : EndsLine text) (more : List Char) : Mentions name (text ++ more) (rest ++ more) := by
  cases ht with
  | bare hends =>
    rw [List.cons_append, List.append_assoc]
    apply Mentions.bare
    cases rest with
    | cons c rest => exact hends
    | nil =>
      obtain ⟨lead, c, rfl⟩ : ∃ lead c, name = lead ++ [c] := by
        cases name using List.reverseRecOn with
        | nil => cases hn
        | append_singleton lead c => exact ⟨lead, c, rfl⟩
      have hc : c ≠ '\n' := by
        rintro rfl
        exact absurd (all_of_isName hn '\n' (by simp)) (by decide)
      have hl' : EndsLine (('$' :: lead) ++ c :: []) := by simpa using hl
      exact absurd rfl (hl'.ne_nil hc)
  | braced =>
    rw [List.append_assoc]
    exact .braced _

/-- What was expanded to its end is expanded in the same way if more text follows. -/
theorem Expands.append (h : Expands text line vars out) (hl : EndsLine text)
    (hok : out = ⟨after, .ok kept⟩)
    (hmore : Expands more (line + newlineCount text) after later) :
    Expands (text ++ more) line vars (later.behind kept) := by
  induction h generalizing after kept with
  | nil =>
    cases hok
    rwa [behind_nil]
  | @char c rest line _ _ hc _ ih =>
    obtain ⟨kept, rfl, rfl⟩ := behind_eq_ok.mp hok
    rw [← behind_behind]
    rw [← List.singleton_append, newlineCount_append, ← Nat.add_assoc] at hmore
    exact .char hc (ih (EndsLine.behind (u := [c]) hl) rfl hmore)
  | @escaped rest line _ _ _ ih =>
    obtain ⟨kept, rfl, rfl⟩ := behind_eq_ok.mp hok
    rw [← behind_behind]
    have hcount : newlineCount ('$' :: '$' :: rest) = newlineCount rest := by simp [newlineCount]
    rw [hcount] at hmore
    exact .escaped (ih (EndsLine.behind (u := ['$', '$']) hl) rfl hmore)
  | @lone rest line _ _ hr _ ih =>
    obtain ⟨kept, rfl, rfl⟩ := behind_eq_ok.mp hok
    rw [← behind_behind]
    have hcount : newlineCount ('$' :: rest) = newlineCount rest := by simp [newlineCount]
    rw [hcount] at hmore
    -- the character behind the dollar sign is one of the text itself
    have hne : rest ≠ [] := EndsLine.ne_nil (u := []) hl (by decide)
    have hhead : ∀ c ∈ (rest ++ more).head?, c ≠ '$' ∧ c ≠ '\x7b' ∧ isNameStart c = false := by
      rwa [List.head?_append_of_ne_nil rest hne]
    exact .lone hhead (ih (EndsLine.behind (u := ['$']) hl) rfl hmore)
  | value hn ht hv _ ih =>
    obtain ⟨kept, rfl, rfl⟩ := behind_eq_ok.mp hok
    rw [← behind_behind]
    obtain ⟨lead, hlead, hcount⟩ := newlineCount_mentioned hn ht
    rw [hlead, newlineCount_append, hcount, Nat.zero_add] at hmore
    exact .value hn (ht.append hn hl more) hv (ih (EndsLine.behind (hlead ▸ hl)) rfl hmore)
  | unused hn hw hu _ ih =>
    obtain ⟨kept, rfl, rfl⟩ := behind_eq_ok.mp hok
    rw [← behind_behind, List.append_assoc]
    rw [newlineCount_append, newlineCount_braced hn, ← Nat.add_assoc] at hmore
    exact .unused hn hw hu (ih hl.behind rfl hmore)
  | inserted hn hw ho hu hword _ _ ih =>
    obtain ⟨kept, rfl, rfl⟩ := behind_eq_ok.mp hok
    rw [← behind_behind, List.append_assoc]
    rw [newlineCount_append, newlineCount_braced hn, ← Nat.add_assoc] at hmore
    exact .inserted hn hw ho hu hword (ih hl.behind rfl hmore)
  | assigned hn hw hu hword _ _ ih =>
    obtain ⟨kept, rfl, rfl⟩ := behind_eq_ok.mp hok
    rw [← behind_behind, List.append_assoc]
    rw [newlineCount_append, newlineCount_braced hn, ← Nat.add_assoc] at hmore
    exact .assigned hn hw hu hword (ih hl.behind rfl hmore)
  | unset | required | failed | malformed | unterminated => cases hok

/-! ## Dollar signs that stand for themselves -/

/-- A text with every dollar sign written twice. -/
def doubled : List Char → List Char
  | [] => []
  | c :: rest => if c = '$' then '$' :: '$' :: doubled rest else c :: doubled rest

theorem expands_doubled (text : List Char) (line : Nat) (vars : Bindings) :
    Expands (doubled text) line vars ⟨vars, .ok text⟩ := by
  induction text generalizing line with
  | nil => exact .nil
  | cons c rest ih =>
    rw [doubled]
    split
    · rename_i hc
      rw [hc]
      exact .escaped (ih line)
    · rename_i hc
      exact .char hc (ih _)

/-! ## Whole texts -/

theorem expand_append (hl : EndsLine text) (h : expand text line vars = ⟨after, .ok kept⟩)
    (more : List Char) :
    expand (text ++ more) line vars =
      ((expand more line after).below (newlineCount text)).behind kept := by
  have hmore : Expands more line after (expand more line after) := expands_iff.mpr rfl
  exact expand_of_expands ((expands_iff.mpr h).append hl rfl (hmore.moved (newlineCount text)))

theorem substitute_eq_ok {text kept : String} :
    substitute text vars = (after, .ok kept) ↔
      expand text.toList 1 vars = ⟨after, .ok kept.toList⟩ := by
  rw [← expands_iff, substitute_iff]
  simp [Except.map]

theorem substitute_eq_error {text : String} {e : ExpansionError} :
    substitute text vars = (after, .error e) ↔ expand text.toList 1 vars = ⟨after, .error e⟩ := by
  rw [← expands_iff, substitute_iff]
  rfl

/-- A text that ends with its last line and can be expanded leaves what follows it alone: the whole
is expanded exactly if what follows is with the variables that the first text leaves, into both
results and with the same variables behind it; otherwise it fails as what follows does, as many lines
further down as the first text has. A text with every dollar sign doubled expands to the text itself
and changes no variable. -/
theorem expansion_composes :
    (∀ (first second kept : String) (vars after : Bindings), EndsLine first.toList →
      substitute first vars = (after, .ok kept) →
      (∀ last whole, substitute (first ++ second) vars = (last, .ok whole) ↔
        ∃ rest, substitute second after = (last, .ok rest) ∧ whole = kept ++ rest) ∧
      ∀ last e, substitute (first ++ second) vars = (last, .error e) ↔
        ∃ own, substitute second after = (last, .error own) ∧
          e = own.below (newlineCount first.toList)) ∧
    ∀ (text : String) (vars : Bindings),
      substitute (String.ofList (doubled text.toList)) vars = (vars, .ok text) := by
  constructor
  · intro first second kept vars after hl hfirst
    have hwhole := expand_append hl (substitute_eq_ok.mp hfirst) second.toList
    rw [← String.toList_append] at hwhole
    constructor
    · intro last whole
      rw [substitute_eq_ok, hwhole, behind_eq_ok]
      simp only [below_eq_ok, substitute_eq_ok]
      constructor
      · rintro ⟨rest, hrest, htext⟩
        refine ⟨String.ofList rest, by simpa using hrest, ?_⟩
        rw [← String.toList_inj, htext, String.toList_append, String.toList_ofList]
      · rintro ⟨rest, hrest, rfl⟩
        exact ⟨rest.toList, hrest, String.toList_append⟩
    · intro last e
      rw [substitute_eq_error, hwhole, behind_eq_error, below_eq_error]
      simp only [substitute_eq_error]
  · intro text vars
    rw [substitute_eq_ok, String.toList_ofList]
    exact expand_of_expands (expands_doubled text.toList 1 vars)

/-- A text that assigns a variable and holds a doubled dollar sign, with a text that reads the
variable behind it, and with one that fails on the second of its lines. -/
theorem assignment_composes :
    let first := "x: $\x7bA:=1\x7d\n$$\n"
    let after : Bindings := ⟨[("A", "1")]⟩
    EndsLine first.toList ∧ substitute first {} = (after, .ok "x: 1\n$\n") ∧
    substitute "$A" after = (after, .ok "1") ∧
    substitute (first ++ "$A") {} = (after, .ok "x: 1\n$\n1") ∧
    substitute "\n$B" after = (after, .error (.unset "B" 2)) ∧
    substitute (first ++ "\n$B") {} = (after, .error (.unset "B" 4)) := by
  intro first after
  have hl : EndsLine first.toList := by decide
  have hread : Mentions ['A'] ['$', 'A'] [] := .bare (by simp [EndsName])
  have hmissing : Mentions ['B'] ['$', 'B'] [] := .bare (by simp [EndsName])
  have hfirst : substitute first {} = (after, .ok "x: 1\n$\n") := by
    have htext : first.toList = "x: ".toList ++
        (braced (wordBody ['A'] true .assign ['1']) ++ '\n' :: '$' :: '$' :: ['\n']) := by decide
    have hrest : Expands ('\n' :: '$' :: '$' :: ['\n']) 1 after
        (Outcome.behind (Outcome.behind ⟨after, .ok ['\n']⟩ ['$']) ['\n']) :=
      .char (by decide) (.escaped (expands_plain (by decide) _ _))
    have hassigned : Expands (braced (wordBody ['A'] true .assign ['1']) ++
        '\n' :: '$' :: '$' :: ['\n']) 1 {} (Outcome.behind ⟨after, .ok ['\n', '$', '\n']⟩ ['1']) :=
      .assigned (by decide) (by decide) (by decide) (expands_plain (by decide) _ _) hrest
    have hlead : '$' ∉ "x: ".toList := by decide
    have hexpands := hassigned.literal hlead
    rw [← htext] at hexpands
    exact substitute_iff.mp hexpands
  have hsecond : substitute "$A" after = (after, .ok "1") := by
    have hexpands : Expands "$A".toList 1 after (Outcome.behind ⟨after, .ok []⟩ "1".toList) :=
      .value (by decide) hread (by decide) .nil
    exact substitute_iff.mp hexpands
  have hfails : substitute "\n$B" after = (after, .error (.unset "B" 2)) := by
    have hexpands : Expands "\n$B".toList 1 after
        (Outcome.behind ⟨after, .error (.unset "B" 2)⟩ ['\n']) :=
      .char (by decide) (.unset (by decide) hmissing (by decide))
    exact substitute_iff.mp hexpands
  have hok := (expansion_composes.1 first "$A" _ {} after hl hfirst).1
  have herror := (expansion_composes.1 first "\n$B" _ {} after hl hfirst).2
  exact ⟨hl, hfirst, hsecond, (hok _ _).mpr ⟨"1", hsecond, by decide⟩, hfails,
    (herror _ _).mpr ⟨_, hfails, by decide⟩⟩

end Variables

end ClusterConfig
