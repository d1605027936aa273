import ClusterConfig.Proofs.Yaml.Gaps

/-!
# The scanner on two texts

The scanner at the same place of two texts that go on alike. The keys that are pending lie at the
same places; the characters passed since then count only on the line of a key, where they are as many
in both texts.
-/

set_option autoImplicit false

namespace ClusterConfig.Yaml

variable {c d : Cursor} {i j n m : Nat} {r : List Char} {keys keys' : List (Option KeyPlace)}
  {s s₁ : Scan}

/-! ## Pending keys -/

/-- The same key, seen from a place with an index of its own in the other text. -/
structure SameKey (c : Cursor) (i : Nat) (place place' : KeyPlace) : Prop where
  position : place'.position = place.position
  line : place'.line = place.line
  column : place'.column = place.column
  required : place'.required = place.required
  passed : place.line ≤ c.line
  index : place.line = c.line → place'.index + c.index = place.index + i

def SameKeys (c : Cursor) (i : Nat) : List (Option KeyPlace) → List (Option KeyPlace) → Prop :=
  List.Forall₂ (Option.Rel (SameKey c i))

theorem SameKey.later {place place' : KeyPlace} (h : SameKey c i place place')
    (hline : c.line ≤ d.line) (hindex : d.line = c.line → j + c.index = d.index + i) :
    SameKey d j place place' := by
  refine ⟨h.position, h.line, h.column, h.required, h.passed.trans hline, fun heq => ?_⟩
  have hd : d.line = c.line := le_antisymm (heq ▸ h.passed) hline
  have hi := hindex hd
  have hk := h.index (heq.trans hd)
  omega

theorem SameKeys.length_eq (h : SameKeys c i keys keys') : keys'.length = keys.length :=
  (List.Forall₂.length_eq h).symm

theorem SameKeys.later (h : SameKeys c i keys keys') (hline : c.line ≤ d.line)
    (hindex : d.line = c.line → j + c.index = d.index + i) : SameKeys d j keys keys' := by
  refine List.Forall₂.imp (fun key key' hkey => ?_) h
  cases hkey with
  | none => exact .none
  | some hkey => exact .some (hkey.later hline hindex)

theorem SameKeys.cons_none (h : SameKeys c i keys keys') :
    SameKeys c i (none :: keys) (none :: keys') := .cons .none h

theorem SameKeys.tail (h : SameKeys c i keys keys') : SameKeys c i keys.tail keys'.tail := by
  cases h with
  | nil => exact .nil
  | cons _ h => exact h

theorem SameKeys.head (h : SameKeys c i keys keys') :
    Option.Rel (SameKey c i) keys.head?.join keys'.head?.join := by
  cases h with
  | nil => exact .none
  | cons hkey _ => exact hkey

theorem any_required {key key' : Option KeyPlace} (h : Option.Rel (SameKey c i) key key') :
    key'.any KeyPlace.required = key.any KeyPlace.required := by
  cases h with
  | none => rfl
  | some h => exact h.required

/-- The same key, seen from no further behind it than in the one text. -/
structure NearerKey (c : Cursor) (i : Nat) (place place' : KeyPlace) : Prop where
  line : place'.line = place.line
  required : place'.required = place.required
  passed : place.line ≤ c.line
  index : place.line = c.line → i + place.index ≤ c.index + place'.index

def NearerKeys (c : Cursor) (i : Nat) : List (Option KeyPlace) → List (Option KeyPlace) → Prop :=
  List.Forall₂ (Option.Rel (NearerKey c i))

theorem SameKeys.nearer (h : SameKeys c i keys keys') (hline : c.line ≤ d.line)
    (hindex : d.line = c.line → j + c.index ≤ d.index + i) : NearerKeys d j keys keys' := by
  refine List.Forall₂.imp (fun key key' hkey => ?_) h
  cases hkey with
  | none => exact .none
  | some hkey =>
    refine .some ⟨hkey.line, hkey.required, hkey.passed.trans hline, fun heq => ?_⟩
    have hd : d.line = c.line := le_antisymm (heq ▸ hkey.passed) hline
    have hi := hindex hd
    have hk := hkey.index (heq.trans hd)
    omega

namespace Scan

theorem inFlow_onto (h : keys'.length = s.keys.length) : (s.onto r i keys').inFlow = s.inFlow := by
  simp only [inFlow, onto, h]

/-! ## Steps -/

/-- A step that passes `n` characters and looks at nothing but what the scanner remembers goes the
same way in another text. -/
def Carries (n : Nat) (f : Scan → Option Scan) : Prop :=
  ∀ s s₁, f s = some s₁ → s₁.cursor = s.cursor.advance n ∧
    ∀ r i keys, SameKeys s.cursor i s.keys keys →
      ∃ keys₁, f (s.onto r i keys) = some (s₁.onto (r.drop n) (i + n) keys₁) ∧
        SameKeys s₁.cursor (i + n) s₁.keys keys₁

theorem Carries.bind {f g : Scan → Option Scan} (hf : Carries n f) (hg : Carries m g) :
    Carries (n + m) fun s => (f s).bind g := by
  intro s s₂ h
  obtain ⟨s₁, hs₁, h⟩ := Option.bind_eq_some_iff.mp h
  obtain ⟨hc₁, hagain₁⟩ := hf s s₁ hs₁
  obtain ⟨hc₂, hagain₂⟩ := hg s₁ s₂ h
  refine ⟨?_, fun r i keys hkeys => ?_⟩
  · rw [hc₂, hc₁]
    simp only [Cursor.advance, List.drop_drop, Nat.add_assoc]
  · obtain ⟨keys₁, hf', hkeys₁⟩ := hagain₁ r i keys hkeys
    obtain ⟨keys₂, hg', hkeys₂⟩ := hagain₂ (r.drop n) (i + n) keys₁ hkeys₁
    refine ⟨keys₂, ?_, by rwa [Nat.add_assoc] at hkeys₂⟩
    simp only [hf', Option.bind_some, hg', List.drop_drop, Nat.add_assoc]

/-- A step that stays in its place and does the same to the keys of both texts. -/
theorem Carries.of_total {g : Scan → Scan} (f : List (Option KeyPlace) → List (Option KeyPlace))
    (hcursor : ∀ s, (g s).cursor = s.cursor) (hkeys : ∀ s, (g s).keys = f s.keys)
    (hf : ∀ c i keys keys', SameKeys c i keys keys' → SameKeys c i (f keys) (f keys'))
    (h : ∀ s r i keys, keys.length = s.keys.length →
      g (s.onto r i keys) = (g s).onto r i (f keys)) :
    Carries 0 fun s => some (g s) := by
  rintro s s₁ hs
  obtain rfl := Option.some.inj hs
  refine ⟨by simp [hcursor, Cursor.advance], fun r i keys hsame => ⟨f keys, ?_, ?_⟩⟩
  · simp only [h s r i keys hsame.length_eq, List.drop_zero, Nat.add_zero]
  · rw [hcursor, hkeys]
    exact hf _ _ _ _ hsame

/-- A step that does not touch the place and the keys. -/
theorem Carries.of_eq {g : Scan → Scan} (hcursor : ∀ s, (g s).cursor = s.cursor)
    (hkeys : ∀ s, (g s).keys = s.keys)
    (h : ∀ s r i keys, keys.length = s.keys.length → g (s.onto r i keys) = (g s).onto r i keys) :
    Carries 0 fun s => some (g s) :=
  .of_total id hcursor hkeys (fun _ _ _ _ h => h) h

/-- What a step asks of the scanner holds of it in both texts. -/
theorem Carries.unless {f : Scan → Option Scan} {p : Scan → Bool}
    (hp : ∀ s r i keys, keys.length = s.keys.length → p (s.onto r i keys) = p s)
    (hf : Carries n f) : Carries n fun s => if p s then none else f s := by
  intro s s₁ hs
  simp only [Option.ite_none_left_eq_some] at hs
  obtain ⟨hcursor, hagain⟩ := hf s s₁ hs.2
  refine ⟨hcursor, fun r i keys hsame => ?_⟩
  obtain ⟨keys₁, hread, hsame₁⟩ := hagain r i keys hsame
  refine ⟨keys₁, ?_, hsame₁⟩
  simp only [hp s r i keys hsame.length_eq]
  rw [if_neg hs.1, hread]

theorem carries_allowKey (allowed : Bool) : Carries 0 fun s => some (s.allowKey allowed) :=
  .of_eq (fun _ => rfl) (fun _ => rfl) fun _ _ _ _ _ => rfl

theorem carries_put (token : Token) : Carries 0 fun s => some (s.put token) :=
  .of_eq (fun _ => rfl) (fun _ => rfl) fun _ _ _ _ _ => rfl

theorem carries_advance (n : Nat) : Carries n fun s => some (s.goTo (s.cursor.advance n)) := by
  rintro s s₁ hs
  obtain rfl := Option.some.inj hs
  refine ⟨rfl, fun r i keys hsame => ⟨keys, rfl, hsame.later le_rfl fun _ => ?_⟩⟩
  simp only [Cursor.advance, goTo]
  omega

theorem carries_mark (token : Token) (n : Nat) : Carries n fun s => some (s.mark token n) :=
  (carries_advance n).bind (carries_put token)

theorem carries_dropKey : Carries 0 dropKey := by
  intro s s₁ hs
  rw [dropKey, Option.ite_none_left_eq_some] at hs
  obtain ⟨hrequired, heq⟩ := hs
  obtain rfl := Option.some.inj heq
  refine ⟨by simp [setKey, Cursor.advance], fun r i keys hsame =>
    ⟨none :: keys.tail, ?_, hsame.tail.cons_none⟩⟩
  rw [dropKey, if_neg]
  · rfl
  · rwa [show (s.onto r i keys).key = keys.head?.join from rfl, any_required hsame.head]

theorem carries_saveKey : Carries 0 saveKey := by
  intro s s₁ hs
  rw [saveKey] at hs
  split at hs
  · rename_i hallowed
    obtain ⟨s₂, hs₂, heq⟩ := Option.bind_eq_some_iff.mp hs
    obtain rfl := Option.some.inj heq
    obtain ⟨hcursor, hagain⟩ := carries_dropKey s s₂ hs₂
    refine ⟨hcursor, fun r i keys hsame => ?_⟩
    obtain ⟨keys₁, hdrop, hsame₁⟩ := hagain r i keys hsame
    rw [List.drop_zero, Nat.add_zero] at hdrop
    have hplace : SameKey s₂.cursor i
        ⟨s₂.count, s₂.cursor.index, s₂.cursor.line, s₂.cursor.column,
          !s₂.inFlow && s₂.indent = some s₂.cursor.column⟩
        ⟨s₂.count, i, s₂.cursor.line, s₂.cursor.column,
          !s₂.inFlow && s₂.indent = some s₂.cursor.column⟩ :=
      ⟨rfl, rfl, rfl, rfl, le_rfl, fun _ => Nat.add_comm _ _⟩
    refine ⟨_, ?_, .cons (.some hplace) hsame₁.tail⟩
    rw [saveKey, if_pos (show (s.onto r i keys).keyAllowed = true from hallowed), hdrop]
    simp only [Option.bind_eq_bind, Option.bind_some, inFlow_onto hsame₁.length_eq]
    rfl
  · rename_i hallowed
    obtain rfl := Option.some.inj hs
    refine ⟨by simp [Cursor.advance], fun r i keys hsame => ⟨keys, ?_, hsame⟩⟩
    rw [saveKey, if_neg (show ¬(s.onto r i keys).keyAllowed = true from hallowed)]
    rfl

/-! ## Collections -/

theorem openBlock_onto (h : keys.length = s.keys.length) (column : Nat) (position : Option Nat)
    (token : Token) : (s.onto r i keys).openBlock column position token =
      (s.openBlock column position token).onto r i keys := by
  rw [openBlock, openBlock, inFlow_onto h]
  by_cases hopen : (s.inFlow || s.indent.any (column ≤ ·)) = true
  · rw [if_pos hopen, if_pos (show (s.inFlow || (s.onto r i keys).indent.any (column ≤ ·)) = true
      from hopen)]
  · rw [if_neg hopen, if_neg (show ¬(s.inFlow || (s.onto r i keys).indent.any (column ≤ ·)) = true
      from hopen)]
    cases position <;> rfl

theorem openBlock_keys (s : Scan) (column : Nat) (position : Option Nat) (token : Token) :
    (s.openBlock column position token).cursor = s.cursor ∧
      (s.openBlock column position token).keys = s.keys := by
  rw [openBlock]
  split
  · exact ⟨rfl, rfl⟩
  · cases position <;> exact ⟨rfl, rfl⟩

theorem closeBlocks_onto (h : keys.length = s.keys.length) (column : Option Nat) :
    (s.onto r i keys).closeBlocks column = (s.closeBlocks column).onto r i keys := by
  rw [closeBlocks, closeBlocks, inFlow_onto h]
  split <;> rfl

theorem closeBlocks_keys (s : Scan) (column : Option Nat) :
    (s.closeBlocks column).cursor = s.cursor ∧ (s.closeBlocks column).keys = s.keys := by
  rw [closeBlocks]
  split <;> exact ⟨rfl, rfl⟩

theorem carries_openBlock (token : Token) :
    Carries 0 fun s => some (s.openBlock s.cursor.column none token) :=
  .of_eq (fun s => (openBlock_keys s _ _ _).1) (fun s => (openBlock_keys s _ _ _).2)
    fun _ _ _ _ h => openBlock_onto h _ _ _

theorem carries_closeBlocks (column : Option Nat) :
    Carries 0 fun s => some (s.closeBlocks column) :=
  .of_eq (fun s => (closeBlocks_keys s _).1) (fun s => (closeBlocks_keys s _).2)
    fun _ _ _ _ h => closeBlocks_onto h _

/-! ## Marks -/

theorem carries_openFlow (token : Token) : Carries 1 (openFlow · token) := by
  have hpush : Carries 0 fun s => some { s with keys := none :: s.keys } :=
    .of_total (none :: ·) (fun _ => rfl) (fun _ => rfl) (fun _ _ _ _ h => h.cons_none)
      fun _ _ _ _ _ => rfl
  exact carries_saveKey.bind (hpush.bind ((carries_allowKey true).bind (carries_mark token 1)))

theorem carries_closeFlow (token : Token) : Carries 1 (closeFlow · token) := by
  have hpop : Carries 0 fun s => some (if s.inFlow then { s with keys := s.keys.tail } else s) := by
    apply Carries.of_total fun keys => if 1 < keys.length then keys.tail else keys
    · intro s
      split <;> rfl
    · intro s
      by_cases h : s.inFlow = true
      · rw [if_pos h, if_pos (of_decide_eq_true h)]
      · rw [if_neg h, if_neg fun hlt => h (decide_eq_true hlt)]
    · intro c i keys keys' h
      rw [h.length_eq]
      split
      · exact h.tail
      · exact h
    · intro s r i keys h
      rw [inFlow_onto h, h]
      by_cases hflow : s.inFlow = true
      · rw [if_pos hflow, if_pos hflow, if_pos (of_decide_eq_true hflow)]
        rfl
      · rw [if_neg hflow, if_neg hflow, if_neg fun hlt => hflow (decide_eq_true hlt)]
  exact carries_dropKey.bind (hpop.bind ((carries_allowKey false).bind (carries_mark token 1)))

theorem carries_flowEntry : Carries 1 flowEntry :=
  carries_dropKey.bind ((carries_allowKey true).bind (carries_mark .flowEntry 1))

/-- A mark of block context may only stand where a key may. -/
theorem unless_onto (s : Scan) (r : List Char) (i : Nat) (keys : List (Option KeyPlace))
    (h : keys.length = s.keys.length) :
    (!(s.onto r i keys).inFlow && !(s.onto r i keys).keyAllowed) = (!s.inFlow && !s.keyAllowed) := by
  rw [inFlow_onto h]
  rfl

theorem carries_blockEntry : Carries 1 blockEntry := by
  have heq : blockEntry = fun s => if !s.inFlow && !s.keyAllowed then none else
      ((s.openBlock s.cursor.column none .blockSequence).dropKey).bind fun s =>
        some ((s.allowKey true).mark .blockEntry 1) := by
    funext s
    rw [blockEntry]
    cases hp : (!s.inFlow && !s.keyAllowed) <;> rfl
  rw [heq]
  exact .unless unless_onto ((carries_openBlock .blockSequence).bind (carries_dropKey.bind
    ((carries_allowKey true).bind (carries_mark .blockEntry 1))))

theorem carries_allowBlockKey : Carries 0 fun s => some (s.allowKey !s.inFlow) :=
  .of_eq (fun _ => rfl) (fun _ => rfl) fun s r i keys h => by
    rw [inFlow_onto h]
    rfl

theorem carries_explicitKey : Carries 1 explicitKey := by
  have heq : explicitKey = fun s => if !s.inFlow && !s.keyAllowed then none else
      ((s.openBlock s.cursor.column none .blockMapping).dropKey).bind fun s =>
        some ((s.allowKey !s.inFlow).mark .key 1) := by
    funext s
    rw [explicitKey]
    cases hp : (!s.inFlow && !s.keyAllowed) <;> rfl
  rw [heq]
  exact .unless unless_onto ((carries_openBlock .blockMapping).bind (carries_dropKey.bind
    (carries_allowBlockKey.bind (carries_mark .key 1))))

/-- A colon without a key before it. -/
def bareValue (s : Scan) : Option Scan :=
  if !s.inFlow && !s.keyAllowed then none
  else
    let s := s.openBlock s.cursor.column none .blockMapping
    some ((s.allowKey !s.inFlow).mark .value 1)

theorem carries_bareValue : Carries 1 bareValue := by
  have heq : bareValue = fun s => if !s.inFlow && !s.keyAllowed then none else
      (some (s.openBlock s.cursor.column none .blockMapping)).bind fun s =>
        some ((s.allowKey !s.inFlow).mark .value 1) := rfl
  rw [heq]
  exact .unless unless_onto ((carries_openBlock .blockMapping).bind
    (carries_allowBlockKey.bind (carries_mark .value 1)))

/-- The colon behind a key. -/
def keyValue (s : Scan) (position column : Nat) : Scan :=
  ((((s.insert position .key).openBlock column (some position) .blockMapping).setKey
    none).allowKey false).mark .value 1

theorem carries_keyValue (position column : Nat) : Carries 1 fun s => some (keyValue s position column) := by
  have hopen : Carries 0 fun s =>
      some ((s.insert position .key).openBlock column (some position) .blockMapping) :=
    .of_eq (fun s => (openBlock_keys _ _ _ _).1) (fun s => (openBlock_keys _ _ _ _).2)
      fun s r i keys h => openBlock_onto (s := s.insert position .key) h _ _ _
  have hset : Carries 0 fun s => some (s.setKey none) :=
    .of_total (none :: ·.tail) (fun _ => rfl) (fun _ => rfl)
      (fun _ _ _ _ h => h.tail.cons_none) fun _ _ _ _ _ => rfl
  exact hopen.bind (hset.bind ((carries_allowKey false).bind (carries_mark .value 1)))

theorem mappingValue_eq (s : Scan) :
    s.mappingValue = match s.key with
      | some place => some (keyValue s place.position place.column)
      | none => s.bareValue := by
  rw [mappingValue]
  cases s.key <;> rfl

theorem carries_mappingValue : Carries 1 mappingValue := by
  intro s s₁ hs
  rw [mappingValue_eq] at hs
  cases hkey : s.key with
  | none =>
    rw [hkey] at hs
    obtain ⟨hcursor, hagain⟩ := carries_bareValue s s₁ hs
    refine ⟨hcursor, fun r i keys hsame => ?_⟩
    have hrel := hsame.head
    rw [show s.keys.head?.join = none from hkey] at hrel
    cases hkey' : keys.head?.join with
    | some place' =>
      rw [hkey'] at hrel
      cases hrel
    | none =>
      rw [mappingValue_eq, show (s.onto r i keys).key = none from hkey']
      exact hagain r i keys hsame
  | some place =>
    rw [hkey] at hs
    obtain ⟨hcursor, hagain⟩ := carries_keyValue place.position place.column s s₁ hs
    refine ⟨hcursor, fun r i keys hsame => ?_⟩
    have hrel := hsame.head
    rw [show s.keys.head?.join = some place from hkey] at hrel
    cases hkey' : keys.head?.join with
    | none =>
      rw [hkey'] at hrel
      cases hrel
    | some place' =>
      rw [hkey'] at hrel
      cases hrel with
      | some hplace =>
        rw [mappingValue_eq, show (s.onto r i keys).key = some place' from hkey']
        simp only [hplace.position, hplace.column]
        exact hagain r i keys hsame

/-- What a document boundary or a directive does before it is read. -/
theorem carries_atTopLevel {f : Scan → Option Scan} (hf : Carries n f) :
    Carries n (atTopLevel · f) := by
  have h := (carries_closeBlocks none).bind (carries_dropKey.bind ((carries_allowKey false).bind hf))
  simp only [Nat.zero_add] at h
  have heq : (atTopLevel · f) = fun s => (some (s.closeBlocks none)).bind fun s =>
      s.dropKey.bind fun s => (some (s.allowKey false)).bind f := by
    funext s
    rw [atTopLevel]
    rfl
  rwa [heq]

/-! ## Stale keys -/

theorem isStale_onto {place place' : KeyPlace} (h : SameKey s.cursor i place place') :
    (s.onto r i keys).isStale place' = s.isStale place := by
  rw [isStale, isStale, h.line]
  change (decide (place.line < s.cursor.line) || decide (place'.index + 1024 < i)) = _
  by_cases hlt : place.line < s.cursor.line
  · simp [hlt]
  · have hindex := h.index (le_antisymm h.passed (by omega))
    congr 1
    rw [decide_eq_decide]
    omega

/-- What is left of a pending key. -/
def freshKey (s : Scan) : Option KeyPlace → Option (Option KeyPlace)
  | some place =>
    if s.isStale place then if place.required then none else some none else some (some place)
  | none => some none

theorem dropStaleKeys_eq (s : Scan) :
    s.dropStaleKeys = (s.keys.mapM s.freshKey).map fun keys => { s with keys } := by
  rw [dropStaleKeys, Option.map_eq_bind]
  rfl

theorem freshKeys_onto {ks : List (Option KeyPlace)} (h : SameKeys s.cursor i ks keys)
    {fresh : List (Option KeyPlace)} (hfresh : ks.mapM s.freshKey = some fresh) (r : List Char)
    (keys₀ : List (Option KeyPlace)) :
    ∃ fresh', keys.mapM (s.onto r i keys₀).freshKey = some fresh' ∧
      SameKeys s.cursor i fresh fresh' := by
  induction h generalizing fresh with
  | nil =>
    cases hfresh
    exact ⟨[], rfl, .nil⟩
  | @cons key key' ks keys hkey _ ih =>
    rw [List.mapM_cons] at hfresh ⊢
    obtain ⟨one, hone, hfresh⟩ := Option.bind_eq_some_iff.mp hfresh
    obtain ⟨more, hmore, hfresh⟩ := Option.bind_eq_some_iff.mp hfresh
    cases hfresh
    obtain ⟨more', hmore', hsame⟩ := ih hmore
    obtain ⟨one', hone', hrel⟩ : ∃ one', (s.onto r i keys₀).freshKey key' = some one' ∧
        Option.Rel (SameKey s.cursor i) one one' := by
      cases hkey with
      | none =>
        cases hone
        exact ⟨none, rfl, .none⟩
      | some hplace =>
        have hstale : (s.onto r i keys₀).isStale _ = _ := isStale_onto hplace
        rw [freshKey] at hone ⊢
        rw [hstale, hplace.required]
        split at hone
        · rename_i hs
          rw [if_pos hs]
          rw [Option.ite_none_left_eq_some] at hone
          obtain ⟨hrequired, heq⟩ := hone
          cases heq
          exact ⟨none, if_neg hrequired, .none⟩
        · rename_i hs
          rw [if_neg hs]
          cases hone
          exact ⟨_, rfl, .some hplace⟩
    exact ⟨one' :: more', by simp [hone', hmore'], .cons hrel hsame⟩

theorem dropStaleKeys_onto (h : SameKeys s.cursor i s.keys keys) (hs : s.dropStaleKeys = some s₁)
    (r : List Char) :
    ∃ keys₁, (s.onto r i keys).dropStaleKeys = some (s₁.onto r i keys₁) ∧
      s₁.cursor = s.cursor ∧ SameKeys s₁.cursor i s₁.keys keys₁ := by
  rw [dropStaleKeys_eq] at hs
  obtain ⟨fresh, hfresh, rfl⟩ := Option.map_eq_some_iff.mp hs
  obtain ⟨fresh', hfresh', hsame⟩ := freshKeys_onto h hfresh r keys
  refine ⟨fresh', ?_, rfl, hsame⟩
  rw [dropStaleKeys_eq, show (s.onto r i keys).keys = keys from rfl, hfresh']
  rfl

/-! ## The end of the text -/

/-- A key that may be given up in the one text may be in the other, and if none has to be a key there
none has here. -/
theorem freshKeys_nearer {t : Scan} {ks : List (Option KeyPlace)}
    (h : NearerKeys s.cursor t.cursor.index ks keys) (hline : t.cursor.line = s.cursor.line)
    {fresh : List (Option KeyPlace)} (hfresh : ks.mapM s.freshKey = some fresh) :
    ∃ fresh', keys.mapM t.freshKey = some fresh' ∧ fresh'.length = fresh.length ∧
      (fresh.head?.join.any KeyPlace.required = false →
        fresh'.head?.join.any KeyPlace.required = false) := by
  induction h generalizing fresh with
  | nil =>
    cases hfresh
    exact ⟨[], rfl, rfl, fun _ => rfl⟩
  | @cons key key' ks keys hkey _ ih =>
    rw [List.mapM_cons] at hfresh ⊢
    obtain ⟨one, hone, hfresh⟩ := Option.bind_eq_some_iff.mp hfresh
    obtain ⟨more, hmore, hfresh⟩ := Option.bind_eq_some_iff.mp hfresh
    cases hfresh
    obtain ⟨more', hmore', hlength, -⟩ := ih hmore
    obtain ⟨one', hone', hrequired⟩ : ∃ one', t.freshKey key' = some one' ∧
        (one.any KeyPlace.required = false → one'.any KeyPlace.required = false) := by
      cases hkey with
      | none => exact ⟨none, rfl, fun _ => rfl⟩
      | @some place place' hplace =>
        have hstale : t.isStale place' = true → s.isStale place = true := by
          simp only [isStale, hplace.line, hline, Bool.or_eq_true, decide_eq_true_eq]
          intro hlate
          by_cases heq : place.line = s.cursor.line
          · have hindex := hplace.index heq
            omega
          · have hpassed := hplace.passed
            omega
        rw [freshKey] at hone ⊢
        cases hs : t.isStale place' with
        | true =>
          rw [if_pos (hstale hs), Option.ite_none_left_eq_some] at hone
          exact ⟨none, by rw [if_pos rfl, if_neg (by rw [hplace.required]; exact hone.1)],
            fun _ => rfl⟩
        | false =>
          refine ⟨some place', rfl, fun hnone => ?_⟩
          rw [Option.any_some, hplace.required]
          split at hone
          · rw [Option.ite_none_left_eq_some] at hone
            simpa using hone.1
          · cases hone
            simpa using hnone
    exact ⟨one' :: more', by simp [hone', hmore'], by simp [hlength], fun hnone => hrequired hnone⟩

/-- The tokens at the end of the text, which closes every collection. -/
theorem finish_closed (s : Scan) (column : Option Nat) :
    (s.closeBlocks column).finish.map (·.tokens) =
      if s.key.any KeyPlace.required then none
      else some (if s.inFlow then s.tokens
        else List.replicate s.indents.length .blockEnd ++ s.tokens) := by
  have hkey : ((s.closeBlocks column).closeBlocks none).key = s.key := by
    rw [key, (closeBlocks_keys _ _).2, (closeBlocks_keys _ _).2]
    rfl
  have htokens : ((s.closeBlocks column).closeBlocks none).tokens =
      if s.inFlow then s.tokens else List.replicate s.indents.length .blockEnd ++ s.tokens := by
    have hflow : (s.closeBlocks column).inFlow = s.inFlow := by
      rw [inFlow, (closeBlocks_keys _ _).2]
      rfl
    rw [closeBlocks, hflow]
    split
    · rename_i h
      rw [closeBlocks, if_pos h]
    · rename_i h
      rw [closeBlocks, if_neg h]
      have hall (l : List Nat) : l.takeWhile (fun _ => true) = l := by
        simp [List.takeWhile_eq_self_iff]
      have hle := (s.indents.takeWhile_prefix fun n => column.all (· < n)).length_le
      simp only [Option.all_none, hall, ← List.append_assoc, List.replicate_append_replicate,
        List.length_drop]
      congr 3
      omega
  rw [finish, dropKey, hkey]
  split
  · rfl
  · rw [Option.map_some]
    exact congrArg some htokens

/-- At the end of both texts the tokens are the same, wherever the one stands on its line. -/
theorem finish_nearer {t u v : Scan} {column : Option Nat} (column' : Option Nat)
    (h : NearerKeys s.cursor t.cursor.index s.keys t.keys) (hline : t.cursor.line = s.cursor.line)
    (htokens : t.tokens = s.tokens) (hindents : t.indents = s.indents)
    (hdrop : s.dropStaleKeys = some u) (hfinish : (u.closeBlocks column).finish = some v) :
    ∃ u' v', t.dropStaleKeys = some u' ∧ (u'.closeBlocks column').finish = some v' ∧
      v'.tokens = v.tokens := by
  rw [dropStaleKeys_eq] at hdrop
  obtain ⟨fresh, hfresh, rfl⟩ := Option.map_eq_some_iff.mp hdrop
  obtain ⟨fresh', hfresh', hlength, hrequired⟩ := freshKeys_nearer h hline hfresh
  have hs := finish_closed { s with keys := fresh } column
  rw [hfinish, Option.map_some] at hs
  obtain ⟨hnone, hv⟩ := Option.ite_none_left_eq_some.mp hs.symm
  have ht := finish_closed { t with keys := fresh' } column'
  rw [if_neg] at ht
  · obtain ⟨v', hv', htokens'⟩ := Option.map_eq_some_iff.mp ht
    refine ⟨_, v', by rw [dropStaleKeys_eq, hfresh']; rfl, hv', htokens'.trans ?_⟩
    rw [← Option.some.inj hv]
    simp only [inFlow, htokens, hindents, hlength]
    rfl
  · rw [Bool.not_eq_true] at hnone ⊢
    exact hrequired hnone

end Scan

end ClusterConfig.Yaml
