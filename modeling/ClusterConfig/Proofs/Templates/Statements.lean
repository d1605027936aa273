import Mathlib
import ClusterConfig.Proofs.Templates.Expressions

/-!
# Statements over all fields

A total statement prints something in each run and assigns nothing that stays. Other statements may
fail, but where everything that decides their course is fixed, they do so in two runs alike.
-/

set_option autoImplicit false

namespace ClusterConfig.Template

variable {k l : Knowledge} {scopes a b : Scopes}

/-! ## Parts of statements -/

/-- The shape of a value that was passed through filters. -/
def filtersShape? (k : Knowledge) : Shape → List PendingFilter → Option Shape
  | shape, [] => some shape
  | shape, filter :: rest => do
    let next ← Builtins.filterShape? filter.name shape (← shapes? k filter.arguments)
    if filter.named.isEmpty then filtersShape? k next rest else none

theorem filters_yield (h : k.Fits scopes) {shape source : Shape} {filters : List PendingFilter}
    {value : Value} (hs : filtersShape? k source filters = some shape) (hv : source.Holds value) :
    Yields (filters.foldlM (fun value filter => (filter.of (.constant value)).eval scopes) value)
      shape := by
  induction filters generalizing source value with
  | nil =>
    cases hs
    exact hv.yields
  | cons filter rest ih =>
    simp only [filtersShape?, Option.bind_eq_bind, Option.bind_eq_some_iff] at hs
    obtain ⟨shapes, harguments, next, hnext, hs⟩ := hs
    split at hs
    · rename_i hnamed
      obtain ⟨values, hvalues, hall⟩ := evalItems_yields h filter.arguments harguments
      obtain ⟨filtered, hfiltered, hholds⟩ := Builtins.filter_yields hnext hv hall
      have heval : (filter.of (.constant value)).eval scopes = .ok filtered := by
        rw [PendingFilter.of, List.isEmpty_iff.mp hnamed, Expr.eval, hvalues]
        exact hfiltered
      rw [List.foldlM_cons, heval]
      exact ih hs hholds
    · cases hs

theorem applyFilters_yields (h : k.Fits scopes) {shape : Shape} {filters : List PendingFilter}
    (hs : filtersShape? k .text filters = some shape) (text : String) :
    Yields (applyFilters scopes filters text) shape := filters_yield h hs ⟨text, rfl⟩

/-- What is known once a target is assigned a value of which something is known. -/
def Target.learn? (k : Knowledge) (known : Known) : Target → Option Knowledge
  | .name label => if known.isSomething then some (k.set label known) else none
  | .each targets => if known.isFixed then some (k.setAll (namesOf targets) .fixed) else none

/-- What is known once values are assigned one after the other. -/
def learnNames? (k : Knowledge) : List (Target × Expr) → Option Knowledge
  | [] => some k
  | (target, value) :: rest => do learnNames? (← target.learn? k (value.known k)) rest

theorem assign_together {known : Known} {target : Target} {value other : Value}
    (h : k.Relates a b) (hl : target.learn? k known = some l) (hv : known.Relates value other) :
    Together l.Relates (target.assign a value) (target.assign b other) := by
  cases target with
  | name label =>
    rw [Target.learn?] at hl
    split at hl
    · cases hl
      exact h.set label hv
    · cases hl
  | each targets =>
    rw [Target.learn?] at hl
    split at hl
    · cases hl
      obtain rfl := hv.1 ‹_›
      exact (Target.each targets).assign_together h value
    · cases hl

theorem isSomething_of_learn {known : Known} {target : Target}
    (h : target.learn? k known = some l) : known.isSomething = true := by
  cases target with
  | name label =>
    rw [Target.learn?] at h
    split at h
    · rename_i hsomething
      exact hsomething
    · cases h
  | each targets =>
    rw [Target.learn?] at h
    split at h
    · exact Bool.or_eq_true_iff.mpr (.inl ‹_›)
    · cases h

theorem evalAssign_together {target : Target} {value : Expr} (h : k.Relates a b)
    (hl : target.learn? k (value.known k) = some l) :
    Together l.Relates (value.eval a >>= fun v => target.assign a v)
      (value.eval b >>= fun v => target.assign b v) :=
  (value.eval_together h (isSomething_of_learn hl)).bind fun _ _ hv => assign_together h hl hv

theorem assignAll_together {assignments : List (Target × Expr)} (h : k.Relates a b)
    (hl : learnNames? k assignments = some l) :
    Together l.Relates (assignAll a assignments) (assignAll b assignments) := by
  induction assignments generalizing k a b with
  | nil =>
    cases hl
    exact h
  | cons assignment rest ih =>
    simp only [learnNames?, Option.bind_eq_bind, Option.bind_eq_some_iff] at hl
    obtain ⟨next, hnext, hl⟩ := hl
    rw [assignAll, assignAll, ← bind_assoc, ← bind_assoc]
    exact (evalAssign_together h hnext).bind fun _ _ hrelates => ih hrelates hl

/-- The shapes of names once values are assigned one after the other, if that never fails. -/
def shapeNames? (k : Knowledge) : List (Target × Expr) → Option Knowledge
  | [] => some k
  | (.name label, value) :: rest => do
    let shape ← value.shape? k
    shapeNames? (k.set label (.shaped shape)) rest
  | (.each _, _) :: _ => none

theorem assignAll_fits {assignments : List (Target × Expr)} (h : k.Fits scopes)
    (hl : shapeNames? k assignments = some l) :
    ∃ inner, assignAll scopes assignments = .ok inner ∧ l.Fits inner := by
  induction assignments generalizing k scopes with
  | nil =>
    cases hl
    exact ⟨scopes, rfl, h⟩
  | cons assignment rest ih =>
    obtain ⟨target, value⟩ := assignment
    cases target with
    | name label =>
      simp only [shapeNames?, Option.bind_eq_bind, Option.bind_eq_some_iff] at hl
      obtain ⟨shape, hshape, hl⟩ := hl
      obtain ⟨v, hv, hholds⟩ := value.eval_yields h hshape
      have hnext : (k.set label (.shaped shape)).Fits (scopes.set label v) :=
        h.set label fun _ hs => Option.some.inj hs ▸ hholds
      obtain ⟨inner, hinner, hfits⟩ := ih hnext hl
      refine ⟨inner, ?_, hfits⟩
      rw [assignAll, hv]
      exact hinner
    | each targets => cases hl

/-! ## Total statements -/

mutual

/-- Whether a statement prints something in every run, whatever the values of the known shapes. -/
def Statement.isTotal (k : Knowledge) : Statement → Bool
  | .text _ => true
  | .output value => (value.shape? k).isSome
  | .branch condition yes no => (condition.shape? k).isSome && allTotal k yes && allTotal k no
  | .loop (.name label) source keep body otherwise =>
    (source.shape? k = some .text || source.shape? k = some .texts) &&
      (keep.all fun keep => (keep.shape? (k.set label (.shaped .text))).isSome) &&
      allTotal ((k.forget ["loop", label]).set label (.shaped .text)) body && allTotal k otherwise
  | .loop (.each _) _ _ _ _ => false
  | .assign _ _ => false
  | .capture _ _ _ => false
  | .within assignments body =>
    match shapeNames? k assignments with
    | some inner => allTotal inner body
    | none => false
  | .filtered filters body => (filtersShape? k .text filters).isSome && allTotal k body
  | .evaluate value => (value.shape? k).isSome
  | .block body => allTotal k body

def allTotal (k : Knowledge) : List Statement → Bool
  | [] => true
  | statement :: rest => statement.isTotal k && allTotal k rest

end

theorem Knowledge.Fits.set_text (h : k.Fits scopes) (label text : String) :
    (k.set label (.shaped .text)).Fits (scopes.set label (.str text)) :=
  h.set label fun _ hs => Option.some.inj hs ▸ ⟨text, rfl⟩

theorem items_texts {shape : Shape} {value : Value} (hs : shape = .text ∨ shape = .texts)
    (h : shape.Holds value) : ∃ texts : List String, value.items = .ok (texts.map .str) := by
  obtain rfl | rfl := hs
  · obtain ⟨text, rfl⟩ := h
    refine ⟨text.toList.map String.singleton, ?_⟩
    rw [List.map_map]
    rfl
  · obtain ⟨first, rest, rfl⟩ := h
    exact ⟨first :: rest, rfl⟩

theorem filterAuxM_texts {keep : Value → Except Failure Bool}
    (h : ∀ text, ∃ b, keep (.str text) = .ok b) (texts kept : List String) :
    ∃ more : List String,
      (texts.map Value.str).filterAuxM keep (kept.map .str) = .ok (more.map .str) := by
  induction texts generalizing kept with
  | nil => exact ⟨kept, rfl⟩
  | cons text texts ih =>
    obtain ⟨b, hb⟩ := h text
    obtain ⟨more, hmore⟩ := ih (if b then text :: kept else kept)
    refine ⟨more, ?_⟩
    rw [List.map_cons, List.filterAuxM, hb, ← hmore]
    cases b <;> rfl

theorem filterM_texts {keep : Value → Except Failure Bool}
    (h : ∀ text, ∃ b, keep (.str text) = .ok b) (texts : List String) :
    ∃ kept : List String, (texts.map Value.str).filterM keep = .ok (kept.map .str) := by
  obtain ⟨kept, hkept⟩ := filterAuxM_texts h texts []
  refine ⟨kept.reverse, ?_⟩
  rw [List.filterM, List.map_reverse]
  exact congrArg (· >>= fun kept => pure kept.reverse) hkept

theorem keepItems_texts {label : String} {keep : Option Expr} (h : k.Fits scopes)
    (hk : (keep.all fun keep => (keep.shape? (k.set label (.shaped .text))).isSome) = true)
    (texts : List String) :
    ∃ kept : List String,
      keepItems scopes (.name label) keep (texts.map .str) = .ok (kept.map .str) := by
  cases keep with
  | none => exact ⟨texts, rfl⟩
  | some keep =>
    obtain ⟨shape, hshape⟩ := Option.isSome_iff_exists.mp hk
    rw [keepItems]
    refine filterM_texts (fun text => ?_) texts
    obtain ⟨value, hvalue, hholds⟩ := keep.eval_yields (h.push.set_text label text) hshape
    exact ⟨value.truth, (congrArg (· >>= Value.condition) hvalue).trans hholds.condition⟩

/-- A loop over texts ends if its body prints something for any text, whatever place it is at. -/
theorem runEach_texts {label : String} {body : Scopes → Except Failure (String × Scopes)}
    (hloop : (k.of "loop").shape = none) (hlabel : (k.of label).shape = none)
    (hbody : ∀ inner, (k.set label (.shaped .text)).Fits inner →
      ∃ text, body inner = .ok (text, inner))
    (items : List Value) (depth : Nat) (texts : List String) (place : Nat) (h : k.Fits scopes) :
    ∃ text, runEach body (.name label) items depth scopes place (texts.map .str) = .ok text := by
  induction texts generalizing place scopes with
  | nil => exact ⟨"", rfl⟩
  | cons item rest ih =>
    have hplaced := h.set_free hloop (loopState items depth place)
    obtain ⟨text, htext⟩ := hbody _ (hplaced.set_text label item)
    obtain ⟨more, hmore⟩ := ih (place + 1) (hplaced.set_free hlabel (.str item))
    refine ⟨text ++ more, ?_⟩
    rw [List.map_cons, runEach, Target.assign]
    simp only [bind, Except.bind, htext, hmore]
    rfl

/-- A loop over the texts of a value prints something if its body does for any text, and what it runs
for no text too. -/
theorem loop_total {label : String} {source : Expr} {keep : Option Expr}
    {body otherwise : List Statement} (h : k.Fits scopes)
    (hsource : source.shape? k = some .text ∨ source.shape? k = some .texts)
    (hkeep : (keep.all fun keep => (keep.shape? (k.set label (.shaped .text))).isSome) = true)
    (hbody : ∀ inner, ((k.forget ["loop", label]).set label (.shaped .text)).Fits inner →
      ∃ text, runAll inner body = .ok (text, inner))
    (hotherwise : ∃ text, runAll scopes otherwise = .ok (text, scopes)) :
    ∃ text, (Statement.loop (.name label) source keep body otherwise).run scopes =
      .ok (text, scopes) := by
  obtain ⟨shape, hshape, htexts⟩ : ∃ shape, source.shape? k = some shape ∧
      (shape = .text ∨ shape = .texts) := by
    obtain hsource | hsource := hsource
    · exact ⟨_, hsource, .inl rfl⟩
    · exact ⟨_, hsource, .inr rfl⟩
  obtain ⟨v, hv, hholds⟩ := source.eval_yields h hshape
  obtain ⟨texts, hitems⟩ := items_texts htexts hholds
  obtain ⟨kept, hkept⟩ := keepItems_texts h hkeep texts
  rw [Statement.run, hv]
  simp only [bind, Except.bind, hitems, hkept]
  split
  · exact hotherwise
  · have hforgotten (name : String) (hname : name ∈ ["loop", label]) :
        ((k.forget ["loop", label]).of name).shape = none := by
      rw [Knowledge.of_forget hname]
      rfl
    obtain ⟨text, htext⟩ := runEach_texts (hforgotten "loop" (by simp))
      (hforgotten label (by simp)) hbody (kept.map .str) (loopDepth scopes) kept 0
      (h.push.forget ["loop", label])
    refine ⟨text, ?_⟩
    rw [htext]
    rfl

mutual

/-- A total statement prints something and leaves the scopes as they are. -/
theorem Statement.run_total {k : Knowledge} {scopes : Scopes} (h : k.Fits scopes) :
    ∀ s : Statement, s.isTotal k = true → ∃ text, s.run scopes = .ok (text, scopes)
  | .text text, _ => ⟨text, rfl⟩
  | .output value, ht => by
    obtain ⟨shape, hshape⟩ := Option.isSome_iff_exists.mp ht
    obtain ⟨v, hv, hholds⟩ := value.eval_yields h hshape
    refine ⟨v.shown, ?_⟩
    rw [Statement.run, hv]
    simp only [bind, Except.bind, hholds.printed]
    rfl
  | .branch condition yes no, ht => by
    simp only [Statement.isTotal, Bool.and_eq_true] at ht
    obtain ⟨⟨hcondition, hyes⟩, hno⟩ := ht
    obtain ⟨shape, hshape⟩ := Option.isSome_iff_exists.mp hcondition
    obtain ⟨v, hv, hholds⟩ := condition.eval_yields h hshape
    rw [Statement.run, hv]
    simp only [bind, Except.bind, hholds.condition]
    split
    · exact runAll_total h yes hyes
    · exact runAll_total h no hno
  | .loop (.name label) source keep body otherwise, ht => by
    simp only [Statement.isTotal, Bool.and_eq_true, Bool.or_eq_true, decide_eq_true_eq] at ht
    obtain ⟨⟨⟨hsource, hkeep⟩, hbody⟩, hotherwise⟩ := ht
    exact loop_total h hsource hkeep (fun inner hinner => runAll_total hinner body hbody)
      (runAll_total h otherwise hotherwise)
  | .within assignments body, ht => by
    rw [Statement.isTotal] at ht
    split at ht
    · rename_i inner hassigned
      obtain ⟨after, hafter, hfits⟩ := assignAll_fits h.push hassigned
      obtain ⟨text, htext⟩ := runAll_total hfits body ht
      refine ⟨text, ?_⟩
      rw [Statement.run, hafter]
      simp only [bind, Except.bind, htext]
      rfl
    · cases ht
  | .filtered filters body, ht => by
    obtain ⟨hfilters, hbody⟩ := Bool.and_eq_true_iff.mp ht
    obtain ⟨shape, hshape⟩ := Option.isSome_iff_exists.mp hfilters
    obtain ⟨text, htext⟩ := runAll_total h body hbody
    obtain ⟨v, hv, hholds⟩ := applyFilters_yields h hshape text
    refine ⟨v.shown, ?_⟩
    rw [Statement.run, htext]
    simp only [bind, Except.bind, hv, hholds.printed]
    rfl
  | .evaluate value, ht => by
    obtain ⟨shape, hshape⟩ := Option.isSome_iff_exists.mp ht
    obtain ⟨v, hv, -⟩ := value.eval_yields h hshape
    refine ⟨"", ?_⟩
    rw [Statement.run, hv]
    rfl
  | .block body, ht => by
    obtain ⟨text, htext⟩ := runAll_total h.push body ht
    refine ⟨text, ?_⟩
    rw [Statement.run, htext]
    rfl
  | .loop (.each _) _ _ _ _, ht => nomatch ht
  | .assign _ _, ht => nomatch ht
  | .capture _ _ _, ht => nomatch ht

theorem runAll_total {k : Knowledge} {scopes : Scopes} (h : k.Fits scopes) :
    ∀ body : List Statement, allTotal k body = true →
      ∃ text, runAll scopes body = .ok (text, scopes)
  | [], _ => ⟨"", rfl⟩
  | statement :: rest, ht => by
    obtain ⟨hstatement, hrest⟩ := Bool.and_eq_true_iff.mp ht
    obtain ⟨text, htext⟩ := statement.run_total h hstatement
    obtain ⟨more, hmore⟩ := runAll_total h rest hrest
    refine ⟨text ++ more, ?_⟩
    rw [runAll, htext]
    simp only [bind, Except.bind, hmore]
    rfl

end

/-! ## Steady statements -/

mutual

/-- What is known after a statement whose course is the same in all runs. -/
def Statement.learn? (k : Knowledge) : Statement → Option Knowledge
  | .text _ => some k
  | .output value => if value.isFixed k then some k else none
  | .branch condition yes no => do
    let afterYes ← learnAll? k yes
    let afterNo ← learnAll? k no
    if condition.isFixed k then some (afterYes.join afterNo) else none
  | .loop target source keep body otherwise => do
    -- What a body assigns stays for the next item, so it may not change what is known before.
    let before := k.forget ("loop" :: target.names)
    let after ← learnAll? (before.setAll ("loop" :: target.names) .fixed) body
    let afterOtherwise ← learnAll? k otherwise
    if source.isFixed k && (keep.all fun keep => keep.isFixed (k.setAll target.names .fixed)) &&
        after.covers before then some (k.join afterOtherwise) else none
  | .assign target value => target.learn? k (value.known k)
  | .capture name filters body => do
    let after ← learnAll? k body
    let shape ← filtersShape? after .text filters
    return after.set name (.shaped shape)
  | .within assignments body => do
    let inner ← learnNames? k assignments
    let _ ← learnAll? inner body
    return k
  | .filtered filters body => do
    let after ← learnAll? k body
    let _ ← filtersShape? after .text filters
    return after
  | .evaluate value => if value.isFixed k then some k else none
  | .block body => do
    let _ ← learnAll? k body
    return k

/-- What is known after statements that are total or the same in all runs. -/
def learnAll? (k : Knowledge) : List Statement → Option Knowledge
  | [] => some k
  | statement :: rest =>
    (if statement.isTotal k then some k else statement.learn? k).bind fun after =>
      learnAll? after rest

end

theorem keepItems_together {target : Target} {keep : Option Expr} (h : k.Relates a b)
    (hk : (keep.all fun keep => keep.isFixed (k.setAll target.names .fixed)) = true)
    (items : List Value) : keepItems a target keep items = keepItems b target keep items := by
  cases keep with
  | none => rfl
  | some keep =>
    have hpasses (item : Value) : (do
        let inner ← target.assign ([] :: a) item
        (← keep.eval inner).condition) = (do
        let inner ← target.assign ([] :: b) item
        (← keep.eval inner).condition) := by
      have hassign := target.assign_together h.push item
      cases hleft : target.assign ([] :: a) item <;> cases hright : target.assign ([] :: b) item <;>
        rw [hleft, hright] at hassign
      · exact congrArg _ hassign
      · exact hassign.elim
      · exact hassign.elim
      · exact congrArg (· >>= Value.condition) (keep.eval_fixed hassign hk)
    exact congrArg (fun passes => items.filterM passes) (funext hpasses)

/-- The scopes after two runs agree on what is known. -/
abbrev RunsAlike (k : Knowledge) :
    Except Failure (String × Scopes) → Except Failure (String × Scopes) → Prop :=
  Together fun after after' => k.Relates after.2 after'.2

/-- A loop whose body keeps what is known before each item runs in two runs alike. -/
theorem runEach_together {target : Target} {body : Scopes → Except Failure (String × Scopes)}
    (hbody : ∀ inner inner', (k.setAll ("loop" :: target.names) .fixed).Relates inner inner' →
      RunsAlike k (body inner) (body inner'))
    (items : List Value) (depth : Nat) (rest : List Value) (place : Nat) (h : k.Relates a b) :
    Together (fun _ _ => True) (runEach body target items depth a place rest)
      (runEach body target items depth b place rest) := by
  induction rest generalizing place a b with
  | nil => trivial
  | cons item rest ih =>
    rw [runEach, runEach]
    have hplaced := h.set "loop" (Known.relates_fixed (loopState items depth place))
    refine (target.assign_together hplaced item).bind fun inner inner' hinner => ?_
    refine (hbody inner inner' hinner).bind fun after after' hafter => ?_
    exact (ih (place + 1) hafter).bind fun _ _ _ => trivial

/-- A loop over a fixed value runs in two runs alike if its body keeps what is known before each item,
and what it runs for no item does so too. -/
theorem loop_together {target : Target} {source : Expr} {keep : Option Expr}
    {body otherwise : List Statement} (h : k.Relates a b) (hsource : source.isFixed k = true)
    (hkeep : (keep.all fun keep => keep.isFixed (k.setAll target.names .fixed)) = true)
    (hbody : ∀ inner inner',
      ((k.forget ("loop" :: target.names)).setAll ("loop" :: target.names) .fixed).Relates
        inner inner' →
      RunsAlike (k.forget ("loop" :: target.names)) (runAll inner body) (runAll inner' body))
    (hotherwise : RunsAlike l (runAll a otherwise) (runAll b otherwise)) :
    RunsAlike (k.join l) ((Statement.loop target source keep body otherwise).run a)
      ((Statement.loop target source keep body otherwise).run b) := by
  rw [Statement.run, Statement.run, source.eval_fixed h hsource, h.loopDepth_eq]
  refine (Together.of_eq rfl).bind fun v v' hv => ?_
  refine (Together.of_eq (congrArg Value.items hv)).bind fun items items' hitems => ?_
  subst hitems
  rw [keepItems_together h hkeep]
  refine (Together.of_eq rfl).bind fun kept kept' hkept => ?_
  subst hkept
  split
  · exact hotherwise.mono fun _ _ hafter => hafter.mono (Knowledge.covers_join_right _ _)
  · have hloop := runEach_together hbody kept (loopDepth b) kept 0
      (h.push.forget ("loop" :: target.names))
    exact hloop.bind fun _ _ _ => h.mono (Knowledge.covers_join_left _ _)

theorem Statement.total_together (h : k.Relates a b) {s : Statement} (ht : s.isTotal k = true) :
    RunsAlike k (s.run a) (s.run b) := by
  obtain ⟨text, htext⟩ := s.run_total h.left ht
  obtain ⟨text', htext'⟩ := s.run_total h.right ht
  exact .of_ok htext htext' h

/-- Filters that make a text of any text do so in both runs. -/
theorem applyFilters_together (h : k.Relates a b) {shape : Shape} {filters : List PendingFilter}
    (hs : filtersShape? k .text filters = some shape) (text text' : String) :
    Together (fun value other => shape.Holds value ∧ shape.Holds other)
      (applyFilters a filters text) (applyFilters b filters text') := by
  obtain ⟨value, hvalue, hholds⟩ := applyFilters_yields h.left hs text
  obtain ⟨other, hother, hholds'⟩ := applyFilters_yields h.right hs text'
  exact .of_ok hvalue hother ⟨hholds, hholds'⟩

mutual

/-- Two runs of a steady statement fail alike, or agree on what is known after it. -/
theorem Statement.run_together {k l : Knowledge} {a b : Scopes} (h : k.Relates a b) :
    ∀ s : Statement, s.learn? k = some l → RunsAlike l (s.run a) (s.run b)
  | .text _, hl => by
    cases hl
    exact h
  | .output value, hl => by
    rw [Statement.learn?, Option.ite_none_right_eq_some] at hl
    obtain ⟨hfixed, hl⟩ := hl
    cases hl
    rw [Statement.run, Statement.run, value.eval_fixed h hfixed]
    refine (Together.of_eq rfl).bind fun v v' hv => ?_
    exact (Together.of_eq (congrArg Value.printed hv)).bind fun _ _ _ => h
  | .branch condition yes no, hl => by
    simp only [Statement.learn?, Option.bind_eq_bind, Option.bind_eq_some_iff,
      Option.ite_none_right_eq_some] at hl
    obtain ⟨afterYes, hyes, afterNo, hno, hfixed, hl⟩ := hl
    cases hl
    rw [Statement.run, Statement.run, condition.eval_fixed h hfixed]
    refine (Together.of_eq rfl).bind fun v v' hv => ?_
    refine (Together.of_eq (congrArg Value.condition hv)).bind fun holds holds' hholds => ?_
    subst hholds
    split
    · exact (runAll_together h yes hyes).mono fun _ _ hafter =>
        hafter.mono (Knowledge.covers_join_left _ _)
    · exact (runAll_together h no hno).mono fun _ _ hafter =>
        hafter.mono (Knowledge.covers_join_right _ _)
  | .loop target source keep body otherwise, hl => by
    simp only [Statement.learn?, Option.bind_eq_bind, Option.bind_eq_some_iff,
      Option.ite_none_right_eq_some, Bool.and_eq_true] at hl
    obtain ⟨after, hbody, afterOtherwise, hotherwise, ⟨⟨hsource, hkeep⟩, hcovers⟩, hl⟩ := hl
    cases hl
    exact loop_together h hsource hkeep
      (fun inner inner' hinner => (runAll_together hinner body hbody).mono fun _ _ hafter =>
        hafter.mono hcovers)
      (runAll_together h otherwise hotherwise)
  | .assign target value, hl => by
    rw [Statement.run, Statement.run]
    refine (value.eval_together h (isSomething_of_learn hl)).bind fun v v' hv => ?_
    exact (assign_together h hl hv).bind fun _ _ hafter => hafter
  | .capture name filters body, hl => by
    simp only [Statement.learn?, Option.bind_eq_bind, Option.bind_eq_some_iff] at hl
    obtain ⟨after, hbody, shape, hshape, hl⟩ := hl
    cases hl
    rw [Statement.run, Statement.run]
    refine (runAll_together h body hbody).bind fun inner inner' hinner => ?_
    refine (applyFilters_together hinner hshape inner.1 inner'.1).bind fun v v' hv => ?_
    exact hinner.set name (Known.relates_shaped hv.1 hv.2)
  | .within assignments body, hl => by
    simp only [Statement.learn?, Option.bind_eq_bind, Option.bind_eq_some_iff] at hl
    obtain ⟨known, hassigned, after, hbody, hl⟩ := hl
    cases hl
    rw [Statement.run, Statement.run]
    refine (assignAll_together h.push hassigned).bind fun inner inner' hinner => ?_
    exact (runAll_together hinner body hbody).bind fun _ _ _ => h
  | .filtered filters body, hl => by
    simp only [Statement.learn?, Option.bind_eq_bind, Option.bind_eq_some_iff] at hl
    obtain ⟨after, hbody, shape, hshape, hl⟩ := hl
    cases hl
    rw [Statement.run, Statement.run]
    refine (runAll_together h body hbody).bind fun inner inner' hinner => ?_
    refine (applyFilters_together hinner hshape inner.1 inner'.1).bind fun v v' hv => ?_
    rw [hv.1.printed, hv.2.printed]
    exact hinner
  | .evaluate value, hl => by
    rw [Statement.learn?, Option.ite_none_right_eq_some] at hl
    obtain ⟨hfixed, hl⟩ := hl
    cases hl
    rw [Statement.run, Statement.run, value.eval_fixed h hfixed]
    exact (Together.of_eq rfl).bind fun _ _ _ => h
  | .block body, hl => by
    simp only [Statement.learn?, Option.bind_eq_bind, Option.bind_eq_some_iff] at hl
    obtain ⟨after, hbody, hl⟩ := hl
    cases hl
    rw [Statement.run, Statement.run]
    exact (runAll_together h.push body hbody).bind fun _ _ _ => h

theorem runAll_together {k l : Knowledge} {a b : Scopes} (h : k.Relates a b) :
    ∀ body : List Statement, learnAll? k body = some l → RunsAlike l (runAll a body) (runAll b body)
  | [], hl => by
    cases hl
    exact h
  | statement :: rest, hl => by
    rw [learnAll?, Option.bind_eq_some_iff] at hl
    obtain ⟨next, hnext, hl⟩ := hl
    have hstatement : RunsAlike next (statement.run a) (statement.run b) := by
      split at hnext
      · cases hnext
        exact Statement.total_together h ‹_›
      · exact statement.run_together h hnext
    rw [runAll, runAll]
    refine hstatement.bind fun after after' hafter => ?_
    exact (runAll_together hafter rest hl).bind fun _ _ hend => hend

end

end ClusterConfig.Template
