import Mathlib
import ClusterConfig.CommandLine.Outcome
import ClusterConfig.Proofs.Documents.Members
import ClusterConfig.Proofs.Variables.EntryLines

/-!
# Sources of variables

Variables are set where they are missing. So of all sources that give a variable the first one
decides: the variables that are there, then the files in their order, and in a file its lines in
theirs. A file is read to its end before a variable is set, so one that cannot be loaded changes
nothing; and the numbers of new variables add up.
-/

set_option autoImplicit false

namespace ClusterConfig

/-! ## Names and values -/

/-- The value of a name is that of the first member with it. -/
theorem Members.get?_eq_some_iff_first {α : Type} {members : Members α} {key : String} {value : α} :
    get? members key = some value ↔
      ∃ before rest, members = before ++ (key, value) :: rest ∧ key ∉ keys before := by
  induction members with
  | nil => simp [get?]
  | cons entry rest ih =>
    obtain ⟨name, old⟩ := entry
    rw [get?]
    constructor
    · intro h
      split at h
      · rename_i hname
        cases h
        exact ⟨[], rest, by rw [hname, List.nil_append], List.not_mem_nil⟩
      · rename_i hname
        obtain ⟨before, more, rfl, hbefore⟩ := ih.mp h
        refine ⟨(name, old) :: before, more, rfl, ?_⟩
        simpa [keys, Ne.symm hname] using hbefore
    · rintro ⟨before, more, hmembers, hbefore⟩
      cases before with
      | nil =>
        cases hmembers
        simp
      | cons first before =>
        obtain ⟨rfl, hrest⟩ := List.cons.inj hmembers
        obtain ⟨hname, hbefore⟩ : key ≠ name ∧ key ∉ keys before := by simpa [keys] using hbefore
        rw [if_neg hname.symm]
        exact ih.mpr ⟨before, more, hrest, hbefore⟩

namespace Bindings

variable {vars : Bindings} {name other value : String}

/-- The variables that are set. -/
def names (vars : Bindings) : Finset String := (Members.keys vars.entries).toFinset

theorem mem_names : name ∈ vars.names ↔ vars.get? name ≠ none := by
  rw [names, List.mem_toFinset, get?, Ne, Members.get?_eq_none_iff, not_not]

theorem names_set (vars : Bindings) (name value : String) :
    (vars.set name value).names = insert name vars.names := by
  ext other
  rw [Finset.mem_insert, mem_names, mem_names]
  by_cases h : other = name
  · simp [h, get?_set_same]
  · simp [h, get?_set_other vars value h]

theorem get?_setIfAbsent (vars : Bindings) (name value other : String) :
    (vars.setIfAbsent name value).1.get? other =
      (vars.get? other).or (if name = other then some value else none) := by
  rw [setIfAbsent]
  by_cases ho : other = name
  · subst ho
    cases h : vars.get? other with
    | none => simp [get?_set_same]
    | some old => simp [h]
  · cases h : vars.get? name with
    | none => simp [get?_set_other vars value ho, Ne.symm ho]
    | some old => simp [Ne.symm ho]

theorem names_setIfAbsent (vars : Bindings) (name value : String) :
    (vars.setIfAbsent name value).1.names = insert name vars.names := by
  rw [setIfAbsent]
  cases h : vars.get? name with
  | none => exact names_set vars name value
  | some old =>
    have hmem : name ∈ vars.names := mem_names.mpr (by simp [h])
    exact (Finset.insert_eq_self.mpr hmem).symm

/-- One more variable is set exactly if it is told so. -/
theorem card_setIfAbsent (vars : Bindings) (name value : String) :
    (vars.setIfAbsent name value).1.names.card =
      vars.names.card + if (vars.setIfAbsent name value).2 then 1 else 0 := by
  rw [names_setIfAbsent, setIfAbsent]
  cases h : vars.get? name with
  | none => exact Finset.card_insert_of_notMem fun hmem => mem_names.mp hmem h
  | some old =>
    have hmem : name ∈ vars.names := mem_names.mpr (by simp [h])
    rw [Finset.insert_eq_self.mpr hmem]
    rfl

end Bindings

namespace Variables

variable {vars after : Bindings} {files : FileTree} {path : String} {entries : Members String}
  {e : EnvFileError}

/-! ## The variables of a file -/

theorem get?_addAll (vars : Bindings) (entries : Members String) (name : String) :
    (addAll vars entries).1.get? name = (vars.get? name).or (entries.get? name) := by
  induction entries generalizing vars with
  | nil => simp [addAll, Members.get?]
  | cons entry rest ih =>
    rw [addAll, Members.get?]
    simp only [ih, Bindings.get?_setIfAbsent, Option.or_assoc]
    by_cases h : entry.1 = name <;> simp [h]

theorem names_addAll (vars : Bindings) (entries : Members String) :
    (addAll vars entries).1.names = vars.names ∪ (Members.keys entries).toFinset := by
  induction entries generalizing vars with
  | nil => simp [addAll, Members.keys]
  | cons entry rest ih =>
    rw [addAll]
    simp only [ih, Bindings.names_setIfAbsent, Members.keys, List.map_cons, List.toFinset_cons]
    rw [Finset.insert_union, Finset.union_insert]

theorem card_addAll (vars : Bindings) (entries : Members String) :
    (addAll vars entries).1.names.card = vars.names.card + (addAll vars entries).2 := by
  induction entries generalizing vars with
  | nil => rfl
  | cons entry rest ih =>
    rw [addAll]
    simp only [ih, Bindings.card_setIfAbsent]
    split <;> omega

/-- What the variables of a file make of those that are set: these keep their values, the others get
the values of their first lines, and those that were missing are counted. -/
structure Adds (entries : Members String) (vars after : Bindings) (count : Nat) : Prop where
  kept : ∀ name value, vars.get? name = some value → after.get? name = some value
  new : ∀ name value, vars.get? name = none →
    (after.get? name = some value ↔ ∃ before rest, entries = before ++ (name, value) :: rest ∧
      name ∉ Members.keys before)
  counted : count = ((Members.keys entries).toFinset \ vars.names).card

theorem adds_addAll (vars : Bindings) (entries : Members String) :
    Adds entries vars (addAll vars entries).1 (addAll vars entries).2 where
  kept name value h := by
    rw [get?_addAll, h]
    rfl
  new name value h := by
    rw [get?_addAll, h, Option.none_or, Members.get?_eq_some_iff_first]
  counted := by
    have hcard := card_addAll vars entries
    have hunion := Finset.card_sdiff_add_card (Members.keys entries).toFinset vars.names
    rw [Finset.union_comm, ← names_addAll, hcard] at hunion
    omega

/-- The variables of a file, in the order of its lines. -/
def fileEntries (files : FileTree) (path : String) : Except EnvFileError (Members String) := do
  let text ← (files.readText path).mapError (.read path)
  (parseEnvFile text).mapError (.invalidLine path)

theorem loadEnvFile_eq (vars : Bindings) (files : FileTree) (path : String) :
    loadEnvFile vars files path = (fileEntries files path).map (addAll vars) := by
  rw [loadEnvFile, fileEntries]
  cases files.readText path with
  | error reason => rfl
  | ok text =>
    change Except.mapError _ (parseEnvFile text) >>= _ = Except.map _ (Except.mapError _ _)
    cases parseEnvFile text <;> rfl

/-- Why a file gives no variables: it cannot be read, or it has malformed lines, of which the first
is reported. -/
inductive Unloadable (files : FileTree) (path : String) : EnvFileError → Prop
  | unreadable {reason : FileError} (h : files.readText path = .error reason) :
      Unloadable files path (.read path reason)
  | malformed {text : String} {before after : List (List Char)} {line : List Char}
      (ht : files.readText path = .ok text)
      (hlines : Text.lines text.toList = before ++ line :: after)
      (hbefore : ∀ line ∈ before, ¬ MalformedLine line) (hline : MalformedLine line) :
      Unloadable files path (.invalidLine path (before.length + 1))

theorem fileEntries_of_text {text : String} (h : files.readText path = .ok text) :
    fileEntries files path = (parseEnvFile text).mapError (.invalidLine path) := by
  rw [fileEntries, h]
  rfl

theorem fileEntries_eq_error : fileEntries files path = .error e ↔ Unloadable files path e := by
  constructor
  · intro h
    cases hread : files.readText path with
    | error reason =>
      rw [fileEntries, hread] at h
      cases h
      exact .unreadable hread
    | ok text =>
      rw [fileEntries_of_text hread] at h
      cases hparse : parseEnvFile text with
      | ok entries =>
        rw [hparse] at h
        cases h
      | error number =>
        rw [hparse] at h
        cases h
        obtain ⟨before, line, after, hlines, hbefore, hline, rfl⟩ := readLines_eq_error.mp hparse
        rw [Nat.add_comm]
        exact .malformed hread hlines hbefore hline
  · intro h
    cases h with
    | unreadable hread =>
      rw [fileEntries, hread]
      rfl
    | malformed hread hlines hbefore hline =>
      rw [fileEntries_of_text hread, parseEnvFile, hlines, readLines_of_malformed hbefore hline,
        Nat.add_comm]
      rfl

/-! ## Loading step by step -/

/-- Sets variables one after the other and counts those that were missing. -/
def addEach : Members String → EStateM EnvFileError Bindings Nat
  | [] => return 0
  | (name, value) :: rest => do
    let added ← modifyGet fun vars => (vars.setIfAbsent name value).swap
    let count ← addEach rest
    return if added then count + 1 else count

/-- The steps of loading a file. A step that fails leaves the variables as it finds them. -/
def loadInto (files : FileTree) (path : String) : EStateM EnvFileError Bindings Nat := do
  let entries ← liftExcept (fileEntries files path)
  addEach entries

theorem addEach_eq (entries : Members String) (vars : Bindings) :
    addEach entries vars = .ok (addAll vars entries).2 (addAll vars entries).1 := by
  induction entries generalizing vars with
  | nil => rfl
  | cons entry rest ih =>
    have hstep : addEach (entry :: rest) vars =
        (addEach rest >>= fun count =>
          return if (vars.setIfAbsent entry.1 entry.2).2 then count + 1 else count)
        (vars.setIfAbsent entry.1 entry.2).1 := rfl
    rw [hstep]
    simp only [bind, EStateM.bind, ih]
    rfl

/-- No step is taken back: the first one that sets a variable comes after the last that can fail. -/
theorem loadInto_eq (files : FileTree) (path : String) (vars : Bindings) :
    loadInto files path vars =
      match loadEnvFile vars files path with
      | .ok (after, count) => .ok count after
      | .error e => .error e vars := by
  rw [loadEnvFile_eq, loadInto]
  cases fileEntries files path with
  | error e => rfl
  | ok entries => exact addEach_eq entries vars

theorem loadInto_of_ok (h : fileEntries files path = .ok entries) (vars : Bindings) :
    loadInto files path vars = .ok (addAll vars entries).2 (addAll vars entries).1 := by
  rw [loadInto_eq, loadEnvFile_eq, h]
  rfl

theorem loadInto_of_error (h : fileEntries files path = .error e) (vars : Bindings) :
    loadInto files path vars = .error e vars := by
  rw [loadInto_eq, loadEnvFile_eq, h]
  rfl

/-! ## Files in order -/

/-- The variables after files are loaded in order, each with those that the one before it left,
and the sum of the numbers that are told. -/
def loadEach (files : FileTree) : List String → Bindings → Bindings × Nat
  | [], vars => (vars, 0)
  | path :: rest, vars =>
    match loadInto files path vars with
    | .ok count after =>
      let (last, more) := loadEach files rest after
      (last, count + more)
    | .error _ after => loadEach files rest after

theorem loadEach_of_ok (h : fileEntries files path = .ok entries) (rest : List String)
    (vars : Bindings) :
    loadEach files (path :: rest) vars =
      ((loadEach files rest (addAll vars entries).1).1,
        (addAll vars entries).2 + (loadEach files rest (addAll vars entries).1).2) := by
  rw [loadEach, loadInto_of_ok h]

theorem loadEach_of_error (h : fileEntries files path = .error e) (rest : List String)
    (vars : Bindings) : loadEach files (path :: rest) vars = loadEach files rest vars := by
  rw [loadEach, loadInto_of_error h]

/-- The value that a file gives to a variable. -/
def fileValue? (files : FileTree) (name path : String) : Option String :=
  (fileEntries files path).toOption.bind fun entries => Members.get? entries name

theorem get?_loadEach (files : FileTree) (paths : List String) (vars : Bindings) (name : String) :
    (loadEach files paths vars).1.get? name =
      (vars.get? name).or (paths.findSome? (fileValue? files name)) := by
  induction paths generalizing vars with
  | nil => simp [loadEach]
  | cons path rest ih =>
    rw [List.findSome?_cons, fileValue?]
    cases h : fileEntries files path with
    | error e =>
      rw [loadEach_of_error h]
      exact ih vars
    | ok entries =>
      rw [loadEach_of_ok h]
      simp only [ih, get?_addAll, Option.or_assoc]
      congr 1
      cases hvalue : Members.get? entries name <;> simp [Except.toOption, hvalue]

theorem card_loadEach (files : FileTree) (paths : List String) (vars : Bindings) :
    (loadEach files paths vars).1.names.card =
      vars.names.card + (loadEach files paths vars).2 := by
  induction paths generalizing vars with
  | nil => rfl
  | cons path rest ih =>
    cases h : fileEntries files path with
    | error e =>
      rw [loadEach_of_error h]
      exact ih vars
    | ok entries =>
      rw [loadEach_of_ok h]
      simp only [ih, card_addAll]
      omega

/-- A command goes on with its variables if all of its files can be loaded. -/
theorem loadEnvFiles_eq_ok {paths : List String} :
    CommandLine.loadEnvFiles files vars paths = .ok after ↔
      (∀ path ∈ paths, ∀ e, ¬ Unloadable files path e) ∧ after = (loadEach files paths vars).1 := by
  induction paths generalizing vars with
  | nil => simp [CommandLine.loadEnvFiles, loadEach, eq_comm]
  | cons path rest ih =>
    rw [CommandLine.loadEnvFiles, loadEnvFile_eq, List.forall_mem_cons]
    cases h : fileEntries files path with
    | error e =>
      refine iff_of_false ?_ fun hall => hall.1.1 e (fileEntries_eq_error.mp h)
      intro hload
      cases hload
    | ok entries =>
      rw [loadEach_of_ok h]
      have hpath : ∀ e, ¬ Unloadable files path e := by simp [← fileEntries_eq_error, h]
      change CommandLine.loadEnvFiles files (addAll vars entries).1 rest = .ok after ↔ _
      rw [ih, and_assoc, and_iff_right hpath]

/-- Loading a file fails exactly if it cannot be read or has a malformed line, wherever it is, and
changes nothing then; otherwise the variables of before keep their values, the others have those of
their first lines, and the number is that of the variables that were missing. After files in any
order each variable has the value of the first source that gives one, and the numbers add up to what
has become more. -/
theorem sources_by_priority (files : FileTree) (vars : Bindings) :
    (∀ path,
      (∀ e, loadEnvFile vars files path = .error e ↔ Unloadable files path e) ∧
      (∀ e after, loadInto files path vars = .error e after ↔
        loadEnvFile vars files path = .error e ∧ after = vars) ∧
      (∀ count after, loadInto files path vars = .ok count after ↔
        loadEnvFile vars files path = .ok (after, count)) ∧
      ∀ count after, loadEnvFile vars files path = .ok (after, count) →
        ∃ entries, fileEntries files path = .ok entries ∧ Adds entries vars after count) ∧
    ∀ paths last total, loadEach files paths vars = (last, total) →
      (∀ name, last.get? name = (vars.get? name).or (paths.findSome? (fileValue? files name))) ∧
      last.names.card = vars.names.card + total ∧
      ∀ after, CommandLine.loadEnvFiles files vars paths = .ok after ↔
        (∀ path ∈ paths, ∀ e, ¬ Unloadable files path e) ∧ after = last := by
  constructor
  · intro path
    rw [loadInto_eq, loadEnvFile_eq]
    simp only [← fileEntries_eq_error]
    cases h : fileEntries files path with
    | error e => simp [Except.map, eq_comm]
    | ok entries =>
      refine ⟨by simp [Except.map], by simp [Except.map], ?_, ?_⟩
      · simp [Except.map, Prod.ext_iff, and_comm]
      · rintro count after hadded
        have hadds := adds_addAll vars entries
        rw [Except.ok.inj hadded] at hadds
        exact ⟨entries, rfl, hadds⟩
  · rintro paths last total hload
    have hlast : last = (loadEach files paths vars).1 := by rw [hload]
    have htotal : total = (loadEach files paths vars).2 := by rw [hload]
    rw [hlast, htotal]
    exact ⟨get?_loadEach files paths vars, card_loadEach files paths vars, fun _ => loadEnvFiles_eq_ok⟩

/-- Two files that give values to a variable of before, to one another and to themselves again, with
a malformed file between them that starts with a good line. -/
theorem two_sources_of_a_value :
    let files : FileTree := ⟨[(["a"], .file "A=1\nB=2 # two\nB=3\n".toUTF8),
      (["bad"], .file "C=0\n2C=1\n".toUTF8), (["b"], .file "export B=4\n\nC='5'".toUTF8)], []⟩
    let vars : Bindings := ⟨[("A", "0")]⟩
    let mid : Bindings := ⟨[("A", "0"), ("B", "2")]⟩
    let last : Bindings := ⟨[("A", "0"), ("B", "2"), ("C", "5")]⟩
    loadEnvFile vars files "a" = .ok (mid, 1) ∧
    (∃ entries, fileEntries files "a" = .ok entries ∧ Adds entries vars mid 1) ∧
    loadEnvFile mid files "bad" = .error (.invalidLine "bad" 2) ∧
    Unloadable files "bad" (.invalidLine "bad" 2) ∧
    loadInto files "bad" mid = .error (.invalidLine "bad" 2) mid ∧
    loadEach files ["a", "bad", "b"] vars = (last, 2) ∧
    last.get? "B" = (vars.get? "B").or (["a", "bad", "b"].findSome? (fileValue? files "B")) ∧
    last.names.card = vars.names.card + 2 := by
  intro files vars mid last
  have ha : fileEntries files "a" = .ok [("A", "1"), ("B", "2"), ("B", "3")] := by decide +kernel
  have hbad : fileEntries files "bad" = .error (.invalidLine "bad" 2) := by decide +kernel
  have hb : fileEntries files "b" = .ok [("B", "4"), ("C", "5")] := by decide +kernel
  have hfirst : loadEnvFile vars files "a" = .ok (mid, 1) := by
    rw [loadEnvFile_eq, ha]
    rfl
  have hmalformed : loadEnvFile mid files "bad" = .error (.invalidLine "bad" 2) := by
    rw [loadEnvFile_eq, hbad]
    rfl
  have heach : loadEach files ["a", "bad", "b"] vars = (last, 2) := by
    rw [loadEach_of_ok ha, loadEach_of_error hbad, loadEach_of_ok hb]
    rfl
  obtain ⟨-, -, -, hadds⟩ := (sources_by_priority files vars).1 "a"
  obtain ⟨hfails, hunchanged, -, -⟩ := (sources_by_priority files mid).1 "bad"
  obtain ⟨hvalues, hcount, -⟩ := (sources_by_priority files vars).2 _ last 2 heach
  exact ⟨hfirst, hadds 1 mid hfirst, hmalformed, (hfails _).mp hmalformed,
    (hunchanged _ _).mpr ⟨hmalformed, rfl⟩, heach, hvalues "B", hcount⟩

end Variables

end ClusterConfig
