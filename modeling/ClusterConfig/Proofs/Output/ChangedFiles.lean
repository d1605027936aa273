import Mathlib
import ClusterConfig.Proofs.Output.Confined

/-!
# Changed files

A run that writes all its files changes nothing but the files that its paths lead to, seen from the
tree that it leaves. The ignore file is then extended with the names that its text has not, and is
left alone where it has them all.
-/

set_option autoImplicit false

namespace ClusterConfig

open FileTree

variable {tree files later between : FileTree} {directory path text name other : String}
  {place : List String} {outputs : List (String × String)} {written names seen : List String}

/-! ## Places of paths -/

/-- The last name of a path is that of the place that it leads to. -/
theorem FileTree.resolve_leaf {leaf : String}
    (h : tree.resolve (Path.join directory name) = .ok place) (hl : Path.EndsIn name leaf) :
    place.getLast? = some leaf := by
  obtain ⟨above, -, hplace⟩ := resolve_endsIn h (hl.join directory)
  rw [hplace, List.getLast?_concat]

theorem Path.mem_join {c : Char} (h : c ∈ (Path.join directory name).toList) :
    c ∈ directory.toList ∨ c = '/' ∨ c ∈ name.toList := by
  rw [Path.join] at h
  split at h
  · exact .inr (.inr h)
  · split at h
    · rw [String.toList_append, List.mem_append] at h
      exact h.imp_right .inr
    · rw [String.toList_append, String.toList_append, List.mem_append, List.mem_append] at h
      obtain (h | h) | h := h
      · exact .inl h
      · exact .inr (.inl (by simpa using h))
      · exact .inr (.inr h)

theorem Path.subset_join (directory : String) (h : Path.isAbsolute name = false) :
    directory.toList ⊆ (Path.join directory name).toList := by
  rw [Path.join, h, Bool.false_or]
  split
  · rename_i hempty
    rw [String.isEmpty_iff.mp hempty]
    exact List.nil_subset _
  · split <;> simp

/-- Where one name leads into a directory, so does another. -/
theorem FileTree.resolve_sibling (h : tree.resolve (Path.join directory name) = .ok place)
    (hn : Path.IsNormal name) (ho : Path.IsNormal other) (hsize : other.utf8ByteSize ≤ 255)
    (hnull : ∀ c ∈ other.toList, c.toNat ≠ 0) :
    ∃ above, tree.resolve (Path.join directory other) = .ok (above ++ [other]) := by
  obtain ⟨-, hchars, hfollow⟩ := resolve_eq_ok.mp h
  have hn' := hn.isAbsolute_eq_false
  have ho' := ho.isAbsolute_eq_false
  rw [start, Path.isAbsolute_join directory hn', Path.names_join_relative directory hn', hn.names,
    follow_last hn.not_here hn.not_above] at hfollow
  obtain ⟨above, habove, hdirectory, -, -⟩ := hfollow
  refine ⟨above, resolve_eq_ok.mpr ⟨?_, fun c hc => ?_, ?_⟩⟩
  · intro hempty
    have hnames := Path.names_join_relative directory ho'
    rw [hempty, ho.names] at hnames
    exact List.append_ne_nil_of_right_ne_nil _ (List.cons_ne_nil _ _) hnames.symm
  · obtain hc | rfl | hc := Path.mem_join hc
    · exact hchars c (Path.subset_join directory hn' hc)
    · decide
    · exact hnull c hc
  · rw [start, Path.isAbsolute_join directory ho', Path.names_join_relative directory ho', ho.names,
      follow_last ho.not_here ho.not_above]
    exact ⟨above, habove, hdirectory, hsize, rfl⟩

/-! ## Runs that do not fail -/

namespace Compilation

/-- The places that some names in a directory lead to. -/
def places (tree : FileTree) (directory : String) (names : List String) : Set (List String) :=
  {place | ∃ name ∈ names, tree.resolve (Path.join directory name) = .ok place}

theorem places_mono {more : List String} (h : names ⊆ more) :
    places tree directory names ⊆ places tree directory more :=
  fun _ ⟨name, hname, hresolve⟩ => ⟨name, h hname, hresolve⟩

theorem places_kept {changed : Set (List String)} (h : ChangesOnly changed tree later) :
    places tree directory names ⊆ places later directory names :=
  fun _ ⟨name, hname, hresolve⟩ => ⟨name, hname, h.resolve hresolve⟩

/-- A path whose last name is that of no other leads elsewhere than they do. -/
theorem not_mem_places {leaf : String}
    (h : tree.resolve (Path.join directory name) = .ok place) (hl : Path.EndsIn name leaf)
    (ho : ∀ other ∈ names, ∃ found, Path.EndsIn other found ∧ found ≠ leaf) :
    place ∉ places tree directory names := by
  rintro ⟨other, hother, hresolve⟩
  obtain ⟨found, hfound, hne⟩ := ho other hother
  exact hne (Option.some.inj ((resolve_leaf hresolve hfound).symm.trans (resolve_leaf h hl)))

theorem changes_written_output (h : writeOutput files path text = (later, .ok ())) :
    ∃ place, later.resolve path = .ok place ∧ ChangesOnly {place} files later := by
  obtain ⟨made, hmade, hwrite⟩ := writeOutput_parts h
  obtain ⟨-, place, hresolve, hchanges⟩ := write_holds hwrite
  exact ⟨place, hchanges.resolve hresolve, (hmade.mono (Set.empty_subset _)).trans hchanges⟩

/-- A run that did not fail changed nothing but the files that its paths lead to. -/
theorem changes_written_outputs (h : writeOutputs directory files outputs = (later, .ok written)) :
    ChangesOnly (places later directory (outputs.map Prod.fst)) files later := by
  induction outputs generalizing files later written with
  | nil =>
    cases h
    exact .refl _ _
  | cons output rest ih =>
    obtain ⟨between, paths, hone, hmore, -⟩ := writeOutputs_parts h
    have hrest := ih hmore
    obtain ⟨place, hresolve, hfirst⟩ := changes_written_output hone
    refine (hfirst.mono (Set.singleton_subset_iff.mpr ?_)).trans
      (hrest.mono (places_mono (List.subset_cons_self _ _)))
    -- the path of the first file still leads to its place when all are written
    exact ⟨output.1, List.mem_cons_self, hrest.resolve hresolve⟩

theorem changes_written {compilation : Compilation}
    (h : compilation.write files directory = (later, .ok written)) :
    ChangesOnly (places later directory compilation.fileNames) files later := by
  obtain ⟨made, hmade, h⟩ := write_parts h
  exact (hmade.mono (Set.empty_subset _)).trans (changes_written_outputs h)

end Compilation

/-! ## The ignore file -/

/-- The text of the file at a place, empty where there is nothing. -/
def FileTree.TextAt (tree : FileTree) (place : List String) (text : String) : Prop :=
  (tree.find? place = none ∧ text = "") ∨ tree.find? place = some (.file text.toUTF8)

/-- A text stays while other files are written. -/
theorem FileTree.TextAt.earlier {changed : Set (List String)} (h : later.TextAt place text)
    (hc : ChangesOnly changed tree later) (hp : place ∉ changed) : tree.TextAt place text := by
  obtain ⟨hnone, htext⟩ | hfile := h
  · refine .inl ⟨?_, htext⟩
    cases hfind : tree.find? place with
    | none => rfl
    | some entry =>
      have hlater : later.find? place = some entry := by
        cases entry with
        | directory => exact hc.directories place hfind
        | file content => exact (hc.files place hp content).mpr hfind
      rw [hnone] at hlater
      cases hlater
  · exact .inr ((hc.files place hp _).mp hfile)

namespace IgnoreFile

/-- Nothing is added exactly if all names were seen, and then the text stays. -/
theorem appendNames_eq_zero (seen names : List String) (content : String) :
    ((appendNames seen content names).2 = 0 ↔ ∀ name ∈ names, name ∈ seen) ∧
      ((appendNames seen content names).2 = 0 → (appendNames seen content names).1 = content) := by
  induction names generalizing seen content with
  | nil => exact ⟨by simp [appendNames], fun _ => rfl⟩
  | cons name rest ih =>
    rw [appendNames]
    by_cases hseen : name ∈ seen
    · rw [if_pos (List.contains_iff_mem.mpr hseen)]
      obtain ⟨hzero, hsame⟩ := ih seen content
      exact ⟨by rw [hzero, List.forall_mem_cons]; simp [hseen], hsame⟩
    · rw [if_neg (fun hc => hseen (List.contains_iff_mem.mp hc))]
      exact ⟨by simp [hseen], fun h => by cases h⟩

theorem extend_eq_zero (text : String) (names : List String) :
    (extend text names).2 = 0 ↔ ∀ name ∈ names, name ∈ presentNames text :=
  (appendNames_eq_zero _ names text).1

theorem extend_of_zero (h : (extend text names).2 = 0) : (extend text names).1 = text :=
  (appendNames_eq_zero _ names text).2 h

theorem toUTF8_of_fromUTF8? {bytes : ByteArray} (h : String.fromUTF8? bytes = some text) :
    text.toUTF8 = bytes := by
  rw [String.fromUTF8?] at h
  split at h
  · cases h
    rfl
  · cases h

theorem textAt_of_content (h : content files path = .ok text)
    (hp : files.resolve path = .ok place) : files.TextAt place text := by
  rw [content, FileTree.readText, FileTree.read, FileTree.entry, hp] at h
  cases hfind : files.find? place with
  | none =>
    simp only [hfind, bind, Except.bind, Except.ok.injEq] at h
    exact .inl ⟨hfind, h.symm⟩
  | some entry =>
    cases entry with
    | directory =>
      simp [hfind, bind, Except.bind] at h
    | file bytes =>
      cases hslash : endsWithSlash path with
      | true =>
        simp [hfind, hslash, bind, Except.bind] at h
      | false =>
        cases hutf8 : String.fromUTF8? bytes with
        | none =>
          simp [hfind, hslash, hutf8, bind, Except.bind] at h
        | some read =>
          simp only [hfind, hslash, hutf8, bind, Except.bind, Bool.false_eq_true, if_false,
            Option.elim_some, Except.ok.injEq] at h
          exact .inr (by rw [hfind, ← h, toUTF8_of_fromUTF8? hutf8])

/-- What adding names comes to: a text that lacks some of them is written again with those behind
it, and otherwise nothing changes. -/
structure Extends (files : FileTree) (names : List String) (added : Nat) (place : List String)
    (text : String) (later : FileTree) : Prop where
  before : files.TextAt place text
  count : (extend text names).2 = added
  after : later.find? place = some (.file (extend text names).1.toUTF8)
  changes : ChangesOnly {changed | changed = place ∧ 0 < added} files later

theorem extends_of_update {added : Nat}
    (h : update files directory names = (later, .ok added))
    (hp : files.resolve (Path.join directory fileName) = .ok place) (hn : names ≠ []) :
    ∃ text, Extends files names added place text later := by
  rw [update] at h
  split at h
  · cases h
  · rename_i text hcontent
    have hbefore := textAt_of_content hcontent hp
    refine ⟨text, ?_⟩
    split at h
    · rename_i same hextend
      cases h
      have hzero : (extend text names).2 = 0 := by rw [hextend]
      refine ⟨hbefore, hzero, ?_, .refl _ _⟩
      rw [extend_of_zero hzero]
      refine hbefore.resolve_left fun hnone => ?_
      -- an empty text has no names
      obtain ⟨name, hname⟩ := List.exists_mem_of_ne_nil names hn
      have hpresent := (extend_eq_zero text names).mp hzero name hname
      rw [hnone.2] at hpresent
      exact absurd hpresent (by simp [presentNames, Text.lines, Text.rawLines])
    · rename_i extended count hcount hextend
      have hpos : 0 < count := Nat.pos_of_ne_zero fun hzero => hcount hzero
      split at h
      · cases h
      · rename_i made hmake
        split at h
        · cases h
        · rename_i hwrite
          cases h
          have hmade := (makesDirectory_makeDirectories hmake).changes
          obtain ⟨⟨found, hfound, hfile, -⟩, changed, hresolve, hchanges⟩ := write_holds hwrite
          obtain rfl : place = changed := Except.ok.inj ((hmade.resolve hp).symm.trans hresolve)
          obtain rfl : found = place := Except.ok.inj
            (hfound.symm.trans (hchanges.resolve hresolve))
          refine ⟨hbefore, congrArg Prod.snd hextend, ?_, ?_⟩
          · rw [hextend]
            exact hfile
          · exact (hmade.mono (Set.empty_subset _)).trans
              (hchanges.mono (Set.singleton_subset_iff.mpr ⟨rfl, hpos⟩))

end IgnoreFile

end ClusterConfig
