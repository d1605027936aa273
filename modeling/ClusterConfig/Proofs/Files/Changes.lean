import Mathlib
import ClusterConfig.Files.Tree
import ClusterConfig.Proofs.Files.Names

/-!
# Changes of a file tree

Operations on a file tree never turn a directory into something else, and each changes no file but
the one that it writes. So a path that leads to a place once always leads there, and a file keeps
its content while others are written.
-/

set_option autoImplicit false

namespace ClusterConfig.FileTree

variable {tree later last before : FileTree} {place other found : List String} {rest names : List String}
  {name path leaf : String} {entry : FileEntry} {content : ByteArray}
  {places more : Set (List String)}

/-! ## Entries -/

theorem lookup_cons_if (entries : List (List String × FileEntry)) (e : List String × FileEntry)
    (place : List String) :
    (e :: entries).lookup place = if place = e.1 then some e.2 else entries.lookup place := by
  obtain ⟨key, value⟩ := e
  rw [List.lookup_cons]
  by_cases h : place = key
  · simp [h]
  · rw [beq_eq_false_iff_ne.mpr h, if_neg h]

theorem lookup_replace (entries : List (List String × FileEntry)) (place other : List String)
    (entry : FileEntry) :
    (entries.map fun e => if e.1 == place then (place, entry) else e).lookup other =
      if other = place then (entries.lookup place).map fun _ => entry else entries.lookup other := by
  induction entries with
  | nil => simp
  | cons e rest ih =>
    rw [List.map_cons, lookup_cons_if, lookup_cons_if, lookup_cons_if, ih]
    by_cases he : e.1 = place
    · subst he
      by_cases ho : other = e.1 <;> simp [ho]
    · by_cases ho : other = place
      · subst ho
        simp [he, Ne.symm he]
      · simp [he, ho]

theorem lookup_put (tree : FileTree) (place other : List String) (entry : FileEntry) :
    (tree.put place entry).entries.lookup other =
      if other = place then some entry else tree.entries.lookup other := by
  rw [put]
  split
  · rename_i hany
    obtain ⟨e, he, hplace⟩ := List.any_eq_true.mp hany
    obtain ⟨found, hfound⟩ : ∃ found, tree.entries.lookup place = some found := by
      rw [← Option.isSome_iff_exists, List.lookup_isSome_iff]
      exact ⟨e, he, by rwa [beq_iff_eq, eq_comm, ← beq_iff_eq]⟩
    rw [lookup_replace, hfound]
    rfl
  · rename_i hnone
    rw [List.lookup_append, lookup_cons_if]
    by_cases ho : other = place
    · subst ho
      have hlookup : tree.entries.lookup other = none := by
        refine List.lookup_eq_none_iff.mpr fun e he => ?_
        by_contra hne
        have hsame : other = e.1 := by simpa using hne
        exact hnone (List.any_eq_true.mpr ⟨e, he, beq_iff_eq.mpr hsame.symm⟩)
      simp [hlookup]
    · simp [ho]

theorem find?_put_same (tree : FileTree) (entry : FileEntry) (h : place ≠ []) :
    (tree.put place entry).find? place = some entry := by
  rw [find?, List.isEmpty_eq_false_iff.mpr h, lookup_put]
  simp

theorem find?_put_other (tree : FileTree) (entry : FileEntry) (h : other ≠ place) :
    (tree.put place entry).find? other = tree.find? other := by
  rw [find?, find?, lookup_put, if_neg h]

/-! ## Following names -/

/-- The place that a name leads to from a place. -/
def enter (place : List String) (name : String) : List String :=
  if name = "." then place else if name = ".." then place.dropLast else place ++ [name]

/-- Where nothing stands no name leads on. -/
theorem follow_missing (tree : FileTree) (place : List String) (rest : List String)
    (h : tree.find? place = none) : rest = [] ∨ tree.follow place rest = .error .notFound := by
  cases rest with
  | nil => exact .inl rfl
  | cons name rest => exact .inr (by rw [follow.eq_def]; simp only [h])

theorem follow_cons (tree : FileTree) (place : List String) (name : String) (rest : List String) :
    tree.follow place (name :: rest) = .ok found ↔
      tree.find? place = some .directory ∧ name.utf8ByteSize ≤ 255 ∧
        tree.follow (enter place name) rest = .ok found := by
  rw [follow.eq_def, enter]
  cases hfind : tree.find? place with
  | none => simp [hfind]
  | some entry =>
    cases entry with
    | file content => simp [hfind]
    | directory =>
      simp only [hfind]
      by_cases hlong : 255 < name.utf8ByteSize
      · simp [hlong]
      · rw [if_neg hlong]
        by_cases hhere : name = "."
        · simp [hhere, show ".".utf8ByteSize ≤ 255 by decide]
        · by_cases habove : name = ".."
          · simp [habove, show "..".utf8ByteSize ≤ 255 by decide]
          · rw [if_neg hhere, if_neg hhere, if_neg habove, if_neg habove]
            have hnext := follow_missing tree (place ++ [name]) rest
            cases rest <;> cases hn : tree.find? (place ++ [name]) <;>
              simp_all [Nat.not_lt.mp hlong]

theorem follow_append (tree : FileTree) (place : List String) (names rest : List String) :
    tree.follow place (names ++ rest) = .ok found ↔
      ∃ between, tree.follow place names = .ok between ∧ tree.follow between rest = .ok found := by
  induction names generalizing place with
  | nil => simp [follow]
  | cons name names ih =>
    rw [List.cons_append, follow_cons, ih]
    simp only [follow_cons]
    tauto

/-- The last name of a path is the last name of the place that it leads to. -/
theorem follow_last (hhere : name ≠ ".") (habove : name ≠ "..") :
    tree.follow place (names ++ [name]) = .ok found ↔
      ∃ directory, tree.follow place names = .ok directory ∧
        tree.find? directory = some .directory ∧ name.utf8ByteSize ≤ 255 ∧
        found = directory ++ [name] := by
  rw [follow_append]
  refine exists_congr fun directory => and_congr_right fun _ => ?_
  rw [follow_cons, enter, if_neg hhere, if_neg habove, follow, Except.ok.injEq, eq_comm (a := found)]

/-! ## Paths -/

/-- Where the names of a path start. -/
def start (tree : FileTree) (path : String) : List String :=
  if Path.isAbsolute path then [] else tree.current

theorem resolve_eq_ok :
    tree.resolve path = .ok place ↔ path ≠ "" ∧ (∀ c ∈ path.toList, c.toNat ≠ 0) ∧
      tree.follow (tree.start path) (Path.names path) = .ok place := by
  rw [resolve, start]
  by_cases hempty : path = ""
  · simp [hempty]
  · by_cases hnull : ∃ c ∈ path.toList, c.toNat = 0
    · obtain ⟨c, hc, hzero⟩ := hnull
      have hany : (path.toList.any fun c => c.toNat = 0) = true :=
        List.any_eq_true.mpr ⟨c, hc, decide_eq_true hzero⟩
      simp only [hany]
      simp [hempty]
      exact fun hall => absurd hzero (hall c hc)
    · have hnone : (path.toList.any fun c => c.toNat = 0) = false := by simpa using hnull
      simp only [hnone]
      simp [hempty]
      exact fun _ => by simpa using hnull

/-- A path leads into a directory under its last name. -/
theorem resolve_endsIn (h : tree.resolve path = .ok place) (hl : Path.EndsIn path leaf) :
    ∃ above, tree.follow (tree.start path) (Path.names path).dropLast = .ok above ∧
      place = above ++ [leaf] := by
  obtain ⟨names, hnames⟩ := List.getLast?_eq_some_iff.mp hl.last
  obtain ⟨-, -, hfollow⟩ := resolve_eq_ok.mp h
  rw [hnames, follow_last hl.not_here hl.not_above] at hfollow
  obtain ⟨above, habove, -, -, hplace⟩ := hfollow
  exact ⟨above, by rwa [hnames, List.dropLast_concat], hplace⟩

/-! ## Changes -/

/-- What may differ in a later tree: directories may be new, and the files at some places. -/
structure ChangesOnly (places : Set (List String)) (tree later : FileTree) : Prop where
  current : later.current = tree.current
  directories : ∀ place, tree.find? place = some .directory → later.find? place = some .directory
  files : ∀ place ∉ places, ∀ content,
    later.find? place = some (.file content) ↔ tree.find? place = some (.file content)

namespace ChangesOnly

theorem refl (places : Set (List String)) (tree : FileTree) : ChangesOnly places tree tree :=
  ⟨rfl, fun _ h => h, fun _ _ _ => Iff.rfl⟩

theorem mono (h : ChangesOnly places tree later) (hs : places ⊆ more) :
    ChangesOnly more tree later :=
  ⟨h.current, h.directories, fun place hp => h.files place fun hin => hp (hs hin)⟩

theorem trans (h : ChangesOnly places tree later) (hl : ChangesOnly places later last) :
    ChangesOnly places tree last :=
  ⟨hl.current.trans h.current, fun place hd => hl.directories place (h.directories place hd),
    fun place hp content => (hl.files place hp content).trans (h.files place hp content)⟩

theorem follow (h : ChangesOnly places tree later) (hf : tree.follow place names = .ok found) :
    later.follow place names = .ok found := by
  induction names generalizing place with
  | nil => exact hf
  | cons name rest ih =>
    obtain ⟨hdirectory, hlong, hrest⟩ := (follow_cons tree place name rest).mp hf
    exact (follow_cons later place name rest).mpr ⟨h.directories place hdirectory, hlong, ih hrest⟩

theorem start (h : ChangesOnly places tree later) (path : String) :
    later.start path = tree.start path := by
  rw [FileTree.start, FileTree.start, h.current]

theorem resolve (h : ChangesOnly places tree later) (hr : tree.resolve path = .ok place) :
    later.resolve path = .ok place := by
  obtain ⟨hempty, hnull, hfollow⟩ := resolve_eq_ok.mp hr
  exact resolve_eq_ok.mpr ⟨hempty, hnull, by rw [h.start]; exact h.follow hfollow⟩

theorem put_directory (h : tree.find? place = none) :
    ChangesOnly ∅ tree (tree.put place .directory) := by
  have hne : place ≠ [] := by
    rintro rfl
    cases h
  refine ⟨rfl, fun other hd => ?_, fun other _ content => ?_⟩
  · by_cases ho : other = place
    · rw [ho, find?_put_same tree _ hne]
    · rwa [find?_put_other tree _ ho]
  · by_cases ho : other = place
    · rw [ho, find?_put_same tree _ hne, h]
      simp
    · rw [find?_put_other tree _ ho]

theorem put_file (h : tree.find? place ≠ some .directory) (content : ByteArray) :
    ChangesOnly {place} tree (tree.put place (.file content)) := by
  refine ⟨rfl, fun other hd => ?_, fun other ho content => ?_⟩
  · rwa [find?_put_other tree _ fun (ho : other = place) => h (ho ▸ hd)]
  · rw [find?_put_other tree _ ho]

end ChangesOnly

/-! ## Operations -/

theorem makeDirectory_eq_ok :
    tree.makeDirectory path = .ok later ↔ ∃ place, tree.resolve path = .ok place ∧
      tree.find? place = none ∧ later = tree.put place .directory := by
  rw [makeDirectory]
  cases hr : tree.resolve path with
  | error reason => simp [bind, Except.bind]
  | ok place =>
    cases hf : tree.find? place <;> simp [bind, Except.bind, hf, eq_comm]

theorem write_eq_ok :
    tree.write path content = .ok later ↔ ∃ place, tree.resolve path = .ok place ∧
      tree.find? place ≠ some .directory ∧ endsWithSlash path = false ∧
      later = tree.put place (.file content) := by
  rw [write]
  cases hr : tree.resolve path with
  | error reason => simp [bind, Except.bind]
  | ok place =>
    cases hf : tree.find? place with
    | none => cases hs : endsWithSlash path <;> simp [bind, Except.bind, hf, eq_comm]
    | some entry =>
      cases entry <;> cases hs : endsWithSlash path <;> simp [bind, Except.bind, hf, eq_comm]

theorem pathIsDirectory_iff :
    tree.pathIsDirectory path = true ↔
      ∃ place, tree.resolve path = .ok place ∧ tree.find? place = some .directory := by
  rw [pathIsDirectory, FileTree.entry]
  cases hr : tree.resolve path with
  | error reason => simp [bind, Except.bind]
  | ok place =>
    cases hf : tree.find? place with
    | none => simp [bind, Except.bind, hf]
    | some entry =>
      cases entry <;> cases hs : endsWithSlash path <;> simp [bind, Except.bind, hf]

/-- Directories may be new, no file changed, and the path leads to a directory. -/
structure MakesDirectory (tree : FileTree) (path : String) (later : FileTree) : Prop where
  changes : ChangesOnly ∅ tree later
  there : path ≠ "" →
    ∃ place, later.resolve path = .ok place ∧ later.find? place = some .directory

theorem MakesDirectory.of_there (h : tree.pathIsDirectory path = true) :
    MakesDirectory tree path tree :=
  ⟨.refl _ _, fun _ => pathIsDirectory_iff.mp h⟩

theorem makesDirectory_makeDirectory (h : tree.makeDirectory path = .ok later) :
    MakesDirectory tree path later := by
  obtain ⟨place, hresolve, hnone, rfl⟩ := makeDirectory_eq_ok.mp h
  have hchanges := ChangesOnly.put_directory hnone
  have hne : place ≠ [] := by
    rintro rfl
    cases hnone
  exact ⟨hchanges, fun _ => ⟨place, hchanges.resolve hresolve, find?_put_same tree _ hne⟩⟩

theorem makesDirectory_makeDirectoriesWith {fuel : Nat}
    (h : makeDirectoriesWith fuel tree path = .ok later) : MakesDirectory tree path later := by
  induction fuel generalizing tree path later with
  | zero => cases h
  | succ fuel ih =>
    rw [makeDirectoriesWith] at h
    split at h
    · rename_i hempty
      cases h
      exact ⟨.refl _ _, fun hne => absurd (String.isEmpty_iff.mp hempty) hne⟩
    · split at h
      · rename_i hmake
        cases h
        exact makesDirectory_makeDirectory hmake
      · split at h
        · cases h
        · rename_i above habove
          cases hup : makeDirectoriesWith fuel tree above with
          | error reason =>
            rw [hup] at h
            cases h
          | ok between =>
            have hchanges := (ih hup).changes
            simp only [hup, bind, Except.bind] at h
            split at h
            · rename_i hmake
              cases h
              have hlast := makesDirectory_makeDirectory hmake
              exact ⟨hchanges.trans hlast.changes, hlast.there⟩
            · split at h
              · rename_i hthere
                cases h
                exact ⟨hchanges, (MakesDirectory.of_there hthere).there⟩
              · cases h
      · split at h
        · rename_i hthere
          cases h
          exact .of_there hthere
        · cases h

theorem makesDirectory_makeDirectories (h : tree.makeDirectories path = .ok later) :
    MakesDirectory tree path later :=
  makesDirectory_makeDirectoriesWith h

/-! ## Files -/

/-- A path leads to a file with some content. -/
def Holds (tree : FileTree) (path : String) (content : ByteArray) : Prop :=
  ∃ place, tree.resolve path = .ok place ∧ tree.find? place = some (.file content) ∧
    endsWithSlash path = false

theorem Holds.read (h : tree.Holds path content) : tree.read path = .ok content := by
  obtain ⟨place, hresolve, hfind, hslash⟩ := h
  simp [FileTree.read, entry, hresolve, hfind, hslash, bind, Except.bind]

theorem readText_of_read {text : String} (h : tree.read path = .ok text.toUTF8) :
    tree.readText path = .ok text := by
  have hutf8 : String.fromUTF8? text.toUTF8 = some text := by
    rw [String.fromUTF8?]
    exact dif_pos text.isValidUTF8
  rw [FileTree.readText, h]
  simp only [bind, Except.bind, hutf8, Option.elim_some]

/-- What is written as text is read as the text. -/
theorem Holds.readText {text : String} (h : tree.Holds path text.toUTF8) :
    tree.readText path = .ok text := readText_of_read h.read

theorem Holds.kept (h : tree.Holds path content) (hc : ChangesOnly places tree later)
    (hp : ∀ place, tree.resolve path = .ok place → place ∉ places) : later.Holds path content := by
  obtain ⟨place, hresolve, hfind, hslash⟩ := h
  exact ⟨place, hc.resolve hresolve, (hc.files place (hp place hresolve) content).mpr hfind, hslash⟩

/-- A file that is written changes nothing else. -/
theorem write_holds (h : tree.write path content = .ok later) :
    later.Holds path content ∧
      ∃ place, tree.resolve path = .ok place ∧ ChangesOnly {place} tree later := by
  obtain ⟨place, hresolve, hfind, hslash, rfl⟩ := write_eq_ok.mp h
  have hchanges := ChangesOnly.put_file hfind content
  have hne : place ≠ [] := by
    rintro rfl
    exact hfind rfl
  exact ⟨⟨place, hchanges.resolve hresolve, find?_put_same tree _ hne, hslash⟩, place, hresolve,
    hchanges⟩

end ClusterConfig.FileTree
