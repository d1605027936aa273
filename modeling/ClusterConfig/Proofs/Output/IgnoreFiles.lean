import Mathlib
import ClusterConfig.Proofs.Output.ChangedFiles
import ClusterConfig.Proofs.Text.StrippedLines

/-!
# Additions to ignore files

The ignore file lists the names that stand on its lines, without the blanks around them. Adding names
keeps its text and puts each missing name on a line of its own behind it, once. So all names are
listed then, and none of them is added again.
-/

set_option autoImplicit false

namespace ClusterConfig

open FileTree

/-! ## Listed names -/

namespace Text

variable {ls : List (List Char)}

theorem trimChars_concat_blank {c : Char} (hc : isBlank c = true) (s : List Char) :
    trimChars (s ++ [c]) = trimChars s := by
  have hend : trimEndChars (s ++ [c]) = trimEndChars s := by
    rw [trimEndChars, trimEndChars, List.reverse_concat, List.dropWhile_cons_of_pos hc]
  rw [← trimChars_trimEndChars (s ++ [c]), hend, trimChars_trimEndChars]

theorem trimChars_withoutLineEnd (line : List Char) :
    trimChars (withoutLineEnd line) = trimChars line := by
  rw [withoutLineEnd]
  cases hnewline : beforeEnd? ['\n'] line with
  | none => rfl
  | some shorter =>
    rw [beforeEnd?_eq_some_iff.mp hnewline, trimChars_concat_blank rfl]
    change trimChars ((beforeEnd? ['\r'] shorter).getD shorter) = trimChars shorter
    cases hreturn : beforeEnd? ['\r'] shorter with
    | none => rfl
    | some content =>
      rw [beforeEnd?_eq_some_iff.mp hreturn, trimChars_concat_blank rfl]
      rfl

/-- The newline behind the last line makes no line that is not blank. -/
theorem notBlank_lines (h : Lines ls) :
    (ls.map trimChars).filter (fun line => line ≠ []) =
      ((ls.flatten.splitOn '\n').map trimChars).filter fun line => line ≠ [] := by
  induction h with
  | nil => rfl
  | last hlast => rw [List.flatten_singleton, List.splitOn_eq_singleton hlast]
  | @cons content ls hcontent hl ih =>
    rw [List.flatten_cons, List.append_assoc, List.singleton_append,
      List.splitOn_append_cons_self, List.splitOn_eq_singleton hcontent, List.map_cons,
      trimChars_concat_blank (by decide), List.singleton_append, List.map_cons, List.filter_cons,
      List.filter_cons, ih]

end Text

namespace IgnoreFile

variable {files : FileTree} {directory path text new name : String} {place : List String}
  {names seen added : List String}

/-- The names that a text lists: what stands between newlines, without the blanks around it. Blank
lines list nothing. -/
def entries (text : String) : List String :=
  (((text.toList.splitOn '\n').map Text.trimChars).filter fun line => line ≠ []).map String.ofList

theorem entries_empty : entries "" = [] := rfl

/-- What stands behind a newline is listed behind what stands before it. -/
theorem entries_append (text more : String) :
    entries (text ++ "\n" ++ more) = entries text ++ entries more := by
  have hchars : (text ++ "\n" ++ more).toList = text.toList ++ '\n' :: more.toList := by
    simp [String.toList_append]
  rw [entries, hchars, List.splitOn_append_cons_self, List.map_append, List.filter_append,
    List.map_append]
  rfl

theorem entries_ended (text : String) : entries (text ++ "\n") = entries text := by
  have happend := entries_append text ""
  rwa [String.append_empty, entries_empty, List.append_nil] at happend

/-- A text that ends its last line, where it has one. -/
theorem endLine_cases (text : String) :
    (text = "" ∧ endLine text = "") ∨ ∃ lines, endLine text = lines ++ "\n" ∧
      (text = lines ∨ text = lines ++ "\n") := by
  rw [endLine]
  split
  · rename_i hends
    rw [Bool.or_eq_true] at hends
    obtain hempty | hlast := hends
    · exact .inl ⟨String.isEmpty_iff.mp hempty, String.isEmpty_iff.mp hempty⟩
    · obtain ⟨lines, hlines⟩ := List.getLast?_eq_some_iff.mp (of_decide_eq_true hlast)
      have htext : text = String.ofList lines ++ "\n" := by
        rw [← String.toList_inj, hlines]
        simp
      exact .inr ⟨String.ofList lines, htext, .inr htext⟩
  · exact .inr ⟨text, rfl, .inl rfl⟩

theorem entries_endLine_append (text more : String) :
    entries (endLine text ++ more) = entries text ++ entries more := by
  obtain ⟨rfl, hends⟩ | ⟨lines, hends, rfl | rfl⟩ := endLine_cases text
  · rw [hends, entries_empty, String.empty_append, List.nil_append]
  · rw [hends, entries_append]
  · rw [hends, entries_append, entries_ended]

theorem isPrefix_endLine (text : String) : text.toList <+: (endLine text).toList := by
  obtain ⟨rfl, hends⟩ | ⟨lines, hends, rfl | rfl⟩ := endLine_cases text
  · exact List.nil_prefix
  · rw [hends, String.toList_append]
    exact List.prefix_append ..
  · rw [hends]

/-- A name that may stand on a line: it has no newline, and no blanks around it. -/
structure IsEntry (name : String) : Prop where
  not_empty : name ≠ ""
  no_newline : '\n' ∉ name.toList
  trimmed : Text.trim name = name

theorem IsEntry.entries (h : IsEntry name) : entries name = [name] := by
  have htrim : Text.trimChars name.toList = name.toList := by
    have h := congrArg String.toList h.trimmed
    rwa [Text.trim, String.toList_ofList] at h
  have hne : name.toList ≠ [] := by simpa using h.not_empty
  rw [IgnoreFile.entries, List.splitOn_eq_singleton h.no_newline]
  simp [htrim, hne]

/-- The lines that are compared with a name list what the text lists. -/
theorem mem_presentNames (hne : name ≠ "") : name ∈ presentNames text ↔ name ∈ entries text := by
  have hlines : presentNames text =
      ((Text.rawLines text.toList).map Text.trimChars).map String.ofList := by
    simp [presentNames, Text.lines, Text.trimChars_withoutLineEnd]
  have hsame := Text.notBlank_lines (Text.lines_rawLines text.toList)
  rw [Text.flatten_rawLines] at hsame
  rw [hlines, entries, ← hsame, List.mem_map, List.mem_map]
  refine exists_congr fun line => and_congr_left fun hline => ?_
  rw [List.mem_filter, and_iff_left]
  simpa [← hline] using hne

/-! ## Added names -/

/-- The names that were not seen, each where it appears first. -/
def missing : (seen : List String) → List String → List String
  | _, [] => []
  | seen, name :: rest =>
    if name ∈ seen then missing seen rest else name :: missing (seen ++ [name]) rest

theorem mem_missing : name ∈ missing seen names ↔ name ∈ names ∧ name ∉ seen := by
  induction names generalizing seen with
  | nil => simp [missing]
  | cons first rest ih =>
    rw [missing]
    by_cases hseen : first ∈ seen
    · rw [if_pos hseen, ih, List.mem_cons]
      grind
    · rw [if_neg hseen, List.mem_cons, ih, List.mem_cons, List.mem_append, List.mem_singleton]
      grind

theorem nodup_missing (seen names : List String) : (missing seen names).Nodup := by
  induction names generalizing seen with
  | nil => exact .nil
  | cons first rest ih =>
    rw [missing]
    split
    · exact ih seen
    · refine List.nodup_cons.mpr ⟨fun hm => (mem_missing.mp hm).2 ?_, ih _⟩
      exact List.mem_append_right _ List.mem_cons_self

/-- Names on lines of their own behind a text. -/
def withNames (text : String) (added : List String) : String :=
  added.foldl (fun text name => endLine text ++ name ++ "\n") text

/-- Looking for a name among those seen keeps in step with the text. -/
theorem appendNames_eq (seen names : List String) (text : String) :
    appendNames seen text names =
      (withNames text (missing seen names), (missing seen names).length) := by
  induction names generalizing seen text with
  | nil => rfl
  | cons name rest ih =>
    rw [appendNames, missing]
    by_cases hseen : name ∈ seen
    · rw [if_pos (List.contains_iff_mem.mpr hseen), if_pos hseen, ih]
    · rw [if_neg fun hc => hseen (List.contains_iff_mem.mp hc), if_neg hseen, ih]
      rfl

theorem isPrefix_withNames (text : String) (added : List String) :
    text.toList <+: (withNames text added).toList := by
  induction added generalizing text with
  | nil => exact List.prefix_rfl
  | cons name rest ih =>
    refine ((isPrefix_endLine text).trans ?_).trans (ih _)
    rw [String.toList_append, String.toList_append, List.append_assoc]
    exact List.prefix_append ..

theorem entries_withNames (text : String) (h : ∀ name ∈ added, IsEntry name) :
    entries (withNames text added) = entries text ++ added := by
  induction added generalizing text with
  | nil => rw [List.append_nil]; rfl
  | cons name rest ih =>
    obtain ⟨hname, hrest⟩ := List.forall_mem_cons.mp h
    have hline : entries (endLine text ++ name ++ "\n") = entries text ++ [name] := by
      rw [entries_ended, entries_endLine_append, hname.entries]
    rw [List.append_cons, ← hline, ← ih _ hrest]
    rfl

/-- What names that are added to a text come to. -/
structure Appended (text : String) (names : List String) (new : String) (added : List String) :
    Prop where
  /-- The old text is the beginning of the new one. -/
  kept : text.toList <+: new.toList
  distinct : added.Nodup
  missing : ∀ name, name ∈ added ↔ name ∈ names ∧ name ∉ entries text
  /-- Each added name has a line of its own, behind all that were there. -/
  behind : entries new = entries text ++ added
  listed : ∀ name ∈ names, name ∈ entries new
  once : ∀ name ∈ added, (entries new).count name = 1

theorem appended_extend (text : String) (h : ∀ name ∈ names, IsEntry name) :
    ∃ new added, extend text names = (new, added.length) ∧ Appended text names new added ∧
      (added = [] → new = text) := by
  have hmissing : ∀ name, name ∈ missing (presentNames text) names ↔
      name ∈ names ∧ name ∉ entries text := fun name => by
    rw [mem_missing]
    exact and_congr_right fun hm => not_congr (mem_presentNames (h name hm).not_empty)
  have hadded : ∀ name ∈ missing (presentNames text) names, IsEntry name :=
    fun name hm => h name ((hmissing name).mp hm).1
  have hbehind := entries_withNames text hadded
  refine ⟨_, _, appendNames_eq .., ⟨isPrefix_withNames .., nodup_missing .., hmissing, hbehind,
    fun name hm => ?_, fun name hm => ?_⟩, fun hnone => ?_⟩
  · rw [hbehind, List.mem_append, hmissing]
    exact or_iff_not_imp_left.mpr fun hold => ⟨hm, hold⟩
  · rw [hbehind, List.count_append, List.count_eq_zero.mpr ((hmissing name).mp hm).2,
      List.count_eq_one_of_mem (nodup_missing ..) hm]
  · rw [hnone]
    rfl

/-! ## The file -/

/-- A directory that a path leads into is there. -/
theorem makeDirectories_there (h : files.resolve (Path.join directory name) = .ok place)
    (hn : Path.IsNormal name) : files.makeDirectories directory = .ok files := by
  rw [makeDirectories, makeDirectoriesWith]
  by_cases hempty : directory = ""
  · rw [hempty]
    rfl
  · have hrelative := hn.isAbsolute_eq_false
    obtain ⟨-, hchars, hfollow⟩ := resolve_eq_ok.mp h
    rw [start, Path.isAbsolute_join directory hrelative, Path.names_join_relative directory hrelative,
      hn.names, follow_last hn.not_here hn.not_above] at hfollow
    obtain ⟨above, habove, hdirectory, -⟩ := hfollow
    have hresolve : files.resolve directory = .ok above := resolve_eq_ok.mpr
      ⟨hempty, fun c hc => hchars c (Path.subset_join directory hrelative hc), habove⟩
    have hmake : files.makeDirectory directory = .error .alreadyExists := by
      simp [makeDirectory, hresolve, hdirectory, bind, Except.bind]
    rw [if_neg (by simpa using hempty), hmake]
    exact if_pos (pathIsDirectory_iff.mpr ⟨above, hresolve, hdirectory⟩)

/-- The directory can be made where it is missing, and is not in the way of the file then. -/
def Writable (files : FileTree) (directory : String) : Prop :=
  ∃ made place, files.makeDirectories directory = .ok made ∧
    made.resolve (Path.join directory fileName) = .ok place ∧ made.find? place ≠ some .directory

example : Writable {} "/a/b" :=
  ⟨{ entries := [(["a"], .directory), (["a", "b"], .directory)] }, ["a", "b", fileName],
    by cbv, by decide +kernel, by decide +kernel⟩

theorem not_endsWithSlash (directory : String) :
    endsWithSlash (Path.join directory fileName) = false := by
  have hlast (before : List Char) : (before ++ fileName.toList).getLast? = some 'e' :=
    List.getLast?_append_of_ne_nil _ (by decide)
  have hjoin : (Path.join directory fileName).toList.getLast? = some 'e' := by
    rw [Path.join]
    split
    · exact hlast []
    · split
      · rw [String.toList_append, hlast]
      · rw [String.toList_append, hlast]
  rw [endsWithSlash, hjoin]
  decide

/-- A directory that is there can hold the file. -/
theorem writable_of_content (hcontent : content files (Path.join directory fileName) = .ok text)
    (hmissing : files.resolve (Path.join directory fileName) = .error .notFound →
      Writable files directory) : Writable files directory := by
  cases hresolve : files.resolve (Path.join directory fileName) with
  | ok place =>
    refine ⟨files, place, makeDirectories_there hresolve isNormal_ignoreFile, hresolve, ?_⟩
    obtain ⟨hnone, -⟩ | hfile := textAt_of_content hcontent hresolve
    · simp [hnone]
    · simp [hfile]
  | error reason =>
    refine hmissing ?_
    rw [content, readText, FileTree.read, entry, hresolve] at hcontent
    cases reason with
    | notFound => exact hresolve
    | _ => cases hcontent

theorem content_of_holds (h : files.Holds path text.toUTF8) : content files path = .ok text := by
  rw [content, h.readText]

theorem update_of_present (hcontent : content files (Path.join directory fileName) = .ok text)
    (h : extend text names = (new, 0)) : update files directory names = (files, .ok 0) := by
  simp only [update, hcontent, h]

theorem update_of_missing (hcontent : content files (Path.join directory fileName) = .ok text)
    (hw : Writable files directory) {count : ℕ} (hcount : count ≠ 0)
    (h : extend text names = (new, count)) :
    ∃ later, update files directory names = (later, .ok count) ∧
      content later (Path.join directory fileName) = .ok new := by
  obtain ⟨made, place, hmake, hresolve, hfind⟩ := hw
  have hwrite : made.write (Path.join directory fileName) new.toUTF8 =
      .ok (made.put place (.file new.toUTF8)) :=
    write_eq_ok.mpr ⟨place, hresolve, hfind, not_endsWithSlash directory, rfl⟩
  refine ⟨_, ?_, content_of_holds (write_holds hwrite).1⟩
  cases count with
  | zero => exact absurd rfl hcount
  | succ count => simp only [update, hcontent, h, hmake, hwrite]

/-- Adding names to the ignore file of a directory appends those that it does not list, counts
them, and leaves all files alone if there are none. A file that is no text is left alone too. -/
theorem ignore_file_only_appended (files : FileTree) (directory : String) (names : List String)
    (hnames : ∀ name ∈ names, IsEntry name) :
    (∀ reason, content files (Path.join directory fileName) = .error reason →
      update files directory names = (files, .error reason)) ∧
    ∀ text, content files (Path.join directory fileName) = .ok text →
      (files.resolve (Path.join directory fileName) = .error .notFound →
        Writable files directory) →
      ∃ later new added, update files directory names = (later, .ok added.length) ∧
        content later (Path.join directory fileName) = .ok new ∧
        Appended text names new added ∧
        (added = [] → later = files) ∧
        ∀ again, again ⊆ names → update later directory again = (later, .ok 0) := by
  refine ⟨fun reason herror => by simp only [update, herror], fun text hcontent hmissing => ?_⟩
  obtain ⟨new, added, hextend, happended, hnone⟩ := appended_extend text hnames
  have hagain {later : FileTree} (hlater : content later (Path.join directory fileName) = .ok new)
      (again : List String) (hsub : again ⊆ names) :
      update later directory again = (later, .ok 0) := by
    have hzero : (extend new again).2 = 0 := (extend_eq_zero new again).mpr fun name hm =>
      (mem_presentNames (hnames name (hsub hm)).not_empty).mpr (happended.listed name (hsub hm))
    exact update_of_present hlater (Prod.ext rfl hzero)
  by_cases hadded : added = []
  · rw [hadded, List.length_nil] at hextend
    rw [hnone hadded] at hagain hextend happended
    exact ⟨files, text, added, by rw [update_of_present hcontent hextend, hadded]; rfl, hcontent,
      happended, fun _ => rfl, hagain hcontent⟩
  · obtain ⟨later, hupdate, hlater⟩ := update_of_missing hcontent
      (writable_of_content hcontent hmissing) (by simpa using hadded) hextend
    exact ⟨later, new, added, hupdate, hlater, happended, fun h => absurd h hadded, hagain hlater⟩

/-- A directory whose ignore file does not end its last line. -/
def ignoringDirectory : FileTree :=
  { entries := [(["out"], .directory), (["out", fileName], .file "*.swp\nlab-cp-1.yaml".toUTF8)] }

theorem repeated_name_appended_once :
    (∀ name ∈ ["lab-cp-1.yaml", "talosconfig", "talosconfig"], IsEntry name) ∧
      content ignoringDirectory (Path.join "/out" fileName) = .ok "*.swp\nlab-cp-1.yaml" ∧
      ∃ later new added,
        update ignoringDirectory "/out" ["lab-cp-1.yaml", "talosconfig", "talosconfig"] =
          (later, .ok added.length) ∧
        content later (Path.join "/out" fileName) = .ok new ∧
        Appended "*.swp\nlab-cp-1.yaml" ["lab-cp-1.yaml", "talosconfig", "talosconfig"] new added := by
  have hnames : ∀ name ∈ ["lab-cp-1.yaml", "talosconfig", "talosconfig"], IsEntry name := by
    have hfirst : IsEntry "lab-cp-1.yaml" := ⟨by decide, by decide, by decide +kernel⟩
    have hsecond : IsEntry "talosconfig" := ⟨by decide, by decide, by decide +kernel⟩
    simp [hfirst, hsecond]
  have hcontent : content ignoringDirectory (Path.join "/out" fileName) =
      .ok "*.swp\nlab-cp-1.yaml" := by decide +kernel
  have hresolve : ignoringDirectory.resolve (Path.join "/out" fileName) ≠ .error .notFound := by
    decide +kernel
  obtain ⟨later, new, added, hupdate, hlater, happended, -⟩ :=
    (ignore_file_only_appended ignoringDirectory "/out" _ hnames).2 _ hcontent
      fun h => absurd h hresolve
  exact ⟨hnames, hcontent, later, new, added, hupdate, hlater, happended⟩

end IgnoreFile

end ClusterConfig
