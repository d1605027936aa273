import Mathlib
import ClusterConfig.Files.Path
import ClusterConfig.Proofs.Text.Parts

/-!
# Names of paths

A text without slashes that is appended to a path extends its last name. A path that is seen from a
directory has its own names last, behind those of the directory unless it is absolute.
-/

set_option autoImplicit false

namespace ClusterConfig

/-! ## Names -/

namespace Path

variable {path text leaf directory : String}

/-- A name that leads to an entry of its directory and nowhere else. -/
structure IsNormal (name : String) : Prop where
  not_empty : name ≠ ""
  no_slash : '/' ∉ name.toList
  not_here : name ≠ "."
  not_above : name ≠ ".."

theorem names_of_no_slash (hne : text ≠ "") (hslash : '/' ∉ text.toList) : names text = [text] := by
  simp [names, Text.splitAll_of_not_mem hslash, hne]

theorem IsNormal.names (h : IsNormal text) : names text = [text] :=
  names_of_no_slash h.not_empty h.no_slash

theorem names_append (s t : List Char) :
    names (String.ofList (s ++ '/' :: t)) = names (String.ofList s) ++ names (String.ofList t) := by
  simp [names, Text.splitAll_append]

/-- What is appended to a text without a slash of its own extends the last name. -/
theorem names_extended (start : String) :
    ∃ above stem, ∀ text, text ≠ "" → '/' ∉ text.toList →
      names (start ++ text) = above ++ [stem ++ text] := by
  obtain ⟨part, hpart, hstart⟩ := Text.exists_last_part '/' start.toList
  have hlast {text : String} (hne : text ≠ "") (hslash : '/' ∉ text.toList) :
      names (String.ofList (part ++ text.toList)) = [String.ofList part ++ text] := by
    rw [names_of_no_slash] <;> simp [hpart, hslash, hne]
  obtain hstart | ⟨above, hstart⟩ := hstart
  · refine ⟨[], String.ofList part, fun text hne hslash => ?_⟩
    rw [List.nil_append, ← hlast hne hslash, ← hstart]
    simp
  · refine ⟨names (String.ofList above), String.ofList part, fun text hne hslash => ?_⟩
    rw [← hlast hne hslash, ← names_append, ← List.cons_append, ← List.append_assoc, ← hstart]
    simp

theorem names_join_relative (directory : String) (h : isAbsolute path = false) :
    names (join directory path) = names directory ++ names path := by
  rw [join, h, Bool.false_or]
  split
  · rename_i hempty
    rw [String.isEmpty_iff.mp hempty]
    rfl
  · split
    · rename_i hlast
      obtain ⟨above, habove⟩ := List.getLast?_eq_some_iff.mp hlast
      have hdirectory : directory = String.ofList (above ++ ['/']) := by
        rw [← habove, String.ofList_toList]
      have hjoined : directory ++ path = String.ofList (above ++ '/' :: path.toList) := by
        rw [hdirectory]
        simp [String.append_assoc]
      rw [hjoined, hdirectory, names_append, names_append, String.ofList_toList]
      simp [names, Text.splitAll]
    · have hjoin := names_append directory.toList path.toList
      simp only [String.ofList_toList] at hjoin
      rw [← hjoin]
      simp [String.append_assoc]

theorem isAbsolute_join (directory : String) (h : isAbsolute path = false) :
    isAbsolute (join directory path) = isAbsolute directory := by
  rw [join, h, Bool.false_or]
  split
  · rename_i hempty
    rw [h, String.isEmpty_iff.mp hempty]
    rfl
  · rename_i hempty
    have hhead (rest : List Char) : (directory.toList ++ rest).head? = directory.toList.head? := by
      refine List.head?_append_of_ne_nil _ ?_
      simpa using hempty
    split <;> simp [isAbsolute, List.append_assoc, hhead]

theorem names_join (directory path : String) :
    ∃ above, names (join directory path) = above ++ names path := by
  cases h : isAbsolute path with
  | false => exact ⟨names directory, names_join_relative directory h⟩
  | true => exact ⟨[], by rw [join, h, Bool.true_or, if_pos rfl, List.nil_append]⟩

/-- The last name of a path, which leads into a directory. -/
structure EndsIn (path leaf : String) : Prop where
  last : (names path).getLast? = some leaf
  not_here : leaf ≠ "."
  not_above : leaf ≠ ".."

theorem EndsIn.join (h : EndsIn path leaf) (directory : String) :
    EndsIn (join directory path) leaf := by
  obtain ⟨above, habove⟩ := names_join directory path
  refine ⟨?_, h.not_here, h.not_above⟩
  rw [habove, List.getLast?_append_of_ne_nil _ ?_, h.last]
  intro hnil
  have hlast := h.last
  rw [hnil] at hlast
  cases hlast

theorem EndsIn.unique {other : String} (h : EndsIn path leaf) (ho : EndsIn path other) :
    leaf = other :=
  Option.some.inj (h.last.symm.trans ho.last)

end Path

end ClusterConfig
