import Mathlib
import ClusterConfig.Output.Compilation
import ClusterConfig.Proofs.Files.Changes

/-!
# Written files

The files of a compilation are written one after the other. Writing one changes no other file, so
after a run that did not fail each of them has its text, if no two have the same last name.
-/

set_option autoImplicit false

namespace ClusterConfig.Compilation

open FileTree

variable {files later : FileTree} {path text directory : String} {places : Set (List String)}
  {outputs : List (String × String)} {written : List String}

/-! ## Outputs -/

/-- The outputs have last names that lead into a directory, each its own. -/
structure Separate (outputs : List (String × String)) : Prop where
  ends : ∀ output ∈ outputs, ∃ leaf, Path.EndsIn output.1 leaf
  apart : outputs.Pairwise fun a b => ∀ leaf, Path.EndsIn a.1 leaf → ¬Path.EndsIn b.1 leaf

/-- The places whose last name is that of one of the outputs. -/
def outputPlaces (outputs : List (String × String)) : Set (List String) :=
  {place | ∃ output ∈ outputs, ∃ leaf, Path.EndsIn output.1 leaf ∧ place.getLast? = some leaf}

/-! ## One file -/

/-- Whatever comes of writing a file, at most that file changes. -/
theorem changes_writeOutput (files : FileTree) (path text : String)
    (hp : ∀ between place, ChangesOnly ∅ files between → between.resolve path = .ok place →
      place ∈ places) : ChangesOnly places files (writeOutput files path text).1 := by
  rw [writeOutput]
  split
  · exact .refl _ _
  · rename_i between hmake
    have hbetween := (makesDirectory_makeDirectories hmake).changes
    split
    · exact hbetween.mono (Set.empty_subset _)
    · rename_i last hwrite
      obtain ⟨-, place, hresolve, hlast⟩ := write_holds hwrite
      exact (hbetween.mono (Set.empty_subset _)).trans
        (hlast.mono (Set.singleton_subset_iff.mpr (hp between place hbetween hresolve)))

/-- A file is written once the directories above it are there. -/
theorem writeOutput_parts (h : writeOutput files path text = (later, .ok ())) :
    ∃ made, ChangesOnly ∅ files made ∧ made.write path text.toUTF8 = .ok later := by
  rw [writeOutput] at h
  split at h
  · cases h
  · rename_i made hmake
    split at h
    · cases h
    · rename_i hwrite
      cases h
      exact ⟨made, (makesDirectory_makeDirectories hmake).changes, hwrite⟩

theorem holds_writeOutput (h : writeOutput files path text = (later, .ok ())) :
    later.Holds path text.toUTF8 := by
  obtain ⟨made, -, hwrite⟩ := writeOutput_parts h
  exact (write_holds hwrite).1

/-! ## Runs -/

theorem writeOutputs_cons (directory : String) (files : FileTree) (output : String × String)
    (rest : List (String × String)) :
    writeOutputs directory files (output :: rest) =
      match writeOutput files (Path.join directory output.1) output.2 with
      | (between, .error e) => (between, .error e)
      | (between, .ok _) =>
        ((writeOutputs directory between rest).1,
          (writeOutputs directory between rest).2.map (Path.join directory output.1 :: ·)) := by
  cases output
  rfl

/-- A run writes its first file, and if that did not fail the others. -/
theorem writeOutputs_cases (directory : String) (files : FileTree) (output : String × String)
    (rest : List (String × String)) :
    (∃ between e, writeOutput files (Path.join directory output.1) output.2 = (between, .error e) ∧
      writeOutputs directory files (output :: rest) = (between, .error e)) ∨
    ∃ between last result,
      writeOutput files (Path.join directory output.1) output.2 = (between, .ok ()) ∧
      writeOutputs directory between rest = (last, result) ∧
      writeOutputs directory files (output :: rest) =
        (last, result.map (Path.join directory output.1 :: ·)) := by
  rw [writeOutputs_cons]
  generalize writeOutput files (Path.join directory output.1) output.2 = one
  obtain ⟨between, e | done⟩ := one
  · exact .inl ⟨between, e, rfl, rfl⟩
  · exact .inr ⟨between, _, _, rfl, rfl, rfl⟩

/-- A run that did not fail wrote its first file, and then the others. -/
theorem writeOutputs_parts {output : String × String} {rest : List (String × String)}
    (h : writeOutputs directory files (output :: rest) = (later, .ok written)) :
    ∃ between paths,
      writeOutput files (Path.join directory output.1) output.2 = (between, .ok ()) ∧
      writeOutputs directory between rest = (later, .ok paths) ∧
      written = Path.join directory output.1 :: paths := by
  obtain ⟨between, e, -, hrun⟩ | ⟨between, last, result, hone, hmore, hrun⟩ :=
    writeOutputs_cases directory files output rest
  · rw [hrun] at h
    cases h
  · rw [hrun] at h
    obtain ⟨rfl, hresult⟩ := Prod.mk.inj h
    cases result with
    | error e => cases hresult
    | ok paths => exact ⟨between, paths, hone, hmore, (Except.ok.inj hresult).symm⟩

/-- A compilation is written once its directory is there. -/
theorem write_parts {compilation : Compilation}
    (h : compilation.write files directory = (later, .ok written)) :
    ∃ made, ChangesOnly ∅ files made ∧
      writeOutputs directory made compilation.outputs = (later, .ok written) := by
  rw [Compilation.write] at h
  split at h
  · cases h
  · rename_i made hmake
    exact ⟨made, (makesDirectory_makeDirectories hmake).changes, h⟩

/-- Whatever comes of writing some files, at most those files change. -/
theorem changes_writeOutputs (directory : String) (files : FileTree)
    (outputs : List (String × String))
    (hp : ∀ output ∈ outputs, ∀ between place, ChangesOnly places files between →
      between.resolve (Path.join directory output.1) = .ok place → place ∈ places) :
    ChangesOnly places files (writeOutputs directory files outputs).1 := by
  induction outputs generalizing files with
  | nil => exact .refl _ _
  | cons output rest ih =>
    have hfirst := changes_writeOutput files (Path.join directory output.1) output.2
      fun between place hb => hp output List.mem_cons_self between place
        (hb.mono (Set.empty_subset _))
    obtain ⟨between, e, hone, hrun⟩ | ⟨between, last, result, hone, hmore, hrun⟩ :=
      writeOutputs_cases directory files output rest
    · rw [hone] at hfirst
      rw [hrun]
      exact hfirst
    · rw [hone] at hfirst
      have hrest := ih between fun other hm last place hl =>
        hp other (List.mem_cons_of_mem _ hm) last place (hfirst.trans hl)
      rw [hmore] at hrest
      rw [hrun]
      exact hfirst.trans hrest

theorem Separate.changes (h : Separate outputs) (directory : String) (files : FileTree) :
    ChangesOnly (outputPlaces outputs) files (writeOutputs directory files outputs).1 := by
  refine changes_writeOutputs directory files outputs fun output hm between place _ hresolve => ?_
  obtain ⟨leaf, hleaf⟩ := h.ends output hm
  obtain ⟨above, -, hplace⟩ := resolve_endsIn hresolve (hleaf.join directory)
  exact ⟨output, hm, leaf, hleaf, by rw [hplace, List.getLast?_concat]⟩

/-- After a run that did not fail every file has its text. -/
theorem Separate.holds (h : Separate outputs)
    (hw : writeOutputs directory files outputs = (later, .ok written)) :
    ∀ output ∈ outputs, later.Holds (Path.join directory output.1) output.2.toUTF8 := by
  induction outputs generalizing files later written with
  | nil => exact fun _ hm => absurd hm List.not_mem_nil
  | cons output rest ih =>
    obtain ⟨hapart, hrest⟩ := List.pairwise_cons.mp h.apart
    have htail : Separate rest := ⟨fun other hm => h.ends other (List.mem_cons_of_mem _ hm), hrest⟩
    obtain ⟨between, paths, hone, hmore, -⟩ := writeOutputs_parts hw
    have hchanges := htail.changes directory between
    rw [hmore] at hchanges
    refine List.forall_mem_cons.mpr ⟨?_, ih htail hmore⟩
    -- no later file has the last name of this one
    refine (holds_writeOutput hone).kept hchanges fun place hresolve hin => ?_
    obtain ⟨other, hother, leaf, hleaf, hlast⟩ := hin
    obtain ⟨own, hown⟩ := h.ends output List.mem_cons_self
    obtain ⟨above, -, hplace⟩ := resolve_endsIn hresolve (hown.join directory)
    rw [hplace, List.getLast?_concat, Option.some.injEq] at hlast
    exact hapart other hother leaf (hlast ▸ hown) hleaf

/-- The paths that are told are those of the files. -/
theorem written_eq (h : writeOutputs directory files outputs = (later, .ok written)) :
    written = outputs.map fun output => Path.join directory output.1 := by
  induction outputs generalizing files later written with
  | nil =>
    cases h
    rfl
  | cons output rest ih =>
    obtain ⟨between, paths, -, hmore, rfl⟩ := writeOutputs_parts h
    rw [List.map_cons, ← ih hmore]

end ClusterConfig.Compilation
