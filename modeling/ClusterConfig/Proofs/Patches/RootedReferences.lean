import Mathlib
import ClusterConfig.Cluster.Loading
import ClusterConfig.Proofs.Files.Names

/-!
# References taken from a directory

A reference that is taken from an absolute directory stays a reference of its kind, has an absolute
path from then on, and is not moved again. Its path goes down from the directory, however it is
spelled, with one exception: of a dot with two slashes behind only the dot and the first slash are
dropped, and what is left is an absolute path of its own.
-/

set_option autoImplicit false

namespace ClusterConfig

variable {directory path text : String}

/-! ## Paths -/

namespace Path

/-- A path without the mark of the current directory in front of it. -/
def withoutHere (path : String) : String :=
  match path.toList with
  | '.' :: '/' :: rest => String.ofList rest
  | _ => path

/-- In front of a path that is absolute itself stands the mark of the current directory. -/
def HidesAbsolute (path : String) : Prop := ['.', '/', '/'] <+: path.toList

instance (path : String) : Decidable (HidesAbsolute path) :=
  inferInstanceAs (Decidable (['.', '/', '/'] <+: path.toList))

theorem components_join (directory : String) (h : isAbsolute path = false) :
    components (join directory path) = components directory ++ components path := by
  rw [components, names_join_relative directory h, List.filter_append, components, components]

theorem components_withoutHere (path : String) :
    components (withoutHere path) = components path := by
  rw [withoutHere]
  split
  · rename_i rest hpath
    have hnames := names_append ['.'] rest
    rw [List.singleton_append, ← hpath, String.ofList_toList] at hnames
    have hhere : names (String.ofList ['.']) = ["."] := by decide
    rw [components, components, hnames, hhere]
    rfl
  · rfl

theorem isAbsolute_withoutHere (h : isAbsolute path = false) :
    isAbsolute (withoutHere path) = true ↔ HidesAbsolute path := by
  rw [withoutHere, HidesAbsolute]
  split
  · rename_i rest hpath
    rw [hpath, isAbsolute, String.toList_ofList, decide_eq_true_eq]
    cases rest <;> simp [eq_comm]
  · rename_i hpath
    rw [h]
    refine iff_of_false Bool.false_ne_true ?_
    rintro ⟨rest, hrest⟩
    exact hpath _ hrest.symm

end Path

theorem Cluster.isAbsolute_directoryOf (files : FileTree) (path : String) :
    Path.isAbsolute (directoryOf files path) = true := by
  rw [directoryOf, Path.parentOfAbsolute, Path.ofNames]
  generalize (Path.names _).dropLast = names
  cases names with
  | nil => decide
  | cons name rest => simp [Path.isAbsolute]

namespace Patch

open ClusterConfig.Path (HidesAbsolute components isAbsolute withoutHere)

theorem rootPath_of_isAbsolute (h : isAbsolute path = true) (directory : String) :
    rootPath directory path = path := by
  rw [rootPath, if_pos h]

theorem rootPath_of_relative (h : isAbsolute path = false) (directory : String) :
    rootPath directory path = Path.join directory (withoutHere path) := by
  rw [rootPath, h, if_neg Bool.false_ne_true, withoutHere]
  split <;> simp [*]

theorem isAbsolute_rootPath (hd : isAbsolute directory = true) (path : String) :
    isAbsolute (rootPath directory path) = true := by
  cases h : isAbsolute path with
  | true => rwa [rootPath_of_isAbsolute h]
  | false =>
    rw [rootPath_of_relative h]
    cases hw : isAbsolute (withoutHere path) with
    | true => rwa [Path.join, hw, Bool.true_or, if_pos rfl]
    | false => rwa [Path.isAbsolute_join directory hw]

theorem components_rootPath (h : isAbsolute path = false) (directory : String) :
    components (rootPath directory path) =
      if HidesAbsolute path then components path
      else components directory ++ components path := by
  rw [rootPath_of_relative h]
  split
  · rename_i hhides
    rw [Path.join, (Path.isAbsolute_withoutHere h).mpr hhides, Bool.true_or, if_pos rfl,
      Path.components_withoutHere]
  · rename_i hhides
    have hrest : isAbsolute (withoutHere path) = false :=
      Bool.eq_false_iff.mpr (mt (Path.isAbsolute_withoutHere h).mp hhides)
    rw [Path.components_join _ hrest, Path.components_withoutHere]

/-! ## References -/

namespace Reference

/-- A reference of the same kind with another path. -/
def withPath (reference : Reference) (path : String) : Reference :=
  match reference with
  | .file _ => .file path
  | .literal _ => .literal path
  | .inline text => .inline text

variable {reference : Reference} {other : String}

theorem withPath_self (h : reference.path? = some path) : reference.withPath path = reference := by
  cases reference <;> cases h <;> rfl

theorem path?_withPath (h : reference.path? = some path) (other : String) :
    (reference.withPath other).path? = some other := by
  cases reference <;> cases h <;> rfl

theorem text_parse (text : String) : (parse text).text = text := by
  rw [← String.toList_inj, parse]
  split <;> simp [Reference.text, *]

/-- An absolute path cannot be taken for a part of the mark in front of it. -/
theorem parse_text (h : reference.path? = some path) (habsolute : Path.isAbsolute path = true) :
    parse reference.text = reference := by
  obtain ⟨rest, hrest⟩ := List.head?_eq_some_iff.mp (of_decide_eq_true habsolute)
  cases reference with
  | inline text => cases h
  | file found =>
    cases h
    have htext : (file path).text.toList = '@' :: '/' :: rest := by simp [Reference.text, hrest]
    rw [parse, htext]
    exact congrArg file (by rw [← hrest, String.ofList_toList])
  | literal found =>
    cases h
    have htext : (literal path).text.toList = '@' :: '!' :: path.toList := by simp [Reference.text]
    rw [parse, htext]
    exact congrArg literal String.ofList_toList

end Reference

theorem rootReference_of_path (h : (Reference.parse text).path? = some path) (directory : String) :
    rootReference directory text =
      ((Reference.parse text).withPath (rootPath directory path)).text := by
  rw [rootReference]
  cases hr : Reference.parse text <;> rw [hr] at h <;> cases h <;> rfl

theorem rootReference_of_none (h : (Reference.parse text).path? = none) (directory : String) :
    rootReference directory text = text := by
  rw [rootReference]
  cases hr : Reference.parse text with
  | inline inner =>
    have htext := Reference.text_parse text
    rwa [hr] at htext
  | _ =>
    rw [hr] at h
    cases h

theorem parse_rootReference (hd : isAbsolute directory = true)
    (h : (Reference.parse text).path? = some path) :
    Reference.parse (rootReference directory text) =
      (Reference.parse text).withPath (rootPath directory path) := by
  rw [rootReference_of_path h]
  exact Reference.parse_text (Reference.path?_withPath h _) (isAbsolute_rootPath hd path)

/-- A text that refers to a file by a path that is not absolute. -/
def IsRelative (text : String) : Prop :=
  ∃ path, (Reference.parse text).path? = some path ∧ isAbsolute path = false

theorem rootReference_eq_self (h : ¬ IsRelative text) (directory : String) :
    rootReference directory text = text := by
  cases hpath : (Reference.parse text).path? with
  | none => exact rootReference_of_none hpath directory
  | some path =>
    cases habsolute : isAbsolute path with
    | true =>
      rw [rootReference_of_path hpath, rootPath_of_isAbsolute habsolute,
        Reference.withPath_self hpath, Reference.text_parse]
    | false => exact absurd ⟨path, hpath, habsolute⟩ h

theorem not_isRelative_rootReference (hd : isAbsolute directory = true) (text : String) :
    ¬ IsRelative (rootReference directory text) := by
  rintro ⟨rooted, hrooted, hrelative⟩
  cases hpath : (Reference.parse text).path? with
  | none =>
    rw [rootReference_of_none hpath, hpath] at hrooted
    cases hrooted
  | some path =>
    rw [parse_rootReference hd hpath, Reference.path?_withPath hpath] at hrooted
    rw [← Option.some.inj hrooted, isAbsolute_rootPath hd] at hrelative
    cases hrelative

/-- A relative reference stays of its kind and gets an absolute path. The names of that path are
those of the directory and then those of the reference, exactly if no absolute path is hidden in the
reference or the directory is the root itself. -/
theorem relative_reference_rooted_iff (directory : String) (hd : isAbsolute directory = true)
    (text path : String) (hpath : (Reference.parse text).path? = some path)
    (hrelative : isAbsolute path = false) :
    ∃ rooted, Reference.parse (rootReference directory text) =
        (Reference.parse text).withPath rooted ∧
      isAbsolute rooted = true ∧
      (components rooted = components directory ++ components path ↔
        ¬ HidesAbsolute path ∨ components directory = []) ∧
      (¬ HidesAbsolute path → components directory <+: components rooted) := by
  refine ⟨rootPath directory path, parse_rootReference hd hpath, isAbsolute_rootPath hd path, ?_,
    ?_⟩
  · rw [components_rootPath hrelative]
    by_cases hhides : HidesAbsolute path <;> simp [hhides]
  · intro hhides
    rw [components_rootPath hrelative, if_neg hhides]
    exact List.prefix_append _ _

/-- A reference with blank names and both kinds of dots, in a description that is found from the
directory of the program. -/
theorem spelled_reference_rooted :
    let directory := Cluster.directoryOf {} "lab/./cluster.yaml"
    let path := "././manifests//../cni.yaml"
    isAbsolute directory = true ∧ components directory = ["lab"] ∧
    (Reference.parse "@!././manifests//../cni.yaml").path? = some path ∧
    isAbsolute path = false ∧ ¬ HidesAbsolute path ∧
    ∃ rooted, Reference.parse (rootReference directory "@!././manifests//../cni.yaml") =
        .literal rooted ∧
      isAbsolute rooted = true ∧ components rooted = ["lab", "manifests", "..", "cni.yaml"] ∧
      components directory <+: components rooted := by
  intro directory path
  have hd : isAbsolute directory = true := Cluster.isAbsolute_directoryOf _ _
  have hdirectory : components directory = ["lab"] := by decide +kernel
  have hnames : components path = ["manifests", "..", "cni.yaml"] := by decide +kernel
  have hparse : Reference.parse "@!././manifests//../cni.yaml" = .literal path := by decide +kernel
  have hpath := congrArg Reference.path? hparse
  have hrelative : isAbsolute path = false := by decide +kernel
  have hhides : ¬ HidesAbsolute path := by decide +kernel
  obtain ⟨rooted, hrooted, habsolute, hcomponents, hprefix⟩ :=
    relative_reference_rooted_iff directory hd _ path hpath hrelative
  refine ⟨hd, hdirectory, hpath, hrelative, hhides, rooted, ?_, habsolute, ?_, hprefix hhides⟩
  · rw [hrooted, hparse]
    rfl
  · rw [hcomponents.mpr (.inl hhides), hdirectory, hnames]
    rfl

/-- The rest of a relative reference is taken for an absolute path, which leads out of the
directory. -/
theorem hidden_absolute_path_leaves :
    isAbsolute "/cluster" = true ∧
    Reference.parse "@.//etc/passwd" = .file ".//etc/passwd" ∧
    isAbsolute ".//etc/passwd" = false ∧
    Reference.parse (rootReference "/cluster" "@.//etc/passwd") = .file "/etc/passwd" ∧
    components "/etc/passwd" ≠ components "/cluster" ++ components ".//etc/passwd" ∧
    ¬ components "/cluster" <+: components "/etc/passwd" := by
  decide +kernel

end Patch

end ClusterConfig
