import Mathlib
import ClusterConfig.Proofs.Documents.Members
import ClusterConfig.Proofs.Validation.Kinds

/-!
# Names that occur again

The names of a list are grouped in the order in which they first appear, each with all its places.
Blanks around a name do not count, and blank names are left out but keep their places. So each name
that occurs again is reported once, with its first two places.
-/

set_option autoImplicit false

namespace ClusterConfig

theorem map_filterMap_sublist {α β γ : Type} {keep : α → Option β} {f : β → γ} {g : α → γ}
    (h : ∀ a b, keep a = some b → f b = g a) (l : List α) :
    ((l.filterMap keep).map f).Sublist (l.map g) := by
  induction l with
  | nil => exact .slnil
  | cons a l ih =>
    cases hk : keep a with
    | none =>
      rw [List.filterMap_cons_none hk]
      exact ih.cons _
    | some b =>
      rw [List.filterMap_cons_some hk, List.map_cons, List.map_cons, h a b hk]
      exact ih.cons_cons _

namespace Validation

variable {names keys : List String} {name : String} {groups : Members (List Nat)}
  {indices : List Nat} {found : List (String × Nat × Nat)} {first second : Nat}

/-! ## Groups -/

section Groups

variable {α : Type}

theorem addPosition_eq_addToGroup (name : String) (index : Nat) (groups : Members (List Nat)) :
    addPosition name index groups = Report.addToGroup name index groups := by
  induction groups with
  | nil => rfl
  | cons group rest ih => rw [addPosition, Report.addToGroup, ih]

theorem get?_addToGroup (key other : String) (value : α) (groups : Members (List α)) :
    Members.get? (Report.addToGroup key value groups) other =
      if other = key then some ((groups.get? other).getD [] ++ [value])
      else groups.get? other := by
  induction groups with
  | nil =>
    by_cases h : key = other
    · simp [Report.addToGroup, Members.get?, h]
    · simp [Report.addToGroup, Members.get?, h, Ne.symm h]
  | cons group rest ih =>
    obtain ⟨name, values⟩ := group
    rw [Report.addToGroup]
    by_cases hk : name = key
    · subst hk
      by_cases ho : name = other
      · simp [Members.get?, ho]
      · simp [Members.get?, ho, Ne.symm ho]
    · rw [if_neg hk]
      by_cases ho : name = other
      · subst ho
        simp [Members.get?, hk]
      · simpa [Members.get?, ho] using ih

theorem keys_addToGroup (key : String) (value : α) (groups : Members (List α)) :
    Members.keys (Report.addToGroup key value groups) =
      if key ∈ groups.keys then groups.keys else groups.keys ++ [key] := by
  have hcons (group : String × List α) (rest : Members (List α)) :
      Members.keys (group :: rest) = group.1 :: Members.keys rest := rfl
  induction groups with
  | nil => simp [Report.addToGroup, Members.keys]
  | cons group rest ih =>
    rw [Report.addToGroup]
    by_cases hk : group.1 = key
    · simp [hcons, hk]
    · rw [if_neg hk, hcons, hcons, ih]
      by_cases hm : key ∈ Members.keys rest
      · rw [if_pos hm, if_pos (List.mem_cons_of_mem _ hm)]
      · rw [if_neg hm, if_neg (by simp [hm, Ne.symm hk]), List.cons_append]

end Groups

/-- The names without the blanks around them. -/
def trimmed (names : List String) : List String := names.map Text.trim

theorem trimmed_concat (names : List String) (name : String) :
    trimmed (names ++ [name]) = trimmed names ++ [Text.trim name] :=
  List.map_append

/-- Notes the place of a name that is not blank. -/
def note (groups : Members (List Nat)) (named : String × Nat) : Members (List Nat) :=
  if (Text.trim named.1).isEmpty then groups else addPosition (Text.trim named.1) named.2 groups

theorem positionsByName_concat (names : List String) (name : String) :
    positionsByName (names ++ [name]) = note (positionsByName names) (name, names.length) := by
  have hfold (names : List String) : positionsByName names = names.zipIdx.foldl note [] := rfl
  simp [hfold, List.zipIdx_append]

/-! ## The places of a name -/

/-- The places that are noted for a name. -/
def noted (groups : Members (List Nat)) (name : String) : List Nat :=
  (groups.get? name).getD []

theorem noted_addPosition (name other : String) (index : Nat) (groups : Members (List Nat)) :
    noted (addPosition name index groups) other =
      if other = name then noted groups other ++ [index] else noted groups other := by
  rw [noted, addPosition_eq_addToGroup, get?_addToGroup]
  split
  · rfl
  · rfl

/-- The places that are noted for a name are those where it occurs. -/
theorem noted_positions (hne : name ≠ "") (names : List String) :
    noted (positionsByName names) name = (trimmed names).idxsOf name := by
  induction names using List.reverseRecOn with
  | nil => rfl
  | append_singleton names last ih =>
    rw [positionsByName_concat, trimmed_concat, List.idxsOf_append, ← ih, note]
    by_cases hempty : Text.trim last = ""
    · simp [hempty, Ne.symm hne]
    · rw [if_neg (by simpa using hempty), noted_addPosition]
      by_cases hname : name = Text.trim last
      · simp [← hname, trimmed]
      · simp [hname, Ne.symm hname]

/-! ## The order of the names -/

/-- The names that are not blank, in the order in which they first appear. -/
structure FirstSeen (names keys : List String) : Prop where
  mem_iff : ∀ name, name ∈ keys ↔ name ≠ "" ∧ name ∈ names
  in_order : keys.Pairwise fun a b => names.idxOf a < names.idxOf b

namespace FirstSeen

theorem nodup (h : FirstSeen names keys) : keys.Nodup :=
  h.in_order.imp fun hlt heq => absurd (heq ▸ hlt) (lt_irrefl _)

/-- What is seen later does not change where a name was seen first. -/
theorem in_order_append (h : FirstSeen names keys) (more : List String) :
    keys.Pairwise fun a b => (names ++ more).idxOf a < (names ++ more).idxOf b :=
  h.in_order.imp_of_mem fun ha hb hlt => by
    rwa [List.idxOf_append_of_mem ((h.mem_iff _).mp ha).2,
      List.idxOf_append_of_mem ((h.mem_iff _).mp hb).2]

theorem again (h : FirstSeen names keys) (hm : name = "" ∨ name ∈ keys) :
    FirstSeen (names ++ [name]) keys where
  mem_iff other := by
    rw [h.mem_iff, List.mem_append, List.mem_singleton]
    refine and_congr_right fun hne => ⟨.inl, ?_⟩
    rintro (hother | rfl)
    · exact hother
    · exact ((h.mem_iff _).mp (hm.resolve_left hne)).2
  in_order := h.in_order_append [name]

theorem fresh (h : FirstSeen names keys) (hne : name ≠ "") (hm : name ∉ keys) :
    FirstSeen (names ++ [name]) (keys ++ [name]) where
  mem_iff other := by
    rw [List.mem_append, List.mem_append, List.mem_singleton, h.mem_iff, and_or_left]
    refine or_congr_right ⟨?_, And.right⟩
    rintro rfl
    exact ⟨hne, rfl⟩
  in_order := by
    have hnew : name ∉ names := fun hold => hm ((h.mem_iff name).mpr ⟨hne, hold⟩)
    refine List.pairwise_append.mpr ⟨h.in_order_append [name], List.pairwise_singleton .., ?_⟩
    intro earlier he last hl
    have hold := ((h.mem_iff earlier).mp he).2
    rw [List.mem_singleton.mp hl, List.idxOf_append_of_mem hold, List.idxOf_append, if_neg hnew]
    exact (List.idxOf_lt_length_iff.mpr hold).trans_le (Nat.le_add_left ..)

end FirstSeen

theorem firstSeen_positions (names : List String) :
    FirstSeen (trimmed names) (Members.keys (positionsByName names)) := by
  induction names using List.reverseRecOn with
  | nil => exact ⟨by simp [trimmed, positionsByName, Members.keys], .nil⟩
  | append_singleton names last ih =>
    rw [trimmed_concat, positionsByName_concat, note]
    split
    · rename_i hempty
      exact ih.again (.inl (by simpa using hempty))
    · rename_i hne
      rw [addPosition_eq_addToGroup, keys_addToGroup]
      split
      · rename_i hm
        exact ih.again (.inr hm)
      · rename_i hm
        exact ih.fresh (by simpa using hne) hm

/-- Each group has all places of its name. -/
theorem mem_positions : (name, indices) ∈ positionsByName names ↔
    name ≠ "" ∧ name ∈ trimmed names ∧ indices = (trimmed names).idxsOf name := by
  have hseen := firstSeen_positions names
  constructor
  · intro hm
    obtain ⟨hne, htrimmed⟩ := (hseen.mem_iff name).mp (List.mem_map_of_mem hm)
    refine ⟨hne, htrimmed, ?_⟩
    rw [← noted_positions hne, noted, Members.get?_of_mem hseen.nodup hm, Option.getD_some]
  · rintro ⟨hne, htrimmed, rfl⟩
    obtain ⟨⟨key, indices⟩, hm, rfl⟩ :=
      List.mem_map.mp ((hseen.mem_iff name).mpr ⟨hne, htrimmed⟩)
    rwa [← noted_positions hne, noted, Members.get?_of_mem hseen.nodup hm, Option.getD_some]

/-! ## The names that occur again -/

/-- The first two places of a name. -/
structure FirstTwo (names : List String) (name : String) (first second : Nat) : Prop where
  lt : first < second
  at_first : names[first]? = some name
  at_second : names[second]? = some name
  no_other : ∀ i < second, names[i]? = some name → i = first

/-- The names that occur again, each once with its first two places, in the order in which they
first appear. -/
structure Repeats (names : List String) (found : List (String × Nat × Nat)) : Prop where
  in_order : found.Pairwise fun a b => a.2.1 < b.2.1
  each_once : (found.map Prod.fst).Nodup
  mem_iff : ∀ name, name ∈ found.map Prod.fst ↔ name ≠ "" ∧ 2 ≤ (trimmed names).count name
  places : ∀ name first second, (name, first, second) ∈ found →
    FirstTwo (trimmed names) name first second

theorem firstTwo_of_idxsOf {more : List Nat} (h : names.idxsOf name = first :: second :: more) :
    FirstTwo names name first second := by
  have hmem {i : Nat} : i ∈ first :: second :: more ↔ names[i]? = some name := by
    rw [← h, List.mem_idxsOf_iff_exists_getElem_pos, List.getElem?_eq_some_iff]
    simp only [beq_iff_eq]
  have hsorted : (first :: second :: more).Pairwise (· < ·) := h ▸ List.pairwise_idxsOf
  obtain ⟨hfirst, hrest⟩ := List.pairwise_cons.mp hsorted
  refine ⟨hfirst second List.mem_cons_self, hmem.mp List.mem_cons_self,
    hmem.mp (List.mem_cons_of_mem _ List.mem_cons_self), fun i hi hname => ?_⟩
  obtain rfl | hm := List.mem_cons.mp (hmem.mpr hname)
  · rfl
  · obtain rfl | hm := List.mem_cons.mp hm
    · exact absurd hi (lt_irrefl _)
    · exact absurd ((List.pairwise_cons.mp hrest).1 i hm) (Nat.lt_asymm hi)

theorem idxOf_of_idxsOf {more : List Nat} (h : names.idxsOf name = first :: more) :
    names.idxOf name = first := by
  rw [← List.getElem_zero_idxsOf_eq_idxOf (h := by simp [h])]
  simp [h]

theorem mem_repeatedNames : (name, first, second) ∈ repeatedNames names ↔
    name ≠ "" ∧ ∃ more, (trimmed names).idxsOf name = first :: second :: more := by
  rw [repeatedNames, List.mem_filterMap]
  constructor
  · rintro ⟨⟨key, indices⟩, hm, hsome⟩
    obtain ⟨hne, -, rfl⟩ := mem_positions.mp hm
    dsimp only at hsome
    split at hsome
    · rename_i a b more hindices
      cases hsome
      exact ⟨hne, more, hindices⟩
    · cases hsome
  · rintro ⟨hne, more, hindices⟩
    have hm : name ∈ trimmed names :=
      List.mem_of_getElem? (firstTwo_of_idxsOf hindices).at_first
    exact ⟨_, mem_positions.mpr ⟨hne, hm, rfl⟩, by rw [hindices]⟩

theorem repeatedNames_sublist (names : List String) :
    ((repeatedNames names).map Prod.fst).Sublist (Members.keys (positionsByName names)) := by
  refine map_filterMap_sublist (fun group found h => ?_) _
  obtain ⟨name, indices⟩ := group
  dsimp only at h
  split at h
  · cases h
    rfl
  · cases h

theorem repeats_repeatedNames (names : List String) : Repeats names (repeatedNames names) where
  in_order := by
    have hkeys := (firstSeen_positions names).in_order.sublist (repeatedNames_sublist names)
    refine (List.pairwise_map.mp hkeys).imp_of_mem ?_
    rintro ⟨name, first, second⟩ ⟨other, third, fourth⟩ hm ho hlt
    obtain ⟨-, more, hfirst⟩ := mem_repeatedNames.mp hm
    obtain ⟨-, rest, hthird⟩ := mem_repeatedNames.mp ho
    rwa [idxOf_of_idxsOf hfirst, idxOf_of_idxsOf hthird] at hlt
  each_once := (firstSeen_positions names).nodup.sublist (repeatedNames_sublist names)
  mem_iff name := by
    rw [List.mem_map, ← List.length_idxsOf (s := 0)]
    constructor
    · rintro ⟨⟨name, first, second⟩, hm, rfl⟩
      obtain ⟨hne, more, hindices⟩ := mem_repeatedNames.mp hm
      exact ⟨hne, by simp [hindices]⟩
    · rintro ⟨hne, hlength⟩
      match hindices : (trimmed names).idxsOf name, hlength with
      | first :: second :: more, _ =>
        exact ⟨(name, first, second), mem_repeatedNames.mpr ⟨hne, more, hindices⟩, rfl⟩
  places name first second hm :=
    let ⟨_, _, hindices⟩ := mem_repeatedNames.mp hm
    firstTwo_of_idxsOf hindices

/-- No name occurs again exactly if the names that are not blank are different from each other. -/
theorem Repeats.eq_nil_iff (h : Repeats names found) :
    found = [] ↔ ((trimmed names).filter (· ≠ "")).Nodup := by
  rw [List.nodup_iff_count_le_one, ← List.map_eq_nil_iff (f := Prod.fst),
    List.eq_nil_iff_forall_not_mem]
  refine forall_congr' fun name => ?_
  rw [h.mem_iff, not_and, not_le, Nat.lt_succ_iff]
  by_cases hne : name = ""
  · simp [hne, List.count_eq_zero.mpr]
  · simp [hne, List.count_filter]

theorem nodup_of_no_repeats (h : repeatedNames names = [])
    (hnames : ∀ name ∈ names, Text.trim name = name ∧ name ≠ "") : names.Nodup := by
  have hnodup := (repeats_repeatedNames names).eq_nil_iff.mp h
  have htrimmed : trimmed names = names :=
    (List.map_congr_left fun name hn => (hnames name hn).1).trans (List.map_id names)
  rwa [htrimmed, List.filter_eq_self.mpr fun name hn => by simpa using (hnames name hn).2] at hnodup

/-! ## What is reported -/

/-- Each name that occurs again has one issue, made of the name and its first two places, and there
are no others. -/
structure ReportedOnce (names : List String) (issueAt : String → Nat → Nat → Issue)
    (reported : List Issue) : Prop where
  each : ∃ found, Repeats names found ∧
    reported = found.map fun (name, first, second) => issueAt name first second
  none_iff : reported = [] ↔ ((trimmed names).filter (· ≠ "")).Nodup

theorem reportedOnce_repeatedNames (names : List String)
    (issueAt : String → Nat → Nat → Issue) :
    ReportedOnce names issueAt
      ((repeatedNames names).map fun (name, first, second) => issueAt name first second) :=
  ⟨⟨_, repeats_repeatedNames names, rfl⟩,
    List.map_eq_nil_iff.trans (repeats_repeatedNames names).eq_nil_iff⟩

/-- Of all checks of a cluster, only one compares the host names of its nodes. -/
theorem ofKind_duplicateHostname (cluster : Cluster) :
    ofKind .duplicateHostname cluster.issues =
      duplicateHostnames (Place.root.field "nodes") cluster.nodes := by
  have hsettings {settings : Settings} {place : Place} :
      ofKind .duplicateHostname (checkSettings settings place) = [] :=
    checkSettings_kinds.ofKind_eq_nil (by decide)
  have hempty : OfKinds [.required] (if cluster.nodes.isEmpty then
      [⟨.required, Place.root.field "nodes", "at least one node is required"⟩] else []) :=
    .ite (.single List.mem_cons_self) .nil
  have hnodes : OfKinds (.invalidHostname :: settingsKinds)
      (onItems (Place.root.field "nodes") cluster.nodes (checkNode cluster)) :=
    .onItems fun _ _ => checkNode_kinds
  have hown : OfKinds [.duplicateHostname]
      (duplicateHostnames (Place.root.field "nodes") cluster.nodes) :=
    List.forall_mem_map.mpr fun _ _ => List.mem_cons_self
  simp only [Cluster.issues, checkNodes, ofKind_append, List.nil_append, hsettings,
    checkGeneral_kinds.ofKind_eq_nil (show Kind.duplicateHostname ∉ _ by decide),
    checkVersions_kinds.ofKind_eq_nil (show Kind.duplicateHostname ∉ _ by decide),
    hempty.ofKind_eq_nil (show Kind.duplicateHostname ∉ _ by decide),
    hnodes.ofKind_eq_nil (show Kind.duplicateHostname ∉ _ by decide), hown.ofKind_eq_self]

/-- Repeated names are reported behind the names that are missing. -/
theorem ofKind_duplicates {kind : Kind} {issues : List Issue} {what : String} {places : Nat → Place}
    (h : OfKinds [.required] issues) (hk : kind ∉ [Kind.required]) :
    ofKind kind (issues ++ duplicates kind what places names) =
      duplicates kind what places names := by
  rw [ofKind_append, h.ofKind_eq_nil hk, duplicates_kinds.ofKind_eq_self, List.nil_append]

theorem ofKind_duplicateKernelModule (settings : Settings) (place : Place) :
    ofKind .duplicateKernelModule (checkSettings settings place) =
      duplicates .duplicateKernelModule "kernel module"
        (fun index => ((place.field "kernelModules").index index).field "name")
        (settings.modules.map KernelModule.name) := by
  rw [ofKind_checkSettings (by decide), checkInterfaces_kinds.ofKind_eq_nil (by decide),
    checkVolumes_kinds.ofKind_eq_nil (by decide), checkExtensions_kinds.ofKind_eq_nil (by decide),
    List.append_nil, List.append_nil, List.nil_append]
  exact ofKind_duplicates (.onItems fun _ _ => requiredText_kinds) (by decide)

theorem ofKind_duplicateVolume (settings : Settings) (place : Place) :
    ofKind .duplicateVolume (checkSettings settings place) =
      duplicates .duplicateVolume "volume"
        (fun index => ((place.field "volumes").index index).field "name")
        (settings.volumes.map Volume.name) := by
  rw [ofKind_checkSettings (by decide), checkInterfaces_kinds.ofKind_eq_nil (by decide),
    checkModules_kinds.ofKind_eq_nil (by decide), checkExtensions_kinds.ofKind_eq_nil (by decide),
    List.append_nil, List.nil_append, List.nil_append]
  exact ofKind_duplicates (.onItems fun _ _ => requiredText_kinds) (by decide)

/-- The system extensions that settings ask for. -/
def extensionsOf (settings : Settings) : List String :=
  (settings.schematic.map Schematic.extensions).getD []

theorem ofKind_duplicateExtension (settings : Settings) (place : Place) :
    ofKind .duplicateExtension (checkSettings settings place) =
      duplicates .duplicateExtension "system extension"
        ((((place.field "schematic").field "customization").field "systemExtensions").field
          "officialExtensions").index (extensionsOf settings) := by
  rw [ofKind_checkSettings (by decide), checkInterfaces_kinds.ofKind_eq_nil (by decide),
    checkModules_kinds.ofKind_eq_nil (by decide), checkVolumes_kinds.ofKind_eq_nil (by decide),
    List.nil_append, List.nil_append, List.nil_append, checkExtensions_kinds.ofKind_eq_self,
    checkExtensions, extensionsOf]
  cases settings.schematic with
  | none => rfl
  | some schematic => rfl

/-- What the issue of a repeated name of settings says. -/
def repeatedMessage (what name : String) (first : Nat) : String :=
  what ++ " " ++ Text.quoted name ++ " is declared more than once (first at index " ++
    toString first ++ ")"

/-- Each host name that occurs again has one issue in a cluster, and each name of a kernel module,
volume or system extension one in its settings: at the second place where it occurs, naming the
first, in the order in which the names first appear. -/
theorem repeated_names_reported :
    (∀ cluster : Cluster, ReportedOnce (cluster.nodes.map Node.hostname)
      (fun hostname first second =>
        ⟨.duplicateHostname, ((Place.root.field "nodes").index second).field "hostname",
          "hostname " ++ Text.quoted hostname ++ " is already used by nodes[" ++
            toString first ++ "]"⟩)
      (ofKind .duplicateHostname cluster.validate.errors)) ∧
    ∀ (settings : Settings) (place : Place),
      let errors := (Report.ofIssues (checkSettings settings place)).errors
      ReportedOnce (settings.modules.map KernelModule.name)
        (fun name first second =>
          ⟨.duplicateKernelModule, ((place.field "kernelModules").index second).field "name",
            repeatedMessage "kernel module" name first⟩)
        (ofKind .duplicateKernelModule errors) ∧
      ReportedOnce (settings.volumes.map Volume.name)
        (fun name first second =>
          ⟨.duplicateVolume, ((place.field "volumes").index second).field "name",
            repeatedMessage "volume" name first⟩)
        (ofKind .duplicateVolume errors) ∧
      ReportedOnce (extensionsOf settings)
        (fun name first second =>
          ⟨.duplicateExtension, ((((place.field "schematic").field "customization").field
            "systemExtensions").field "officialExtensions").index second,
            repeatedMessage "system extension" name first⟩)
        (ofKind .duplicateExtension errors) := by
  refine ⟨fun cluster => ?_, fun settings place => ⟨?_, ?_, ?_⟩⟩
  · rw [Cluster.validate, ofKind_errors rfl, ofKind_duplicateHostname]
    exact reportedOnce_repeatedNames _ _
  · rw [ofKind_errors rfl, ofKind_duplicateKernelModule]
    exact reportedOnce_repeatedNames _ _
  · rw [ofKind_errors rfl, ofKind_duplicateVolume]
    exact reportedOnce_repeatedNames _ _
  · rw [ofKind_errors rfl, ofKind_duplicateExtension]
    exact reportedOnce_repeatedNames _ _

end Validation

end ClusterConfig
