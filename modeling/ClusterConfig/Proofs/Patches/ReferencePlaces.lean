import Mathlib
import ClusterConfig.Proofs.Patches.RootedReferences
import ClusterConfig.Yaml.Value

/-!
# Where references stand

A place in a value is a list of steps, each to an item of a list, to the value of an entry or behind a
tag. The outline of a value is what is left of it without its texts. Keys belong to it as they are.

A text is taken for a reference by its place: it is the value of an entry under a reference key, or
an item of a list that is such a value. Taking references from a directory changes the relative ones
at these places and nothing else, and what it leaves has no relative references any more.
-/

set_option autoImplicit false

namespace ClusterConfig

namespace Yaml.Value

/-! ## Places in values -/

/-- A step from a value to one that it holds. No step leads into a key. -/
inductive Step where
  | item (index : Nat)
  | entry (index : Nat)
  | tagged

/-- What a step leads to. -/
def child? : Value → Step → Option Value
  | .seq items, .item index => items[index]?
  | .map entries, .entry index => entries[index]?.map Prod.snd
  | .tagged _ value, .tagged => some value
  | _, _ => none

/-- What stands at the end of some steps. -/
def at? : Value → List Step → Option Value
  | value, [] => some value
  | value, step :: rest => (value.child? step).bind fun child => at? child rest

theorem at?_concat (value : Value) (place : List Step) (step : Step) :
    value.at? (place ++ [step]) = (value.at? place).bind fun parent => parent.child? step := by
  induction place generalizing value with
  | nil => exact Option.bind_fun_some _
  | cons first rest ih =>
    show ((value.child? first).bind fun child => child.at? (rest ++ [step])) =
      ((value.child? first).bind fun child => child.at? rest).bind _
    rw [funext ih, Option.bind_assoc]

mutual

/-- A value without its texts: its shape with all tags, keys and other scalars, in order. -/
def outline : Value → Value
  | .str _ => .str ""
  | .seq items => .seq (outlineItems items)
  | .map entries => .map (outlineEntries entries)
  | .tagged tag value => .tagged tag (outline value)
  | value => value

def outlineItems : List Value → List Value
  | [] => []
  | item :: rest => outline item :: outlineItems rest

def outlineEntries : List (Value × Value) → List (Value × Value)
  | [] => []
  | (key, value) :: rest => (key, outline value) :: outlineEntries rest

end

theorem outlineItems_eq (items : List Value) : outlineItems items = items.map outline := by
  induction items with
  | nil => rfl
  | cons item rest ih => exact congrArg (outline item :: ·) ih

theorem outlineEntries_eq (entries : List (Value × Value)) :
    outlineEntries entries = entries.map fun entry => (entry.1, outline entry.2) := by
  induction entries with
  | nil => rfl
  | cons entry rest ih => exact congrArg ((entry.1, outline entry.2) :: ·) ih

/-- What holds of all scalars and is kept by lists, mappings and tags holds of all values. -/
@[elab_as_elim]
theorem byParts {p : Value → Prop} (null : p .null) (bool : ∀ b, p (.bool b))
    (int : ∀ i, p (.int i)) (float : ∀ x, p (.float x)) (str : ∀ text, p (.str text))
    (seq : ∀ items, (∀ item ∈ items, p item) → p (.seq items))
    (map : ∀ entries, (∀ entry ∈ entries, p entry.2) → p (.map entries))
    (tagged : ∀ tag value, p value → p (.tagged tag value)) (value : Value) : p value := by
  match value with
  | .null => exact null
  | .bool b => exact bool b
  | .int i => exact int i
  | .float x => exact float x
  | .str text => exact str text
  | .seq items =>
    exact seq items fun item hm => byParts null bool int float str seq map tagged item
  | .map entries =>
    exact map entries fun entry hm => byParts null bool int float str seq map tagged entry.2
  | .tagged tag value =>
    exact tagged tag value (byParts null bool int float str seq map tagged value)
termination_by sizeOf value
decreasing_by
  · have hitem := List.sizeOf_lt_of_mem hm
    rw [Value.seq.sizeOf_spec]
    omega
  · have hentry := List.sizeOf_lt_of_mem hm
    obtain ⟨key, value⟩ := entry
    rw [Prod.mk.sizeOf_spec] at hentry
    rw [Value.map.sizeOf_spec]
    change sizeOf value < _
    omega
  · rw [Value.tagged.sizeOf_spec]
    omega

end Yaml.Value

namespace Patch

open Yaml (Value)
open Yaml.Value (at?_concat byParts outlineEntries_eq outlineItems_eq)
open ClusterConfig.Path (isAbsolute)

variable {directory other : String} {root value parent : Value} {above place : List Value.Step}
  {step : Value.Step}

/-! ## Places of references -/

/-- The value of an entry whose key is a reference key stands at the place. -/
def IsNamed (root : Value) (place : List Value.Step) : Prop :=
  ∃ above index entries key value, place = above ++ [.entry index] ∧
    root.at? above = some (.map entries) ∧ entries[index]? = some (key, value) ∧
    isReferenceKey key = true

/-- An item of a list that is such a value stands at the place. -/
def IsListed (root : Value) (place : List Value.Step) : Prop :=
  ∃ above index items, place = above ++ [.item index] ∧ IsNamed root above ∧
    root.at? above = some (.seq items)

/-- A text at the place is a reference. -/
def IsReferencePlace (root : Value) (place : List Value.Step) : Prop :=
  IsNamed root place ∨ IsListed root place

theorem isNamed_concat : IsNamed root (above ++ [step]) ↔
    ∃ index entries key value, step = .entry index ∧ root.at? above = some (.map entries) ∧
      entries[index]? = some (key, value) ∧ isReferenceKey key = true := by
  constructor
  · rintro ⟨found, index, entries, key, value, hplace, hentries⟩
    obtain ⟨rfl, hstep⟩ := List.append_inj' hplace rfl
    exact ⟨index, entries, key, value, List.singleton_inj.mp hstep, hentries⟩
  · rintro ⟨index, entries, key, value, rfl, hentries⟩
    exact ⟨above, index, entries, key, value, rfl, hentries⟩

theorem isListed_concat : IsListed root (above ++ [step]) ↔
    ∃ index items, step = .item index ∧ IsNamed root above ∧
      root.at? above = some (.seq items) := by
  constructor
  · rintro ⟨found, index, items, hplace, hitems⟩
    obtain ⟨rfl, hstep⟩ := List.append_inj' hplace rfl
    exact ⟨index, items, List.singleton_inj.mp hstep, hitems⟩
  · rintro ⟨index, items, rfl, hitems⟩
    exact ⟨above, index, items, rfl, hitems⟩

theorem isReferencePlace_item {index : Nat} : IsReferencePlace root (above ++ [.item index]) ↔
    IsNamed root above ∧ ∃ items, root.at? above = some (.seq items) := by
  simp [IsReferencePlace, isNamed_concat, isListed_concat]

theorem isReferencePlace_entry {index : Nat} : IsReferencePlace root (above ++ [.entry index]) ↔
    IsNamed root (above ++ [.entry index]) := by
  simp [IsReferencePlace, isListed_concat]

theorem not_isReferencePlace_tagged : ¬ IsReferencePlace root (above ++ [.tagged]) := by
  simp [IsReferencePlace, isNamed_concat, isListed_concat]

theorem not_isNamed_of_isListed (h : IsListed root place) : ¬ IsNamed root place := by
  obtain ⟨above, index, items, rfl, -⟩ := h
  simp [isNamed_concat]

/-! ## The two ways through a document as one -/

/-- How a value stands in a document: named by a reference key, in a list that is so named, or in
neither way. -/
inductive Standing where
  | named
  | listed
  | elsewhere

namespace Standing

def ofKey (key : Value) : Standing := if isReferenceKey key then .named else .elsewhere

/-- How the items of a list stand. -/
def ofItem : Standing → Standing
  | .named => .listed
  | _ => .elsewhere

/-- How the value behind a step stands. -/
def after (standing : Standing) : Value → Value.Step → Standing
  | .seq _, .item _ => standing.ofItem
  | .map entries, .entry index => (entries[index]?.map fun entry => ofKey entry.1).getD .elsewhere
  | _, _ => .elsewhere

/-- A place is one of those where values stand so. -/
def Fits (root : Value) (place : List Value.Step) : Standing → Prop
  | .named => IsNamed root place
  | .listed => IsListed root place
  | .elsewhere => ¬ IsReferencePlace root place

theorem Fits.eq_named {standing : Standing} (h : standing.Fits root place)
    (hn : IsNamed root place) : standing = .named := by
  cases standing with
  | named => rfl
  | listed => exact absurd hn (not_isNamed_of_isListed h)
  | elsewhere => exact absurd (.inl hn) h

end Standing

/-- A value with its references taken from a directory, by the way it stands itself. -/
def rootAs (directory : String) (standing : Standing) : Value → Value
  | .str text =>
    .str (match standing with
      | .elsewhere => text
      | _ => rootReference directory text)
  | .seq items =>
    .seq (match standing with
      | .named => rootReferenceItems directory items
      | _ => rootItems directory items)
  | value => rootReferences directory value

theorem rootReferences_eq (directory : String) (value : Value) :
    rootReferences directory value = rootAs directory .elsewhere value := by
  cases value <;> rfl

theorem rootItems_eq (directory : String) (items : List Value) :
    rootItems directory items = items.map (rootAs directory .elsewhere) := by
  induction items with
  | nil => rfl
  | cons item rest ih => rw [rootItems, ih, rootReferences_eq, List.map_cons]

theorem rootReferenceItems_eq (directory : String) (items : List Value) :
    rootReferenceItems directory items = items.map (rootAs directory .listed) := by
  induction items with
  | nil => rfl
  | cons item rest ih => cases item <;> simp [rootReferenceItems, rootAs, rootReferences, ih]

theorem rootEntries_eq (directory : String) (entries : List (Value × Value)) :
    rootEntries directory entries =
      entries.map fun entry => (entry.1, rootAs directory (.ofKey entry.1) entry.2) := by
  induction entries with
  | nil => rfl
  | cons entry rest ih =>
    obtain ⟨key, value⟩ := entry
    cases hkey : isReferenceKey key <;> cases value <;>
      simp [rootEntries, rootAs, rootReferences, Standing.ofKey, hkey, ih]

theorem rootAs_seq (directory : String) (standing : Standing) (items : List Value) :
    rootAs directory standing (.seq items) =
      .seq (items.map (rootAs directory standing.ofItem)) := by
  cases standing <;> simp [rootAs, rootItems_eq, rootReferenceItems_eq, Standing.ofItem]

theorem rootAs_map (directory : String) (standing : Standing) (entries : List (Value × Value)) :
    rootAs directory standing (.map entries) =
      .map (entries.map fun entry => (entry.1, rootAs directory (.ofKey entry.1) entry.2)) := by
  rw [rootAs, rootReferences, rootEntries_eq]
  all_goals simp

theorem rootAs_tagged (directory : String) (standing : Standing) (tag : String) (value : Value) :
    rootAs directory standing (.tagged tag value) =
      .tagged tag (rootAs directory .elsewhere value) := by
  rw [rootAs, rootReferences, rootReferences_eq]
  all_goals simp

/-! ## What is changed -/

/-- What a step leads to is changed as it stands. -/
theorem child?_rootAs (directory : String) (standing : Standing) (value : Value)
    (step : Value.Step) :
    (rootAs directory standing value).child? step =
      (value.child? step).map (rootAs directory (standing.after value step)) := by
  cases value with
  | seq items => cases step <;> simp [rootAs_seq, Value.child?, Standing.after]
  | map entries =>
    rw [rootAs_map]
    cases step with
    | entry index => cases h : entries[index]? <;> simp [Value.child?, Standing.after, h]
    | _ => rfl
  | tagged tag value => cases step <;> simp [rootAs_tagged, Value.child?, Standing.after]
  | _ => cases step <;> rfl

/-- A step leads from a value to one that stands at a place of its kind. -/
theorem Standing.Fits.after {standing : Standing} (h : standing.Fits root above)
    (hparent : root.at? above = some parent) (hchild : parent.child? step = some value) :
    (standing.after parent step).Fits root (above ++ [step]) := by
  cases parent with
  | seq items =>
    cases step with
    | item index =>
      have hplain (hne : standing ≠ .named) : ¬ IsReferencePlace root (above ++ [.item index]) :=
        fun hplace => hne (h.eq_named (isReferencePlace_item.mp hplace).1)
      cases standing with
      | named => exact isListed_concat.mpr ⟨index, items, rfl, h, hparent⟩
      | listed => exact hplain (by simp)
      | elsewhere => exact hplain (by simp)
    | _ => cases hchild
  | map entries =>
    cases step with
    | entry index =>
      obtain ⟨⟨key, found⟩, hentry, -⟩ := Option.map_eq_some_iff.mp hchild
      have hafter : standing.after (.map entries) (.entry index) = .ofKey key := by
        simp [Standing.after, hentry]
      rw [hafter, Standing.ofKey]
      split
      · rename_i hkey
        exact isNamed_concat.mpr ⟨index, entries, key, found, rfl, hparent, hentry, hkey⟩
      · rename_i hkey
        intro hplace
        obtain ⟨_, _, _, _, hstep, hentries, hfound, hreference⟩ :=
          isNamed_concat.mp (isReferencePlace_entry.mp hplace)
        cases hstep
        cases hparent.symm.trans hentries
        cases hentry.symm.trans hfound
        exact hkey hreference
    | _ => cases hchild
  | tagged tag inner =>
    cases step with
    | tagged => exact not_isReferencePlace_tagged
    | _ => cases hchild
  | _ => cases step <;> cases hchild

/-- At every place stands what was there, changed as it stands. -/
theorem at?_rootReferences (directory : String) (h : root.at? place = some value) :
    ∃ standing : Standing, standing.Fits root place ∧
      (rootReferences directory root).at? place = some (rootAs directory standing value) := by
  induction place using List.reverseRecOn generalizing value with
  | nil =>
    cases h
    refine ⟨.elsewhere, ?_, congrArg some (rootReferences_eq directory root)⟩
    rintro (⟨above, index, entries, key, found, hplace, -⟩ | ⟨above, index, items, hplace, -⟩) <;>
      simp at hplace
  | append_singleton above step ih =>
    rw [at?_concat] at h
    obtain ⟨parent, hparent, hchild⟩ := Option.bind_eq_some_iff.mp h
    obtain ⟨standing, hfits, hrooted⟩ := ih hparent
    refine ⟨standing.after parent step, hfits.after hparent hchild, ?_⟩
    rw [at?_concat, hrooted, Option.bind_some, child?_rootAs, hchild, Option.map_some]

theorem outline_rootAs (directory : String) (standing : Standing) (value : Value) :
    (rootAs directory standing value).outline = value.outline := by
  induction value using byParts generalizing standing with
  | null | bool | int | float | str => rfl
  | seq items ih =>
    rw [rootAs_seq, Value.outline, Value.outline, outlineItems_eq, outlineItems_eq, List.map_map]
    exact congrArg Value.seq (List.map_congr_left fun item hm => ih item hm _)
  | map entries ih =>
    rw [rootAs_map, Value.outline, Value.outline, outlineEntries_eq, outlineEntries_eq,
      List.map_map]
    exact congrArg Value.map (List.map_congr_left fun entry hm =>
      congrArg (Prod.mk entry.1) (ih entry hm _))
  | tagged tag value ih => rw [rootAs_tagged, Value.outline, Value.outline, ih]

theorem rootAs_again (hd : isAbsolute directory = true) (other : String) (standing : Standing)
    (value : Value) :
    rootAs other standing (rootAs directory standing value) = rootAs directory standing value := by
  have htext (text : String) :
      rootReference other (rootReference directory text) = rootReference directory text :=
    rootReference_eq_self (not_isRelative_rootReference hd text) other
  induction value using byParts generalizing standing with
  | null | bool | int | float => rfl
  | str text => cases standing <;> simp [rootAs, htext]
  | seq items ih =>
    rw [rootAs_seq, rootAs_seq, List.map_map]
    exact congrArg Value.seq (List.map_congr_left fun item hm => ih item hm _)
  | map entries ih =>
    rw [rootAs_map, rootAs_map, List.map_map]
    exact congrArg Value.map (List.map_congr_left fun entry hm =>
      congrArg (Prod.mk entry.1) (ih entry hm _))
  | tagged tag value ih => rw [rootAs_tagged, rootAs_tagged, ih]

/-- A relative reference is changed, for its path is absolute behind that. -/
theorem rootReference_ne_iff (hd : isAbsolute directory = true) (text : String) :
    rootReference directory text ≠ text ↔ IsRelative text := by
  constructor
  · intro hne
    by_contra hrelative
    exact hne (rootReference_eq_self hrelative directory)
  · intro hrelative hsame
    exact not_isRelative_rootReference hd text (hsame.symm ▸ hrelative)

/-- Taking references from an absolute directory keeps the shape of a document, with all keys and
tags in their order. Of its texts the relative references change, each to a reference of its kind with
an absolute path, and no others. Whatever directory is taken then, nothing more changes. -/
theorem references_rooted_in_place (directory : String) (hd : isAbsolute directory = true)
    (root : Value) :
    (rootReferences directory root).outline = root.outline ∧
    (∀ place text, root.at? place = some (.str text) →
      ∃ rooted, (rootReferences directory root).at? place = some (.str rooted) ∧
        (rooted ≠ text ↔ IsReferencePlace root place ∧ IsRelative text) ∧
        (rooted ≠ text → ∃ path, isAbsolute path = true ∧
          Reference.parse rooted = (Reference.parse text).withPath path)) ∧
    ∀ other, rootReferences other (rootReferences directory root) =
      rootReferences directory root := by
  refine ⟨?_, fun place text h => ?_, fun other => ?_⟩
  · rw [rootReferences_eq, outline_rootAs]
  · have hkind : IsRelative text → ∃ path, isAbsolute path = true ∧
        Reference.parse (rootReference directory text) =
          (Reference.parse text).withPath path := by
      rintro ⟨path, hpath, -⟩
      exact ⟨_, isAbsolute_rootPath hd path, parse_rootReference hd hpath⟩
    have hreference (hplace : IsReferencePlace root place) :
        (rootReference directory text ≠ text ↔ IsReferencePlace root place ∧ IsRelative text) ∧
          (rootReference directory text ≠ text → ∃ path, isAbsolute path = true ∧
            Reference.parse (rootReference directory text) =
              (Reference.parse text).withPath path) := by
      rw [rootReference_ne_iff hd]
      exact ⟨⟨fun hrelative => ⟨hplace, hrelative⟩, And.right⟩, hkind⟩
    obtain ⟨standing, hfits, hrooted⟩ := at?_rootReferences directory h
    cases standing with
    | named => exact ⟨_, hrooted, hreference (.inl hfits)⟩
    | listed => exact ⟨_, hrooted, hreference (.inr hfits)⟩
    | elsewhere =>
      refine ⟨_, hrooted, ⟨fun hne => absurd rfl hne, fun hplace => absurd hplace.1 hfits⟩,
        fun hne => absurd rfl hne⟩
  · rw [rootReferences_eq, rootReferences_eq, rootAs_again hd]

/-- References in a list and in a patch of the list, and texts that only look like references: one in
a list of its own, and two that are in a key and behind it. -/
def nestedReferences : Value :=
  .map [(.tagged "!role" (.str "patches"),
      .seq [.str "@./cp.yaml", .seq [.str "@cp.yaml"], .map [(.str "content", .str "@!motd")]]),
    (.map [(.str "content", .str "@motd")], .str "@motd")]

example : rootReferences "/cluster" nestedReferences =
    .map [(.tagged "!role" (.str "patches"),
        .seq [.str "@/cluster/cp.yaml", .seq [.str "@cp.yaml"],
          .map [(.str "content", .str "@!/cluster/motd")]]),
      (.map [(.str "content", .str "@motd")], .str "@motd")] := by
  rfl

theorem nestedReferences_rooted :
    let place : List Value.Step := [.entry 0, .item 2, .entry 0]
    isAbsolute "/cluster" = true ∧ nestedReferences.at? place = some (.str "@!motd") ∧
    IsReferencePlace nestedReferences place ∧ IsRelative "@!motd" ∧
    (∃ rooted, (rootReferences "/cluster" nestedReferences).at? place = some (.str rooted) ∧
      rooted ≠ "@!motd" ∧
      ∃ path, isAbsolute path = true ∧ Reference.parse rooted = .literal path) ∧
    (rootReferences "/cluster" nestedReferences).outline = nestedReferences.outline ∧
    rootReferences "/other" (rootReferences "/cluster" nestedReferences) =
      rootReferences "/cluster" nestedReferences := by
  intro place
  have hd : isAbsolute "/cluster" = true := by decide
  have hplace : IsReferencePlace nestedReferences place :=
    .inl ⟨[.entry 0, .item 2], 0, _, .str "content", _, rfl, rfl, rfl, by decide⟩
  have hrelative : IsRelative "@!motd" := ⟨"motd", by decide, by decide⟩
  obtain ⟨houtline, htexts, hagain⟩ := references_rooted_in_place "/cluster" hd nestedReferences
  obtain ⟨rooted, hrooted, hchanged, hkind⟩ := htexts place "@!motd" rfl
  have hne := hchanged.mpr ⟨hplace, hrelative⟩
  exact ⟨hd, rfl, hplace, hrelative, ⟨rooted, hrooted, hne, hkind hne⟩, houtline, hagain "/other"⟩

end Patch

end ClusterConfig
