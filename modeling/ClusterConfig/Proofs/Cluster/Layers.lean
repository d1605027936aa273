import Mathlib
import ClusterConfig.Cluster.Merge
import ClusterConfig.Proofs.Documents.Members

/-!
# Layers of settings

Settings may lie over one another in any number. As long as a layer extends the lists of those under
it, layers that lie together may be merged before they come under the others, and empty settings are
a layer that changes nothing. Maps keep their order in this: names of the lowest layer come first.
-/

set_option autoImplicit false

namespace ClusterConfig

/-! ## Maps -/

namespace Members

variable {α : Type} {base own members : Members α} {key other : String} {value new : α}

/-- The order of two writings does not matter where the one name is there already. -/
theorem put_comm (h : other ≠ key) (hm : key ∈ members.keys) (value new : α) :
    (members.put other new).put key value = (members.put key value).put other new := by
  induction members with
  | nil => cases hm
  | cons entry rest ih =>
    by_cases hk : entry.1 = key
    · have ho : entry.1 ≠ other := fun e => h (e.symm.trans hk)
      simp [put, hk, Ne.symm h]
    · have hrest : key ∈ keys rest := (List.mem_cons.mp hm).resolve_left (Ne.symm hk)
      by_cases ho : entry.1 = other
      · simp [put, ho, h]
      · simp [put, hk, ho, ih hrest]

theorem mem_keys_put (members : Members α) (key : String) (value : α) :
    key ∈ (members.put key value).keys := by
  by_contra h
  rw [← get?_eq_none_iff, get?_put_same] at h
  cases h

theorem putAll_cons (base : Members α) (entry : String × α) (rest : Members α) :
    base.putAll (entry :: rest) = (base.put entry.1 entry.2).putAll rest := rfl

/-- A name that is there may be written before others or after them. -/
theorem put_putAll (hm : key ∈ base.keys) (hnew : key ∉ own.keys) (value : α) :
    (base.putAll own).put key value = (base.put key value).putAll own := by
  induction own generalizing base with
  | nil => rfl
  | cons entry rest ih =>
    simp only [keys, List.map_cons, List.mem_cons, not_or] at hnew
    have hput : key ∈ (base.put entry.1 entry.2).keys := by
      by_contra hnone
      rw [← get?_eq_none_iff, get?_put_other _ _ hnew.1, get?_eq_none_iff] at hnone
      exact hnone hm
    rw [putAll_cons, putAll_cons, ih hput hnew.2, put_comm (Ne.symm hnew.1) hm]

/-- Writing into a map and then the map is the same as writing behind it. -/
theorem putAll_put (hd : own.keys.Nodup) (base : Members α) (key : String) (value : α) :
    base.putAll (own.put key value) = (base.putAll own).put key value := by
  induction own generalizing base with
  | nil => rfl
  | cons entry rest ih =>
    obtain ⟨hnew, hrest⟩ := List.nodup_cons.mp hd
    by_cases hk : entry.1 = key
    · subst hk
      rw [put, if_pos rfl, putAll_cons, putAll_cons, put_putAll (mem_keys_put _ _ _) hnew, put_put]
    · rw [put, if_neg hk, putAll_cons, putAll_cons, ih hrest]

/-- Writing maps over one another is associative. -/
theorem putAll_putAll (hd : own.keys.Nodup) (base more : Members α) :
    base.putAll (own.putAll more) = (base.putAll own).putAll more := by
  induction more generalizing own with
  | nil => rfl
  | cons entry rest ih =>
    rw [putAll_cons, putAll_cons, ih (nodup_put hd entry.1 entry.2), putAll_put hd]

theorem putAll_ne_nil (hb : base ≠ []) (more : Members α) : base.putAll more ≠ [] := by
  induction more generalizing base with
  | nil => exact hb
  | cons entry rest ih =>
    rw [putAll_cons]
    refine ih fun hput => ?_
    have hmem := mem_keys_put base entry.1 entry.2
    rw [hput] at hmem
    cases hmem

end Members

/-! ## Rules of one field -/

namespace Settings

variable {α : Type}

theorem orList_orList (own under lowest : List α) :
    orList (orList own under) lowest = orList own (orList under lowest) := by
  cases own <;> rfl

theorem orList_nil (own : List α) : orList own [] = own := by
  cases own <;> rfl

theorem nil_orList (defaults : List α) : orList [] defaults = defaults := rfl

/-- An empty map under another one is no exception: the other one stays as it is. -/
theorem unite_unite {under : Members String} (hd : under.keys.Nodup) (own lowest : Members String) :
    unite (unite own under) lowest = unite own (unite under lowest) := by
  by_cases hlowest : lowest = []
  · simp [unite, hlowest]
  · have hboth : lowest.putAll under ≠ [] := Members.putAll_ne_nil hlowest under
    by_cases hunder : under = []
    · simp [unite, hlowest, hunder, Members.putAll]
    · simp [unite, hlowest, hunder, hboth, Members.putAll_putAll hd]

theorem unite_nil (own : Members String) : unite own [] = own := rfl

theorem nil_unite (defaults : Members String) : unite [] defaults = defaults := by
  by_cases h : defaults = [] <;> simp [unite, h, Members.putAll]

theorem combine_combine (mode : ListMode) (own under lowest : List String) :
    combine mode (combine mode own under) lowest =
      combine mode own (combine .prepend under lowest) := by
  cases mode with
  | prepend => simp [combine]
  | replace => rfl

theorem combine_nil (mode : ListMode) (own : List String) : combine mode own [] = own := by
  cases mode <;> rfl

/-! ## Layers -/

/-- Settings that replace no list of the layers under them. -/
structure Extends (settings : Settings) : Prop where
  patches : settings.overridePatches = false
  extraManifests : settings.overrideExtraManifests = false
  certSans : settings.overrideCertSans = false

/-- Labels, annotations and taints are maps: each has its names once. -/
structure NamesDiffer (settings : Settings) : Prop where
  labels : settings.labels.keys.Nodup
  annotations : settings.annotations.keys.Nodup
  taints : settings.taints.keys.Nodup

variable {own under lowest : Settings} {layers : List Settings}

theorem Extends.mode (h : own.Extends) (list : SharedList) : own.mode list = .prepend := by
  cases list <;> simp [Settings.mode, h.patches, h.extraManifests, h.certSans]

/-- Which lists are replaced is up to the settings themselves. -/
theorem mode_merge (own defaults : Settings) (list : SharedList) :
    (own.merge defaults).mode list = own.mode list := rfl

theorem extends_empty : Extends {} := ⟨rfl, rfl, rfl⟩

theorem Extends.merge (h : own.Extends) (defaults : Settings) : (own.merge defaults).Extends :=
  ⟨h.patches, h.extraManifests, h.certSans⟩

theorem merge_merge (he : under.Extends) (hd : under.NamesDiffer) (own lowest : Settings) :
    (own.merge under).merge lowest = own.merge (under.merge lowest) := by
  rw [merge, mode_merge, mode_merge, mode_merge, merge, merge, merge, he.mode, he.mode, he.mode]
  simp only [Option.orElse_eq_orElse, Option.orElse_eq_or, Option.or_assoc, orList_orList,
    unite_unite hd.labels, unite_unite hd.annotations, unite_unite hd.taints, combine_combine,
    List.append_assoc]

theorem merge_empty (own : Settings) : own.merge {} = own := by
  simp only [merge, Option.orElse_eq_orElse, Option.orElse_eq_or, Option.or_none, orList_nil,
    unite_nil, combine_nil, List.nil_append]

theorem empty_merge (h : lowest.Extends) : merge {} lowest = lowest := by
  obtain ⟨hp, hm, hs⟩ := h
  cases lowest
  simp only at hp hm hs
  simp only [merge, Option.orElse_eq_orElse, Option.orElse_eq_or, Option.none_or, nil_orList,
    nil_unite, extends_empty.mode, combine, List.append_nil, hp, hm, hs]

/-- Layers under some settings, each merged with the one that comes next. -/
theorem foldl_merge (h : ∀ layer ∈ layers, layer.Extends ∧ layer.NamesDiffer) (own : Settings) :
    layers.foldl merge own = own.merge (layers.foldr merge {}) := by
  induction layers generalizing own with
  | nil => exact (merge_empty own).symm
  | cons layer rest ih =>
    obtain ⟨⟨he, hd⟩, hrest⟩ := List.forall_mem_cons.mp h
    rw [List.foldl_cons, ih hrest, merge_merge he hd]
    rfl

theorem foldr_extends (h : ∀ layer ∈ layers, layer.Extends) : (layers.foldr merge {}).Extends := by
  cases layers with
  | nil => exact extends_empty
  | cons layer rest => exact (h layer List.mem_cons_self).merge _

/-- Layers of settings may be merged in any grouping, with their order and that of all entries
kept: two of them before they come under a third, if the upper one of the two extends the lists under
it, and so any number of them. Empty settings change nothing, above or below others. -/
theorem layers_regroup :
    (∀ own under lowest : Settings, under.Extends → under.NamesDiffer →
      (own.merge under).merge lowest = own.merge (under.merge lowest)) ∧
    (∀ own : Settings, own.merge {} = own) ∧
    (∀ lowest : Settings, lowest.Extends → merge {} lowest = lowest) ∧
    ∀ (own : Settings) (layers : List Settings),
      (∀ layer ∈ layers, layer.Extends ∧ layer.NamesDiffer) →
      layers.foldl merge own = own.merge (layers.foldl merge {}) ∧
      layers.foldl merge own = own.merge (layers.foldr merge {}) := by
  refine ⟨fun own under lowest he hd => merge_merge he hd own lowest, merge_empty,
    fun lowest => empty_merge, fun own layers h => ⟨?_, foldl_merge h own⟩⟩
  rw [foldl_merge h own, foldl_merge h {}, empty_merge (foldr_extends fun layer hm => (h layer hm).1)]

/-- A node that replaces its patches, the settings of its rack and those of its site. -/
def nodeLayer : Settings :=
  { labels := [("zone", "b"), ("rack", "r2")], patches := ["node"], certSans := ["node"],
    overridePatches := true }

def rackLayer : Settings :=
  { installDisk := some "/dev/sdb", labels := [("tier", "metal"), ("zone", "a")],
    patches := ["rack"], certSans := ["rack"] }

def siteLayer : Settings :=
  { installDisk := some "/dev/sda", labels := [("rack", "r1"), ("site", "s")],
    patches := ["site"], certSans := ["site"] }

theorem three_layers_regroup :
    (rackLayer.Extends ∧ rackLayer.NamesDiffer) ∧ (siteLayer.Extends ∧ siteLayer.NamesDiffer) ∧
      (nodeLayer.merge rackLayer).merge siteLayer = nodeLayer.merge (rackLayer.merge siteLayer) ∧
      merge {} siteLayer = siteLayer ∧
      [rackLayer, siteLayer].foldl merge nodeLayer =
        nodeLayer.merge ([rackLayer, siteLayer].foldl merge {}) ∧
      (nodeLayer.merge (rackLayer.merge siteLayer)).labels =
        [("rack", "r2"), ("site", "s"), ("tier", "metal"), ("zone", "b")] ∧
      (nodeLayer.merge (rackLayer.merge siteLayer)).certSans = ["site", "rack", "node"] ∧
      (nodeLayer.merge (rackLayer.merge siteLayer)).patches = ["node"] := by
  have hrack : rackLayer.Extends ∧ rackLayer.NamesDiffer :=
    ⟨⟨rfl, rfl, rfl⟩, by decide, by decide, by decide⟩
  have hsite : siteLayer.Extends ∧ siteLayer.NamesDiffer :=
    ⟨⟨rfl, rfl, rfl⟩, by decide, by decide, by decide⟩
  obtain ⟨hgroup, -, hunder, hall⟩ := layers_regroup
  have hlayers : ∀ layer ∈ [rackLayer, siteLayer], layer.Extends ∧ layer.NamesDiffer :=
    List.forall_mem_cons.mpr ⟨hrack, List.forall_mem_singleton.mpr hsite⟩
  exact ⟨hrack, hsite, hgroup _ _ _ hrack.1 hrack.2, hunder _ hsite.1, (hall _ _ hlayers).1,
    by decide, by decide, by decide⟩

end Settings

end ClusterConfig
