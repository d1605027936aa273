import Mathlib
import ClusterConfig.Proofs.Cluster.Layers

/-!
# Where a setting comes from

Every setting of a node follows one of a few rules, and looks at nothing but the same setting of the
node and of its role. The one exception are the lists that a node may replace: each has a toggle of
its own, and only the node's own toggle counts.
-/

set_option autoImplicit false

namespace ClusterConfig

/-! ## Maps that are united -/

namespace Members

variable {α : Type} {base own members others : Members α}

theorem keys_put (members : Members α) (key : String) (value : α) :
    (members.put key value).keys =
      if key ∈ members.keys then members.keys else members.keys ++ [key] := by
  induction members with
  | nil => rfl
  | cons entry rest ih =>
    unfold keys at ih ⊢
    by_cases hk : entry.1 = key
    · simp [put, hk]
    · by_cases hm : key ∈ List.map Prod.fst rest
      · simp only [put, if_neg hk, List.map_cons, ih, List.mem_cons, hm, or_true, if_true]
      · simp only [put, if_neg hk, List.map_cons, ih, List.mem_cons, Ne.symm hk, hm,
          or_false, if_false, List.cons_append]

/-- The names that are there keep their places, and new ones come behind them. -/
theorem keys_putAll (hd : own.keys.Nodup) (base : Members α) :
    (base.putAll own).keys = base.keys ++ own.keys.filter fun key => key ∉ base.keys := by
  induction own generalizing base with
  | nil => exact (List.append_nil _).symm
  | cons entry rest ih =>
    obtain ⟨hnew, hrest⟩ := List.nodup_cons.mp hd
    rw [putAll_cons, ih hrest, keys_put, show keys (entry :: rest) = entry.1 :: keys rest from rfl]
    by_cases hm : entry.1 ∈ base.keys
    · rw [if_pos hm, List.filter_cons_of_neg (by simp [hm])]
    · rw [if_neg hm, List.filter_cons_of_pos (by simp [hm]), List.append_assoc,
        List.singleton_append]
      refine congrArg (fun names => base.keys ++ entry.1 :: names) (List.filter_congr ?_)
      intro key hkey
      have hne : key ≠ entry.1 := fun he => hnew (he ▸ hkey)
      simp [hne]

theorem get?_putAll (hd : own.keys.Nodup) (base : Members α) (key : String) :
    get? (base.putAll own) key = (get? own key).or (get? base key) := by
  induction own generalizing base with
  | nil => rfl
  | cons entry rest ih =>
    obtain ⟨hnew, hrest⟩ := List.nodup_cons.mp hd
    rw [putAll_cons, ih hrest, get?_put, get?]
    by_cases hk : entry.1 = key
    · have hnone : get? rest key = none := get?_eq_none_iff.mpr (hk ▸ hnew)
      rw [hnone, if_pos hk.symm, if_pos hk]
      rfl
    · rw [if_neg (Ne.symm hk), if_neg hk]

/-- Maps with the same names in the same order and the same values are equal. -/
theorem eq_of_keys_of_get? (hd : members.keys.Nodup) (hk : members.keys = others.keys)
    (hv : ∀ key, get? members key = get? others key) : members = others := by
  induction members generalizing others with
  | nil => exact (List.map_eq_nil_iff.mp hk.symm).symm
  | cons entry rest ih =>
    cases others with
    | nil => cases hk
    | cons other more =>
      obtain ⟨hname, hnames⟩ := List.cons.inj hk
      obtain ⟨hnew, hrest⟩ := List.nodup_cons.mp hd
      have hvalue : entry.2 = other.2 := by
        have hfirst := hv entry.1
        rw [get?, get?, if_pos rfl, if_pos hname.symm] at hfirst
        exact Option.some.inj hfirst
      refine congrArg₂ List.cons (Prod.ext hname hvalue) (ih hrest hnames fun key => ?_)
      by_cases he : entry.1 = key
      · have hnew' : key ∉ keys more := by
          rw [← show keys rest = keys more from hnames, ← he]
          exact hnew
        rw [get?_eq_none_iff.mpr (he ▸ hnew : key ∉ keys rest), get?_eq_none_iff.mpr hnew']
      · have hother := hv key
        rwa [get?, get?, if_neg he, if_neg (hname ▸ he)] at hother

end Members

namespace Settings

/-! ## Rules -/

/-- A single setting of the node wins if it is given. -/
structure SingleWins {α : Type} (own defaults merged : Option α) : Prop where
  given : ∀ value, own = some value → merged = some value
  missing : own = none → merged = defaults

/-- A list of the node wins as a whole unless it is empty. -/
structure ListWins {α : Type} (own defaults merged : List α) : Prop where
  given : own ≠ [] → merged = own
  missing : own = [] → merged = defaults

/-- A map has the names of both, those of the role in front, and the value of the node where it has
one. -/
structure United (own defaults merged : Members String) : Prop where
  names : merged.keys = defaults.keys ++ own.keys.filter fun key => key ∉ defaults.keys
  values : ∀ key, merged.get? key = (own.get? key).or (defaults.get? key)

/-- A shared list of the node replaces that of the role or comes behind it. -/
structure SharedBy (mode : ListMode) (own defaults merged : List String) : Prop where
  replaced : mode = .replace → merged = own
  extended : mode = .prepend → merged = defaults ++ own

theorem singleWins_iff {α : Type} {own defaults merged : Option α} :
    SingleWins own defaults merged ↔ merged = (own <|> defaults) := by
  cases own with
  | none => exact ⟨fun h => h.missing rfl, fun h => ⟨fun value hv => (nomatch hv), fun _ => h⟩⟩
  | some value =>
    refine ⟨fun h => h.given value rfl, fun h => ⟨fun other ho => ?_, fun hn => nomatch hn⟩⟩
    rw [← ho]
    exact h

theorem listWins_iff {α : Type} {own defaults merged : List α} :
    ListWins own defaults merged ↔ merged = orList own defaults := by
  cases own with
  | nil => exact ⟨fun h => h.missing rfl, fun h => ⟨fun hne => absurd rfl hne, fun _ => h⟩⟩
  | cons first rest =>
    exact ⟨fun h => h.given (List.cons_ne_nil _ _), fun h => ⟨fun _ => h, fun hn => nomatch hn⟩⟩

theorem united_unite {own : Members String} (ho : own.keys.Nodup) (defaults : Members String) :
    United own defaults (unite own defaults) := by
  by_cases h : defaults = []
  · subst h
    exact ⟨by simp [unite, Members.keys], by simp [unite, Members.get?]⟩
  · have hunite : unite own defaults = defaults.putAll own := by simp [unite, h]
    rw [hunite]
    exact ⟨Members.keys_putAll ho defaults, Members.get?_putAll ho defaults⟩

theorem united_iff {own defaults merged : Members String} (ho : own.keys.Nodup)
    (hd : defaults.keys.Nodup) : United own defaults merged ↔ merged = unite own defaults := by
  have hunite := united_unite ho defaults
  refine ⟨fun h => ?_, fun h => h ▸ hunite⟩
  have hnames : merged.keys.Nodup := by
    rw [h.names]
    refine hd.append (ho.filter _) fun key hk hf => ?_
    simpa [hk] using List.of_mem_filter hf
  refine Members.eq_of_keys_of_get? hnames (h.names.trans hunite.names.symm) fun key => ?_
  rw [h.values, hunite.values]

theorem sharedBy_iff {mode : ListMode} {own defaults merged : List String} :
    SharedBy mode own defaults merged ↔ merged = combine mode own defaults := by
  cases mode with
  | prepend => exact ⟨fun h => h.extended rfl, fun h => ⟨fun hr => (nomatch hr), fun _ => h⟩⟩
  | replace => exact ⟨fun h => h.replaced rfl, fun h => ⟨fun _ => h, fun hp => nomatch hp⟩⟩

/-! ## Fields -/

/-- The settings that a role may have defaults for. -/
inductive Field where
  | installDisk
  | diskSelector
  | disks
  | interfaces
  | nameservers
  | labels
  | annotations
  | taints
  | modules
  | volumes
  | files
  | schematic
  | imageUrl
  | mergePatches
  | operations
  | shared (list : SharedList)

/-- Two layers have the same in a field. -/
def Field.Same (a b : Settings) : Field → Prop
  | .installDisk => a.installDisk = b.installDisk
  | .diskSelector => a.diskSelector = b.diskSelector
  | .disks => a.disks = b.disks
  | .interfaces => a.interfaces = b.interfaces
  | .nameservers => a.nameservers = b.nameservers
  | .labels => a.labels = b.labels
  | .annotations => a.annotations = b.annotations
  | .taints => a.taints = b.taints
  | .modules => a.modules = b.modules
  | .volumes => a.volumes = b.volumes
  | .files => a.files = b.files
  | .schematic => a.schematic = b.schematic
  | .imageUrl => a.imageUrl = b.imageUrl
  | .mergePatches => a.mergePatches = b.mergePatches
  | .operations => a.operations = b.operations
  | .shared list => a.list list = b.list list

/-- What a field of merged settings is, from the same field of the two layers. -/
def Field.Rule (own defaults merged : Settings) : Field → Prop
  | .installDisk => SingleWins own.installDisk defaults.installDisk merged.installDisk
  | .diskSelector => SingleWins own.diskSelector defaults.diskSelector merged.diskSelector
  | .disks => ListWins own.disks defaults.disks merged.disks
  | .interfaces => ListWins own.interfaces defaults.interfaces merged.interfaces
  | .nameservers => ListWins own.nameservers defaults.nameservers merged.nameservers
  | .labels => United own.labels defaults.labels merged.labels
  | .annotations => United own.annotations defaults.annotations merged.annotations
  | .taints => United own.taints defaults.taints merged.taints
  | .modules => ListWins own.modules defaults.modules merged.modules
  | .volumes => ListWins own.volumes defaults.volumes merged.volumes
  | .files => ListWins own.files defaults.files merged.files
  | .schematic => SingleWins own.schematic defaults.schematic merged.schematic
  | .imageUrl => SingleWins own.imageUrl defaults.imageUrl merged.imageUrl
  | .mergePatches => merged.mergePatches = defaults.mergePatches ++ own.mergePatches
  | .operations => merged.operations = defaults.operations ++ own.operations
  | .shared list => SharedBy (own.mode list) (own.list list) (defaults.list list) (merged.list list)

variable {own own' defaults defaults' merged a b : Settings}

/-- The lists that a node may replace are merged by the mode of the node. -/
theorem list_merge (own defaults : Settings) (list : SharedList) :
    (own.merge defaults).list list =
      combine (own.mode list) (own.list list) (defaults.list list) := by
  cases list <;> rfl

/-- A field that follows its rule is that of the merged settings. -/
theorem rule_iff (ho : own.NamesDiffer) (hd : defaults.NamesDiffer) (field : Field) :
    field.Rule own defaults merged ↔ field.Same merged (own.merge defaults) := by
  cases field with
  | installDisk | diskSelector | schematic | imageUrl => exact singleWins_iff
  | disks | interfaces | nameservers | modules | volumes | files => exact listWins_iff
  | labels => exact united_iff ho.labels hd.labels
  | annotations => exact united_iff ho.annotations hd.annotations
  | taints => exact united_iff ho.taints hd.taints
  | mergePatches | operations => exact Iff.rfl
  | shared list =>
    rw [Field.Same, list_merge]
    exact sharedBy_iff

/-- A field of merged settings depends on that field of the two layers, and on the toggle of the
upper one if the field is a list with a toggle. -/
theorem same_merge {field : Field} (ho : field.Same own own') (hd : field.Same defaults defaults')
    (hm : ∀ list, field = .shared list → own.mode list = own'.mode list) :
    field.Same (own.merge defaults) (own'.merge defaults') := by
  cases field with
  | shared list =>
    rw [Field.Same, list_merge, list_merge, hm list rfl,
      show own.list list = own'.list list from ho,
      show defaults.list list = defaults'.list list from hd]
  | _ =>
    simp only [Field.Same] at ho hd
    simp only [Field.Same, merge, ho, hd]

/-- Two layers have the same toggles. -/
structure SameToggles (a b : Settings) : Prop where
  patches : a.overridePatches = b.overridePatches
  extraManifests : a.overrideExtraManifests = b.overrideExtraManifests
  certSans : a.overrideCertSans = b.overrideCertSans

/-- Fields and toggles are all there is to settings. -/
theorem eq_of_same (h : ∀ field : Field, field.Same a b) (ht : SameToggles a b) : a = b := by
  cases a
  cases b
  simp only [mk.injEq]
  exact ⟨h .installDisk, h .diskSelector, h .disks, h .interfaces, h .nameservers, h .labels,
    h .annotations, h .taints, h .modules, h .volumes, h .files, h .schematic, h .imageUrl,
    h (.shared .certSans), h (.shared .extraManifests), h .mergePatches, h .operations,
    h (.shared .patches), ht.patches, ht.extraManifests, ht.certSans⟩

end Settings

open Settings

/-- A node with the settings of its role under its own. It keeps what identifies it and its toggles,
and every field follows its rule; node and rules together determine the outcome. No field depends on
anything but the same field of the two layers and, for a list that a node may replace, on the toggle
of the node for that list; so the toggles of the role have no effect. -/
theorem fields_by_precedence (node : Node) (defaults : Settings)
    (hn : node.settings.NamesDiffer) (hd : defaults.NamesDiffer) :
    let merged := node.withDefaults defaults
    (merged.hostname = node.hostname ∧ merged.address = node.address ∧
      merged.isControlPlane = node.isControlPlane ∧ SameToggles merged.settings node.settings) ∧
    (∀ field : Field, field.Rule node.settings defaults merged.settings) ∧
    (∀ settings : Settings, SameToggles settings node.settings →
      (∀ field : Field, field.Rule node.settings defaults settings) →
      merged = { node with settings }) ∧
    (∀ (field : Field) (other : Node) (otherDefaults : Settings),
      field.Same node.settings other.settings → field.Same defaults otherDefaults →
      (∀ list, field = .shared list → node.settings.mode list = other.settings.mode list) →
      field.Same merged.settings (other.withDefaults otherDefaults).settings) ∧
    ∀ patches manifests certSans, node.withDefaults
      { defaults with
        overridePatches := patches
        overrideExtraManifests := manifests
        overrideCertSans := certSans } = merged := by
  have hsame (field : Field) : field.Same (node.settings.merge defaults)
      (node.settings.merge defaults) := by
    cases field <;> rfl
  refine ⟨⟨rfl, rfl, rfl, rfl, rfl, rfl⟩, fun field => (rule_iff hn hd field).mpr (hsame field),
    fun settings ht hrules => ?_, fun field other otherDefaults => same_merge, fun _ _ _ => rfl⟩
  have hsettings : settings = node.settings.merge defaults :=
    eq_of_same (fun field => (rule_iff hn hd field).mp (hrules field))
      ⟨ht.patches, ht.extraManifests, ht.certSans⟩
  rw [hsettings]
  rfl

/-- A worker with labels of its own that extends its patches and replaces its names by none; its
role has the toggles the other way round. -/
theorem worker_over_role :
    let node : Node :=
      { hostname := "w1"
        address := "10.0.0.2"
        isControlPlane := false
        settings :=
          { nameservers := ["1.1.1.1"]
            labels := [("rack", "r2"), ("zone", "b")]
            patches := ["node"]
            overrideCertSans := true } }
    let defaults : Settings :=
      { installDisk := some "/dev/sda"
        nameservers := ["8.8.8.8", "8.8.4.4"]
        labels := [("zone", "a"), ("tier", "metal")]
        certSans := ["role"]
        patches := ["role"]
        overridePatches := true }
    let merged := (node.withDefaults defaults).settings
    node.settings.NamesDiffer ∧ defaults.NamesDiffer ∧
      (∀ field : Field, field.Rule node.settings defaults merged) ∧
      merged.installDisk = some "/dev/sda" ∧ merged.nameservers = ["1.1.1.1"] ∧
      merged.labels = [("zone", "b"), ("tier", "metal"), ("rack", "r2")] ∧
      merged.patches = ["role", "node"] ∧ merged.certSans = [] := by
  intro node defaults merged
  have hn : node.settings.NamesDiffer := ⟨by decide, by decide, by decide⟩
  have hd : defaults.NamesDiffer := ⟨by decide, by decide, by decide⟩
  exact ⟨hn, hd, (fields_by_precedence node defaults hn hd).2.1, rfl, rfl, by decide, rfl, rfl⟩

end ClusterConfig
