import Mathlib
import ClusterConfig.Output.Compilation

/-!
# Outcomes of nodes

Every node has one outcome, found at its place. Artifacts and failures are the two kinds of
outcomes, each in the order of the nodes, and together they account for every node once.
-/

set_option autoImplicit false

namespace ClusterConfig.Compiler

variable {compiler : Compiler} {cluster : Cluster} {os : List (Except NodeFailure Artifact)}

theorem outcomes_getElem? (compiler : Compiler) (cluster : Cluster) (i : Nat) :
    (compiler.outcomes cluster)[i]? =
      cluster.mergedNodes[i]?.map fun node => compiler.outcome cluster i node := by
  simp [outcomes, List.getElem?_zipIdx, Function.comp_def]

theorem length_outcomes (compiler : Compiler) (cluster : Cluster) :
    (compiler.outcomes cluster).length = cluster.nodes.length := by
  simp [outcomes, Cluster.mergedNodes]

/-- The node at a place is compiled with the settings of its role under its own. -/
theorem outcomes_of_node {i : Nat} {node : Node} (h : cluster.nodes[i]? = some node) :
    (compiler.outcomes cluster)[i]? =
      some (compiler.outcome cluster i (node.withDefaults (cluster.defaults node.role))) := by
  rw [outcomes_getElem?, Cluster.mergedNodes, List.getElem?_map, h]
  rfl

/-- A node has an artifact exactly if it compiles. -/
theorem outcome_eq_ok {i : Nat} {node : Node} {artifact : Artifact} :
    compiler.outcome cluster i node = .ok artifact ↔
      ∃ documents, compiler.compileNode cluster node = .ok documents ∧
        artifact = ⟨node.hostname, cluster.fileName node.hostname, documents⟩ := by
  rw [outcome.eq_def]
  cases compiler.compileNode cluster node <;> simp [eq_comm]

theorem index_of_outcome {i : Nat} {node : Node} {failure : NodeFailure}
    (h : compiler.outcome cluster i node = .error failure) : failure.index = i := by
  unfold outcome at h
  split at h
  · cases h
  · cases h
    rfl

/-! ## Places -/

/-- The places of the nodes that have artifacts. -/
def succeeded (compiler : Compiler) (cluster : Cluster) : List Nat :=
  (compiler.outcomes cluster).findIdxs Except.isOk

/-- Failures know their places, counted from `start` on. -/
def Placed (start : Nat) (os : List (Except NodeFailure Artifact)) : Prop :=
  ∀ i failure, os[i]? = some (.error failure) → failure.index = start + i

theorem placed_outcomes (compiler : Compiler) (cluster : Cluster) :
    Placed 0 (compiler.outcomes cluster) := by
  intro i failure h
  rw [outcomes_getElem?] at h
  obtain ⟨node, -, hf⟩ := Option.map_eq_some_iff.mp h
  rw [index_of_outcome hf, Nat.zero_add]

theorem Placed.tail {start : Nat} {o : Except NodeFailure Artifact} (h : Placed start (o :: os)) :
    Placed (start + 1) os := by
  intro i failure hi
  have := h (i + 1) failure (by rwa [List.getElem?_cons_succ])
  omega

theorem failures_places {start : Nat} (h : Placed start os) :
    (os.filterMap failure?).map NodeFailure.index = os.findIdxs (fun o => !o.isOk) start := by
  induction os generalizing start with
  | nil => rfl
  | cons o rest ih =>
    rw [List.findIdxs_cons]
    cases o with
    | ok artifact =>
      rw [List.filterMap_cons_none rfl]
      exact ih h.tail
    | error failure =>
      have hi : failure.index = start := h 0 failure rfl
      rw [List.filterMap_cons_some (show failure? (.error failure) = some failure from rfl),
        List.map_cons, hi, ih h.tail]
      rfl

theorem artifacts_places (os : List (Except NodeFailure Artifact)) (start : Nat) :
    (os.findIdxs Except.isOk start).map (fun i => os[i - start]?) =
      (os.filterMap artifact?).map fun artifact => some (.ok artifact) := by
  induction os generalizing start with
  | nil => rfl
  | cons o rest ih =>
    have htail : (rest.findIdxs Except.isOk (start + 1)).map (fun i => (o :: rest)[i - start]?) =
        (rest.filterMap artifact?).map fun artifact => some (.ok artifact) := by
      rw [← ih (start + 1)]
      refine List.map_congr_left fun i hi => ?_
      have hle := List.ge_of_mem_findIdxs i hi
      rw [show i - start = i - (start + 1) + 1 by omega, List.getElem?_cons_succ]
    rw [List.findIdxs_cons]
    cases o with
    | ok artifact =>
      rw [List.filterMap_cons_some (show artifact? (.ok artifact) = some artifact from rfl),
        List.map_cons, ← htail, if_pos (show (Except.ok artifact).isOk = true from rfl),
        List.map_cons, Nat.sub_self, List.getElem?_cons_zero]
    | error failure =>
      rw [List.filterMap_cons_none rfl]
      exact htail

theorem places_perm {α : Type} (p : α → Bool) (xs : List α) :
    (xs.findIdxs p ++ xs.findIdxs (fun x => !p x)).Perm (List.range xs.length) := by
  rw [List.perm_ext_iff_of_nodup ?_ List.nodup_range]
  · intro i
    simp only [List.mem_append, List.mem_findIdxs_iff_exists_getElem_pos, List.mem_range]
    constructor
    · rintro (⟨hi, -⟩ | ⟨hi, -⟩) <;> exact hi
    · intro hi
      cases hp : p xs[i] with
      | true => exact .inl ⟨hi, hp⟩
      | false => exact .inr ⟨hi, by rw [hp, Bool.not_false]⟩
  · refine List.nodup_append.mpr ⟨List.nodup_findIdxs, List.nodup_findIdxs, ?_⟩
    rintro i hi j hj rfl
    obtain ⟨hlt, hp⟩ := List.mem_findIdxs_iff_exists_getElem_pos.mp hi
    obtain ⟨_, hn⟩ := List.mem_findIdxs_iff_exists_getElem_pos.mp hj
    rw [hp, Bool.not_true] at hn
    cases hn

/-! ## The report -/

/-- What a report tells of the nodes: which of them have artifacts and which failed, both in the
order of the nodes, and for every node the outcome at its place. -/
structure Accounted (compiler : Compiler) (cluster : Cluster) : Prop where
  artifacts_in_order : (compiler.succeeded cluster).Pairwise (· < ·)
  failures_in_order :
    ((compiler.compile cluster).failures.map NodeFailure.index).Pairwise (· < ·)
  every_node : (compiler.succeeded cluster ++
    (compiler.compile cluster).failures.map NodeFailure.index).Perm
      (List.range cluster.nodes.length)
  artifacts_at_places : (compiler.succeeded cluster).map (fun i => (compiler.outcomes cluster)[i]?) =
    (compiler.compile cluster).artifacts.map fun artifact => some (.ok artifact)
  failures_at_places : ∀ failure ∈ (compiler.compile cluster).failures,
    (compiler.outcomes cluster)[failure.index]? = some (.error failure)

theorem failures_index (compiler : Compiler) (cluster : Cluster) :
    (compiler.compile cluster).failures.map NodeFailure.index =
      (compiler.outcomes cluster).findIdxs fun o => !o.isOk :=
  failures_places (placed_outcomes compiler cluster)

theorem artifact?_eq_some {o : Except NodeFailure Artifact} {artifact : Artifact} :
    artifact? o = some artifact ↔ o = .ok artifact := by
  cases o <;> simp [artifact?]

theorem failure?_eq_some {o : Except NodeFailure Artifact} {failure : NodeFailure} :
    failure? o = some failure ↔ o = .error failure := by
  cases o with
  | ok artifact => simp [failure?]
  | error other => simp [failure?]

theorem accounted (compiler : Compiler) (cluster : Cluster) : compiler.Accounted cluster where
  artifacts_in_order := List.pairwise_findIdxs
  failures_in_order := by
    rw [failures_index]
    exact List.pairwise_findIdxs
  every_node := by
    rw [failures_index, ← length_outcomes compiler cluster]
    exact places_perm _ _
  artifacts_at_places := artifacts_places _ 0
  failures_at_places := by
    intro failure h
    obtain ⟨o, ho, hf⟩ := List.mem_filterMap.mp h
    obtain ⟨i, hi⟩ := List.mem_iff_getElem?.mp ho
    rw [failure?_eq_some.mp hf] at hi
    rwa [placed_outcomes compiler cluster i failure hi, Nat.zero_add]

/-! ## A small cluster -/

/-- A node with no settings of its own. -/
def bareNode (hostname : String) (isControlPlane : Bool) : Node :=
  ⟨hostname, "10.0.0.1", isControlPlane, {}⟩

/-- A cluster whose settings are the defaults. -/
def smallCluster (nodes : List Node) : Cluster where
  name := "small"
  talosVersion := Cluster.defaultTalosVersion
  kubernetesVersion := Cluster.defaultKubernetesVersion
  endpoint := "https://10.0.0.1:6443"
  domain := Cluster.defaultDomain
  schedulesOnControlPlanes := false
  schedulesOnMasters := none
  machineCertSans := []
  apiServerCertSans := []
  podNets := [Cluster.defaultPodNet]
  serviceNets := [Cluster.defaultServiceNet]
  cni := none
  extraManifests := []
  nodes := nodes
  controlPlane := {}
  worker := {}

/-- A bundle whose private keys all are `key`. -/
def smallBundle (key : String) : Bundle where
  clusterId := "id"
  clusterSecret := "secret"
  bootstrapToken := "token"
  secretboxSecret := key
  aescbcSecret := some key
  trustToken := "trust"
  etcd := ⟨key, key⟩
  kubernetes := ⟨"k8s", key⟩
  aggregator := ⟨key, key⟩
  serviceAccountKey := key
  machine := ⟨"os", key⟩
  admin := none
  contract := none

/-- The built-in generator over no files and without decryption. -/
def smallCompiler (bundle : Bundle) : Compiler :=
  ⟨bundle, Machine.builtIn, ⟨{}, Encryption.Decryptor.unavailable⟩, {}⟩

end ClusterConfig.Compiler
