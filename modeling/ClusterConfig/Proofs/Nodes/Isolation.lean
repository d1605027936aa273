import ClusterConfig.Proofs.Nodes.Outcomes

/-!
# What does not change a node

A node is compiled from its own settings and the settings of the cluster. The other nodes, their
number, their order, their failures and what their patches assign, do not change what becomes of
it. Of a generator it is supposed that it does not look at the nodes; the built-in one does not.

Of a bundle, a worker's configuration shows the identity of the cluster, the tokens that machines
join with and the certificates of two authorities. Bundles that agree on these and on the version
contract cannot be told apart by anything that becomes of a worker.
-/

set_option autoImplicit false

namespace ClusterConfig

/-- A generator that makes the same of a cluster with other nodes. -/
def Machine.IgnoresNodes (generate : Machine.Generator) : Prop :=
  ∀ (input : Machine.Input) (nodes : List Node),
    generate { input with cluster := { input.cluster with nodes } } = generate input

namespace Machine

variable {generate : Generator}

theorem builtIn_ignoresNodes : IgnoresNodes builtIn := fun _ _ => rfl

theorem applySettings_nodes (tree : FileTree) (node : Node) (cluster : Cluster)
    (nodes : List Node) (doc : Json) :
    applySettings tree node { cluster with nodes } doc = applySettings tree node cluster doc := rfl

theorem synthesize_nodes (hg : IgnoresNodes generate) (tree : FileTree) (node : Node)
    (cluster : Cluster) (nodes : List Node) (bundle : Bundle) :
    synthesize generate tree node { cluster with nodes } bundle =
      synthesize generate tree node cluster bundle := by
  have hdoc (contract : VersionContract) :
      generate ⟨{ cluster with nodes }, node.role, bundle, contract⟩ =
        generate ⟨cluster, node.role, bundle, contract⟩ :=
    hg ⟨cluster, node.role, bundle, contract⟩ nodes
  unfold synthesize
  simp only [hdoc, applySettings_nodes]

end Machine

namespace Compiler

variable {compiler : Compiler}

theorem compileNode_nodes (hg : Machine.IgnoresNodes compiler.generate) (cluster : Cluster)
    (nodes : List Node) (node : Node) :
    compiler.compileNode { cluster with nodes } node = compiler.compileNode cluster node := by
  unfold compileNode
  rw [Machine.synthesize_nodes hg]

/-- What an outcome says apart from the place of the node. -/
def result (o : Except NodeFailure Artifact) : Except (String × NodeError) Artifact :=
  o.mapError fun failure => (failure.hostname, failure.error)

theorem result_outcome (hg : Machine.IgnoresNodes compiler.generate) (cluster : Cluster)
    (nodes : List Node) (i j : Nat) (node : Node) :
    result (compiler.outcome { cluster with nodes } j node) =
      result (compiler.outcome cluster i node) := by
  unfold outcome
  rw [compileNode_nodes hg]
  cases compiler.compileNode cluster node with
  | ok documents => rfl
  | error e => rfl

end Compiler

/-- Bundles that agree on what workers get. -/
structure Bundle.SameForWorkers (a b : Bundle) : Prop where
  clusterId : a.clusterId = b.clusterId
  clusterSecret : a.clusterSecret = b.clusterSecret
  bootstrapToken : a.bootstrapToken = b.bootstrapToken
  trustToken : a.trustToken = b.trustToken
  machineCertificate : a.machine.certificate = b.machine.certificate
  kubernetesCertificate : a.kubernetes.certificate = b.kubernetes.certificate
  contract : a.contract = b.contract

variable {a b : Bundle}

namespace Bundle

theorem SameForWorkers.versionContract (h : a.SameForWorkers b) (talosVersion : String) :
    a.versionContract talosVersion = b.versionContract talosVersion := by
  unfold Bundle.versionContract
  rw [h.contract]

end Bundle

namespace Machine

variable {cluster : Cluster} {contract : VersionContract}

theorem authority_worker (c : Credentials) :
    authority ⟨cluster, .worker, a, contract⟩ c =
      .obj [("crt", .str c.certificate), ("key", .str "")] := rfl

theorem machine_worker (ht : a.trustToken = b.trustToken)
    (hc : a.machine.certificate = b.machine.certificate) :
    machine ⟨cluster, .worker, a, contract⟩ = machine ⟨cluster, .worker, b, contract⟩ := by
  simp only [machine, authority_worker, ht, hc]
  rfl

theorem clusterSection_worker (h : a.SameForWorkers b) :
    clusterSection ⟨cluster, .worker, a, contract⟩ =
      clusterSection ⟨cluster, .worker, b, contract⟩ := by
  have hmore (bundle : Bundle) :
      (if Input.isControlPlane ⟨cluster, .worker, bundle, contract⟩ then
        controlPlaneMembers ⟨cluster, .worker, bundle, contract⟩ else []) = [] := rfl
  simp only [clusterSection, hmore, authority_worker, h.clusterId, h.clusterSecret,
    h.bootstrapToken, h.kubernetesCertificate]

theorem base_worker (h : a.SameForWorkers b) :
    base ⟨cluster, .worker, a, contract⟩ = base ⟨cluster, .worker, b, contract⟩ := by
  simp only [base, machine_worker h.trustToken h.machineCertificate, clusterSection_worker h]

/-- The settings of a node are put on the base configuration without a look at the bundle. -/
theorem synthesize_worker (h : a.SameForWorkers b) (tree : FileTree) {node : Node}
    (hr : node.role = .worker) (cluster : Cluster) :
    synthesize builtIn tree node cluster a = synthesize builtIn tree node cluster b := by
  unfold synthesize
  rw [h.versionContract, hr]
  simp only [builtIn, base_worker h]

end Machine

namespace Compiler

variable {source : Documents.Source} {vars : Bindings}

theorem compileNode_worker (h : a.SameForWorkers b) (cluster : Cluster) {node : Node}
    (hr : node.role = .worker) :
    compileNode ⟨a, Machine.builtIn, source, vars⟩ cluster node =
      compileNode ⟨b, Machine.builtIn, source, vars⟩ cluster node := by
  unfold compileNode
  rw [Machine.synthesize_worker h source.files hr]

theorem outcome_worker (h : a.SameForWorkers b) (cluster : Cluster) (i : Nat) {node : Node}
    (hr : node.role = .worker) :
    outcome ⟨a, Machine.builtIn, source, vars⟩ cluster i node =
      outcome ⟨b, Machine.builtIn, source, vars⟩ cluster i node := by
  unfold outcome
  rw [compileNode_worker h cluster hr]

/-- No secret of the control planes has a part in what becomes of a worker. -/
theorem workers_keep_no_secrets (h : a.SameForWorkers b) (source : Documents.Source)
    (vars : Bindings) (cluster : Cluster) :
    (∀ node ∈ cluster.mergedNodes, node.role = .worker →
      compileNode ⟨a, Machine.builtIn, source, vars⟩ cluster node =
        compileNode ⟨b, Machine.builtIn, source, vars⟩ cluster node) ∧
    ∀ (i : Nat) (node : Node), cluster.nodes[i]? = some node → node.role = .worker →
      (outcomes ⟨a, Machine.builtIn, source, vars⟩ cluster)[i]? =
        (outcomes ⟨b, Machine.builtIn, source, vars⟩ cluster)[i]? := by
  refine ⟨fun node _ hr => compileNode_worker h cluster hr, fun i node hi hr => ?_⟩
  rw [outcomes_of_node hi, outcomes_of_node hi]
  exact congrArg some (outcome_worker h cluster i hr)

theorem worker_of_other_keys :
    Bundle.SameForWorkers (smallBundle "old") (smallBundle "new") ∧
    ((smallCompiler (smallBundle "old")).outcomes
        (smallCluster [bareNode "c" true, bareNode "w" false]))[1]? =
      ((smallCompiler (smallBundle "new")).outcomes
        (smallCluster [bareNode "c" true, bareNode "w" false]))[1]? := by
  have h : Bundle.SameForWorkers (smallBundle "old") (smallBundle "new") := by
    constructor <;> rfl
  exact ⟨h, (workers_keep_no_secrets h _ _ _).2 1 (bareNode "w" false) rfl rfl⟩

end Compiler

end ClusterConfig
