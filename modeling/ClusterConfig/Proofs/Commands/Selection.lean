import Mathlib
import ClusterConfig.Commands
import ClusterConfig.Proofs.Network.Octets
import ClusterConfig.Proofs.Output.FileNames

/-!
# Selecting a node by its host name

A text that spells an address selects it. Of the host names that a valid cluster may have those are
the texts of four octets; every other one selects its node. A node that is called by four octets is
passed over for the first node with that address.
-/

set_option autoImplicit false

namespace ClusterConfig

/-! ## Host names -/

theorem IsHostname.no_colon {name : String} (h : IsHostname name) : ':' ∉ name.toList := fun hc => by
  obtain halnum | hhyphen | hdot := DnsName.chars_of_isName h ':' hc
  · exact absurd halnum (by decide)
  · exact absurd hhyphen (by decide)
  · exact absurd hdot (by decide)

theorem Validation.valid_addresses {cluster : Cluster} {node : Node}
    (h : cluster.validate.hasErrors = false) (hn : node ∈ cluster.nodes) : node.addresses ≠ [] := by
  intro hempty
  obtain ⟨i, hi⟩ := List.mem_iff_getElem?.mp hn
  let place := ((Place.root.field "nodes").index i).field "ipAddress"
  have hissues : nodeAddressIssues place node.addresses =
      [⟨.required, place, "an IP address or DNS name is required"⟩] := by
    rw [nodeAddressIssues, hempty, List.isEmpty_nil, if_pos rfl]
  have hs : [⟨.required, place, "an IP address or DNS name is required"⟩] ⊆ cluster.issues := by
    rw [← hissues]
    exact fun issue hm => node_issues hi (List.mem_append_left _ (List.mem_append_left _
      (List.mem_append_right _ hm)))
  have hnone := eq_nil_of_valid (fun issue hm => ?_) (hasErrors_of_subset hs h)
  · cases hnone
  · rw [List.mem_singleton.mp hm]
    rfl

namespace Commands

variable {cluster : Cluster} {node : Node} {kind : Kind} {selector : Selector}
  {clientConfig outDirectory : String} {more : List String}

/-! ## Commands -/

/-- The command for an address, with the flags of a node. -/
def commandTo (cluster : Cluster) (kind : Kind) (clientConfig outDirectory : String)
    (more : List String) (node : Node) (address : String) : String :=
  " ".intercalate (["talosctl", kind.name, "--talosconfig=" ++ clientConfig, "--nodes=" ++ address] ++
    flags cluster kind node outDirectory ++ more)

theorem generate_of_targets {found : List Target} (h : targets cluster kind selector = .ok found) :
    generate cluster kind selector clientConfig outDirectory more =
      .ok (found.map fun target =>
        commandTo cluster kind clientConfig outDirectory more target.node target.address) := by
  rw [generate, h]
  rfl

theorem generate_of_error {error : CommandError} (h : targets cluster kind selector = .error error) :
    generate cluster kind selector clientConfig outDirectory more = .error error := by
  rw [generate, h]
  rfl

theorem mergedNodes_hostnames (cluster : Cluster) :
    cluster.mergedNodes.map Node.hostname = cluster.nodes.map Node.hostname := by
  rw [Cluster.mergedNodes, List.map_map]
  rfl

/-- The host name of a node of a valid cluster selects it, unless it spells an address of four
octets: then the first node with that address is reached there, if there is one. -/
theorem hostname_selects (cluster : Cluster) (h : cluster.validate.hasErrors = false) (node : Node)
    (hn : node ∈ cluster.nodes) (kind : Kind) (clientConfig outDirectory : String)
    (more : List String) :
    let selected := generate cluster kind (.ofText node.hostname) clientConfig outDirectory more
    let command := commandTo cluster kind clientConfig outDirectory more
    (IpAddress.parse? node.hostname = none → node.addresses ≠ [] ∧
      selected =
        .ok (node.addresses.map (command (node.withDefaults (cluster.defaults node.role))))) ∧
    ∀ address, IpAddress.parse? node.hostname = some address →
      (∃ octets, address = .v4 octets) ∧ address.text = node.hostname ∧
      selected =
        match cluster.mergedNodes.find? (hasAddress address) with
        | some other => .ok [command other node.hostname]
        | none => .error (.unknownAddress node.hostname) := by
  intro selected command
  have hhost := Validation.valid_hostname h hn
  refine ⟨fun hparse => ⟨Validation.valid_addresses h hn, ?_⟩, fun address hparse => ?_⟩
  · have hselector : Selector.ofText node.hostname = .hostname node.hostname := by
      simp only [Selector.ofText, hhost.trim, hparse]
    have hdistinct : (cluster.mergedNodes.map Node.hostname).Nodup := by
      rw [mergedNodes_hostnames]
      exact Validation.valid_hostnames_nodup h
    have hfound : (cluster.mergedNodes.find? fun other => other.hostname = node.hostname) =
        some (node.withDefaults (cluster.defaults node.role)) :=
      find?_of_nodup hdistinct (List.mem_map_of_mem hn)
    have htargets : targets cluster kind (.ofText node.hostname) =
        .ok (targetsOf (node.withDefaults (cluster.defaults node.role))) := by
      rw [hselector, targets, hfound]
    rw [show selected = _ from generate_of_targets htargets, targetsOf, List.map_map]
    rfl
  · obtain ⟨octets, hoctets, htext⟩ := IpAddress.parse?_dotted hhost.no_colon hparse
    have hselector : Selector.ofText node.hostname = .address address := by
      simp only [Selector.ofText, hhost.trim, hparse]
    refine ⟨⟨octets, hoctets⟩, htext, ?_⟩
    cases hfind : cluster.mergedNodes.find? (hasAddress address) with
    | some other =>
      have htargets : targets cluster kind (.ofText node.hostname) =
          .ok [⟨other, node.hostname⟩] := by
        rw [hselector, targets, hfind, htext]
      exact generate_of_targets htargets
    | none =>
      have htargets : targets cluster kind (.ofText node.hostname) =
          .error (.unknownAddress node.hostname) := by
        rw [hselector, targets, hfind, htext]
      exact generate_of_error htargets

/-- A cluster in which one node is called by the address of another. -/
def misnamedCluster : Cluster :=
  { Compiler.smallCluster [{ Compiler.bareNode "cp" true with address := "10.0.0.2" },
      { Compiler.bareNode "10.0.0.2" false with address := "10.0.0.3, 10.0.0.4" }] with
    controlPlane := { installDisk := some "/dev/sda" }, worker := { installDisk := some "/dev/sda" } }

/-- The command goes to the other node, at an address that the node called so does not have. -/
theorem hostname_passed_over :
    misnamedCluster.validate.hasErrors = false ∧
    ∃ node ∈ misnamedCluster.nodes, node.hostname = "10.0.0.2" ∧
      node.addresses = ["10.0.0.3", "10.0.0.4"] ∧
      (generate misnamedCluster .reset (.ofText node.hostname) "talosconfig" "." []).toOption = some
        ["talosctl reset --talosconfig=talosconfig --nodes=10.0.0.2 --graceful=false --reboot"] ∧
      (generate misnamedCluster .reset (.ofText node.hostname) "talosconfig" "." []).toOption ≠
        some (node.addresses.map (commandTo misnamedCluster .reset "talosconfig" "." []
          (node.withDefaults (misnamedCluster.defaults node.role)))) := by
  refine ⟨by decide +kernel, _, List.mem_cons_of_mem _ List.mem_cons_self, ?_⟩
  decide +kernel

theorem misnamed_cluster_selected :
    misnamedCluster.validate.hasErrors = false ∧
    (∃ node ∈ misnamedCluster.nodes, node.hostname = "cp" ∧
      IpAddress.parse? node.hostname = none ∧ node.addresses = ["10.0.0.2"] ∧
      generate misnamedCluster .reset (.ofText node.hostname) "talosconfig" "." [] =
        .ok (node.addresses.map (commandTo misnamedCluster .reset "talosconfig" "." []
          (node.withDefaults (misnamedCluster.defaults node.role))))) ∧
    ∃ node ∈ misnamedCluster.nodes, node.hostname = "10.0.0.2" ∧
      IpAddress.parse? node.hostname = some (.v4 [10, 0, 0, 2]) ∧
      (IpAddress.v4 [10, 0, 0, 2]).text = node.hostname := by
  have h : misnamedCluster.validate.hasErrors = false := by decide +kernel
  refine ⟨h, ⟨_, List.mem_cons_self, rfl, by decide +kernel, by decide +kernel, ?_⟩,
    _, List.mem_cons_of_mem _ List.mem_cons_self, rfl, by decide +kernel, ?_⟩
  · have hselects := hostname_selects misnamedCluster h _ List.mem_cons_self .reset "talosconfig" "." []
    exact (hselects.1 (by decide +kernel)).2
  · have hselects := hostname_selects misnamedCluster h _ (List.mem_cons_of_mem _ List.mem_cons_self)
      .reset "talosconfig" "." []
    exact (hselects.2 _ (by decide +kernel)).2.1

end Commands

end ClusterConfig
