/-
What the Raft demo has stored and printed (`main.rs` of `18-hello-raft`).

`Demo.Says` is the invariant of the loop of `run_basic_demo`: the map of each
node is what the printed reports on it say.

* `Demo.says_start` — it holds of a new cluster;
* `Demo.Says.campaign`, `Demo.Says.proposePut`, `Demo.Says.tickAll`,
  `Demo.Says.processReady` — each call on the cluster keeps it.
-/
import AsyncRust.DemoCluster

namespace Raft

open Cluster

variable {L : Library}

namespace Cluster

/-! ### Nodes of the map -/

theorem mem_of_get? {cluster : Cluster L} {id : ℕ} {node : DemoNode L}
    (h : cluster.get? id = some node) : node ∈ cluster.nodes :=
  List.mem_of_find?_eq_some h

theorem mem_set {cluster : Cluster L} {node node' : DemoNode L}
    (h : node' ∈ (cluster.set node).nodes) : node' = node ∨ node' ∈ cluster.nodes := by
  obtain ⟨other, hother, hnode'⟩ := List.mem_map.mp h
  split at hnode'
  · exact .inl hnode'.symm
  · exact .inr (hnode' ▸ hother)

/-- A proposal to the current leader finds its node. -/
theorem get?_of_currentLeader {cluster : Cluster L} {id : ℕ}
    (h : cluster.currentLeader = some id) :
    ∃ node, cluster.get? id = some node ∧ node.role = .leader := by
  obtain ⟨leader, hfind, rfl⟩ := Option.map_eq_some_iff.mp h
  have hleader := List.mem_of_find?_eq_some hfind
  cases hget : cluster.get? leader.id with
  | none =>
    have hmissing := List.find?_eq_none.mp hget leader hleader
    simp at hmissing
  | some node =>
    have hid : node.id = leader.id := by simpa using List.find?_some hget
    obtain rfl := List.inj_on_of_nodup_map cluster.nodup_ids (mem_of_get? hget) hleader hid
    exact ⟨node, rfl, by simpa using List.find?_some hfind⟩

end Cluster

/-! ### The reports and the maps -/

/-- The cluster of the demo, and the reports that it has printed. -/
structure Demo (L : Library) where
  cluster : Cluster L
  printed : List ApplyReport

namespace Demo

def start (cluster : Cluster L) : Demo L := ⟨cluster, []⟩

/-- The map of each node is what the reports on it say. -/
def Says (demo : Demo L) : Prop :=
  ∀ node ∈ demo.cluster.nodes,
    node.stateMachine = (reportsOf node.id demo.printed).foldl DemoNode.record ∅

variable {demo : Demo L}

/-- A call on one node that leaves its map alone. -/
theorem Says.set (h : demo.Says) {id : ℕ} {node node' : DemoNode L}
    (hnode : demo.cluster.get? id = some node) (hid : node'.id = node.id)
    (hvalues : node'.stateMachine = node.stateMachine) :
    Says { demo with cluster := demo.cluster.set node' } := by
  intro other hother
  rcases mem_set hother with rfl | hother
  · rw [hvalues, hid]
    exact h node (mem_of_get? hnode)
  · exact h other hother

theorem Says.campaign (h : demo.Says) (id : ℕ) :
    Says { demo with cluster := (demo.cluster.campaign id).2 } := by
  rw [Cluster.campaign]
  split
  · exact h
  · rename_i node hnode
    exact h.set hnode rfl rfl

theorem Says.proposePut (h : demo.Says) (leaderId : ℕ) (key value : String) :
    Says { demo with cluster := (demo.cluster.proposePut leaderId key value).2 } := by
  rw [Cluster.proposePut]
  split
  · exact h
  · rename_i node hnode
    obtain ⟨raw, hraw⟩ := node.propose_frame (.put key value)
    exact h.set hnode (by rw [hraw]) (by rw [hraw])

theorem Says.tickAll (h : demo.Says) : Says { demo with cluster := demo.cluster.tickAll } := by
  intro node' hnode'
  obtain ⟨node, hnode, rfl⟩ := List.mem_map.mp hnode'
  exact h node hnode

theorem Says.processReady (h : demo.Says) {fuel : ℕ} {cluster : Cluster L}
    {reports : List ApplyReport} {calls : List (Call L)}
    (hready : demo.cluster.processReady fuel = some (.ok (reports, cluster, calls))) :
    Says ⟨cluster, demo.printed ++ reports⟩ := by
  have hrecords := (List.forall₂_and_left _ _).mpr ⟨h, (stage_of_processReady hready).1.records⟩
  have hsays : List.Forall₂ (fun (node' : DemoNode L) (_ : DemoNode L) => node'.stateMachine =
      (reportsOf node'.id (demo.printed ++ reports)).foldl DemoNode.record ∅ ∧ True)
      cluster.nodes demo.cluster.nodes := by
    refine .flip (hrecords.imp fun node node' hnode => ⟨?_, trivial⟩)
    obtain ⟨hbefore, -, hid, hvalues⟩ := hnode
    rw [hvalues, hbefore, hid, reportsOf, reportsOf, reportsOf, List.filter_append,
      List.foldl_append]
  exact ((List.forall₂_and_left _ _).mp hsays).1

/-- A new node has an empty map. -/
theorem stateMachine_of_insertAll {voters ids : List ℕ} : ∀ {cluster cluster' : Cluster L},
    (∀ node ∈ cluster.nodes, node.stateMachine = ∅) →
      insertAll voters ids cluster = .ok cluster' →
        ∀ node ∈ cluster'.nodes, node.stateMachine = ∅ := by
  induction ids with
  | nil =>
    intro cluster cluster' hempty h
    cases h
    exact hempty
  | cons id ids ih =>
    intro cluster cluster' hempty h
    obtain ⟨node, hnode, h⟩ := bind_eq_ok.mp h
    refine ih (fun other hother => ?_) h
    rcases mem_insertNode hother with rfl | hother
    · obtain ⟨raw, -, hnode⟩ := bind_eq_ok.mp hnode
      cases hnode
      rfl
    · exact hempty other hother

theorem says_start {ids : List ℕ} {cluster : Cluster L} (h : Cluster.new ids = .ok cluster) :
    (start cluster).Says :=
  stateMachine_of_insertAll (by simp) h

theorem valueFor_of_allNodesAgree {cluster : Cluster L} {key value : String}
    (h : cluster.allNodesAgree key = some value) :
    ∀ node ∈ cluster.nodes, node.valueFor key = some value := by
  rw [allNodesAgree] at h
  split at h
  · cases h
  · rename_i first rest hnodes
    obtain ⟨value', hfirst, h⟩ := Option.bind_eq_some_iff.mp h
    split at h
    · rename_i hall
      cases h
      rw [hnodes]
      exact List.forall_mem_cons.mpr ⟨hfirst, by simpa using hall⟩
    · cases h

end Demo

end Raft
