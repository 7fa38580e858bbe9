/-
The Raft demo (`run_basic_demo` in `main.rs` of `18-hello-raft`).

The demo bootstraps three nodes, lets node 1 campaign, and goes on for at most 200 ticks: as
soon as there is a leader it proposes one value, and it ends when all nodes have that key with
one value.

* `runBasicDemo` — the loop, with the lines that it prints;
* `demo_prints` — what the lines say about each other and about the result.
-/
import AsyncRust.DemoReports

namespace Raft

open Cluster

variable {L : Library}

/-! ### The program -/

/-- A line that is printed, with what stands in it. -/
inductive DemoLine where
  | bootstrapping
  | applied (report : ApplyReport)
  | elected (leader tick : ℕ)
  | replicated (value : String)
  | finalSnapshots
  | snapshot (id : ℕ) (values : AList fun _ : String => String)

namespace DemoLine

/-- The text of the line, but for the maps: these are printed in no fixed order. -/
def text? : DemoLine → Option String
  | bootstrapping => some "Bootstrapping 3-node Raft cluster (single-threaded)..."
  | applied report =>
    some <| s!"node {report.nodeId} applied {report.key} = {report.value} " ++
      s!"(index {report.index}, term {report.term})"
  | elected leader tick => some s!"leader {leader} elected at tick {tick}"
  | replicated value => some s!"All nodes replicated demo-key = {value}"
  | finalSnapshots => some "\nFinal key/value snapshots:"
  | snapshot _ _ => none

end DemoLine

/-- The variables of the loop. -/
structure BasicDemo (L : Library) where
  cluster : Cluster L
  proposalSent : Bool
  lines : List DemoLine

namespace BasicDemo

def MAX_TICKS : ℕ := 200

def println (demo : BasicDemo L) (lines : List DemoLine) : BasicDemo L :=
  { demo with lines := demo.lines ++ lines }

def printSnapshots (demo : BasicDemo L) : BasicDemo L :=
  demo.println
    (.finalSnapshots :: demo.cluster.nodes.map fun node => .snapshot node.id node.snapshot)

/-- The end of a round; the demo returns when all nodes agree. -/
def checkAgreement (demo : BasicDemo L) : BasicDemo L × Option (Except Fault Unit) :=
  match if demo.proposalSent then demo.cluster.allNodesAgree "demo-key" else none with
  | some value => ((demo.println [.replicated value]).printSnapshots, some (.ok ()))
  | none => (demo, none)

/-- Once there is a leader, the proposal is sent to it. -/
def propose (demo : BasicDemo L) (tick : ℕ) : BasicDemo L × Option (Except Fault Unit) :=
  match if demo.proposalSent then none else demo.cluster.currentLeader with
  | some leader =>
    let demo := demo.println [.elected leader tick]
    match demo.cluster.proposePut leader "demo-key" s!"value-{tick}" with
    | (.error fault, cluster) => ({ demo with cluster }, some (.error fault))
    | (.ok (), cluster) => checkAgreement { demo with cluster, proposalSent := true }
  | none => checkAgreement demo

/-- One round, with the result if the demo returns in it, and with at most `fuel` passes of
`process_ready`. -/
def round (demo : BasicDemo L) (fuel tick : ℕ) :
    Option (BasicDemo L × Option (Except Fault Unit)) :=
  match demo.cluster.tickAll.processReady fuel with
  | none => none
  | some (.error fault) => some (demo, some (.error fault))
  | some (.ok (reports, cluster, _)) =>
    some (({ demo with cluster }.println (reports.map .applied)).propose tick)

/-- The rounds that are left. -/
def rounds (fuel : ℕ) : ℕ → BasicDemo L → Option (List DemoLine × Except Fault Unit)
  | 0, demo => some (demo.lines,
      .error (.error [s!"demo did not reach consensus within {MAX_TICKS} ticks"]))
  | left + 1, demo =>
    match demo.round fuel (MAX_TICKS - (left + 1)) with
    | none => none
    | some (demo, some result) => some (demo.lines, result)
    | some (demo, none) => rounds fuel left demo

end BasicDemo

open BasicDemo in
def runBasicDemo (L : Library) (fuel : ℕ) : Option (List DemoLine × Except Fault Unit) :=
  match Cluster.new (L := L) [1, 2, 3] with
  | .error fault => some ([.bootstrapping], .error fault)
  | .ok cluster =>
    match cluster.campaign 1 with
    | (.error fault, _) => some ([.bootstrapping], .error fault)
    | (.ok (), cluster) => rounds fuel MAX_TICKS ⟨cluster, false, [.bootstrapping]⟩

/-! ### What is claimed of it -/

namespace DemoLine

def report? : DemoLine → Option ApplyReport
  | applied report => some report
  | _ => none

def election? : DemoLine → Option (ℕ × ℕ)
  | elected leader tick => some (leader, tick)
  | _ => none

/-- The line is printed after all nodes agree. -/
def isFinal : DemoLine → Bool
  | replicated _ | finalSnapshots | snapshot _ _ => true
  | _ => false

end DemoLine

/-- What the lines say that a node stores. -/
def storedBy (id : ℕ) (lines : List DemoLine) : AList fun _ : String => String :=
  (reportsOf id (lines.filterMap DemoLine.report?)).foldl DemoNode.record ∅

/-- The lines of a demo that has returned `result`. -/
structure DemoPrints (lines : List DemoLine) (result : Except Fault Unit) : Prop where
  once : (lines.filterMap DemoLine.election?).length ≤ 1
  leader : ∀ election ∈ lines.filterMap DemoLine.election?,
    election.1 ∈ [1, 2, 3] ∧ election.2 < BasicDemo.MAX_TICKS
  pending : ∀ fault, result = .error fault → ∀ line ∈ lines, line.isFinal = false
  agreed : result = .ok () → ∃ before value,
    lines = before ++ .replicated value :: .finalSnapshots ::
      [1, 2, 3].map (fun id => .snapshot id (storedBy id lines)) ∧
    (∀ line ∈ before, line.isFinal = false) ∧
    (lines.filterMap DemoLine.election?).length = 1 ∧
    ∀ id ∈ [1, 2, 3], (storedBy id lines).lookup "demo-key" = some value

/-! ### The loop -/

namespace BasicDemo

/-- What holds from one round to the next. -/
structure Sound (demo : BasicDemo L) : Prop where
  stored : Demo.Says ⟨demo.cluster, demo.lines.filterMap DemoLine.report?⟩
  ids : demo.cluster.ids = [1, 2, 3]
  once : (demo.lines.filterMap DemoLine.election?).length = if demo.proposalSent then 1 else 0
  leader : ∀ election ∈ demo.lines.filterMap DemoLine.election?,
    election.1 ∈ [1, 2, 3] ∧ election.2 < MAX_TICKS
  pending : ∀ line ∈ demo.lines, line.isFinal = false

variable {demo : BasicDemo L}

theorem Sound.failed (h : demo.Sound) (fault : Fault) : DemoPrints demo.lines (.error fault) where
  once := by
    rw [h.once]
    split <;> decide
  leader := h.leader
  pending _ _ := h.pending
  agreed hok := by cases hok

/-- Lines that tell of no election and no report. -/
theorem storedBy_append {lines more : List DemoLine}
    (hmore : more.filterMap DemoLine.report? = []) (id : ℕ) :
    storedBy id (lines ++ more) = storedBy id lines := by
  rw [storedBy, List.filterMap_append, hmore, List.append_nil, storedBy]

theorem Sound.checkAgreement (h : demo.Sound) :
    ((demo.checkAgreement).2 = none → (demo.checkAgreement).1.Sound) ∧
    ∀ result, (demo.checkAgreement).2 = some result →
      DemoPrints (demo.checkAgreement).1.lines result := by
  unfold BasicDemo.checkAgreement
  split
  · rename_i value hagree
    rw [Option.ite_none_right_eq_some] at hagree
    obtain ⟨hsent, hagree⟩ := hagree
    refine ⟨fun hnone => (by cases hnone), fun result hresult => ?_⟩
    obtain rfl := Option.some_inj.mp hresult
    let more : List DemoLine := .replicated value :: .finalSnapshots ::
      demo.cluster.nodes.map fun node => .snapshot node.id node.snapshot
    have hlines : ((demo.println [.replicated value]).printSnapshots).lines = demo.lines ++ more :=
      List.append_assoc _ _ _
    have hreports : more.filterMap DemoLine.report? = [] := by
      simp [more, DemoLine.report?]
    have helections : (demo.lines ++ more).filterMap DemoLine.election? =
        demo.lines.filterMap DemoLine.election? := by
      simp [more, DemoLine.election?]
    have hstored (node : DemoNode L) (hnode : node ∈ demo.cluster.nodes) :
        node.stateMachine = storedBy node.id (demo.lines ++ more) := by
      rw [storedBy_append hreports]
      exact h.stored node hnode
    rw [hlines]
    have honce := h.once
    rw [if_pos hsent] at honce
    refine ⟨by rw [helections, honce], by rw [helections]; exact h.leader,
      (fun fault hfault => by cases hfault), fun _ => ⟨demo.lines, value, ?_, h.pending,
        by rw [helections, honce], fun id hid => ?_⟩⟩
    · rw [← h.ids, Cluster.ids, List.map_map]
      have hsnapshots :
          demo.cluster.nodes.map (fun node => DemoLine.snapshot node.id node.snapshot) =
          demo.cluster.nodes.map
            ((fun id => .snapshot id (storedBy id (demo.lines ++ more))) ∘ DemoNode.id) :=
        List.map_congr_left fun node hnode => by
          rw [DemoNode.snapshot, hstored node hnode]
          rfl
      rw [← hsnapshots]
    · rw [← h.ids] at hid
      obtain ⟨node, hnode, rfl⟩ := List.mem_map.mp hid
      rw [← hstored node hnode]
      exact Demo.valueFor_of_allNodesAgree hagree node hnode
  · exact ⟨fun _ => h, fun result hresult => by cases hresult⟩

theorem ids_set {cluster : Cluster L} (node : DemoNode L) : (cluster.set node).ids = cluster.ids :=
  map_id_setNode node cluster.nodes

theorem ids_proposePut (cluster : Cluster L) (leaderId : ℕ) (key value : String) :
    (cluster.proposePut leaderId key value).2.ids = cluster.ids := by
  rw [Cluster.proposePut]
  split
  · rfl
  · exact ids_set _

theorem ids_campaign (cluster : Cluster L) (id : ℕ) :
    (cluster.campaign id).2.ids = cluster.ids := by
  rw [Cluster.campaign]
  split
  · rfl
  · exact ids_set _

theorem ids_tickAll (cluster : Cluster L) : cluster.tickAll.ids = cluster.ids := by
  rw [Cluster.ids, Cluster.tickAll, List.map_map]
  rfl

theorem ids_processReady {cluster cluster' : Cluster L} {fuel : ℕ} {reports : List ApplyReport}
    {calls : List (Call L)}
    (h : cluster.processReady fuel = some (.ok (reports, cluster', calls))) :
    cluster'.ids = cluster.ids := by
  obtain ⟨⟨_, htraced⟩, -⟩ := stage_of_processReady h
  exact htraced.follow.map_id_eq

/-- The election of a leader is printed. -/
theorem Sound.elected (h : demo.Sound) (hsent : demo.proposalSent = false) {leader tick : ℕ}
    (hleader : demo.cluster.currentLeader = some leader) (htick : tick < MAX_TICKS)
    {cluster : Cluster L}
    (hstored : Demo.Says ⟨cluster, demo.lines.filterMap DemoLine.report?⟩)
    (hids : cluster.ids = demo.cluster.ids) :
    Sound ⟨cluster, true, demo.lines ++ [.elected leader tick]⟩ where
  stored := by
    have hnone : [DemoLine.elected leader tick].filterMap DemoLine.report? = [] := rfl
    simp only [List.filterMap_append, hnone, List.append_nil]
    exact hstored
  ids := hids.trans h.ids
  once := by
    have honce := h.once
    rw [hsent] at honce
    simp only [List.filterMap_append, List.length_append]
    rw [honce]
    rfl
  leader election hmem := by
    rw [List.filterMap_append, List.mem_append] at hmem
    rcases hmem with hmem | hmem
    · exact h.leader election hmem
    · obtain rfl : election = (leader, tick) := by simpa [DemoLine.election?] using hmem
      obtain ⟨node, hnode, -⟩ := get?_of_currentLeader hleader
      have hid : node.id = leader := by simpa using List.find?_some hnode
      exact ⟨h.ids ▸ List.mem_map.mpr ⟨node, mem_of_get? hnode, hid⟩, htick⟩
  pending line hmem := by
    rcases List.mem_append.mp hmem with hmem | hmem
    · exact h.pending line hmem
    · rw [List.mem_singleton.mp hmem]
      rfl

theorem Sound.propose (h : demo.Sound) {tick : ℕ} (htick : tick < MAX_TICKS) :
    ((demo.propose tick).2 = none → (demo.propose tick).1.Sound) ∧
    ∀ result, (demo.propose tick).2 = some result →
      DemoPrints (demo.propose tick).1.lines result := by
  unfold BasicDemo.propose
  split
  · rename_i leader hleader
    rw [Option.ite_none_left_eq_some] at hleader
    obtain ⟨hsent, hleader⟩ := hleader
    have hsent := Bool.eq_false_iff.mpr hsent
    have hstored := h.stored.proposePut leader "demo-key" s!"value-{tick}"
    have hids := ids_proposePut demo.cluster leader "demo-key" s!"value-{tick}"
    have helected := h.elected hsent hleader htick hstored hids
    simp only [println] at helected ⊢
    split
    · rename_i fault cluster hpropose
      rw [hpropose] at helected
      refine ⟨fun hnone => (by cases hnone), fun result hresult => ?_⟩
      obtain rfl := Option.some_inj.mp hresult
      exact helected.failed fault
    · rename_i cluster hpropose
      rw [hpropose] at helected
      exact helected.checkAgreement
  · exact h.checkAgreement

theorem Sound.round (h : demo.Sound) {fuel tick : ℕ} (htick : tick < MAX_TICKS)
    {demo' : BasicDemo L} {result : Option (Except Fault Unit)}
    (hround : demo.round fuel tick = some (demo', result)) :
    (result = none → demo'.Sound) ∧
    ∀ result', result = some result' → DemoPrints demo'.lines result' := by
  unfold BasicDemo.round at hround
  split at hround
  · cases hround
  · rename_i fault hready
    cases hround
    refine ⟨fun hnone => (by cases hnone), fun result hresult => ?_⟩
    obtain rfl := Option.some_inj.mp hresult
    exact h.failed fault
  · rename_i reports cluster calls hready
    have hstored := h.stored.tickAll.processReady hready
    have hids : cluster.ids = demo.cluster.ids := (ids_processReady hready).trans (ids_tickAll _)
    have hreports : (reports.map DemoLine.applied).filterMap DemoLine.report? = reports := by
      rw [List.filterMap_map]
      exact List.filterMap_some
    have helections : (reports.map DemoLine.applied).filterMap DemoLine.election? = [] := by
      simp [List.filterMap_map, Function.comp_def, DemoLine.election?]
    have hsound : ({ demo with cluster }.println (reports.map .applied)).Sound := by
      refine ⟨?_, hids.trans h.ids, ?_, ?_, fun line hmem => ?_⟩
      · simp only [println, List.filterMap_append, hreports]
        exact hstored
      · simp only [println, List.filterMap_append, helections, List.append_nil]
        exact h.once
      · simp only [println, List.filterMap_append, helections, List.append_nil]
        exact h.leader
      · rcases List.mem_append.mp hmem with hmem | hmem
        · exact h.pending line hmem
        · obtain ⟨report, -, rfl⟩ := List.mem_map.mp hmem
          rfl
    have hpropose := hsound.propose htick
    rw [Option.some_inj] at hround
    rw [hround] at hpropose
    exact hpropose

theorem Sound.rounds {fuel : ℕ} {lines : List DemoLine} {result : Except Fault Unit} {left : ℕ} :
    ∀ {demo : BasicDemo L}, demo.Sound → demo.rounds fuel left = some (lines, result) →
      DemoPrints lines result := by
  induction left with
  | zero =>
    intro demo h hrounds
    cases hrounds
    exact h.failed _
  | succ left ih =>
    intro demo h hrounds
    rw [BasicDemo.rounds] at hrounds
    have htick : MAX_TICKS - (left + 1) < MAX_TICKS := by
      rw [MAX_TICKS]
      omega
    split at hrounds
    · cases hrounds
    · rename_i demo' result' hround
      cases hrounds
      exact (h.round htick hround).2 _ rfl
    · rename_i demo' hround
      exact ih ((h.round htick hround).1 rfl) hrounds

theorem id_of_new {id : ℕ} {voters : List ℕ} {node : DemoNode L}
    (h : DemoNode.new id voters = .ok node) : node.id = id := by
  obtain ⟨raw, -, hnode⟩ := bind_eq_ok.mp h
  cases hnode
  rfl

theorem ids_of_new {cluster : Cluster L} (h : Cluster.new [1, 2, 3] = .ok cluster) :
    cluster.ids = [1, 2, 3] := by
  obtain ⟨node₁, h₁, h⟩ := bind_eq_ok.mp h
  obtain ⟨node₂, h₂, h⟩ := bind_eq_ok.mp h
  obtain ⟨node₃, h₃, h⟩ := bind_eq_ok.mp h
  cases h
  simp [Cluster.ids, Cluster.insert, insertNode, id_of_new h₁, id_of_new h₂, id_of_new h₃]

end BasicDemo

/-- **What the demo prints.**  It prints at most one election, of one of its nodes and within
its 200 ticks.  It ends well exactly when it has found that all nodes agree; then its last
lines are the value and a snapshot of each node, which is what the lines before tell of that
node, and all snapshots hold that value. -/
theorem demo_prints {fuel : ℕ} {lines : List DemoLine} {result : Except Fault Unit}
    (h : runBasicDemo L fuel = some (lines, result)) : DemoPrints lines result := by
  have hfirst (fault : Fault) : DemoPrints [.bootstrapping] (.error fault) := by
    refine ⟨Nat.zero_le 1, List.forall_mem_nil _, fun _ _ line hmem => ?_,
      fun hok => by cases hok⟩
    rw [List.mem_singleton.mp hmem]
    rfl
  unfold runBasicDemo at h
  split at h
  · cases h
    exact hfirst _
  · rename_i cluster hnew
    have hstored := (Demo.says_start hnew).campaign 1
    have hids : (cluster.campaign 1).2.ids = [1, 2, 3] :=
      (BasicDemo.ids_campaign cluster 1).trans (BasicDemo.ids_of_new hnew)
    split at h
    · cases h
      exact hfirst _
    · rename_i cluster' hcampaign
      simp only [Demo.start] at hstored
      rw [hcampaign] at hstored hids
      have hsound : BasicDemo.Sound ⟨cluster', false, [.bootstrapping]⟩ := by
        refine ⟨hstored, hids, rfl, List.forall_mem_nil _, fun line hmem => ?_⟩
        rw [List.mem_singleton.mp hmem]
        rfl
      exact hsound.rounds h

/-! ### A cluster that commits -/

namespace MiniRaft

/-- A leader sends what is proposed to it to the others. -/
def Raw.proposeAll (raw : Raw) (data : List UInt8) : Except Fault Unit × Raw :=
  let (result, raw') := raw.propose data
  (result, if raw'.role = .leader then
    raw'.broadcast { Message.default with
      msgType := .msgAppend, sender := raw.id, term := raw.term, logTerm := raw.lastTerm
      index := raw.log.length, commit := raw.committed, entries := raw'.log.drop raw.log.length }
    else raw')

/-- Of three voters the leader and the one that responds are a majority. -/
def Raw.advanceCommit (raw : Raw) (msg : Message) : Raw :=
  if raw.role = .leader ∧ msg.msgType = .msgAppendResponse ∧ msg.reject = false ∧
      msg.term = raw.term ∧ raw.committed < msg.index ∧
      raw.termAt msg.index = some raw.term ∧ raw.voters.length ≤ 3 then
    { raw with committed := msg.index }.broadcast { Message.default with
      msgType := .msgAppend, sender := raw.id, term := raw.term, logTerm := raw.lastTerm
      index := raw.log.length, commit := msg.index }
  else raw

/-- `miniRaft`, with a leader that commits what one other of its voters has. -/
def threeVoters : Library :=
  { miniRaft [] with
    propose := fun raw _ _ data => raw.proposeAll data
    step := fun raw _ msg => ((raw.step msg).1, (raw.step msg).2.advanceCommit msg) }

end MiniRaft

open MiniRaft in
theorem demo_prints_three_voters : ∃ lines,
    runBasicDemo threeVoters 20 = some (lines, .ok ()) ∧
    lines.filterMap DemoLine.report? = [⟨1, "demo-key", "value-0", 2, 1⟩,
      ⟨2, "demo-key", "value-0", 2, 1⟩, ⟨3, "demo-key", "value-0", 2, 1⟩] ∧
    DemoPrints lines (.ok ()) := by
  have hrun : (runBasicDemo threeVoters 20).map (fun r =>
      (r.1.filterMap DemoLine.report?, r.2.toOption)) =
      some ([⟨1, "demo-key", "value-0", 2, 1⟩, ⟨2, "demo-key", "value-0", 2, 1⟩,
        ⟨3, "demo-key", "value-0", 2, 1⟩], some ()) := by
    decide +kernel
  obtain ⟨⟨lines, result⟩, hresult, hfacts⟩ := Option.map_eq_some_iff.mp hrun
  obtain ⟨hreports, hok⟩ := Prod.mk.inj hfacts
  cases result with
  | error fault => cases hok
  | ok value => exact ⟨lines, hresult, hreports, demo_prints hresult⟩

end Raft
