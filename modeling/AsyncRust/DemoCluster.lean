/-
The cluster of the Raft demo (`Cluster` in `main.rs` of `18-hello-raft`).

The demo runs its nodes in one thread and is their network: `processReady` polls
every node in turn, hands the messages of that pass to their receivers, and goes
on until a pass brings nothing.  The model keeps a log of the calls that it
makes on the nodes, which nothing in it reads.  After an error the demo ends, so
the cluster is left out there.

* `Cluster` — the `BTreeMap` of nodes, sorted by id;
* `Follows` — a log of calls, read as a run of one of the nodes;
* `Stage` — what holds from the start of `processReady` to the start of a pass;
* `processReady_delivers` — what is true when it returns.
-/
import AsyncRust.DemoNode
import AsyncRust.MiniRaft
import Mathlib.Data.List.Forall2

namespace Raft

variable {L : Library}

/-- The map is keyed by the ids of its nodes, so its keys are not repeated. -/
structure Cluster (L : Library) where
  nodes : List (DemoNode L)
  sorted : (nodes.map DemoNode.id).Pairwise (· < ·)

namespace Cluster

/-! ### The map of nodes -/

def ids (cluster : Cluster L) : List ℕ := cluster.nodes.map DemoNode.id

def get? (cluster : Cluster L) (id : ℕ) : Option (DemoNode L) :=
  cluster.nodes.find? fun node => node.id = id

/-- The node of this id is the given one from now on. -/
def setNode (node : DemoNode L) (nodes : List (DemoNode L)) : List (DemoNode L) :=
  nodes.map fun node' => if node'.id = node.id then node else node'

@[simp] theorem map_id_setNode (node : DemoNode L) (nodes : List (DemoNode L)) :
    (setNode node nodes).map DemoNode.id = nodes.map DemoNode.id := by
  rw [setNode, List.map_map]
  refine List.map_congr_left fun node' _ => ?_
  by_cases hid : node'.id = node.id <;> simp [hid]

def set (cluster : Cluster L) (node : DemoNode L) : Cluster L :=
  ⟨setNode node cluster.nodes, by rw [map_id_setNode]; exact cluster.sorted⟩

/-- `BTreeMap::insert`, under the id of the node. -/
def insertNode (node : DemoNode L) : List (DemoNode L) → List (DemoNode L)
  | [] => [node]
  | node' :: nodes =>
    if node.id < node'.id then node :: node' :: nodes
    else if node.id = node'.id then node :: nodes
    else node' :: insertNode node nodes

theorem mem_insertNode {node node' : DemoNode L} {nodes : List (DemoNode L)}
    (h : node' ∈ insertNode node nodes) : node' = node ∨ node' ∈ nodes := by
  induction nodes with
  | nil => simpa [insertNode] using h
  | cons node₁ nodes ih =>
    simp only [insertNode] at h
    split at h
    · simpa using h
    · split at h
      · rcases List.mem_cons.mp h with rfl | h
        · exact .inl rfl
        · exact .inr (List.mem_cons_of_mem _ h)
      · rcases List.mem_cons.mp h with rfl | h
        · exact .inr List.mem_cons_self
        · exact (ih h).imp_right (List.mem_cons_of_mem _)

theorem sorted_insertNode (node : DemoNode L) {nodes : List (DemoNode L)}
    (h : (nodes.map DemoNode.id).Pairwise (· < ·)) :
    ((insertNode node nodes).map DemoNode.id).Pairwise (· < ·) := by
  rw [List.pairwise_map] at h ⊢
  induction nodes with
  | nil => simp [insertNode]
  | cons node' nodes ih =>
    obtain ⟨hhead, htail⟩ := List.pairwise_cons.mp h
    simp only [insertNode]
    split
    · rename_i hlt
      refine List.pairwise_cons.mpr ⟨fun other hother => ?_, h⟩
      rcases List.mem_cons.mp hother with rfl | hother
      · exact hlt
      · exact hlt.trans (hhead other hother)
    · split
      · rename_i heq
        exact List.pairwise_cons.mpr ⟨fun other hother => heq ▸ hhead other hother, htail⟩
      · refine List.pairwise_cons.mpr ⟨fun other hother => ?_, ih htail⟩
        rcases mem_insertNode hother with rfl | hother
        · omega
        · exact hhead other hother

def insert (cluster : Cluster L) (node : DemoNode L) : Cluster L :=
  ⟨insertNode node cluster.nodes, sorted_insertNode node cluster.sorted⟩

/-- The loop of `new` over the ids that are left. -/
def insertAll (voters : List ℕ) : List ℕ → Cluster L → Except Fault (Cluster L)
  | [], cluster => pure cluster
  | id :: ids, cluster => do
    let node ← DemoNode.new id voters
    insertAll voters ids (cluster.insert node)

def new (ids : List ℕ) : Except Fault (Cluster L) := insertAll ids ids ⟨[], by simp⟩

/-! ### Calls of the demo -/

def campaign (cluster : Cluster L) (id : ℕ) : Except Fault Unit × Cluster L :=
  match cluster.get? id with
  | none => (.error (.error [s!"node {id} missing"]), cluster)
  | some node =>
    let (result, node) := node.campaign
    (result, cluster.set node)

def tickAll (cluster : Cluster L) : Cluster L :=
  ⟨cluster.nodes.map DemoNode.tick, by
    rw [List.map_map]
    exact cluster.sorted⟩

def currentLeader (cluster : Cluster L) : Option ℕ :=
  (cluster.nodes.find? fun node => node.role = .leader).map DemoNode.id

def proposePut (cluster : Cluster L) (leaderId : ℕ) (key value : String) :
    Except Fault Unit × Cluster L :=
  match cluster.get? leaderId with
  | none => (.error (.error [s!"leader {leaderId} missing"]), cluster)
  | some node =>
    let (result, node) := node.propose (.put key value)
    (result, cluster.set node)

def allNodesAgree (cluster : Cluster L) (key : String) : Option String :=
  match cluster.nodes with
  | [] => none
  | node :: nodes => do
    let first ← node.valueFor key
    if nodes.all fun node => node.valueFor key = some first then some first else none

/-! ### `process_ready` -/

/-- A call on a node: a poll, with the node before it and what it returned, or a
step. -/
inductive Call (L : Library) where
  | pollReady (node : DemoNode L) (outcome : Option (ReadyBundle L))
  | step (id : ℕ) (msg : L.Message)

/-- The variables of one pass of the loop, when all nodes have been polled. -/
structure Pass (L : Library) where
  nodes : List (DemoNode L)
  madeProgress : Bool
  outbound : List L.Message
  applied : List ApplyReport
  calls : List (Call L)

/-- The poll of one node, with what the polls after it bring. -/
def Pass.cons (node node' : DemoNode L) : Option (ReadyBundle L) → Pass L → Pass L
  | none, pass => { pass with
      nodes := node' :: pass.nodes
      calls := .pollReady node none :: pass.calls }
  | some outcome, pass =>
    { nodes := node' :: pass.nodes
      madeProgress := true
      outbound := outcome.messages ++ pass.outbound
      applied := outcome.applied ++ pass.applied
      calls := .pollReady node (some outcome) :: pass.calls }

/-- The loop over the nodes, with what it leaves for those that are left. -/
def pollNodes : List (DemoNode L) → Except Fault (Pass L)
  | [] => pure ⟨[], false, [], [], []⟩
  | node :: nodes => do
    let (outcome, node') ← node.pollReady
    let pass ← pollNodes nodes
    pure (.cons node node' outcome pass)

/-- The loop over the messages; one whose receiver is not in the map is dropped. -/
def stepMessages : List (DemoNode L) → List L.Message →
    Except Fault (List (DemoNode L) × List (Call L))
  | nodes, [] => pure (nodes, [])
  | nodes, msg :: msgs =>
    match nodes.find? fun node => node.id = L.msgTo msg with
    | none => stepMessages nodes msgs
    | some target => do
      let (result, target) := target.step msg
      result
      let (nodes, calls) ← stepMessages (setNode target nodes) msgs
      pure (nodes, .step target.id msg :: calls)

/-- The outer loop, for at most `fuel` passes. -/
def processLoop : ℕ → List (DemoNode L) → List ApplyReport → List (Call L) →
    Option (Except Fault (List (DemoNode L) × List ApplyReport × List (Call L)))
  | 0, _, _, _ => none
  | fuel + 1, nodes, applied, calls =>
    match pollNodes nodes with
    | .error fault => some (.error fault)
    | .ok pass =>
      let applied := applied ++ pass.applied
      let calls := calls ++ pass.calls
      if pass.outbound = [] then
        -- a node that was ready may be ready again, without a message to anyone
        if pass.madeProgress then processLoop fuel pass.nodes applied calls
        else some (.ok (pass.nodes, applied, calls))
      else
        match stepMessages pass.nodes pass.outbound with
        | .error fault => some (.error fault)
        | .ok (nodes, calls') => processLoop fuel nodes applied (calls ++ calls')

/-! ### The log of calls -/

namespace Call

def id : Call L → ℕ
  | pollReady node _ => node.id
  | step id _ => id

/-- What the node emits. -/
def messages : Call L → List L.Message
  | pollReady node _ => node.emitted
  | _ => []

/-- What is passed to the node. -/
def passed : Call L → List L.Message
  | step _ msg => [msg]
  | _ => []

def reports : Call L → List ApplyReport
  | pollReady _ (some outcome) => outcome.applied
  | _ => []

/-- The entries that the node applies. -/
def commands : Call L → List Entry
  | pollReady node _ => node.handed.filter Entry.isCommand
  | _ => []

/-- The call, made on this node, succeeds and leaves it as `node'`. -/
def Does : Call L → DemoNode L → DemoNode L → Prop
  | pollReady polled outcome, node, node' =>
    polled = node ∧ node.pollReady = .ok (outcome, node')
  | step _ msg, node, node' => node.step msg = (.ok (), node')

/-- Messages are passed to the node that they are for, and reports are of the
node that is polled. -/
def Addressed : Call L → Prop
  | pollReady node outcome =>
    ∀ bundle, outcome = some bundle → ∀ report ∈ bundle.applied, report.nodeId = node.id
  | step id msg => id = L.msgTo msg

end Call

/-- The calls of the log that are on the node, one after the other, lead it to
`node'`; the others leave it alone. -/
inductive Follows : List (Call L) → DemoNode L → DemoNode L → Prop
  | nil (node : DemoNode L) : Follows [] node node
  | call {call : Call L} {calls : List (Call L)} {node next node' : DemoNode L}
      (hid : call.id = node.id) (hdoes : call.Does node next) (h : Follows calls next node') :
      Follows (call :: calls) node node'
  | skip {call : Call L} {calls : List (Call L)} {node node' : DemoNode L}
      (hid : call.id ≠ node.id) (h : Follows calls node node') : Follows (call :: calls) node node'

theorem Call.Does.id_eq {call : Call L} {node node' : DemoNode L} (h : call.Does node node') :
    node'.id = node.id := by
  cases call with
  | pollReady polled outcome => exact DemoNode.pollReady_id h.2
  | step id msg => exact DemoNode.step_id h

namespace Follows

variable {calls calls' : List (Call L)} {node node' node'' : DemoNode L}

theorem id_eq (h : Follows calls node node') : node'.id = node.id := by
  induction h with
  | nil => rfl
  | call _ hdoes _ ih => exact ih.trans hdoes.id_eq
  | skip _ _ ih => exact ih

theorem append (h : Follows calls node node') (h' : Follows calls' node' node'') :
    Follows (calls ++ calls') node node'' := by
  induction h with
  | nil => exact h'
  | call hid hdoes _ ih => exact .call hid hdoes (ih h')
  | skip hid _ ih => exact .skip hid (ih h')

theorem of_ne (h : ∀ call ∈ calls, call.id ≠ node.id) : Follows calls node node := by
  induction calls with
  | nil => exact .nil node
  | cons call calls ih =>
    exact .skip (h call List.mem_cons_self) (ih fun c hc => h c (List.mem_cons_of_mem _ hc))

end Follows

/-- All nodes follow the log. -/
def AllFollow (calls : List (Call L)) : List (DemoNode L) → List (DemoNode L) → Prop :=
  List.Forall₂ (Follows calls)

namespace AllFollow

variable {calls calls' : List (Call L)} {nodes nodes' nodes'' : List (DemoNode L)}

theorem append (h : AllFollow calls nodes nodes') (h' : AllFollow calls' nodes' nodes'') :
    AllFollow (calls ++ calls') nodes nodes'' := by
  induction h generalizing nodes'' with
  | nil =>
    cases h'
    exact .nil
  | cons hnode _ ih =>
    cases h' with
    | cons hnode' hrest' => exact .cons (hnode.append hnode') (ih hrest')

theorem map_id_eq (h : AllFollow calls nodes nodes') :
    nodes'.map DemoNode.id = nodes.map DemoNode.id := by
  induction h with
  | nil => rfl
  | cons hnode _ ih => rw [List.map_cons, List.map_cons, hnode.id_eq, ih]

/-- A call in front that is on none of the nodes. -/
theorem skip {call : Call L} (hid : ∀ node ∈ nodes, call.id ≠ node.id)
    (h : AllFollow calls nodes nodes') : AllFollow (call :: calls) nodes nodes' := by
  refine ((List.forall₂_and_left _ _).mpr ⟨hid, h⟩).imp ?_
  rintro node node' ⟨hne, hnode⟩
  exact .skip hne hnode

end AllFollow

/-- The log `calls` on the way from `nodes` to `nodes'`, with the messages that were
emitted, those that were passed to a node, and the reports. -/
structure Traced (calls : List (Call L)) (emitted passed : List L.Message)
    (applied : List ApplyReport) (nodes nodes' : List (DemoNode L)) : Prop where
  follow : AllFollow calls nodes nodes'
  known : ∀ call ∈ calls, call.id ∈ nodes.map DemoNode.id
  addressed : ∀ call ∈ calls, call.Addressed
  emitted : calls.flatMap Call.messages = emitted
  passed : calls.flatMap Call.passed = passed
  applied : calls.flatMap Call.reports = applied

namespace Traced

variable {calls calls' : List (Call L)} {emitted emitted' passed passed' : List L.Message}
  {applied applied' : List ApplyReport} {nodes nodes' nodes'' : List (DemoNode L)}

theorem nil (nodes : List (DemoNode L)) : Traced [] [] [] [] nodes nodes where
  follow := List.forall₂_same.mpr fun node _ => .nil node
  known := by simp
  addressed := by simp
  emitted := rfl
  passed := rfl
  applied := rfl

theorem append (h : Traced calls emitted passed applied nodes nodes')
    (h' : Traced calls' emitted' passed' applied' nodes' nodes'') :
    Traced (calls ++ calls') (emitted ++ emitted') (passed ++ passed') (applied ++ applied')
      nodes nodes'' where
  follow := h.follow.append h'.follow
  known call hcall := by
    rcases List.mem_append.mp hcall with hcall | hcall
    · exact h.known call hcall
    · exact h.follow.map_id_eq ▸ h'.known call hcall
  addressed call hcall := by
    rcases List.mem_append.mp hcall with hcall | hcall
    · exact h.addressed call hcall
    · exact h'.addressed call hcall
  emitted := by rw [List.flatMap_append, h.emitted, h'.emitted]
  passed := by rw [List.flatMap_append, h.passed, h'.passed]
  applied := by rw [List.flatMap_append, h.applied, h'.applied]

end Traced

/-! ### One pass -/

/-- The poll of one node in front of the polls of others. -/
theorem Traced.poll {node node' : DemoNode L} {outcome : Option (ReadyBundle L)}
    {nodes : List (DemoNode L)} {pass : Pass L} (hpoll : node.pollReady = .ok (outcome, node'))
    (hne : ∀ other ∈ nodes, other.id ≠ node.id)
    (h : Traced pass.calls pass.outbound [] pass.applied nodes pass.nodes) :
    Traced (pass.cons node node' outcome).calls (pass.cons node node' outcome).outbound []
      (pass.cons node node' outcome).applied (node :: nodes)
      (pass.cons node node' outcome).nodes := by
  have hfollow : AllFollow (.pollReady node outcome :: pass.calls) (node :: nodes)
      (node' :: pass.nodes) := by
    refine .cons (.call rfl ⟨rfl, hpoll⟩ (.of_ne fun call hcall => ?_))
      (h.follow.skip fun other hother => (hne other hother).symm)
    obtain ⟨other, hother, hid⟩ := List.mem_map.mp (h.known call hcall)
    rw [← hid, DemoNode.pollReady_id hpoll]
    exact hne other hother
  have hknown : ∀ call ∈ Call.pollReady node outcome :: pass.calls,
      call.id ∈ (node :: nodes).map DemoNode.id := by
    intro call hcall
    rcases List.mem_cons.mp hcall with rfl | hcall
    · exact List.mem_cons_self
    · exact List.mem_cons_of_mem _ (h.known call hcall)
  have haddressed : ∀ call ∈ Call.pollReady node outcome :: pass.calls,
      call.Addressed := by
    intro call hcall
    rcases List.mem_cons.mp hcall with rfl | hcall
    · rintro bundle rfl report hreport
      exact DemoNode.nodeId_of_pollReady hpoll hreport
    · exact h.addressed call hcall
  have hemitted : (Call.pollReady node outcome :: pass.calls).flatMap Call.messages =
      node.emitted ++ pass.outbound := congrArg (node.emitted ++ ·) h.emitted
  cases outcome with
  | none =>
    rw [DemoNode.emitted_eq_nil hpoll] at hemitted
    exact ⟨hfollow, hknown, haddressed, hemitted, h.passed, h.applied⟩
  | some outcome =>
    rw [← (DemoNode.pollReady_eq_some hpoll).2.1] at hemitted
    exact ⟨hfollow, hknown, haddressed, hemitted, h.passed,
      congrArg (outcome.applied ++ ·) h.applied⟩

theorem pollNodes_traced {nodes : List (DemoNode L)} : ∀ {pass : Pass L},
    (nodes.map DemoNode.id).Nodup → pollNodes nodes = .ok pass →
      Traced pass.calls pass.outbound [] pass.applied nodes pass.nodes := by
  induction nodes with
  | nil =>
    intro pass _ h
    cases h
    exact .nil []
  | cons node nodes ih =>
    intro pass hnodup h
    obtain ⟨hhead, htail⟩ := List.nodup_cons.mp hnodup
    obtain ⟨⟨outcome, node'⟩, hpoll, h⟩ := bind_eq_ok.mp h
    obtain ⟨pass', hpass', h⟩ := bind_eq_ok.mp h
    cases h
    refine (ih htail hpass').poll hpoll fun other hother hid => hhead ?_
    exact hid ▸ List.mem_map_of_mem hother

/-- A pass that makes no progress has found no node ready, and changes none. -/
theorem pollNodes_quiet {nodes : List (DemoNode L)} : ∀ {pass : Pass L},
    pollNodes nodes = .ok pass → pass.madeProgress = false →
      ∀ node ∈ pass.nodes, L.hasReady node.raw node.storage = false := by
  induction nodes with
  | nil =>
    intro pass h _
    cases h
    simp
  | cons node nodes ih =>
    intro pass h hquiet
    obtain ⟨⟨outcome, node'⟩, hpoll, h⟩ := bind_eq_ok.mp h
    obtain ⟨pass', hpass', h⟩ := bind_eq_ok.mp h
    cases h
    cases outcome with
    | none =>
      obtain ⟨hready, rfl⟩ := DemoNode.pollReady_eq_none hpoll
      exact List.forall_mem_cons.mpr ⟨hready, ih hpass' hquiet⟩
    | some outcome => cases hquiet

/-- One message that is passed to its receiver. -/
theorem traced_step {nodes : List (DemoNode L)} {target target' : DemoNode L} {msg : L.Message}
    (hnodup : (nodes.map DemoNode.id).Nodup) (htarget : target ∈ nodes)
    (hid : target.id = L.msgTo msg) (hstep : target.step msg = (.ok (), target')) :
    Traced [.step target.id msg] [] [msg] [] nodes (setNode target' nodes) where
  follow := by
    have hid' : target'.id = target.id := DemoNode.step_id hstep
    refine List.forall₂_map_right_iff.mpr (List.forall₂_same.mpr fun node hnode => ?_)
    by_cases heq : node.id = target'.id
    · have hsame : node = target :=
        List.inj_on_of_nodup_map hnodup hnode htarget (heq.trans hid')
      rw [if_pos heq, hsame]
      exact .call rfl hstep (.nil _)
    · rw [if_neg heq]
      exact .skip (fun h => heq (h.symm.trans hid'.symm)) (.nil _)
  known := by simpa using ⟨target, htarget, rfl⟩
  addressed call hcall := by
    rw [List.mem_singleton.mp hcall]
    exact hid
  emitted := rfl
  passed := rfl
  applied := rfl

/-- A message is known when its receiver is in the map. -/
def Known (nodes : List (DemoNode L)) (msg : L.Message) : Prop :=
  L.msgTo msg ∈ nodes.map DemoNode.id

instance (nodes : List (DemoNode L)) (msg : L.Message) : Decidable (Known nodes msg) :=
  inferInstanceAs (Decidable (_ ∈ _))

theorem stepMessages_traced {msgs : List L.Message} : ∀ {nodes nodes' : List (DemoNode L)}
    {calls : List (Call L)}, (nodes.map DemoNode.id).Nodup →
      stepMessages nodes msgs = .ok (nodes', calls) →
        Traced calls [] (msgs.filter (Known nodes ·)) [] nodes nodes' := by
  induction msgs with
  | nil =>
    intro nodes nodes' calls _ h
    cases h
    exact .nil nodes
  | cons msg msgs ih =>
    intro nodes nodes' calls hnodup h
    rw [stepMessages] at h
    split at h
    · rename_i hfind
      have hunknown : ¬ Known nodes msg := by
        intro hknown
        obtain ⟨node, hnode, hid⟩ := List.mem_map.mp hknown
        simpa [hid] using List.find?_eq_none.mp hfind node hnode
      rw [List.filter_cons_of_neg (by simpa using hunknown)]
      exact ih hnodup h
    · rename_i target hfind
      have htarget : target ∈ nodes := List.mem_of_find?_eq_some hfind
      have hid : target.id = L.msgTo msg := by simpa using List.find?_some hfind
      have hknown : Known nodes msg := by
        rw [Known, ← hid]
        exact List.mem_map_of_mem htarget
      rcases hstep : target.step msg with ⟨result, target'⟩
      simp only [hstep] at h
      obtain ⟨⟨⟩, hresult, h⟩ := bind_eq_ok.mp h
      rw [hresult] at hstep
      obtain ⟨⟨nodes'', calls'⟩, hrest, h⟩ := bind_eq_ok.mp h
      cases h
      have hsame : ∀ msg, Known (setNode target' nodes) msg ↔ Known nodes msg := fun msg => by
        rw [Known, map_id_setNode, Known]
      have hlast := ih (by rwa [map_id_setNode]) hrest
      simp only [hsame] at hlast
      rw [List.filter_cons_of_pos (by simpa using hknown), DemoNode.step_id hstep]
      exact (traced_step hnodup htarget hid hstep).append hlast

/-! ### All passes -/

/-- From the start of `process_ready` to the start of a pass: what was emitted to
known receivers has been passed to them. -/
def Stage (start : List (DemoNode L)) (applied : List ApplyReport) (calls : List (Call L))
    (nodes : List (DemoNode L)) : Prop :=
  ∃ emitted, Traced calls emitted (emitted.filter (Known start ·)) applied start nodes

variable {start nodes nodes' : List (DemoNode L)} {applied applied' : List ApplyReport}
  {calls calls' : List (Call L)}

/-- A pass, with the messages that it brings and the calls that pass them on. -/
theorem Stage.pass {pass : Pass L} (hnodup : (start.map DemoNode.id).Nodup)
    (h : Stage start applied calls nodes) (hpass : pollNodes nodes = .ok pass)
    (hsteps : stepMessages pass.nodes pass.outbound = .ok (nodes', calls')) :
    Stage start (applied ++ pass.applied) (calls ++ pass.calls ++ calls') nodes' := by
  obtain ⟨emitted, h⟩ := h
  have hids := h.follow.map_id_eq
  have hpolls := pollNodes_traced (hids ▸ hnodup) hpass
  have hids' := hpolls.follow.map_id_eq.trans hids
  have hpassed := stepMessages_traced (hids' ▸ hnodup) hsteps
  refine ⟨emitted ++ pass.outbound, ?_⟩
  have hall := (h.append hpolls).append hpassed
  simp only [Known, hids', List.append_nil] at hall
  rw [List.filter_append]
  exact hall

theorem Stage.of_processLoop {fuel : ℕ} (hnodup : (start.map DemoNode.id).Nodup) :
    ∀ {nodes nodes' : List (DemoNode L)} {applied applied' : List ApplyReport}
      {calls calls' : List (Call L)}, Stage start applied calls nodes →
      processLoop fuel nodes applied calls = some (.ok (nodes', applied', calls')) →
        Stage start applied' calls' nodes' ∧
          ∀ node ∈ nodes', L.hasReady node.raw node.storage = false := by
  induction fuel with
  | zero =>
    intro nodes nodes' applied applied' calls calls' _ h
    cases h
  | succ fuel ih =>
    intro nodes nodes' applied applied' calls calls' hstage h
    rw [processLoop] at h
    split at h
    · cases h
    · rename_i pass hpass
      by_cases hout : pass.outbound = []
      · rw [if_pos hout] at h
        have hnext := hstage.pass hnodup hpass (by rw [hout]; rfl)
        rw [List.append_nil] at hnext
        cases hprogress : pass.madeProgress with
        | true =>
          rw [hprogress, if_pos rfl] at h
          exact ih hnext h
        | false =>
          rw [hprogress, if_neg Bool.false_ne_true] at h
          cases h
          exact ⟨hnext, pollNodes_quiet hpass hprogress⟩
      · rw [if_neg hout] at h
        split at h
        · cases h
        · rename_i nodes₁ calls₁ hsteps
          exact ih (hstage.pass hnodup hpass hsteps) h

theorem processLoop_ids {fuel : ℕ} (hnodup : (nodes.map DemoNode.id).Nodup)
    (h : processLoop fuel nodes [] [] = some (.ok (nodes', applied', calls'))) :
    nodes'.map DemoNode.id = nodes.map DemoNode.id := by
  obtain ⟨⟨_, htraced⟩, -⟩ := Stage.of_processLoop hnodup ⟨[], .nil nodes⟩ h
  exact htraced.follow.map_id_eq

/-- More fuel changes nothing about a result. -/
theorem processLoop_mono {fuel fuel' : ℕ} (hle : fuel ≤ fuel') :
    ∀ {nodes : List (DemoNode L)} {applied : List ApplyReport} {calls : List (Call L)}
      {result : Except Fault (List (DemoNode L) × List ApplyReport × List (Call L))},
      processLoop fuel nodes applied calls = some result →
        processLoop fuel' nodes applied calls = some result := by
  induction fuel generalizing fuel' with
  | zero =>
    intro nodes applied calls result h
    cases h
  | succ fuel ih =>
    obtain ⟨fuel', rfl⟩ := Nat.exists_eq_add_one.mpr (Nat.lt_of_lt_of_le fuel.succ_pos hle)
    have ih' := @ih fuel' (Nat.le_of_succ_le_succ hle)
    intro nodes applied calls result h
    rw [processLoop] at h ⊢
    cases hpass : pollNodes nodes with
    | error fault =>
      rw [hpass] at h
      exact h
    | ok pass =>
      simp only [hpass] at h ⊢
      by_cases hout : pass.outbound = []
      · rw [if_pos hout] at h ⊢
        by_cases hprogress : pass.madeProgress = true
        · rw [if_pos hprogress] at h ⊢
          exact ih' h
        · rw [if_neg hprogress] at h ⊢
          exact h
      · rw [if_neg hout] at h ⊢
        cases hsteps : stepMessages pass.nodes pass.outbound with
        | error fault =>
          rw [hsteps] at h
          exact h
        | ok stepped =>
          rw [hsteps] at h
          exact ih' h

/-! ### Reports -/

/-- The entries that the node `id` applies, in its order. -/
def commandsOf (id : ℕ) (calls : List (Call L)) : List Entry :=
  (calls.filter fun call => call.id = id).flatMap Call.commands

def reportsOf (id : ℕ) (applied : List ApplyReport) : List ApplyReport :=
  applied.filter fun report => report.nodeId = id

theorem Call.Addressed.nodeId_eq {call : Call L} (h : call.Addressed) {report : ApplyReport}
    (hreport : report ∈ call.reports) : report.nodeId = call.id := by
  cases call with
  | pollReady node outcome =>
    cases outcome with
    | none => cases hreport
    | some bundle => exact h bundle rfl report hreport
  | step id msg => cases hreport

/-- The reports on a node are those of the calls on it. -/
theorem reportsOf_flatMap (id : ℕ) (h : ∀ call ∈ calls, call.Addressed) :
    reportsOf id (calls.flatMap Call.reports) =
      (calls.filter fun call => call.id = id).flatMap Call.reports := by
  induction calls with
  | nil => rfl
  | cons call calls ih =>
    obtain ⟨hcall, hcalls⟩ := List.forall_mem_cons.mp h
    have hrest := ih hcalls
    rw [reportsOf] at hrest ⊢
    rw [List.flatMap_cons, List.filter_append, hrest]
    by_cases hid : call.id = id
    · rw [List.filter_cons_of_pos (by simpa using hid), List.flatMap_cons]
      congr 1
      refine List.filter_eq_self.mpr fun report hreport => ?_
      simpa using (hcall.nodeId_eq hreport).trans hid
    · rw [List.filter_cons_of_neg (by simpa using hid)]
      refine List.append_left_eq_self.mpr (List.filter_eq_nil_iff.mpr fun report hreport => ?_)
      simpa [hcall.nodeId_eq hreport] using hid

/-- One call: its reports are on the entries that it applies, and its effect on the
state machine is theirs. -/
theorem Call.Does.records {call : Call L} {node next : DemoNode L} (h : call.Does node next) :
    List.Forall₂ (ApplyReport.Records L node.id) call.commands call.reports ∧
      next.stateMachine = call.reports.foldl DemoNode.record node.stateMachine := by
  cases call with
  | pollReady polled outcome =>
    obtain ⟨rfl, hpoll⟩ := h
    cases outcome with
    | none =>
      rw [Call.commands, DemoNode.handed_eq_nil hpoll, (DemoNode.pollReady_eq_none hpoll).2]
      exact ⟨.nil, rfl⟩
    | some bundle =>
      obtain ⟨hrecords, -, -, hvalues⟩ := DemoNode.pollReady_eq_some hpoll
      exact ⟨hrecords, hvalues⟩
  | step id msg =>
    have hnext : next = (node.step msg).2 := (congrArg Prod.snd h).symm
    exact ⟨.nil, hnext ▸ rfl⟩

/-- All calls on a node. -/
theorem Follows.records {node node' : DemoNode L} (h : Follows calls node node') :
    List.Forall₂ (ApplyReport.Records L node.id) (commandsOf node.id calls)
        ((calls.filter fun call => call.id = node.id).flatMap Call.reports) ∧
      node'.stateMachine = ((calls.filter fun call => call.id = node.id).flatMap
        Call.reports).foldl DemoNode.record node.stateMachine := by
  induction h with
  | nil => exact ⟨.nil, rfl⟩
  | call hid hdoes _ ih =>
    obtain ⟨hrecords, hvalues⟩ := hdoes.records
    rw [hdoes.id_eq] at ih
    rw [commandsOf, List.filter_cons_of_pos (by simpa using hid), List.flatMap_cons,
      List.flatMap_cons, List.foldl_append, ← hvalues]
    exact ⟨List.rel_append hrecords ih.1, ih.2⟩
  | skip hid _ ih =>
    rw [commandsOf, List.filter_cons_of_neg (by simpa using hid)]
    exact ih

/-- The reports on each node, up to the start of a pass, and its state machine. -/
theorem Stage.records (h : Stage start applied calls nodes) :
    List.Forall₂ (fun node node' =>
      List.Forall₂ (ApplyReport.Records L node.id) (commandsOf node.id calls)
          (reportsOf node.id applied) ∧
        node'.id = node.id ∧
        node'.stateMachine =
          (reportsOf node.id applied).foldl DemoNode.record node.stateMachine) start nodes := by
  obtain ⟨emitted, htraced⟩ := h
  refine htraced.follow.imp fun node node' hfollows => ?_
  obtain ⟨hrecords, hvalues⟩ := hfollows.records
  rw [← htraced.applied, reportsOf_flatMap node.id htraced.addressed]
  exact ⟨hrecords, hfollows.id_eq, hvalues⟩

/-! ### `process_ready` -/

theorem nodup_ids (cluster : Cluster L) : (cluster.nodes.map DemoNode.id).Nodup :=
  cluster.sorted.imp fun h => h.ne

/-- `process_ready` with at most `fuel` passes: the reports, and the cluster and the log
after it. -/
def processReady (fuel : ℕ) (cluster : Cluster L) :
    Option (Except Fault (List ApplyReport × Cluster L × List (Call L))) :=
  match h : processLoop fuel cluster.nodes [] [] with
  | none => none
  | some (.error fault) => some (.error fault)
  | some (.ok (nodes, applied, calls)) =>
    some (.ok (applied, ⟨nodes, processLoop_ids cluster.nodup_ids h ▸ cluster.sorted⟩, calls))

/-- The result of `process_ready` does not depend on the fuel. -/
theorem processReady_mono {fuel fuel' : ℕ} (hle : fuel ≤ fuel') {cluster : Cluster L}
    {result : Except Fault (List ApplyReport × Cluster L × List (Call L))}
    (h : cluster.processReady fuel = some result) : cluster.processReady fuel' = some result := by
  rw [processReady] at h
  split at h
  · cases h
  · rename_i fault hloop
    rw [processReady]
    have hloop' := processLoop_mono hle hloop
    split <;> simp_all
  · rename_i nodes applied calls hloop
    rw [processReady]
    have hloop' := processLoop_mono hle hloop
    split <;> simp_all

theorem stage_of_processReady {fuel : ℕ} {cluster cluster' : Cluster L}
    (h : cluster.processReady fuel = some (.ok (applied, cluster', calls))) :
    Stage cluster.nodes applied calls cluster'.nodes ∧
      ∀ node ∈ cluster'.nodes, L.hasReady node.raw node.storage = false := by
  rw [processReady] at h
  split at h
  · cases h
  · cases h
  · rename_i hloop
    cases h
    exact Stage.of_processLoop cluster.nodup_ids ⟨[], .nil cluster.nodes⟩ hloop

/-- A call of `process_ready` that has delivered everything: it has made the calls of the
log, and returned the reports `applied`. -/
structure Delivered (cluster : Cluster L) (applied : List ApplyReport) (cluster' : Cluster L)
    (calls : List (Call L)) : Prop where
  /-- These are the calls on the nodes, and nothing else has changed them. -/
  follow : AllFollow calls cluster.nodes cluster'.nodes
  quiet : ∀ node ∈ cluster'.nodes, L.hasReady node.raw node.storage = false
  /-- The messages passed to nodes are those emitted to nodes of the cluster, each as
  often as it was emitted and in this order; all others were dropped. -/
  passed : calls.flatMap Call.passed =
    (calls.flatMap Call.messages).filter fun msg => L.msgTo msg ∈ cluster.ids
  addressed : ∀ id msg, .step id msg ∈ calls → id = L.msgTo msg
  /-- Reports are on nodes of the cluster. -/
  known : ∀ report ∈ applied, report.nodeId ∈ cluster.ids
  /-- The reports on a node are on the entries that it has applied, in its order. -/
  reports : ∀ id ∈ cluster.ids,
    List.Forall₂ (ApplyReport.Records L id) (commandsOf id calls) (reportsOf id applied)
  /-- And what they say is all that was applied to its state machine. -/
  stateMachine : List.Forall₂ (fun node node' => node'.stateMachine =
      (reportsOf node.id applied).foldl DemoNode.record node.stateMachine)
    cluster.nodes cluster'.nodes

/-- **`process_ready` delivers everything.**  In any cluster, and so after any calls of
the demo, when it returns `Ok` no node has a `Ready` left, all messages were passed to
their receivers, and the reports are what the nodes have applied. -/
theorem processReady_delivers {fuel : ℕ} {cluster cluster' : Cluster L}
    {applied : List ApplyReport} {calls : List (Call L)}
    (h : cluster.processReady fuel = some (.ok (applied, cluster', calls))) :
    Delivered cluster applied cluster' calls := by
  obtain ⟨hstage, hquiet⟩ := stage_of_processReady h
  have hrecords := hstage.records
  obtain ⟨emitted, htraced⟩ := hstage
  exact {
    follow := htraced.follow
    quiet := hquiet
    passed := by
      rw [htraced.passed, htraced.emitted]
      rfl
    addressed := fun id msg hcall => htraced.addressed _ hcall
    known := by
      intro report hreport
      rw [← htraced.applied] at hreport
      obtain ⟨call, hcall, hreport⟩ := List.mem_flatMap.mp hreport
      rw [(htraced.addressed call hcall).nodeId_eq hreport]
      exact htraced.known call hcall
    reports := by
      intro id hid
      obtain ⟨node, hnode, rfl⟩ := List.mem_map.mp hid
      exact ((List.forall₂_and_left _ _).mp hrecords).1 node hnode
    stateMachine := hrecords.imp fun node node' h => h.2.2 }

open MiniRaft in
/-- Node 1 is the only voter that it knows, and has a put to apply; node 2 asks for the
votes of 1 and of a node 3 that is not there. -/
theorem processReady_delivers_missing_node :
    ∃ (cluster cluster' : Cluster (miniRaft [])) (applied : List ApplyReport)
      (calls : List (Call (miniRaft []))),
      cluster.processReady 10 = some (.ok (applied, cluster', calls)) ∧
      applied = [⟨1, "k", "v", 2, 1⟩] ∧
      (calls.flatMap Call.messages).map Message.receiver = [1, 3, 2] ∧
      (calls.flatMap Call.passed).map Message.receiver = [1, 2] ∧
      Delivered cluster applied cluster' calls := by
  let node (id : ℕ) (voters : List ℕ) : DemoNode (miniRaft []) :=
    ⟨id, .start id (.newWithConfState voters), .newWithConfState voters, ∅⟩
  let empty : Cluster (miniRaft []) := ⟨[], .nil⟩
  let both := (empty.insert (node 2 [1, 2, 3])).insert (node 1 [1])
  let cluster := ((both.campaign 1).2.campaign 2).2.proposePut 1 "k" "v"
  have hrun : (cluster.2.processReady 10).map (fun result => result.toOption.map fun r =>
      (r.1, (r.2.2.flatMap Call.messages).map Message.receiver,
        (r.2.2.flatMap Call.passed).map Message.receiver)) =
      some (some ([⟨1, "k", "v", 2, 1⟩], [1, 3, 2], [1, 2])) := by decide
  obtain ⟨result, hresult, hsummary⟩ := Option.map_eq_some_iff.mp hrun
  cases result with
  | error fault => cases hsummary
  | ok result =>
    obtain ⟨applied, cluster', calls⟩ := result
    have hsummary := Option.some_inj.mp hsummary
    exact ⟨cluster.2, cluster', applied, calls, hresult, congrArg Prod.fst hsummary,
      congrArg (fun r => r.2.1) hsummary, congrArg (fun r => r.2.2) hsummary,
      processReady_delivers hresult⟩

end Cluster

end Raft
