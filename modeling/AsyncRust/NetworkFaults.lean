/-
No node of a cluster ends another.

What the library promises of a cluster is about all its nodes and the messages between them;
`Library.NodeGuarantees` is what is left of it for one node while the others stand still.

* `Host.serves_step` — a host that hears only what nodes have handed out does not crash;
* `network_keeps_looping` — the network sees to that in a cluster, so no worker crashes;
* `MiniRaft.networkGuarantees` — the small library keeps the promise.
-/
import AsyncRust.RaftNetwork

namespace Raft

open Runs

/-! ### What is relied on -/

/-- What the library promises of a node in a cluster: `Valid` is an invariant of its state and
of the messages that nodes have handed out.  It accepts those that are addressed to it, and
what it hands out can be persisted and applied. -/
structure Library.NodeGuarantees (L : Library) (id : ℕ)
    (Valid : L.Raw → L.Storage → List L.Message → Prop) : Prop where
  tick : ∀ raw storage handed, Valid raw storage handed →
    Valid (L.tick raw storage) storage handed
  campaign : ∀ raw storage handed result raw', Valid raw storage handed →
    L.campaign raw storage = (result, raw') → result ≠ .error .panic ∧ Valid raw' storage handed
  propose : ∀ raw storage handed data result raw', Valid raw storage handed →
    L.role raw = .leader → (L.deserialize data).isOk = true →
      L.propose raw storage [] data = (result, raw') →
        result ≠ .error .panic ∧ Valid raw' storage handed
  step : ∀ raw storage handed msg, Valid raw storage handed → msg ∈ handed → L.msgTo msg = id →
    ∃ raw', L.step raw storage msg = (.ok (), raw') ∧ Valid raw' storage handed
  ready : ∀ raw storage handed ready raw', Valid raw storage handed →
    L.hasReady raw storage = true → L.ready raw storage = (ready, raw') →
      (∀ entry ∈ ready.committedEntries, entry.Harmless L) ∧
      ∃ storage', L.persist storage ready = .ok storage' ∧
        ∀ light raw'', L.advance raw' storage' ready.taken = (light, raw'') →
          (∀ entry ∈ light.committedEntries, entry.Harmless L) ∧
          Valid (L.advanceApply raw'' (L.setCommitIndex storage' light.commitIndex))
            (L.setCommitIndex storage' light.commitIndex)
            (handed ++ (ready.messages ++ ready.persistedMessages ++ light.messages))

/-- What the library promises of the nodes `voters` that hear from each other only, over a
network that loses and delays messages: each node can rely on it, whatever the others do. -/
structure Library.NetworkGuarantees (L : Library) (voters : List ℕ)
    (Valid : (ℕ → L.Raw × L.Storage) → List L.Message → Prop) : Prop where
  newRaw : ∀ nodes : ℕ → L.Raw × L.Storage,
    (∀ id ∈ voters, L.newRaw (config id) (L.newWithConfState voters []) = .ok (nodes id).1 ∧
      (nodes id).2 = L.newWithConfState voters []) → Valid nodes []
  node : ∀ (nodes : ℕ → L.Raw × L.Storage), ∀ id ∈ voters,
    L.NodeGuarantees id fun raw storage => Valid (Function.update nodes id (raw, storage))

variable {L : Library}

/-! ### One host -/

section
variable {id : ℕ} {Valid : L.Raw → L.Storage → List L.Message → Prop}

/-- The node, in a valid state of the library. -/
structure RaftNode.Serves (id : ℕ) (Valid : L.Raw → L.Storage → List L.Message → Prop)
    (node : RaftNode L) (handed : List L.Message) : Prop where
  id_eq : node.id = id
  valid : Valid node.raw node.storage handed

variable {handed : List L.Message}

theorem pollReady_of_serves (hK : L.NodeGuarantees id Valid) {node : RaftNode L}
    (h : node.Serves id Valid handed) : ∃ bundle node', node.pollReady = .ok (bundle, node') ∧
      node'.Serves id Valid (handed ++ (bundle.map ReadyBundle.messages).getD []) := by
  cases hready : L.hasReady node.raw node.storage with
  | false =>
    refine ⟨none, node, RaftNode.pollReady_of_not_hasReady hready, ?_⟩
    rw [Option.map_none, Option.getD_none, List.append_nil]
    exact h
  | true =>
    rcases hraw : L.ready node.raw node.storage with ⟨ready, raw⟩
    obtain ⟨hcommitted, storage, hpersist, hadvance⟩ :=
      hK.ready _ _ _ _ _ h.valid hready hraw
    rcases hlight : L.advance raw storage ready.taken with ⟨light, raw'⟩
    obtain ⟨hcommitted', hvalid⟩ := hadvance light raw' hlight
    obtain ⟨applied, store, happly⟩ :=
      applyEntries_of_harmless { node with raw, storage } hcommitted
    obtain ⟨applied', store', happly'⟩ := applyEntries_of_harmless
      ⟨node.id, raw', L.setCommitIndex storage light.commitIndex, store⟩ hcommitted'
    exact ⟨_, _, RaftNode.pollReady_of_applyEntries hready hraw hpersist happly hlight rfl happly',
      h.id_eq, hvalid⟩

/-- A client request is handled without a panic. -/
theorem handleClientRequest_of_serves (hK : L.NodeGuarantees id Valid) (hL : L.BincodeLaws)
    {w : Worker L} (h : w.node.Serves id Valid handed) (req : ClientRequest) :
    ∃ more w', w.handleClientRequest req = .ok (more, w') ∧ w'.node.Serves id Valid handed := by
  cases req with
  | put key value ch =>
    simp only [Worker.handleClientRequest]
    split
    · exact ⟨_, _, rfl, h⟩
    · rename_i hleader
      -- only a leader proposes
      cases hencode : L.serialize (.put key value) with
      | error err =>
        simp only [RaftNode.propose, CommandPayload.encode, hencode]
        exact ⟨_, _, rfl, h⟩
      | ok data =>
        rcases hpropose : L.propose w.node.raw w.node.storage [] data with ⟨result, raw⟩
        have hdata : (L.deserialize data).isOk = true := by
          rw [hL.deserialize_serialize _ _ hencode]
          rfl
        obtain ⟨hpanic, hvalid⟩ :=
          hK.propose _ _ _ _ _ _ h.valid (not_not.mp hleader) hdata hpropose
        have heq : w.node.propose (.put key value) =
            (context "propose failed" result, { w.node with raw }) := by
          simp only [RaftNode.propose, CommandPayload.encode, hencode]
          simp [Except.mapError, hpropose]
        rw [heq]
        rcases result with (chain | _) | _
        · exact ⟨_, _, rfl, h.id_eq, hvalid⟩
        · exact absurd rfl hpanic
        · exact ⟨_, _, rfl, h.id_eq, hvalid⟩
  | get key ch | status ch | shutdown => exact ⟨_, _, rfl, h⟩
  | campaign ch =>
    rcases hcampaign : L.campaign w.node.raw w.node.storage with ⟨result, raw⟩
    obtain ⟨hpanic, hvalid⟩ := hK.campaign _ _ _ _ _ h.valid hcampaign
    have heq : w.node.campaign = (context "campaign failed" result, { w.node with raw }) := by
      simp only [RaftNode.campaign, hcampaign]
    simp only [Worker.handleClientRequest, heq]
    rcases result with (chain | _) | _
    · exact ⟨_, _, rfl, h.id_eq, hvalid⟩
    · exact absurd rfl hpanic
    · exact ⟨_, _, rfl, h.id_eq, hvalid⟩

/-- A message of a bundle is dispatched without an error. -/
theorem dispatchMessage_of_serves (hK : L.NodeGuarantees id Valid) {w : Worker L}
    (h : w.node.Serves id Valid handed) {msg : L.Message} (hmsg : msg ∈ handed)
    (sendErr : Option String) :
    ∃ w', w.dispatchMessage msg sendErr = .ok w' ∧ w'.node.Serves id Valid handed := by
  simp only [Worker.dispatchMessage]
  split
  · rename_i hto
    obtain ⟨raw, hstep, hvalid⟩ := hK.step _ _ _ _ h.valid hmsg (hto.trans h.id_eq)
    simp only [RaftNode.step, hstep]
    exact ⟨_, rfl, h.id_eq, hvalid⟩
  · split
    · exact ⟨_, rfl, h⟩
    · refine ⟨_, rfl, ?_⟩
      unfold Worker.sendMessage
      split <;> exact h

namespace Host

/-- A host in good order: it hands out what its node does, and has not crashed. -/
structure Serves (id : ℕ) (Valid : L.Raw → L.Storage → List L.Message → Prop) (s : Host L)
    (handed : List L.Message) : Prop where
  node : s.worker.node.Serves id Valid handed
  unsent : ∀ msg ∈ s.phase.unsent, msg ∈ handed
  alive : ∀ fault, s.phase ≠ .crashed fault

variable {s s' : Host L} {e : Event}

theorem serves_afterSelect (hK : L.NodeGuarantees id Valid)
    (h : s.worker.node.Serves id Valid handed) (ticked : Bool) :
    (s.afterSelect ticked).Serves id Valid handed := by
  cases ticked with
  | false => exact ⟨h, List.forall_mem_nil _, fun fault => by simp [afterSelect]⟩
  | true =>
    exact ⟨⟨h.id_eq, hK.tick _ _ _ h.valid⟩, List.forall_mem_nil _,
      fun fault => by simp [afterSelect]⟩

theorem serves_recvClient (hK : L.NodeGuarantees id Valid) (hL : L.BincodeLaws) {ticked : Bool}
    (h : s.Serves id Valid handed) (hstep : s.recvClient ticked = some s') :
    s'.Serves id Valid handed := by
  unfold recvClient at hstep
  split at hstep
  · split at hstep <;> cases hstep
    exact ⟨h.node, List.forall_mem_nil _, fun fault => by simp⟩
  · rename_i req rest hqueue
    obtain ⟨more, w, hhandle, hw⟩ := handleClientRequest_of_serves hK hL h.node req
    rw [hhandle] at hstep
    cases more with
    | false =>
      cases hstep
      exact ⟨hw, List.forall_mem_nil _, fun fault => by simp⟩
    | true =>
      cases hstep
      exact serves_afterSelect hK hw ticked

theorem serves_recvNetwork (hK : L.NodeGuarantees id Valid) {ticked : Bool}
    (h : s.Serves id Valid handed)
    (htaken : ∀ msg ∈ s.taken (.recvNetwork ticked), msg ∈ handed ∧ L.msgTo msg = id)
    (hstep : s.recvNetwork ticked = some s') : s'.Serves id Valid handed := by
  unfold recvNetwork at hstep
  split at hstep
  · split at hstep <;> cases hstep
    exact ⟨h.node, List.forall_mem_nil _, fun fault => by simp⟩
  · rename_i msg rest hqueue
    obtain ⟨hmsg, hto⟩ := htaken msg (by simp [taken, hqueue])
    obtain ⟨raw, hraw, hvalid⟩ := hK.step _ _ _ _ h.node.valid hmsg hto
    simp only [RaftNode.step, hraw] at hstep
    cases hstep
    have hnode : RaftNode.Serves id Valid { s.worker.node with raw } handed :=
      ⟨h.node.id_eq, hvalid⟩
    exact serves_afterSelect hK hnode ticked

theorem serves_poll (hK : L.NodeGuarantees id Valid) (h : s.Serves id Valid handed) :
    ∃ more, s.poll.Serves id Valid (handed ++ more) := by
  obtain ⟨bundle, node, hpoll, hnode⟩ := pollReady_of_serves hK h.node
  simp only [poll, hpoll]
  cases bundle with
  | none =>
    refine ⟨[], ?_, List.forall_mem_nil _, fun fault => by simp⟩
    simp only [Worker.logRoleChange, Worker.log]
    split <;> exact hnode
  | some bundle =>
    exact ⟨bundle.messages, hnode, fun msg hmsg => List.mem_append_right _ hmsg,
      fun fault => by simp⟩

theorem serves_dispatch (hK : L.NodeGuarantees id Valid) (h : s.Serves id Valid handed)
    {messages : List L.Message} {applied : List ApplyReport}
    (hphase : s.phase = .dispatching messages applied) (sendErr : Option String) :
    (s.dispatch messages applied sendErr).Serves id Valid handed := by
  have hunsent : ∀ msg ∈ messages, msg ∈ handed := by
    have hunsent := h.unsent
    rwa [hphase] at hunsent
  cases messages with
  | nil => exact ⟨h.node, List.forall_mem_nil _, fun fault => by simp [dispatch]⟩
  | cons msg messages =>
    obtain ⟨w, hdispatch, hw⟩ :=
      dispatchMessage_of_serves hK h.node (hunsent msg List.mem_cons_self) sendErr
    simp only [dispatch, hdispatch]
    exact ⟨hw, fun msg' hmsg' => hunsent msg' (List.mem_cons_of_mem _ hmsg'), fun fault => by simp⟩

theorem serves_notify (h : s.Serves id Valid handed) (applied : List ApplyReport) :
    (s.notify applied).Serves id Valid handed := by
  cases applied with
  | nil => exact ⟨h.node, List.forall_mem_nil _, fun fault => by simp [notify]⟩
  | cons report applied =>
    have hnode : (s.worker.notifyPut report).node = s.worker.node := by
      simp only [Worker.notifyPut, Worker.log]
      split <;> rfl
    refine ⟨?_, List.forall_mem_nil _, fun fault => by simp [notify]⟩
    show (s.worker.notifyPut report).node.Serves id Valid handed
    exact hnode ▸ h.node

theorem Serves.of_eq (h : s.Serves id Valid handed) (hnode : s'.worker.node = s.worker.node)
    (hphase : s'.phase = s.phase) : s'.Serves id Valid handed :=
  ⟨hnode ▸ h.node, hphase ▸ h.unsent, hphase ▸ h.alive⟩

theorem serves_receive (h : s.Serves id Valid handed) (bytes : List UInt8) :
    (s.receive bytes).Serves id Valid handed := by
  unfold receive
  split
  · exact h.of_eq rfl rfl
  · split <;> exact h.of_eq rfl rfl

/-- A host that takes only what nodes have handed out for it does not crash. -/
theorem serves_step (hK : L.NodeGuarantees id Valid) (hL : L.BincodeLaws)
    (h : s.Serves id Valid handed) (htaken : ∀ msg ∈ s.taken e, msg ∈ handed ∧ L.msgTo msg = id)
    (hstep : s.step e = some s') : ∃ more, s'.Serves id Valid (handed ++ more) := by
  -- only a poll hands out more
  have hsame : s'.Serves id Valid handed → ∃ more, s'.Serves id Valid (handed ++ more) :=
    fun h' => ⟨[], by rwa [List.append_nil]⟩
  cases step_cases hstep with
  | request | dropHandle | dropListener => exact hsame (h.of_eq rfl rfl)
  | connection bytes => exact hsame (serves_receive h bytes)
  | recvClient hphase hrecv => exact hsame (serves_recvClient hK hL h hrecv)
  | recvNetwork hphase hrecv => exact hsame (serves_recvNetwork hK h htaken hrecv)
  | timeout ticked => exact hsame (serves_afterSelect hK h.node ticked)
  | poll => exact serves_poll hK h
  | dispatch sendErr hphase => exact hsame (serves_dispatch hK h hphase sendErr)
  | notify => exact hsame (serves_notify h _)

/-- A worker stops in one of the three ways only. -/
theorem ends_of_stopped {cause : StopCause} (hrunning : s.phase.running = true)
    (hstep : s.step e = some s') (hphase : s'.phase = .stopped cause) : Ends s e s' := by
  have hsame : s'.phase = s.phase → Ends s e s' := fun heq => by
    rw [← heq, hphase] at hrunning
    cases hrunning
  cases step_cases hstep with
  | request | dropHandle | dropListener => exact hsame rfl
  | connection bytes =>
    refine hsame ?_
    unfold receive
    split
    · rfl
    · split <;> rfl
  | recvClient _ hrecv =>
    unfold recvClient at hrecv
    split at hrecv
    · rename_i hqueue
      split at hrecv <;> cases hrecv
      rename_i hopen
      exact .clientDropped hqueue (by simpa using hopen) rfl
    · rename_i req rest hqueue
      split at hrecv
      · cases hrecv
        cases hphase
      · rename_i worker hhandle
        cases hrecv
        obtain ⟨rfl, -⟩ := shutdown_of_handleClientRequest hhandle
        exact .shutdown hqueue rfl
      · cases hrecv
        cases hphase
  | recvNetwork _ hrecv =>
    unfold recvNetwork at hrecv
    split at hrecv
    · rename_i hqueue
      split at hrecv <;> cases hrecv
      rename_i hopen
      exact .listenerGone hqueue (by simpa using hopen) rfl
    · split at hrecv <;> cases hrecv <;> cases hphase
  | timeout ticked => cases hphase
  | poll =>
    unfold poll at hphase
    split at hphase <;> cases hphase
  | dispatch =>
    unfold dispatch at hphase
    split at hphase
    · cases hphase
    · split at hphase <;> cases hphase
  | @notify applied => cases applied <;> cases hphase

end Host

end

/-! ### The cluster -/

namespace Network

variable {peers : Std.TreeMap ℕ String} {s s' s₀ : Network L} {ce : NetworkEvent}
variable {Valid : (ℕ → L.Raw × L.Storage) → List L.Message → Prop} {handed : List L.Message}

/-- The library's part of each node. -/
def nodes (s : Network L) (id : ℕ) : L.Raw × L.Storage :=
  ((s.hosts id).worker.node.raw, (s.hosts id).worker.node.storage)

/-- The library is in a valid state, and all hosts are in good order. -/
structure Sound (peers : Std.TreeMap ℕ String)
    (Valid : (ℕ → L.Raw × L.Storage) → List L.Message → Prop) (s : Network L)
    (handed : List L.Message) : Prop where
  valid : Valid s.nodes handed
  id_eq : ∀ id ∈ peers, (s.hosts id).worker.node.id = id
  unsent : ∀ id ∈ peers, ∀ msg ∈ (s.hosts id).phase.unsent, msg ∈ handed
  alive : ∀ id ∈ peers, ∀ fault, (s.hosts id).phase ≠ .crashed fault

theorem Sound.act (hG : L.NetworkGuarantees peers.keys Valid) (hL : L.BincodeLaws)
    (hs : Sound peers Valid s handed) {id : ℕ} {e : Event} {host : Host L} (hid : id ∈ peers)
    (hstep : (s.hosts id).step e = some host)
    (htaken : ∀ msg ∈ (s.hosts id).taken e, msg ∈ handed ∧ L.msgTo msg = id)
    (arrived : List (ℕ × ℕ)) :
    ∃ more, Sound peers Valid ⟨Function.update s.hosts id host, arrived⟩ (handed ++ more) := by
  have hK := hG.node s.nodes id (Std.TreeMap.mem_keys.mpr hid)
  have hnode : Valid (Function.update s.nodes id (s.nodes id)) handed := by
    rw [Function.update_eq_self]
    exact hs.valid
  obtain ⟨more, hserves⟩ := Host.serves_step hK hL
    ⟨⟨hs.id_eq id hid, hnode⟩, hs.unsent id hid, hs.alive id hid⟩ htaken hstep
  have hnodes : nodes ⟨Function.update s.hosts id host, arrived⟩ =
      Function.update s.nodes id (host.worker.node.raw, host.worker.node.storage) := by
    funext id'
    by_cases heq : id' = id
    · subst heq
      simp only [nodes, Function.update_self]
    · simp only [nodes, Function.update_of_ne heq]
  refine ⟨more, hnodes ▸ hserves.node.valid, fun id' hid' => ?_, fun id' hid' => ?_,
    fun id' hid' => ?_⟩
  all_goals
    by_cases heq : id' = id
    · subst heq
      simp only [Function.update_self]
      first | exact hserves.node.id_eq | exact hserves.unsent | exact hserves.alive
    · simp only [Function.update_of_ne heq]
      first
        | exact hs.id_eq id' hid'
        | exact fun msg hmsg => List.mem_append_left _ (hs.unsent id' hid' msg hmsg)
        | exact hs.alive id' hid'

theorem sound_of_spawned (hG : L.NetworkGuarantees peers.keys Valid) (hspawn : Spawned peers s₀) :
    Sound peers Valid s₀ [] := by
  have hhost : ∀ id ∈ peers, ∃ raw,
      L.newRaw (config id) (L.newWithConfState peers.keys []) = .ok raw ∧
      s₀.hosts id = .start (.new ⟨id, raw, L.newWithConfState peers.keys [], .new⟩ peers) := by
    intro id hid
    obtain ⟨addr, haddr⟩ := Option.isSome_iff_exists.mp (Std.TreeMap.mem_iff_isSome_getElem?.mp hid)
    obtain ⟨-, node, hnode, hstart⟩ := spawnNode_eq_ok (hspawn.hosts id addr haddr)
    obtain ⟨raw, hraw, hnew⟩ := bind_eq_ok.mp hnode
    cases hnew
    exact ⟨raw, context_eq_ok.mp hraw, hstart⟩
  refine ⟨hG.newRaw _ fun id hid => ?_, fun id hid => ?_, fun id hid => ?_, fun id hid => ?_⟩
  · obtain ⟨raw, hraw, hstart⟩ := hhost id (Std.TreeMap.mem_keys.mp hid)
    simp only [nodes, hstart]
    exact ⟨hraw, rfl⟩
  all_goals obtain ⟨raw, hraw, hstart⟩ := hhost id hid; rw [hstart]
  · rfl
  · exact List.forall_mem_nil _
  · exact fun fault => by simp [Host.start]

theorem mem_unsent_of_dispatched {host : Host L} {e : Event} {msg : L.Message}
    (h : host.dispatched e = some msg) : msg ∈ host.phase.unsent := by
  unfold Host.dispatched at h
  split at h
  · split at h
    · rename_i hphase
      split at h <;> cases h
      rw [hphase]
      exact List.mem_cons_self
    · cases h
  · cases h

/-- What a host takes off the network has been handed out for it. -/
theorem handed_of_taken {dispatched taken sent : ℕ → List L.Message}
    (hc : Carries peers s dispatched taken sent)
    (hhanded : ∀ id ∈ peers, ∀ msg ∈ dispatched id, msg ∈ handed) {id : ℕ} (hid : id ∈ peers)
    {e : Event} : ∀ msg ∈ (s.hosts id).taken e, msg ∈ handed ∧ L.msgTo msg = id := by
  intro msg hmsg
  have hqueue : msg ∈ (s.hosts id).networkQueue := by
    unfold Host.taken at hmsg
    split at hmsg
    · exact List.mem_of_mem_head? hmsg
    · cases hmsg
  obtain ⟨hto, id', hid', -, hsent⟩ := hc.from_other hid (List.mem_append_right _ hqueue)
  exact ⟨hhanded id' hid' msg ((hc.dispatched id' hid').subset hsent), hto⟩

/-- The network carries what the hosts have handed out, and all is in good order. -/
structure Works (peers : Std.TreeMap ℕ String)
    (Valid : (ℕ → L.Raw × L.Storage) → List L.Message → Prop) (s : Network L)
    (dispatched taken : ℕ → List L.Message) : Prop where
  carries : ∃ sent, Carries peers s dispatched taken sent
  sound : ∃ handed, Sound peers Valid s handed ∧
    ∀ id ∈ peers, ∀ msg ∈ dispatched id, msg ∈ handed

theorem Works.step {dispatched taken : ℕ → List L.Message}
    (hG : L.NetworkGuarantees peers.keys Valid) (hL : L.BincodeLaws) (hapart : Apart peers)
    (hs : Works peers Valid s dispatched taken) (h : s.step peers ce = some s')
    (hfits : s.Fits ce) :
    Works peers Valid s' (fun id => dispatched id ++ (s.atHost Host.dispatched id ce).toList)
      fun id => taken id ++ (s.atHost Host.taken id ce).toList := by
  obtain ⟨⟨sent, hcarries⟩, handed, hsound, hhanded⟩ := hs
  refine ⟨hcarries.step hapart h hfits, ?_⟩
  -- a connection hands out nothing
  have hconnection : ∀ {receiver : ℕ} {bytes : List UInt8} {host : Host L} (arrived : List (ℕ × ℕ)),
      receiver ∈ peers → (s.hosts receiver).step (.connection bytes) = some host →
        ∃ handed, Sound peers Valid ⟨Function.update s.hosts receiver host, arrived⟩ handed ∧
          ∀ id ∈ peers, ∀ msg ∈ dispatched id ++ [], msg ∈ handed := by
    intro receiver bytes host arrived hreceiver hmove
    obtain ⟨more, hsound'⟩ := hsound.act hG hL hreceiver hmove
      (handed_of_taken hcarries hhanded hreceiver) arrived
    refine ⟨_, hsound', fun id hid msg hmsg => ?_⟩
    rw [List.append_nil] at hmsg
    exact List.mem_append_left _ (hhanded id hid msg hmsg)
  cases step_cases h with
  | @host id e host hid he hmove =>
    obtain ⟨more, hsound'⟩ := hsound.act hG hL hid hmove
      (handed_of_taken hcarries hhanded hid) s.arrived
    refine ⟨_, hsound', fun id' hid' msg hmsg => List.mem_append_left _ ?_⟩
    rcases List.mem_append.mp hmsg with hmsg | hmsg
    · exact hhanded id' hid' msg hmsg
    · simp only [atHost] at hmsg
      split at hmsg
      · rename_i heq
        subst heq
        exact hsound.unsent id hid msg (mem_unsent_of_dispatched (Option.mem_toList.mp hmsg))
      · cases hmsg
  | arrive hwire hsender hreceiver hnew hmove =>
    exact hconnection _ (Std.TreeMap.mem_iff_isSome_getElem?.mpr (by rw [hreceiver]; rfl)) hmove
  | broken hreceiver hcut hmove => exact hconnection _ hreceiver hmove

theorem works_of_run (hG : L.NetworkGuarantees peers.keys Valid) (hL : L.BincodeLaws)
    (hspawn : Spawned peers s₀) (hapart : Apart peers) {ces : List NetworkEvent}
    (hrun : run (Network.step peers) s₀ ces = some s)
    (hfits : Meets (Network.step peers) Fits s₀ ces) : Works peers Valid s
      (fun id => collect (Network.step peers) (atHost Host.dispatched id) s₀ ces)
      fun id => collect (Network.step peers) (atHost Host.taken id) s₀ ces := by
  refine run_history_of_meets (J := fun ces s => Works peers Valid s
    (fun id => collect (Network.step peers) (atHost Host.dispatched id) s₀ ces)
    fun id => collect (Network.step peers) (atHost Host.taken id) s₀ ces) ?_ ?_ hfits hrun
  · exact ⟨⟨_, carries_of_spawned hspawn⟩, [], sound_of_spawned hG hspawn,
      fun id _ => List.forall_mem_nil _⟩
  · intro ces t ce t' hrun ht hok hstep
    simp only [collect_concat hrun hstep]
    exact ht.step hG hL hapart hstep hok

end Network

/-- **No node of a cluster ends another.**  All nodes are started with the same entries and have
addresses of their own, each message that is dispatched is read back from its encoding, which
is shorter than 2³² bytes, and nothing else connects to the listeners than these nodes, over
connections that may break, be delayed or fail.  Then no worker ever crashes: each goes on
until it takes a shutdown request, finds the client handle dropped, or finds the listener
gone. -/
theorem network_keeps_looping {entries : List String} {peers : Std.TreeMap ℕ String}
    {Valid : (ℕ → L.Raw × L.Storage) → List L.Message → Prop}
    (hG : L.NetworkGuarantees peers.keys Valid) (hL : L.BincodeLaws) {s₀ s : Network L}
    {ces : List NetworkEvent} (hpeers : parsePeers entries = .ok peers)
    (hstart : Network.Started entries s₀) (hapart : Network.Apart peers)
    (hrun : run (Network.step peers) s₀ ces = some s)
    (hfits : Meets (Network.step peers) Network.Fits s₀ ces) : ∀ id ∈ peers,
      (∀ fault, (s.hosts id).phase ≠ .crashed fault) ∧ ∀ e, (s.hosts id).KeepsLooping e := by
  intro id hid
  obtain ⟨⟨sent, hcarries⟩, handed, hsound, hhanded⟩ :=
    Network.works_of_run hG hL (hstart.spawned hpeers) hapart hrun hfits
  refine ⟨hsound.alive id hid, fun e host hmove hrunning => ?_⟩
  obtain ⟨more, hsound'⟩ := hsound.act hG hL hid hmove
    (Network.handed_of_taken hcarries hhanded hid) s.arrived
  have halive := hsound'.alive id hid
  simp only [Function.update_self] at halive
  cases hphase : host.phase with
  | stopped cause => exact .inr (Host.ends_of_stopped hrunning hmove hphase)
  | crashed fault => exact absurd hphase (halive fault)
  | selecting | polling | dispatching | notifying => exact .inl rfl

/-! ### The small library keeps its promises -/

namespace MiniRaft

variable {known : List Message} {voters : List ℕ} {id : ℕ} {raw : Raw} {msg : Message}

/-- What node `id` sends to others: none of its messages is local or a proposal, and the only
entries in them are those of new leaders. -/
structure Message.Usual (id : ℕ) (msg : Message) : Prop where
  sender : msg.sender = id
  notLocal : msg.msgType.isLocal = false
  notPropose : msg.msgType ≠ .msgPropose
  entries : ∀ entry ∈ msg.entries, entry.data = []

/-- The node knows the voters, and sends what is usual. -/
structure Raw.Usual (voters : List ℕ) (id : ℕ) (raw : Raw) : Prop where
  id_eq : raw.id = id
  voters_eq : raw.voters = voters
  msgs : ∀ msg ∈ raw.msgs, msg.Usual id

namespace Raw.Usual

theorem send (h : raw.Usual voters id) {msgs : List Message} (hmsgs : ∀ msg ∈ msgs, msg.Usual id) :
    Raw.Usual voters id { raw with msgs := raw.msgs ++ msgs } where
  id_eq := h.id_eq
  voters_eq := h.voters_eq
  msgs m hm := (List.mem_append.mp hm).elim (h.msgs m) (hmsgs m)

theorem broadcast (h : raw.Usual voters id) (hmsg : msg.Usual id) :
    (raw.broadcast msg).Usual voters id := by
  refine h.send fun m hm => ?_
  obtain ⟨receiver, -, rfl⟩ := List.mem_map.mp hm
  exact ⟨hmsg.sender, hmsg.notLocal, hmsg.notPropose, hmsg.entries⟩

theorem respond (h : raw.Usual voters id) {response : Message}
    (hlocal : response.msgType.isLocal = false) (hpropose : response.msgType ≠ .msgPropose)
    (hentries : response.entries = []) : (raw.respond msg response).Usual voters id := by
  refine h.send fun m hm => ?_
  rw [List.mem_singleton.mp hm]
  refine ⟨h.id_eq, hlocal, hpropose, ?_⟩
  show ∀ entry ∈ response.entries, entry.data = []
  rw [hentries]
  exact List.forall_mem_nil _

theorem becomeLeader (h : raw.Usual voters id) : raw.becomeLeader.Usual voters id := by
  refine broadcast ⟨h.id_eq, h.voters_eq, h.msgs⟩ ⟨h.id_eq, rfl, by simp, fun entry hentry => ?_⟩
  rw [List.mem_singleton.mp hentry]

theorem campaign (h : raw.Usual voters id) : raw.campaign.Usual voters id := by
  unfold Raw.campaign
  split
  · exact h
  · have hcandidate : Raw.Usual voters id { raw with
        role := .candidate, leaderId := 0, term := raw.term + 1, vote := raw.id
        votes := [raw.id] } := ⟨h.id_eq, h.voters_eq, h.msgs⟩
    show Raw.Usual voters id (if _ then _ else _)
    split
    · exact hcandidate.becomeLeader
    · exact hcandidate.broadcast ⟨h.id_eq, rfl, by simp, List.forall_mem_nil _⟩

/-- A leader proposes to its own log. -/
theorem propose (h : raw.Usual voters id) (hleader : raw.role = .leader) (data : List UInt8) :
    (raw.propose data).2.Usual voters id := by
  rw [Raw.propose, Raw.handlePropose, if_pos hleader]
  exact ⟨h.id_eq, h.voters_eq, h.msgs⟩

theorem handleAppend (h : raw.Usual voters id) : (raw.handleAppend msg).Usual voters id := by
  unfold Raw.handleAppend
  split
  · have hlog : Raw.Usual voters id { raw with
        log := overwrite raw.log msg.index msg.entries
        persisted := min raw.persisted (conflictAt raw.log msg.index msg.entries)
        committed := max raw.committed (min msg.commit (msg.index + msg.entries.length)) } :=
      ⟨h.id_eq, h.voters_eq, h.msgs⟩
    exact hlog.respond rfl (by simp) rfl
  · exact h.respond rfl (by simp) rfl

theorem handle (h : raw.Usual voters id) (hpropose : msg.msgType ≠ .msgPropose) :
    (raw.handle msg).2.Usual voters id := by
  have hfollower : ∀ term leaderId, (raw.becomeFollower term leaderId).Usual voters id :=
    fun term leaderId => ⟨h.id_eq, h.voters_eq, h.msgs⟩
  unfold Raw.handle
  split
  · rename_i htype
    exact absurd htype hpropose
  · exact (hfollower _ _).handleAppend
  · show (raw.handleVote msg).Usual voters id
    unfold Raw.handleVote
    split
    · have hvote : Raw.Usual voters id { raw with vote := msg.sender } :=
        ⟨h.id_eq, h.voters_eq, h.msgs⟩
      exact hvote.respond rfl (by simp) rfl
    · exact h.respond rfl (by simp) rfl
  · split
    · have hvotes : Raw.Usual voters id { raw with votes := raw.votes.insert msg.sender } :=
        ⟨h.id_eq, h.voters_eq, h.msgs⟩
      show Raw.Usual voters id (if _ then _ else _)
      split
      · exact hvotes.becomeLeader
      · exact hvotes
    · exact h
  · exact (hfollower _ _).respond rfl (by simp) rfl
  · exact h

theorem step (h : raw.Usual voters id) (hpropose : msg.msgType ≠ .msgPropose) :
    (raw.step msg).2.Usual voters id := by
  unfold Raw.step
  split
  · exact h
  · split
    · exact h
    · split
      · exact h
      · split
        · have hfollower : (raw.becomeFollower msg.term 0).Usual voters id :=
            ⟨h.id_eq, h.voters_eq, h.msgs⟩
          exact hfollower.handle hpropose
        · exact h.handle hpropose

end Raw.Usual

/-- All nodes are good and do what is usual, and so are the messages between them. -/
structure Orderly (known : List Message) (voters : List ℕ) (nodes : ℕ → Raw × Storage)
    (handed : List Message) : Prop where
  good : ∀ id ∈ voters, (nodes id).1.Good known id
  usual : ∀ id ∈ voters, (nodes id).1.Usual voters id
  messages : ∀ msg ∈ handed, ∃ id ∈ voters, msg.Usual id ∧ msg.receiver ≠ id

variable {nodes : ℕ → Raw × Storage} {storage : Storage} {handed : List Message}

theorem Orderly.at (h : Orderly known voters (Function.update nodes id (raw, storage)) handed)
    (hid : id ∈ voters) : raw.Good known id ∧ raw.Usual voters id := by
  have hgood := h.good id hid
  have husual := h.usual id hid
  rw [Function.update_self] at hgood husual
  exact ⟨hgood, husual⟩

/-- Another state of one node, and the messages that it hands out. -/
theorem Orderly.update (h : Orderly known voters (Function.update nodes id (raw, storage)) handed)
    (hid : id ∈ voters) {raw' : Raw} (storage' : Storage) (hgood : raw'.Good known id)
    (husual : raw'.Usual voters id) {more : List Message}
    (hmore : ∀ msg ∈ more, msg.Usual id ∧ msg.receiver ≠ id) :
    Orderly known voters (Function.update nodes id (raw', storage')) (handed ++ more) := by
  refine ⟨fun id' hid' => ?_, fun id' hid' => ?_, fun msg hmsg => ?_⟩
  · by_cases heq : id' = id
    · subst heq
      rwa [Function.update_self]
    · have hothers := h.good id' hid'
      rw [Function.update_of_ne heq] at hothers ⊢
      exact hothers
  · by_cases heq : id' = id
    · subst heq
      rwa [Function.update_self]
    · have hothers := h.usual id' hid'
      rw [Function.update_of_ne heq] at hothers ⊢
      exact hothers
  · rcases List.mem_append.mp hmsg with hmsg | hmsg
    · exact h.messages msg hmsg
    · exact ⟨id, hid, hmore msg hmsg⟩

theorem Orderly.same (h : Orderly known voters (Function.update nodes id (raw, storage)) handed)
    (hid : id ∈ voters) {raw' : Raw} (hgood : raw'.Good known id) (husual : raw'.Usual voters id) :
    Orderly known voters (Function.update nodes id (raw', storage)) handed := by
  have h' := h.update hid storage hgood husual (List.forall_mem_nil _)
  rwa [List.append_nil] at h'

theorem networkGuarantees (known : List Message) (voters : List ℕ) :
    (miniRaft known).NetworkGuarantees voters (Orderly known voters) where
  newRaw := by
    intro nodes hnodes
    have hstart : ∀ id ∈ voters, id ≠ 0 ∧ (nodes id).1 = .start id (.newWithConfState voters) := by
      intro id hid
      obtain ⟨hraw, -⟩ := hnodes id hid
      simp only [miniRaft, newRaw] at hraw
      split at hraw
      · cases hraw
      · rename_i hne
        exact ⟨hne, (Except.ok.inj hraw).symm⟩
    refine ⟨fun id hid => ?_, fun id hid => ?_, List.forall_mem_nil _⟩
    · obtain ⟨hne, hraw⟩ := hstart id hid
      rw [hraw]
      exact ⟨hne, rfl, fun _ => hne.symm, List.forall_mem_nil _, List.forall_mem_nil _⟩
    · obtain ⟨-, hraw⟩ := hstart id hid
      rw [hraw]
      exact ⟨rfl, rfl, List.forall_mem_nil _⟩
  node := by
    intro nodes id hid
    refine ⟨?_, ?_, ?_, ?_, ?_⟩
    · intro raw storage handed h
      exact h
    · intro raw storage handed result raw' h hcampaign
      cases hcampaign
      obtain ⟨hgood, husual⟩ := h.at hid
      exact ⟨by simp, h.same hid hgood.campaign husual.campaign⟩
    · intro raw storage handed data result raw' h hleader hdata hpropose
      obtain ⟨rfl, rfl⟩ := Prod.ext_iff.mp hpropose
      obtain ⟨hgood, husual⟩ := h.at hid
      refine ⟨propose_fst_ne_panic, h.same hid (hgood.handlePropose fun entry hentry => ?_)
        (husual.propose hleader data)⟩
      rw [List.mem_singleton.mp hentry]
      exact .inr (.inr hdata)
    · intro raw storage handed msg h hmsg hto
      obtain ⟨hgood, husual⟩ := h.at hid
      obtain ⟨id', hid', hsent, hne⟩ := h.messages msg hmsg
      have hsender : msg.sender ≠ id := by
        rw [hsent.sender, ← hto]
        exact Ne.symm hne
      have hresponse : ¬ (msg.msgType.isResponse = true ∧ msg.sender ∉ raw.voters) := by
        rw [husual.voters_eq, hsent.sender]
        exact fun hout => hout.2 hid'
      have hdropped : ¬ (msg.msgType = .msgPropose ∧ raw.leaderId = 0) :=
        fun hout => hsent.notPropose hout.1
      exact ⟨(Raw.step raw msg).2,
        Prod.ext (step_fst (by simp [hsent.notLocal]) hresponse hdropped) rfl,
        h.same hid (hgood.step hsender fun entry hentry => .inl (hsent.entries entry hentry))
          (husual.step hsent.notPropose)⟩
    · intro raw storage handed ready raw' h hready hraw
      cases hraw
      obtain ⟨hgood, husual⟩ := h.at hid
      obtain ⟨storage', hpersist⟩ := persist_ok storage (Raw.ready raw).1
      refine ⟨hgood.harmless_committed, storage', hpersist, fun light raw'' hlight => ?_⟩
      cases hlight
      refine ⟨(hgood.ready.stored _ _).harmless_committed,
        h.update hid _ hgood.ready.advance ?_ fun msg hmsg => ?_⟩
      · exact ⟨husual.id_eq, husual.voters_eq, List.forall_mem_nil _⟩
      · -- advancing adds no messages
        rcases List.mem_append.mp hmsg with hmsg | hmsg
        · exact ⟨husual.msgs msg (mem_ready hmsg), hgood.msgs msg (mem_ready hmsg)⟩
        · cases hmsg

end MiniRaft

theorem network_keeps_looping_election : ∃ s : Network electing,
    run (Network.step threeNodes.peers) threeHosts election = some s ∧
    (s.hosts 1).worker.node.role = .leader ∧ ∀ e, (s.hosts 1).KeepsLooping e := by
  have hfits : Meets (Network.step threeNodes.peers) Network.Fits threeHosts election := by
    decide +kernel
  have hrun : (run (Network.step threeNodes.peers) threeHosts election).map (fun s =>
      (s.hosts 1).worker.node.role) = some .leader := by decide +kernel
  obtain ⟨s, hrun, hrole⟩ := Option.map_eq_some_iff.mp hrun
  exact ⟨s, hrun, hrole, (network_keeps_looping (MiniRaft.networkGuarantees _ _)
    (MiniRaft.bincodeLaws _) parsePeers_threePeers started_threeHosts apart_threeNodes hrun hfits
    1 (by decide)).2⟩

end Raft
