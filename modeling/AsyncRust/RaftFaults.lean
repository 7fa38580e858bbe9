/-
What can end a worker.

`Worker::run` passes every error of the node on with `?`, so it ends for good
when a message is refused by `RawNode::step` or when a committed entry cannot be
decoded.

* `pollReady_of_valid`, `handleClientRequest_of_valid`, `dispatchMessage_of_valid`
  — in a valid state, the methods of the worker do not fail;
* `keeps_looping` — if every message that the worker takes off the network comes
  from a peer, is not refused and carries no undecodable command, the worker ends
  only for one of the three reasons that `run` has for it;
* `Host.ends_of_refused` — a refused message ends it;
* `empty_message_ends_worker` — a connection that sends four zero bytes ends it.
-/
import AsyncRust.RaftGuarantees
import AsyncRust.RaftPuts

namespace Raft

open Runs

variable {L : Library}

section

variable {id : ℕ} {Valid : L.Raw → L.Storage → Prop}
variable {FromPeer : L.Raw → L.Storage → L.Message → Prop} {Own : L.Message → Prop}

/-- The node `id`, in a valid state of the library. -/
structure RaftNode.Sound (id : ℕ) (Valid : L.Raw → L.Storage → Prop) (node : RaftNode L) :
    Prop where
  id_eq : node.id = id
  valid : Valid node.raw node.storage

/-! ### The node -/

theorem applyEntries_of_harmless {entries : List Entry} : ∀ (node : RaftNode L),
    (∀ entry ∈ entries, entry.Harmless L) →
      ∃ applied store, node.applyEntries entries = .ok (applied, { node with store }) := by
  induction entries with
  | nil => exact fun node _ => ⟨[], node.store, rfl⟩
  | cons entry entries ih =>
    intro node h
    have hrest : ∀ entry ∈ entries, entry.Harmless L := fun e he => h e (List.mem_cons_of_mem _ he)
    rw [RaftNode.applyEntries]
    split
    · exact ih node hrest
    · rename_i hempty
      split
      · rename_i hnormal
        have hok : (L.deserialize entry.data).isOk = true := by
          rcases h entry List.mem_cons_self with h | h | h
          · exact absurd h hempty
          · exact absurd hnormal h
          · exact h
        cases hdecode : L.deserialize entry.data with
        | error err => simp [hdecode, Except.isOk, Except.toBool] at hok
        | ok payload =>
          obtain ⟨key, value⟩ := payload
          obtain ⟨applied, store, happly⟩ :=
            ih { node with store := node.store.put key value } hrest
          refine ⟨⟨node.id, key, value, entry.index, entry.term⟩ :: applied, store, ?_⟩
          rw [CommandPayload.decode, hdecode]
          exact bind_eq_ok.mpr ⟨_, rfl, bind_eq_ok.mpr ⟨_, happly, rfl⟩⟩
      · exact ih node hrest

/-- Polling a node in a valid state succeeds. -/
theorem pollReady_of_valid (hG : L.Guarantees id Valid FromPeer Own) {node : RaftNode L}
    (h : node.Sound id Valid) : ∃ bundle node', node.pollReady = .ok (bundle, node') ∧
      node'.Sound id Valid ∧
      ∀ b ∈ bundle, ∀ msg ∈ b.messages, L.msgTo msg = id → Own msg := by
  cases hready : L.hasReady node.raw node.storage with
  | false =>
    exact ⟨none, node, RaftNode.pollReady_of_not_hasReady hready, h, fun b hb => by cases hb⟩
  | true =>
    rcases hraw : L.ready node.raw node.storage with ⟨ready, raw⟩
    obtain ⟨hmessages, hcommitted, storage, hpersist, hadvance⟩ :=
      hG.ready _ _ _ _ h.valid hready hraw
    rcases hlight : L.advance raw storage ready.taken with ⟨light, raw'⟩
    obtain ⟨hmessages', hcommitted', hvalid⟩ := hadvance light raw' hlight
    obtain ⟨applied, store, happly⟩ :=
      applyEntries_of_harmless { node with raw, storage } hcommitted
    obtain ⟨applied', store', happly'⟩ := applyEntries_of_harmless
      ⟨node.id, raw', L.setCommitIndex storage light.commitIndex, store⟩ hcommitted'
    refine ⟨_, _, RaftNode.pollReady_of_applyEntries hready hraw hpersist happly hlight rfl happly',
      ⟨h.id_eq, hvalid⟩, ?_⟩
    intro b hb msg hmsg
    cases Option.mem_some_iff.mp hb
    rcases List.mem_append.mp hmsg with hmsg | hmsg
    · exact hmessages msg hmsg
    · exact hmessages' msg hmsg

/-! ### The worker -/

/-- A client request is handled without a panic. -/
theorem handleClientRequest_of_valid (hG : L.Guarantees id Valid FromPeer Own)
    (hL : L.BincodeLaws) {w : Worker L} (h : w.node.Sound id Valid) (req : ClientRequest) :
    ∃ more w', w.handleClientRequest req = .ok (more, w') ∧ w'.node.Sound id Valid := by
  cases req with
  | put key value ch =>
    simp only [Worker.handleClientRequest]
    split
    · exact ⟨_, _, rfl, h⟩
    · -- the proposed entry decodes again, so it is harmless when it comes back
      cases hencode : L.serialize (.put key value) with
      | error err =>
        simp only [RaftNode.propose, CommandPayload.encode, hencode]
        exact ⟨_, _, rfl, h⟩
      | ok data =>
        rcases hpropose : L.propose w.node.raw w.node.storage [] data with ⟨result, raw⟩
        have hdata : (L.deserialize data).isOk = true := by
          rw [hL.deserialize_serialize _ _ hencode]
          rfl
        obtain ⟨hpanic, hvalid⟩ := hG.propose _ _ _ _ _ h.valid hdata hpropose
        have heq : w.node.propose (.put key value) =
            (context "propose failed" result, { w.node with raw }) := by
          simp only [RaftNode.propose, CommandPayload.encode, hencode]
          simp [Except.mapError, hpropose]
        rw [heq]
        rcases result with (chain | _) | _
        · exact ⟨_, _, rfl, h.id_eq, hvalid⟩
        · exact absurd rfl hpanic
        · exact ⟨_, _, rfl, h.id_eq, hvalid⟩
  | get key ch => exact ⟨_, _, rfl, h⟩
  | status ch => exact ⟨_, _, rfl, h⟩
  | campaign ch =>
    rcases hcampaign : L.campaign w.node.raw w.node.storage with ⟨result, raw⟩
    obtain ⟨hpanic, hvalid⟩ := hG.campaign _ _ _ _ h.valid hcampaign
    have heq : w.node.campaign = (context "campaign failed" result, { w.node with raw }) := by
      simp only [RaftNode.campaign, hcampaign]
    simp only [Worker.handleClientRequest, heq]
    rcases result with (chain | _) | _
    · exact ⟨_, _, rfl, h.id_eq, hvalid⟩
    · exact absurd rfl hpanic
    · exact ⟨_, _, rfl, h.id_eq, hvalid⟩
  | shutdown => exact ⟨_, _, rfl, h⟩

/-- A message of a bundle is dispatched without an error. -/
theorem dispatchMessage_of_valid (hG : L.Guarantees id Valid FromPeer Own) {w : Worker L}
    (h : w.node.Sound id Valid) {msg : L.Message} (hown : L.msgTo msg = id → Own msg)
    (sendErr : Option String) :
    ∃ w', w.dispatchMessage msg sendErr = .ok w' ∧ w'.node.Sound id Valid := by
  simp only [Worker.dispatchMessage]
  split
  · rename_i hto
    obtain ⟨raw, hstep, hvalid⟩ :=
      hG.step_own w.node.raw w.node.storage msg h.valid (hown (hto.trans h.id_eq))
    simp only [RaftNode.step, hstep]
    exact ⟨_, rfl, h.id_eq, hvalid⟩
  · split
    · exact ⟨_, rfl, h⟩
    · refine ⟨_, rfl, ?_⟩
      unfold Worker.sendMessage
      split <;> exact h

/-! ### The host -/

/-- The messages of the current bundle that were not dispatched yet. -/
def Phase.unsent : Phase L → List L.Message
  | .dispatching messages _ => messages
  | _ => []

namespace Host

/-- The message that an event takes off the network. -/
def taken (s : Host L) : Event → Option L.Message
  | .recvNetwork _ => s.networkQueue.head?
  | _ => none

/-- A message that is taken off the network is one of a peer in the state it
finds, is not refused there, and carries harmless entries only. -/
def Benign (FromPeer : L.Raw → L.Storage → L.Message → Prop) (s : Host L) (e : Event) : Prop :=
  ∀ msg ∈ s.taken e, FromPeer s.worker.node.raw s.worker.node.storage msg ∧
    (∀ entry ∈ L.msgEntries msg, entry.Harmless L) ∧ ¬ L.Refused s.worker.node.raw msg

instance {FromPeer : L.Raw → L.Storage → L.Message → Prop}
    [∀ raw storage msg, Decidable (FromPeer raw storage msg)] (s : Host L) (e : Event) :
    Decidable (s.Benign FromPeer e) :=
  inferInstanceAs (Decidable (∀ msg ∈ s.taken e, _ ∧ _ ∧ ¬ _))

/-- The three ways in which `run` returns by itself. -/
inductive Ends (s : Host L) : Event → Host L → Prop
  | shutdown {ticked : Bool} {rest : List ClientRequest} {s' : Host L}
    (hqueue : s.clientQueue = .shutdown :: rest) (hphase : s'.phase = .stopped .shutdown) :
    Ends s (.recvClient ticked) s'
  | clientDropped {ticked : Bool} {s' : Host L} (hqueue : s.clientQueue = [])
    (hopen : s.handleOpen = false) (hphase : s'.phase = .stopped .clientDropped) :
    Ends s (.recvClient ticked) s'
  | listenerGone {ticked : Bool} {s' : Host L} (hqueue : s.networkQueue = [])
    (hopen : s.listenerOpen = false) (hphase : s'.phase = .stopped .listenerGone) :
    Ends s (.recvNetwork ticked) s'

theorem Ends.stopped {s s' : Host L} {e : Event} (h : Ends s e s') :
    ∃ cause, s'.phase = .stopped cause := by
  cases h with
  | shutdown _ hphase => exact ⟨_, hphase⟩
  | clientDropped _ _ hphase => exact ⟨_, hphase⟩
  | listenerGone _ _ hphase => exact ⟨_, hphase⟩

/-- The event does not end a running worker, except in one of these ways. -/
def KeepsLooping (s : Host L) (e : Event) : Prop :=
  ∀ s', s.step e = some s' → s.phase.running = true → s'.phase.running = true ∨ Ends s e s'

/-- The node is in a valid state, and the messages that are left of a bundle are
acceptable to it. -/
structure Sound (id : ℕ) (Valid : L.Raw → L.Storage → Prop) (Own : L.Message → Prop)
    (s : Host L) : Prop where
  node : s.worker.node.Sound id Valid
  own : ∀ msg ∈ s.phase.unsent, L.msgTo msg = id → Own msg

variable {s s' : Host L}

theorem Sound.afterSelect (hG : L.Guarantees id Valid FromPeer Own)
    (h : s.worker.node.Sound id Valid) (ticked : Bool) :
    (s.afterSelect ticked).Sound id Valid Own := by
  cases ticked with
  | false => exact ⟨h, List.forall_mem_nil _⟩
  | true => exact ⟨⟨h.id_eq, hG.tick _ _ h.valid⟩, List.forall_mem_nil _⟩

/-- Neither the node nor the phase has changed. -/
theorem Sound.of_eq (h : s.Sound id Valid Own) (hnode : s'.worker.node = s.worker.node)
    (hphase : s'.phase = s.phase) : s'.Sound id Valid Own :=
  ⟨hnode ▸ h.node, hphase ▸ h.own⟩

theorem sound_recvClient (hG : L.Guarantees id Valid FromPeer Own) (hL : L.BincodeLaws)
    {ticked : Bool} (h : s.Sound id Valid Own) (hstep : s.recvClient ticked = some s') :
    s'.Sound id Valid Own ∧ (s'.phase.running = true ∨ Ends s (.recvClient ticked) s') := by
  unfold recvClient at hstep
  split at hstep
  · rename_i hqueue
    split at hstep <;> cases hstep
    rename_i hopen
    exact ⟨⟨h.node, List.forall_mem_nil _⟩, .inr (.clientDropped hqueue (by simpa using hopen) rfl)⟩
  · rename_i req rest hqueue
    obtain ⟨more, w, hhandle, hw⟩ := handleClientRequest_of_valid hG hL h.node req
    rw [hhandle] at hstep
    cases more with
    | false =>
      cases hstep
      obtain ⟨rfl, -⟩ := shutdown_of_handleClientRequest hhandle
      exact ⟨⟨hw, List.forall_mem_nil _⟩, .inr (.shutdown hqueue rfl)⟩
    | true =>
      cases hstep
      exact ⟨.afterSelect hG hw ticked, .inl rfl⟩

theorem sound_recvNetwork (hG : L.Guarantees id Valid FromPeer Own) {ticked : Bool}
    (h : s.Sound id Valid Own) (hok : s.Benign FromPeer (.recvNetwork ticked))
    (hstep : s.recvNetwork ticked = some s') :
    s'.Sound id Valid Own ∧ (s'.phase.running = true ∨ Ends s (.recvNetwork ticked) s') := by
  unfold recvNetwork at hstep
  split at hstep
  · rename_i hqueue
    split at hstep <;> cases hstep
    rename_i hopen
    exact ⟨⟨h.node, List.forall_mem_nil _⟩, .inr (.listenerGone hqueue (by simpa using hopen) rfl)⟩
  · rename_i msg rest hqueue
    obtain ⟨hpeer, hharmless, hrefused⟩ := hok msg (by simp [taken, hqueue])
    obtain ⟨raw, hraw, hvalid⟩ := hG.step_peer _ _ _ h.node.valid hpeer hharmless hrefused
    simp only [RaftNode.step, hraw] at hstep
    cases hstep
    have hnode : RaftNode.Sound id Valid { s.worker.node with raw } := ⟨h.node.id_eq, hvalid⟩
    exact ⟨.afterSelect hG hnode ticked, .inl rfl⟩

theorem sound_poll (hG : L.Guarantees id Valid FromPeer Own) (h : s.Sound id Valid Own) :
    s.poll.Sound id Valid Own ∧ s.poll.phase.running = true := by
  obtain ⟨bundle, node, hpoll, hnode, hown⟩ := pollReady_of_valid hG h.node
  simp only [poll, hpoll]
  cases bundle with
  | none =>
    refine ⟨⟨?_, List.forall_mem_nil _⟩, rfl⟩
    simp only [Worker.logRoleChange, Worker.log]
    split <;> exact hnode
  | some bundle =>
    exact ⟨⟨hnode, hown bundle rfl⟩, rfl⟩

theorem sound_dispatch (hG : L.Guarantees id Valid FromPeer Own) (h : s.Sound id Valid Own)
    {messages : List L.Message} (hunsent : s.phase.unsent = messages)
    (applied : List ApplyReport) (sendErr : Option String) :
    (s.dispatch messages applied sendErr).Sound id Valid Own ∧
      (s.dispatch messages applied sendErr).phase.running = true := by
  have hown := hunsent ▸ h.own
  cases messages with
  | nil => exact ⟨⟨h.node, List.forall_mem_nil _⟩, rfl⟩
  | cons msg messages =>
    obtain ⟨w, hdispatch, hw⟩ :=
      dispatchMessage_of_valid hG h.node (hown msg List.mem_cons_self) sendErr
    simp only [dispatch, hdispatch]
    exact ⟨⟨hw, fun msg' hmsg' => hown msg' (List.mem_cons_of_mem _ hmsg')⟩, rfl⟩

theorem sound_notify (h : s.Sound id Valid Own) (applied : List ApplyReport) :
    (s.notify applied).Sound id Valid Own ∧ (s.notify applied).phase.running = true := by
  cases applied with
  | nil => exact ⟨⟨h.node, List.forall_mem_nil _⟩, rfl⟩
  | cons report applied =>
    have hnode : (s.worker.notifyPut report).node = s.worker.node := by
      simp only [Worker.notifyPut, Worker.log]
      split <;> rfl
    refine ⟨⟨?_, List.forall_mem_nil _⟩, rfl⟩
    show (s.worker.notifyPut report).node.Sound id Valid
    exact hnode ▸ h.node

theorem sound_receive (h : s.Sound id Valid Own) (bytes : List UInt8) :
    (s.receive bytes).Sound id Valid Own ∧ (s.receive bytes).phase = s.phase := by
  unfold receive
  split
  · exact ⟨h.of_eq rfl rfl, rfl⟩
  · split <;> exact ⟨h.of_eq rfl rfl, rfl⟩

/-- A benign event keeps the worker sound and looping. -/
theorem sound_step (hG : L.Guarantees id Valid FromPeer Own) (hL : L.BincodeLaws) {e : Event}
    (h : s.Sound id Valid Own) (hok : s.Benign FromPeer e) (hstep : s.step e = some s') :
    s'.Sound id Valid Own ∧ (s.phase.running = true → s'.phase.running = true ∨ Ends s e s') := by
  cases step_cases hstep with
  | request => exact ⟨h.of_eq rfl rfl, .inl⟩
  | dropHandle => exact ⟨h.of_eq rfl rfl, .inl⟩
  | connection bytes =>
    obtain ⟨hs', hphase⟩ := sound_receive h bytes
    exact ⟨hs', fun hrunning => .inl (hphase ▸ hrunning)⟩
  | dropListener => exact ⟨h.of_eq rfl rfl, .inl⟩
  | recvClient hphase hrecv =>
    obtain ⟨hs', hends⟩ := sound_recvClient hG hL h hrecv
    exact ⟨hs', fun _ => hends⟩
  | recvNetwork hphase hrecv =>
    obtain ⟨hs', hends⟩ := sound_recvNetwork hG h hok hrecv
    exact ⟨hs', fun _ => hends⟩
  | timeout ticked => exact ⟨.afterSelect hG h.node ticked, fun _ => .inl rfl⟩
  | poll =>
    obtain ⟨hs', hrunning⟩ := sound_poll hG h
    exact ⟨hs', fun _ => .inl hrunning⟩
  | @dispatch messages applied sendErr hphase =>
    obtain ⟨hs', hrunning⟩ :=
      sound_dispatch hG h (congrArg Phase.unsent hphase) applied sendErr
    exact ⟨hs', fun _ => .inl hrunning⟩
  | notify =>
    obtain ⟨hs', hrunning⟩ := sound_notify h _
    exact ⟨hs', fun _ => .inl hrunning⟩

/-- If the library has an error for every refused message, a refused message ends
the worker in whatever state it is taken off the network. -/
theorem ends_of_refused
    (hL : ∀ raw storage msg, L.Refused raw msg → ∃ fault raw', L.step raw storage msg =
      (.error fault, raw'))
    {msg : L.Message} {rest : List L.Message} (hphase : s.phase = .selecting)
    (hqueue : s.networkQueue = msg :: rest) (hrefused : L.Refused s.worker.node.raw msg)
    (ticked : Bool) :
    ∃ fault s', s.step (.recvNetwork ticked) = some s' ∧ s'.phase = .crashed fault := by
  obtain ⟨fault, raw, hstep⟩ := hL _ s.worker.node.storage _ hrefused
  have hnode : s.worker.node.step msg =
      (.error (fault.context "step failed"), { s.worker.node with raw }) := by
    simp only [RaftNode.step, hstep]
    rfl
  have hnetwork : s.step (.recvNetwork ticked) = some { s with
      networkQueue := rest, phase := .crashed (fault.context "step failed") } := by
    simp only [step, hphase, recvNetwork, hqueue, hnode]
  exact ⟨_, _, hnetwork, rfl⟩

end Host

/-- **What it takes to keep a worker looping.**  In every run in which each
message that is taken off the network comes from a peer, is not refused and
carries harmless entries, the worker goes on until it takes a shutdown request,
finds the client handle dropped, or finds the listener gone. -/
theorem keeps_looping (hG : L.Guarantees id Valid FromPeer Own) (hL : L.BincodeLaws)
    {config : NodeConfig} {s₀ : Host L} (hspawn : spawnNode L config = .ok s₀)
    (hid : config.id = id) {es : List Event} (hok : Meets Host.step (Host.Benign FromPeer) s₀ es) :
    Meets Host.step Host.KeepsLooping s₀ es := by
  -- the invariant: a valid node, and acceptable messages to itself
  refine Meets.of_invariant (I := Host.Sound id Valid Own)
    (fun s e s' hs hok hstep => (Host.sound_step hG hL hs hok hstep).1)
    (fun s e hs hok s' hstep => (Host.sound_step hG hL hs hok hstep).2) ?_ hok
  obtain ⟨hmem, node, hnode, rfl⟩ := spawnNode_eq_ok hspawn
  obtain ⟨raw, hraw, hnew⟩ := bind_eq_ok.mp hnode
  cases hnew
  subst hid
  exact ⟨⟨rfl, hG.newRaw _ _ hmem (context_eq_ok.mp hraw)⟩, List.forall_mem_nil _⟩

end

section

open MiniRaft

/-- Node 1 of three, from its start. -/
def nodeOne (known : List MiniRaft.Message) : Host (miniRaft known) :=
  let storage : MiniRaft.Storage := .newWithConfState [1, 2, 3]
  .start (.new ⟨1, .start 1 storage, storage, .new⟩ threeNodes.peers)

theorem spawnNode_nodeOne (known : List MiniRaft.Message) :
    spawnNode (miniRaft known) threeNodes = .ok (nodeOne known) := rfl

/-- A deposed leader goes on as a follower. -/
theorem keeps_looping_deposed :
    Meets Host.step Host.KeepsLooping (nodeOne [voteGranted, newLog "w"]) (deposedRun "w") := by
  have hok : Meets Host.step (Host.Benign fun _ _ msg => Message.sender msg ≠ 1)
      (nodeOne [voteGranted, newLog "w"]) (deposedRun "w") := by decide
  exact keeps_looping (guarantees _ 1) (bincodeLaws _) (spawnNode_nodeOne _) rfl hok

/-- Four zero bytes are the frame of the empty payload, which is the default
message, of a local type: the worker that takes it off the network crashes. -/
theorem empty_message_ends_worker :
    ∃ s₀, spawnNode (miniRaft []) threeNodes = .ok s₀ ∧
      ¬ Meets Host.step Host.KeepsLooping s₀ [.connection [0, 0, 0, 0], .recvNetwork false] := by
  refine ⟨nodeOne [], spawnNode_nodeOne [], fun hloops => ?_⟩
  -- the second event leads to a crash, which is none of the three endings
  obtain ⟨hkeeps, -⟩ := (hloops _ rfl).2 _ rfl
  rcases hkeeps _ rfl rfl with hrunning | hends
  · exact Bool.noConfusion hrunning
  · obtain ⟨cause, hphase⟩ := hends.stopped
    cases hphase

end

end Raft
