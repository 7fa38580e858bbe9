/-
A cluster of hosts on a network (`spawn_network_listener`, `send_message`).

All hosts have the same map of peers, and each listens at its own address in it.  A message
goes over a connection of its own: it arrives whole, or the connection breaks and the listener
gets less than a frame, or nothing.  Connections overtake each other.

* `Network.Started` — nodes that are started with the same entries;
* `Network.step` — the steps of the hosts and the arrivals;
* `Host.netStep_of_step` — what a step does to the wire and to the queue of messages;
* `network_carries` — what a worker takes off the network was dispatched to it by another
  worker, and no message arrives twice.
-/
import AsyncRust.NodeMain
import AsyncRust.PeerFraming
import AsyncRust.RaftFaults

namespace Raft

open Runs ByteFormat

variable {L : Library}

/-! ### The cluster -/

/-- `arrived` has the frames that have arrived, by their senders and their positions on the
wires of these. -/
structure Network (L : Library) where
  hosts : ℕ → Host L
  arrived : List (ℕ × ℕ)

inductive NetworkEvent where
  | host (id : ℕ) (e : Event)
  /-- The connection of a frame is read to its end. -/
  | arrive (sender position receiver : ℕ)
  /-- A connection breaks off. -/
  | broken (receiver : ℕ) (bytes : List UInt8)
  deriving DecidableEq, Repr

def Event.isConnection : Event → Bool
  | .connection _ => true
  | _ => false

/-- The bytes are less than a frame. -/
def cutOff (bytes : List UInt8) : Bool :=
  match readBe 4 bytes with
  | none => true
  | some (len, rest) => rest.length < len

namespace Network

def act (s : Network L) (id : ℕ) (e : Event) : Option (Network L) :=
  ((s.hosts id).step e).map fun host => { s with hosts := Function.update s.hosts id host }

def step (peers : Std.TreeMap ℕ String) (s : Network L) : NetworkEvent → Option (Network L)
  | .host id e => if id ∈ peers ∧ e.isConnection = false then s.act id e else none
  | .arrive sender position receiver =>
    match (s.hosts sender).worker.wire[position]? with
    | none => none
    | some (addr, bytes) =>
      if sender ∈ peers ∧ peers[receiver]? = some addr ∧ (sender, position) ∉ s.arrived then
        (s.act receiver (.connection bytes)).map fun s =>
          { s with arrived := s.arrived ++ [(sender, position)] }
      else none
  | .broken receiver bytes =>
    if receiver ∈ peers ∧ cutOff bytes then s.act receiver (.connection bytes) else none

/-- Every host has been spawned. -/
structure Spawned (peers : Std.TreeMap ℕ String) (s : Network L) : Prop where
  hosts : ∀ id addr, peers[id]? = some addr → spawnNode L ⟨id, addr, peers⟩ = .ok (s.hosts id)
  arrived : s.arrived = []

/-- Every host has been started with the same entries on its command line. -/
structure Started (entries : List String) (s : Network L) : Prop where
  hosts : ∀ id listen, Maps entries id listen → nodeMain L ⟨id, listen, entries⟩ = .ok (s.hosts id)
  arrived : s.arrived = []

theorem Started.spawned {entries : List String} {peers : Std.TreeMap ℕ String} {s : Network L}
    (h : Started entries s) (hpeers : parsePeers entries = .ok peers) : Spawned peers s := by
  refine ⟨fun id addr haddr => ?_, h.arrived⟩
  obtain ⟨peers', hpeers', -, hspawn⟩ :=
    nodeMain_eq_ok.mp (h.hosts id addr ((getElem?_parsePeers hpeers id addr).mp haddr))
  cases hpeers.symm.trans hpeers'
  exact hspawn

end Network

/-! ### What a host sends and receives -/

/-- Neither the wire nor what it depends on has changed. -/
structure Worker.SameNet (w w' : Worker L) : Prop where
  id : w'.node.id = w.node.id
  peers : w'.peers = w.peers
  wire : w'.wire = w.wire

theorem sameNet_of_handleClientRequest {w w' : Worker L} {req : ClientRequest} {goesOn : Bool}
    (h : w.handleClientRequest req = .ok (goesOn, w')) : w.SameNet w' := by
  cases req with
  | put key value ch =>
    simp only [Worker.handleClientRequest] at h
    split at h
    · cases h
      exact ⟨rfl, rfl, rfl⟩
    · have hid : (w.node.propose (.put key value)).2.id = w.node.id := by
        obtain ⟨raw, hraw⟩ := w.node.propose_frame (.put key value)
        rw [hraw]
      split at h
      · rename_i node hpropose
        cases h
        rw [hpropose] at hid
        exact ⟨hid, rfl, rfl⟩
      · rename_i chain node hpropose
        cases h
        rw [hpropose] at hid
        exact ⟨hid, rfl, rfl⟩
      · cases h
  | get key ch | status ch | shutdown =>
    cases h
    exact ⟨rfl, rfl, rfl⟩
  | campaign ch =>
    have hid : w.node.campaign.2.id = w.node.id := rfl
    simp only [Worker.handleClientRequest] at h
    split at h
    · rename_i node hcampaign
      cases h
      rw [hcampaign] at hid
      exact ⟨hid, rfl, rfl⟩
    · rename_i chain node hcampaign
      cases h
      rw [hcampaign] at hid
      exact ⟨hid, rfl, rfl⟩
    · cases h

theorem sameNet_notifyPut (w : Worker L) (report : ApplyReport) :
    w.SameNet (w.notifyPut report) := by
  simp only [Worker.notifyPut, Worker.log]
  split <;> exact ⟨rfl, rfl, rfl⟩

theorem sameNet_logRoleChange (w : Worker L) : w.SameNet w.logRoleChange := by
  simp only [Worker.logRoleChange, Worker.log]
  split <;> exact ⟨rfl, rfl, rfl⟩

/-- What `dispatchMessage` does to the wire. -/
inductive Worker.Dispatched (w : Worker L) (msg : L.Message) (w' : Worker L) : Prop
  | kept (hsame : w.SameNet w')
  | sent (addr : String) (hto : L.msgTo msg ≠ w.node.id) (haddr : w.peers[L.msgTo msg]? = some addr)
    (hid : w'.node.id = w.node.id) (hpeers : w'.peers = w.peers)
    (hwire : w'.wire = w.wire ++ [(addr, frame (L.encodeToVec msg))])

theorem dispatched_of_dispatchMessage {w w' : Worker L} {msg : L.Message} {sendErr : Option String}
    (h : w.dispatchMessage msg sendErr = .ok w') : w.Dispatched msg w' := by
  simp only [Worker.dispatchMessage] at h
  split at h
  · have hid : (w.node.step msg).2.id = w.node.id := rfl
    split at h
    · rename_i node hstep
      cases h
      rw [hstep] at hid
      exact .kept ⟨hid, rfl, rfl⟩
    · cases h
  · rename_i hto
    split at h
    · cases h
      exact .kept ⟨rfl, rfl, rfl⟩
    · rename_i addr haddr
      cases h
      unfold Worker.sendMessage
      split
      · exact .sent addr hto haddr rfl rfl rfl
      · exact .kept ⟨rfl, rfl, rfl⟩

/-- What is written for a message, and where it goes. -/
def posted (peers : Std.TreeMap ℕ String) (msg : L.Message) : String × List UInt8 :=
  (peers[L.msgTo msg]?.getD "", frame (L.encodeToVec msg))

/-- The message that a connection delivers. -/
def arrival (L : Library) : Event → Option L.Message
  | .connection bytes => (handleConnection L bytes).toOption
  | _ => none

namespace Host

/-- The message for another node that an event dispatches. -/
def dispatched (s : Host L) : Event → Option L.Message
  | .process _ =>
    match s.phase with
    | .dispatching (msg :: _) _ => if L.msgTo msg = s.worker.node.id then none else some msg
    | _ => none
  | _ => none

/-- `prost` reads the message back from its encoding, whose length fits in a `u32`. -/
def Fits (s : Host L) (e : Event) : Prop :=
  ∀ msg ∈ s.dispatched e,
    (L.decode (L.encodeToVec msg)).toOption = some msg ∧ (L.encodeToVec msg).length < 2 ^ 32

instance [DecidableEq L.Message] (s : Host L) (e : Event) : Decidable (s.Fits e) :=
  inferInstanceAs (Decidable (∀ msg ∈ s.dispatched e, _ ∧ _))

/-- What a step does to the wire and to the queue of messages. -/
inductive NetStep (s : Host L) (e : Event) (s' : Host L) : Prop
  | quiet (htaken : s.taken e = none) (hwire : s'.worker.wire = s.worker.wire)
    (hqueue : s'.networkQueue = s.networkQueue)
  | received (bytes : List UInt8) (msg : L.Message) (he : e = .connection bytes)
    (hmsg : handleConnection L bytes = .ok msg) (hwire : s'.worker.wire = s.worker.wire)
    (hqueue : s'.networkQueue = s.networkQueue ++ [msg])
  | took (msg : L.Message) (htaken : s.taken e = some msg)
    (hwire : s'.worker.wire = s.worker.wire) (hqueue : s.networkQueue = msg :: s'.networkQueue)
  | sent (msg : L.Message) (addr : String) (htaken : s.taken e = none)
    (hmsg : s.dispatched e = some msg) (haddr : s.worker.peers[L.msgTo msg]? = some addr)
    (hwire : s'.worker.wire = s.worker.wire ++ [(addr, frame (L.encodeToVec msg))])
    (hqueue : s'.networkQueue = s.networkQueue)

/-- Which node it is, and its peers, stay. -/
structure SameNode (s s' : Host L) : Prop where
  id : s'.worker.node.id = s.worker.node.id
  peers : s'.worker.peers = s.worker.peers

variable {s s' : Host L} {e : Event}

theorem sameNet_afterSelect (s : Host L) (ticked : Bool) :
    s.worker.SameNet (s.afterSelect ticked).worker := by
  cases ticked <;> exact ⟨rfl, rfl, rfl⟩

theorem netStep_of_request {req : ClientRequest} (htaken : s.taken e = none)
    (h : s.request req = some s') : s.SameNode s' ∧ s.NetStep e s' := by
  unfold request at h
  split at h <;> cases h
  exact ⟨⟨rfl, rfl⟩, .quiet htaken rfl rfl⟩

theorem netStep_of_recvClient {ticked : Bool} (h : s.recvClient ticked = some s') :
    s.SameNode s' ∧ s.NetStep (.recvClient ticked) s' := by
  unfold recvClient at h
  split at h
  · split at h <;> cases h
    exact ⟨⟨rfl, rfl⟩, .quiet rfl rfl rfl⟩
  · rename_i req clientQueue hqueue
    split at h
    · cases h
      exact ⟨⟨rfl, rfl⟩, .quiet rfl rfl rfl⟩
    · rename_i worker hhandle
      cases h
      obtain ⟨hid, hpeers, hwire⟩ := sameNet_of_handleClientRequest hhandle
      exact ⟨⟨hid, hpeers⟩, .quiet rfl hwire rfl⟩
    · rename_i worker hhandle
      cases h
      obtain ⟨hid, hpeers, hwire⟩ := sameNet_of_handleClientRequest hhandle
      obtain ⟨hid', hpeers', hwire'⟩ := sameNet_afterSelect
        { s with worker, clientQueue, history := s.history.accept s.worker worker } ticked
      exact ⟨⟨hid'.trans hid, hpeers'.trans hpeers⟩, .quiet rfl (hwire'.trans hwire) rfl⟩

theorem netStep_of_recvNetwork {ticked : Bool} (h : s.recvNetwork ticked = some s') :
    s.SameNode s' ∧ s.NetStep (.recvNetwork ticked) s' := by
  unfold recvNetwork at h
  split at h
  · rename_i hqueue
    split at h <;> cases h
    exact ⟨⟨rfl, rfl⟩, .quiet (by simp [taken, hqueue]) rfl rfl⟩
  · rename_i msg networkQueue hqueue
    have htaken : s.taken (.recvNetwork ticked) = some msg := by simp [taken, hqueue]
    split at h
    · cases h
      exact ⟨⟨rfl, rfl⟩, .took msg htaken rfl hqueue⟩
    · rename_i node hstep
      cases h
      have hid : node.id = s.worker.node.id := by
        have hnode : (s.worker.node.step msg).2.id = s.worker.node.id := rfl
        rwa [hstep] at hnode
      obtain ⟨hid', hpeers', hwire'⟩ := sameNet_afterSelect
        { s with worker := { s.worker with node }, networkQueue } ticked
      exact ⟨⟨hid'.trans hid, hpeers'⟩, .took msg htaken hwire' hqueue⟩

theorem netStep_poll (sendErr : Option String) :
    s.SameNode s.poll ∧ s.NetStep (.process sendErr) s.poll := by
  unfold poll
  split
  · exact ⟨⟨rfl, rfl⟩, .quiet rfl rfl rfl⟩
  · rename_i node hpoll
    obtain ⟨-, rfl⟩ := RaftNode.pollReady_eq_none hpoll
    obtain ⟨hid, hpeers, hwire⟩ := sameNet_logRoleChange s.worker
    exact ⟨⟨hid, hpeers⟩, .quiet rfl hwire rfl⟩
  · rename_i bundle node hpoll
    obtain ⟨store, -, -, hid⟩ := RaftNode.pollReady_eq_some hpoll
    exact ⟨⟨hid, rfl⟩, .quiet rfl rfl rfl⟩

theorem netStep_dispatch {messages : List L.Message} {applied : List ApplyReport}
    (sendErr : Option String) (hphase : s.phase = .dispatching messages applied) :
    s.SameNode (s.dispatch messages applied sendErr) ∧
      s.NetStep (.process sendErr) (s.dispatch messages applied sendErr) := by
  unfold dispatch
  split
  · exact ⟨⟨rfl, rfl⟩, .quiet rfl rfl rfl⟩
  · rename_i msg messages
    split
    · exact ⟨⟨rfl, rfl⟩, .quiet rfl rfl rfl⟩
    · rename_i worker hdispatch
      cases dispatched_of_dispatchMessage hdispatch with
      | kept hsame => exact ⟨⟨hsame.id, hsame.peers⟩, .quiet rfl hsame.wire rfl⟩
      | sent addr hto haddr hid hpeers hwire =>
        refine ⟨⟨hid, hpeers⟩, .sent msg addr rfl ?_ haddr hwire rfl⟩
        simp [dispatched, hphase, hto]

theorem netStep_notify (sendErr : Option String) (applied : List ApplyReport) :
    s.SameNode (s.notify applied) ∧ s.NetStep (.process sendErr) (s.notify applied) := by
  cases applied with
  | nil => exact ⟨⟨rfl, rfl⟩, .quiet rfl rfl rfl⟩
  | cons report applied =>
    obtain ⟨hid, hpeers, hwire⟩ := sameNet_notifyPut s.worker report
    exact ⟨⟨hid, hpeers⟩, .quiet rfl hwire rfl⟩

theorem netStep_receive (bytes : List UInt8) :
    s.SameNode (s.receive bytes) ∧ s.NetStep (.connection bytes) (s.receive bytes) := by
  unfold receive
  split
  · exact ⟨⟨rfl, rfl⟩, .quiet rfl rfl rfl⟩
  · rename_i msg hmsg
    split
    · exact ⟨⟨rfl, rfl⟩, .received bytes msg rfl hmsg rfl rfl⟩
    · exact ⟨⟨rfl, rfl⟩, .quiet rfl rfl rfl⟩

theorem netStep_of_step (h : s.step e = some s') : s.SameNode s' ∧ s.NetStep e s' := by
  cases e with
  | put key value | get key | status | campaign | shutdown => exact netStep_of_request rfl h
  | dropHandle | dropListener =>
    simp only [step] at h
    split at h <;> cases h
    exact ⟨⟨rfl, rfl⟩, .quiet rfl rfl rfl⟩
  | connection bytes =>
    simp only [step] at h
    split at h <;> cases h
    exact netStep_receive bytes
  | recvClient ticked =>
    simp only [step] at h
    split at h
    · exact netStep_of_recvClient h
    · cases h
  | recvNetwork ticked =>
    simp only [step] at h
    split at h
    · exact netStep_of_recvNetwork h
    · cases h
  | timeout ticked =>
    simp only [step] at h
    split at h
    · unfold timeout at h
      split at h <;> cases h
      obtain ⟨hid, hpeers, hwire⟩ := sameNet_afterSelect s ticked
      exact ⟨⟨hid, hpeers⟩, .quiet rfl hwire rfl⟩
    · cases h
  | process sendErr =>
    simp only [step] at h
    split at h <;> cases h
    · exact netStep_poll sendErr
    · exact netStep_dispatch sendErr ‹_›
    · exact netStep_notify sendErr _

namespace NetStep

/-- The wire gets the message that is dispatched, if its connection is made. -/
theorem wire (h : s.NetStep e s') : ∃ more : List L.Message,
    more.Sublist (s.dispatched e).toList ∧ (∀ msg ∈ more, L.msgTo msg ∈ s.worker.peers) ∧
      s'.worker.wire = s.worker.wire ++ more.map (posted s.worker.peers) := by
  cases h with
  | quiet htaken hwire | received bytes msg he hmsg hwire | took msg htaken hwire =>
    exact ⟨[], List.nil_sublist _, List.forall_mem_nil _, hwire.trans (List.append_nil _).symm⟩
  | sent msg addr htaken hmsg haddr hwire =>
    refine ⟨[msg], by rw [hmsg]; exact .refl _, fun m hm => ?_, ?_⟩
    · rw [List.mem_singleton.mp hm]
      exact Std.TreeMap.mem_iff_isSome_getElem?.mpr (by rw [haddr]; rfl)
    · rw [hwire, List.map_singleton, posted, haddr]
      rfl

/-- The queue gets what the connection delivers, if the worker is there. -/
theorem queue (h : s.NetStep e s') : ∃ more : List L.Message,
    more.Sublist (arrival L e).toList ∧
      (s.taken e).toList ++ s'.networkQueue = s.networkQueue ++ more := by
  cases h with
  | quiet htaken hwire hqueue | sent msg addr htaken hmsg haddr hwire hqueue =>
    exact ⟨[], List.nil_sublist _, by rw [htaken, hqueue]; exact (List.append_nil _).symm⟩
  | received bytes msg he hmsg hwire hqueue =>
    subst he
    refine ⟨[msg], ?_, hqueue⟩
    rw [arrival, hmsg]
    exact .refl [msg]
  | took msg htaken hwire hqueue =>
    exact ⟨[], List.nil_sublist _, by rw [htaken, hqueue]; exact (List.append_nil _).symm⟩

end NetStep

end Host

/-! ### Frames -/

/-- A message comes out of its frame. -/
theorem handleConnection_frame {msg : L.Message}
    (hdecode : (L.decode (L.encodeToVec msg)).toOption = some msg)
    (hlength : (L.encodeToVec msg).length < 2 ^ 32) :
    handleConnection L (frame (L.encodeToVec msg)) = .ok msg := by
  have hlen : Framing.asU32 (L.encodeToVec msg).length = (L.encodeToVec msg).length :=
    Nat.mod_eq_of_lt hlength
  rw [handleConnection, Framing.readBe_frame, hlen]
  simp only [readExact, le_refl, if_true, List.take_length]
  cases hok : L.decode (L.encodeToVec msg) with
  | error err => simp [hok, Except.toOption] at hdecode
  | ok msg' => simpa [hok, Except.toOption] using hdecode

/-- Nothing comes out of less than a frame. -/
theorem handleConnection_of_cutOff {bytes : List UInt8} (h : cutOff bytes = true) :
    handleConnection L bytes = .error "failed to fill whole buffer" := by
  cases hread : readBe 4 bytes with
  | none => rw [handleConnection, hread]
  | some found =>
    obtain ⟨len, rest⟩ := found
    rw [cutOff, hread] at h
    have hlt : ¬ len ≤ rest.length := by simpa using h
    rw [handleConnection, hread]
    simp only [readExact, if_neg hlt]

namespace Network

variable {peers : Std.TreeMap ℕ String} {s s' s₀ : Network L} {ce : NetworkEvent}

/-- The steps of a cluster. -/
inductive StepCase (peers : Std.TreeMap ℕ String) (s : Network L) : NetworkEvent → Network L → Prop
  | host {id : ℕ} {e : Event} {host : Host L} (hid : id ∈ peers) (he : e.isConnection = false)
    (h : (s.hosts id).step e = some host) :
    StepCase peers s (.host id e) { s with hosts := Function.update s.hosts id host }
  | arrive {sender position receiver : ℕ} {addr : String} {bytes : List UInt8} {host : Host L}
    (hwire : (s.hosts sender).worker.wire[position]? = some (addr, bytes))
    (hsender : sender ∈ peers)
    (hreceiver : peers[receiver]? = some addr) (hnew : (sender, position) ∉ s.arrived)
    (h : (s.hosts receiver).step (.connection bytes) = some host) :
    StepCase peers s (.arrive sender position receiver)
      ⟨Function.update s.hosts receiver host, s.arrived ++ [(sender, position)]⟩
  | broken {receiver : ℕ} {bytes : List UInt8} {host : Host L} (hreceiver : receiver ∈ peers)
    (hcut : cutOff bytes = true) (h : (s.hosts receiver).step (.connection bytes) = some host) :
    StepCase peers s (.broken receiver bytes)
      { s with hosts := Function.update s.hosts receiver host }

theorem step_cases (h : s.step peers ce = some s') : StepCase peers s ce s' := by
  cases ce with
  | host id e =>
    simp only [step] at h
    split at h
    · rename_i hguard
      obtain ⟨host, hstep, rfl⟩ := Option.map_eq_some_iff.mp h
      exact .host hguard.1 hguard.2 hstep
    · cases h
  | arrive sender position receiver =>
    simp only [step] at h
    split at h
    · cases h
    · rename_i addr bytes hwire
      split at h
      · rename_i hguard
        obtain ⟨t, ht, rfl⟩ := Option.map_eq_some_iff.mp h
        obtain ⟨host, hstep, rfl⟩ := Option.map_eq_some_iff.mp ht
        exact .arrive hwire hguard.1 hguard.2.1 hguard.2.2 hstep
      · cases h
  | broken receiver bytes =>
    simp only [step] at h
    split at h
    · rename_i hguard
      obtain ⟨host, hstep, rfl⟩ := Option.map_eq_some_iff.mp h
      exact .broken hguard.1 hguard.2 hstep
    · cases h

/-- What `f` finds at the steps of host `id`. -/
def atHost (f : Host L → Event → Option L.Message) (id : ℕ) (s : Network L) :
    NetworkEvent → Option L.Message
  | .host id' e => if id' = id then f (s.hosts id) e else none
  | _ => none

def Fits (s : Network L) : NetworkEvent → Prop
  | .host id e => (s.hosts id).Fits e
  | _ => True

instance [DecidableEq L.Message] (s : Network L) : ∀ ce, Decidable (s.Fits ce)
  | .host id e => inferInstanceAs (Decidable ((s.hosts id).Fits e))
  | .arrive _ _ _ => isTrue trivial
  | .broken _ _ => isTrue trivial

/-- The messages that have arrived, of those that the hosts have sent. -/
def arrivals (s : Network L) (sent : ℕ → List L.Message) : List L.Message :=
  s.arrived.filterMap fun frame => (sent frame.1)[frame.2]?

/-- What the network has carried: `sent` has the messages of each host for which a connection
was made, of those that it has `dispatched`, and `taken` those that it took off the network. -/
structure Carries (peers : Std.TreeMap ℕ String) (s : Network L)
    (dispatched taken sent : ℕ → List L.Message) : Prop where
  node : ∀ id ∈ peers, (s.hosts id).worker.node.id = id ∧ (s.hosts id).worker.peers = peers
  wire : ∀ id ∈ peers, (s.hosts id).worker.wire = (sent id).map (posted peers)
  fits : ∀ id ∈ peers, ∀ msg ∈ sent id, L.msgTo msg ∈ peers ∧ L.msgTo msg ≠ id ∧
    handleConnection L (frame (L.encodeToVec msg)) = .ok msg
  dispatched : ∀ id ∈ peers, (sent id).Sublist (dispatched id)
  once : s.arrived.Nodup
  arrived : ∀ frame ∈ s.arrived, frame.1 ∈ peers ∧ frame.2 < (sent frame.1).length
  queue : ∀ id ∈ peers, (taken id ++ (s.hosts id).networkQueue).Sublist
    ((s.arrivals sent).filter fun msg => L.msgTo msg = id)

section
variable {dispatched taken sent : ℕ → List L.Message}

theorem dispatched_ne {host : Host L} {e : Event} {msg : L.Message}
    (h : host.dispatched e = some msg) : L.msgTo msg ≠ host.worker.node.id := by
  unfold Host.dispatched at h
  split at h
  · split at h
    · split at h <;> cases h
      assumption
    · cases h
  · cases h

/-- A host takes a step, to which the frames `more` have arrived. -/
theorem Carries.act (hs : Carries peers s dispatched taken sent) {id : ℕ} {e : Event}
    {host : Host L} (hid : id ∈ peers) (h : (s.hosts id).step e = some host)
    (hfits : (s.hosts id).Fits e) (more : List (ℕ × ℕ)) (honce : (s.arrived ++ more).Nodup)
    (hmore : ∀ frame ∈ more, frame.1 ∈ peers ∧ frame.2 < (sent frame.1).length)
    (harrival : (more.filterMap fun frame => (sent frame.1)[frame.2]?).filter
      (fun msg => L.msgTo msg = id) = (arrival L e).toList) :
    ∃ sent', Carries peers ⟨Function.update s.hosts id host, s.arrived ++ more⟩
      (Function.update dispatched id (dispatched id ++ ((s.hosts id).dispatched e).toList))
      (Function.update taken id (taken id ++ ((s.hosts id).taken e).toList)) sent' := by
  obtain ⟨hsame, hnet⟩ := Host.netStep_of_step h
  obtain ⟨hnode, hpeers⟩ := hs.node id hid
  obtain ⟨out, hout, hknown, hwire⟩ := hnet.wire
  obtain ⟨into, hinto, hqueue⟩ := hnet.queue
  rw [hpeers] at hknown hwire
  -- what was sent before keeps its position
  have hkept : ∀ frame ∈ s.arrived ++ more,
      (Function.update sent id (sent id ++ out) frame.1)[frame.2]? = (sent frame.1)[frame.2]? := by
    intro frame hframe
    have hlt : frame.2 < (sent frame.1).length :=
      (List.mem_append.mp hframe).elim (fun hmem => (hs.arrived frame hmem).2)
        fun hmem => (hmore frame hmem).2
    by_cases heq : frame.1 = id
    · rw [heq] at hlt ⊢
      rw [Function.update_self, List.getElem?_append_left hlt]
    · rw [Function.update_of_ne heq]
  refine ⟨Function.update sent id (sent id ++ out), ?_, ?_, ?_, ?_, honce, ?_, ?_⟩
  · intro id' hid'
    by_cases heq : id' = id
    · subst heq
      simp only [Function.update_self]
      exact ⟨hsame.id.trans hnode, hsame.peers.trans hpeers⟩
    · simp only [Function.update_of_ne heq]
      exact hs.node id' hid'
  · intro id' hid'
    by_cases heq : id' = id
    · subst heq
      simp only [Function.update_self]
      rw [hwire, hs.wire _ hid', List.map_append]
    · simp only [Function.update_of_ne heq]
      exact hs.wire id' hid'
  · intro id' hid' msg hmsg
    by_cases heq : id' = id
    · subst heq
      rw [Function.update_self, List.mem_append] at hmsg
      rcases hmsg with hmsg | hmsg
      · exact hs.fits _ hid' msg hmsg
      · have hdispatched : (s.hosts id').dispatched e = some msg :=
          Option.mem_toList.mp (hout.subset hmsg)
        obtain ⟨hdecode, hlength⟩ := hfits msg hdispatched
        exact ⟨hknown msg hmsg, hnode ▸ dispatched_ne hdispatched,
          handleConnection_frame hdecode hlength⟩
    · rw [Function.update_of_ne heq] at hmsg
      exact hs.fits id' hid' msg hmsg
  · intro id' hid'
    by_cases heq : id' = id
    · subst heq
      simp only [Function.update_self]
      exact (hs.dispatched _ hid').append hout
    · simp only [Function.update_of_ne heq]
      exact hs.dispatched id' hid'
  · intro frame hframe
    obtain ⟨hpeer, hlt⟩ :=
      (List.mem_append.mp hframe).elim (hs.arrived frame) (hmore frame)
    refine ⟨hpeer, ?_⟩
    by_cases heq : frame.1 = id
    · rw [heq] at hlt ⊢
      rw [Function.update_self, List.length_append]
      exact Nat.lt_add_right _ hlt
    · rw [Function.update_of_ne heq]
      exact hlt
  · intro id' hid'
    have harrivals : arrivals ⟨Function.update s.hosts id host, s.arrived ++ more⟩
        (Function.update sent id (sent id ++ out)) =
        s.arrivals sent ++ more.filterMap fun frame => (sent frame.1)[frame.2]? := by
      rw [arrivals, List.filterMap_congr hkept, List.filterMap_append, arrivals]
    rw [harrivals, List.filter_append]
    by_cases heq : id' = id
    · subst heq
      simp only [Function.update_self]
      rw [List.append_assoc, hqueue, ← List.append_assoc, harrival]
      exact (hs.queue _ hid').append hinto
    · simp only [Function.update_of_ne heq]
      exact (hs.queue id' hid').trans (List.sublist_append_left _ _)

theorem update_atHost (f : Host L → Event → Option L.Message) (found : ℕ → List L.Message)
    (s : Network L) (id : ℕ) (e : Event) :
    Function.update found id (found id ++ (f (s.hosts id) e).toList) =
      fun id' => found id' ++ (s.atHost f id' (.host id e)).toList := by
  funext id'
  by_cases heq : id' = id
  · subst heq
    rw [Function.update_self, atHost, if_pos rfl]
  · rw [Function.update_of_ne heq, atHost, if_neg (Ne.symm heq)]
    exact (List.append_nil _).symm

/-- No two nodes have the same address. -/
def Apart (peers : Std.TreeMap ℕ String) : Prop :=
  ∀ (id id' : ℕ) (addr : String), peers[id]? = some addr → peers[id']? = some addr → id = id'

theorem Carries.step (hs : Carries peers s dispatched taken sent) (hapart : Apart peers)
    (h : s.step peers ce = some s') (hfits : s.Fits ce) : ∃ sent', Carries peers s'
      (fun id => dispatched id ++ (s.atHost Host.dispatched id ce).toList)
      (fun id => taken id ++ (s.atHost Host.taken id ce).toList) sent' := by
  cases step_cases h with
  | @host id e host hid he hmove =>
    have harrival : arrival L e = none := by
      cases e <;> first | rfl | cases he
    obtain ⟨sent', hs'⟩ := hs.act hid hmove hfits []
      (by rw [List.append_nil]; exact hs.once) (List.forall_mem_nil _) (by rw [harrival]; rfl)
    rw [update_atHost, update_atHost, List.append_nil] at hs'
    exact ⟨sent', hs'⟩
  | @arrive sender position receiver addr bytes host hwire hsender hreceiver hnew hmove =>
    have hmem : receiver ∈ peers :=
      Std.TreeMap.mem_iff_isSome_getElem?.mpr (by rw [hreceiver]; rfl)
    -- the frame is that of a message to the receiver
    rw [hs.wire sender hsender, List.getElem?_map, Option.map_eq_some_iff] at hwire
    obtain ⟨msg, hmsg, hposted⟩ := hwire
    obtain ⟨haddr, rfl⟩ := Prod.mk.inj hposted
    obtain ⟨hto, -, hframe⟩ := hs.fits sender hsender msg (List.mem_of_getElem? hmsg)
    obtain ⟨addr', haddr'⟩ :=
      Option.isSome_iff_exists.mp (Std.TreeMap.mem_iff_isSome_getElem?.mp hto)
    rw [haddr', Option.getD_some] at haddr
    subst haddr
    obtain rfl := hapart _ _ _ haddr' hreceiver
    obtain ⟨sent', hs'⟩ := hs.act hmem hmove (fun m hm => by cases hm) [(sender, position)]
      (List.nodup_append.mpr ⟨hs.once, List.nodup_singleton _, fun frame hf frame' hf' => by
        rw [List.mem_singleton.mp hf']; exact fun heq => hnew (heq ▸ hf)⟩)
      (fun frame hf => by
        rw [List.mem_singleton.mp hf]; exact ⟨hsender, (List.getElem?_eq_some_iff.mp hmsg).1⟩)
      (by simp [hmsg, arrival, hframe, Except.toOption])
    simp only [Host.dispatched, Host.taken, Option.toList_none, List.append_nil,
      Function.update_eq_self] at hs'
    refine ⟨sent', ?_⟩
    simpa only [atHost, Option.toList_none, List.append_nil] using hs'
  | @broken receiver bytes host hreceiver hcut hmove =>
    obtain ⟨sent', hs'⟩ := hs.act hreceiver hmove (fun m hm => by cases hm) []
      (by rw [List.append_nil]; exact hs.once) (List.forall_mem_nil _)
      (by rw [arrival, handleConnection_of_cutOff hcut]; rfl)
    simp only [Host.dispatched, Host.taken, Option.toList_none, List.append_nil,
      Function.update_eq_self] at hs'
    refine ⟨sent', ?_⟩
    simpa only [atHost, Option.toList_none, List.append_nil] using hs'

theorem carries_of_spawned (hspawn : Spawned peers s₀) :
    Carries peers s₀ (fun _ => []) (fun _ => []) fun _ => [] := by
  have hhost : ∀ id ∈ peers, ∃ node : RaftNode L, RaftNode.new id peers.keys = .ok node ∧
      s₀.hosts id = .start (.new node peers) := by
    intro id hid
    obtain ⟨addr, haddr⟩ := Option.isSome_iff_exists.mp (Std.TreeMap.mem_iff_isSome_getElem?.mp hid)
    obtain ⟨-, node, hnode, hstart⟩ := spawnNode_eq_ok (hspawn.hosts id addr haddr)
    exact ⟨node, hnode, hstart⟩
  refine ⟨fun id hid => ?_, fun id hid => ?_, fun _ _ => List.forall_mem_nil _,
    fun _ _ => List.nil_sublist _, ?_, ?_, fun id hid => ?_⟩
  · obtain ⟨node, hnode, hstart⟩ := hhost id hid
    obtain ⟨raw, -, hnew⟩ := bind_eq_ok.mp hnode
    cases hnew
    rw [hstart]
    exact ⟨rfl, rfl⟩
  · obtain ⟨node, hnode, hstart⟩ := hhost id hid
    rw [hstart]
    rfl
  · rw [hspawn.arrived]
    exact List.nodup_nil
  · rw [hspawn.arrived]
    exact List.forall_mem_nil _
  · obtain ⟨node, hnode, hstart⟩ := hhost id hid
    rw [hstart]
    exact List.nil_sublist _

theorem carries_of_run (hspawn : Spawned peers s₀) (hapart : Apart peers)
    {ces : List NetworkEvent} (hrun : run (step peers) s₀ ces = some s)
    (hfits : Meets (step peers) Fits s₀ ces) : ∃ sent, Carries peers s
      (fun id => collect (step peers) (atHost Host.dispatched id) s₀ ces)
      (fun id => collect (step peers) (atHost Host.taken id) s₀ ces) sent := by
  refine run_history_of_meets (J := fun ces s => ∃ sent, Carries peers s
    (fun id => collect (step peers) (atHost Host.dispatched id) s₀ ces)
    (fun id => collect (step peers) (atHost Host.taken id) s₀ ces) sent)
    ⟨_, carries_of_spawned hspawn⟩ ?_ hfits hrun
  rintro ces t ce t' hrun ⟨sent, ht⟩ hok hstep
  simp only [collect_concat hrun hstep]
  exact ht.step hapart hstep hok

/-- What a host takes off the network, or will take, is from another one. -/
theorem Carries.from_other (hs : Carries peers s dispatched taken sent) {id : ℕ} (hid : id ∈ peers)
    {msg : L.Message} (hmsg : msg ∈ taken id ++ (s.hosts id).networkQueue) :
    L.msgTo msg = id ∧ ∃ id' ∈ peers, id' ≠ id ∧ msg ∈ sent id' := by
  obtain ⟨harrived, hto⟩ := List.mem_filter.mp ((hs.queue id hid).subset hmsg)
  have hto : L.msgTo msg = id := by simpa using hto
  obtain ⟨frame, hframe, hsent⟩ := List.mem_filterMap.mp harrived
  have hmem : msg ∈ sent frame.1 := List.mem_of_getElem? hsent
  have hpeer := (hs.arrived frame hframe).1
  refine ⟨hto, frame.1, hpeer, ?_, hmem⟩
  rw [← hto]
  exact (hs.fits _ hpeer msg hmem).2.1.symm

end

end Network

/-- **The network makes nothing up and doubles nothing.**  All nodes are started with the same
entries and have addresses of their own, and each message that is dispatched is read back from
its encoding, which is shorter than 2³² bytes.  Then, of the messages that the workers have
dispatched, those for which a connection was made are on their wires, in order and each
addressed to another node; each of these arrives at most once; and what a worker has taken off
the network, followed by what it will take, are such messages to its node, in the order in
which they have arrived. -/
theorem network_carries {entries : List String} {peers : Std.TreeMap ℕ String}
    {s₀ s : Network L} {ces : List NetworkEvent} (hpeers : parsePeers entries = .ok peers)
    (hstart : Network.Started entries s₀) (hapart : Network.Apart peers)
    (hrun : run (Network.step peers) s₀ ces = some s)
    (hfits : Meets (Network.step peers) Network.Fits s₀ ces) : ∃ sent : ℕ → List L.Message,
    (∀ id ∈ peers, (s.hosts id).worker.wire = (sent id).map (posted peers) ∧
      (sent id).Sublist (collect (Network.step peers) (Network.atHost Host.dispatched id) s₀ ces) ∧
      ∀ msg ∈ sent id, L.msgTo msg ∈ peers ∧ L.msgTo msg ≠ id) ∧
    (s.arrived.Nodup ∧ ∀ frame ∈ s.arrived, frame.1 ∈ peers ∧ frame.2 < (sent frame.1).length) ∧
    ∀ id ∈ peers, (collect (Network.step peers) (Network.atHost Host.taken id) s₀ ces ++
        (s.hosts id).networkQueue).Sublist
      ((s.arrivals sent).filter fun msg => L.msgTo msg = id) := by
  obtain ⟨sent, hs⟩ := Network.carries_of_run (hstart.spawned hpeers) hapart hrun hfits
  refine ⟨sent, fun id hid => ⟨hs.wire id hid, hs.dispatched id hid, fun msg hmsg => ?_⟩,
    ⟨hs.once, hs.arrived⟩, hs.queue⟩
  obtain ⟨hto, hne, -⟩ := hs.fits id hid msg hmsg
  exact ⟨hto, hne⟩

section

open MiniRaft

/-- Node 1 asks for a vote in term 1. -/
def voteAsked (receiver : ℕ) : MiniRaft.Message :=
  { Message.default with msgType := .msgRequestVote, receiver, sender := 1, term := 1 }

/-- The library, for the election of node 1. -/
abbrev electing : Library := miniRaft [voteAsked 2, voteAsked 3, voteGranted]

instance : DecidableEq electing.Message := inferInstanceAs (DecidableEq MiniRaft.Message)

/-- Three nodes, from their start. -/
def threeHosts : Network electing where
  hosts id :=
    let storage : MiniRaft.Storage := .newWithConfState [1, 2, 3]
    .start (.new ⟨id, .start id storage, storage, .new⟩ threeNodes.peers)
  arrived := []

theorem mem_threeNodes {id : ℕ} {addr : String} (h : threeNodes.peers[id]? = some addr) :
    (id, addr) ∈ [(1, "127.0.0.1:7101"), (2, "127.0.0.1:7102"), (3, "127.0.0.1:7103")] := by
  have hlist : threeNodes.peers.toList =
      [(1, "127.0.0.1:7101"), (2, "127.0.0.1:7102"), (3, "127.0.0.1:7103")] := by decide
  exact hlist ▸ Std.TreeMap.mem_toList_iff_getElem?_eq_some.mpr h

/-- The entries of three nodes. -/
def threePeers : List String := ["1=127.0.0.1:7101", "2=127.0.0.1:7102", "3=127.0.0.1:7103"]

theorem parsePeers_threePeers : parsePeers threePeers = .ok threeNodes.peers := rfl

theorem started_threeHosts : Network.Started threePeers threeHosts := by
  refine ⟨fun id listen h => ?_, rfl⟩
  have hmem := mem_threeNodes ((getElem?_parsePeers parsePeers_threePeers id listen).mpr h)
  simp only [List.mem_cons, List.not_mem_nil, or_false, Prod.mk.injEq] at hmem
  rcases hmem with ⟨rfl, rfl⟩ | ⟨rfl, rfl⟩ | ⟨rfl, rfl⟩ <;> rfl

theorem apart_threeNodes : Network.Apart threeNodes.peers := by
  intro id id' addr h h'
  have hapart : ∀ node ∈ [(1, "127.0.0.1:7101"), (2, "127.0.0.1:7102"), (3, "127.0.0.1:7103")],
      ∀ node' ∈ [(1, "127.0.0.1:7101"), (2, "127.0.0.1:7102"), (3, "127.0.0.1:7103")],
        node.2 = node'.2 → node.1 = node'.1 := by decide
  exact hapart _ (mem_threeNodes h) _ (mem_threeNodes h') rfl

/-- Node 1 is elected with the vote of node 2; a connection to node 2 breaks off. -/
def election : List NetworkEvent :=
  [.host 1 .campaign, .host 1 (.recvClient false)] ++ List.replicate 3 (.host 1 (.process none)) ++
    [.broken 2 [0, 0], .arrive 1 0 2, .host 2 (.recvNetwork false)] ++
    List.replicate 2 (.host 2 (.process none)) ++ List.replicate 2 (.host 1 (.process none)) ++
    [.arrive 2 0 1, .host 1 (.process none), .host 1 (.recvNetwork false)]

theorem network_carries_election : ∃ s : Network electing,
    run (Network.step threeNodes.peers) threeHosts election = some s ∧
    (s.hosts 1).worker.node.role = .leader ∧ ∃ sent : ℕ → List MiniRaft.Message,
      (sent 1).length = 2 ∧ [voteGranted].Sublist (s.arrivals sent) := by
  have hfits : Meets (Network.step threeNodes.peers) Network.Fits threeHosts election := by
    decide +kernel
  have hrun : (run (Network.step threeNodes.peers) threeHosts election).map (fun s =>
      ((s.hosts 1).worker.node.role, (s.hosts 1).worker.wire.length)) = some (.leader, 2) := by
    decide +kernel
  have htaken : (collect (Network.step threeNodes.peers) (Network.atHost Host.taken 1) threeHosts
      election : List MiniRaft.Message) = [voteGranted] := by decide +kernel
  obtain ⟨s, hrun, hfacts⟩ := Option.map_eq_some_iff.mp hrun
  obtain ⟨hrole, hwire⟩ := Prod.mk.inj hfacts
  have hmem : 1 ∈ threeNodes.peers := by decide
  obtain ⟨sent, hsent, -, hqueue⟩ := network_carries parsePeers_threePeers started_threeHosts
    apart_threeNodes hrun hfits
  refine ⟨s, hrun, hrole, sent, ?_, ?_⟩
  · rw [(hsent 1 hmem).1, List.length_map] at hwire
    exact hwire
  · rw [← htaken]
    exact ((List.sublist_append_left _ _).trans (hqueue 1 hmem)).trans List.filter_sublist

end

end Raft
