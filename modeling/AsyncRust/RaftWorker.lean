/-
The worker of a Raft node and its surroundings (`runtime.rs`).

The worker thread owns the node and loops: it waits for a client request, a
message from a peer or the next tick, and then processes what the library has
ready.  The client handle and the connection threads feed two channels.  A step
is what one thread does at once; the loop of the worker is cut where it waits,
polls, sends one message, or notifies one client, and the other threads may
come in between.  The event decides what the program does not: the calls of
the handle, the bytes of a connection, whether a tick is due (no clock is
modelled) and whether a send over the network fails.

* `Worker` — the worker's state and methods; what it has sent through its
  channels and over the network so far is part of it;
* `handleConnection`, `frame` — the framing of the messages between nodes;
* `Host.step` — the steps; `spawnNode` — the start.

`History` records which entries the library handed out, which reports the polls
returned, which of them were notified, which puts were accepted in which state,
and which notification answered which put; nothing reads it.  A failing call
leaves no bytes on the wire, and the message that the thread logs when the
worker returns an error is left out.
-/
import AsyncRust.RaftNode
import AsyncRust.ByteFormat
import AsyncRust.Runs

namespace Raft

open ByteFormat Runs

variable {L : Library}

/-! ### Requests and replies -/

/-- A response channel; every request gets a new one. -/
abbrev ChannelId := ℕ

inductive LogMessage where
  | info (text : String)
  | error (text : String)
  deriving DecidableEq, Repr

structure NodeStatus where
  nodeId : ℕ
  role : StateRole
  leaderId : ℕ
  term : ℕ
  store : Std.TreeMap String String

inductive ClientRequest where
  | put (key value : String) (respondTo : ChannelId)
  | get (key : String) (respondTo : ChannelId)
  | status (respondTo : ChannelId)
  | campaign (respondTo : ChannelId)
  | shutdown
  deriving DecidableEq, Repr

def ClientRequest.respondTo : ClientRequest → Option ChannelId
  | put _ _ ch | get _ ch | status ch | campaign ch => some ch
  | shutdown => none

/-- What is sent through a response channel; an error is given by its chain. -/
inductive Reply where
  | put (result : Except (List String) String)
  | get (value : Option String)
  | status (status : NodeStatus)
  | campaign (result : Except (List String) String)

/-- The value of an `Ok` to a put. -/
def Reply.acknowledged : Reply → Option String
  | put (.ok value) => some value
  | _ => none

theorem Reply.acknowledged_eq_some {reply : Reply} {value : String} :
    reply.acknowledged = some value ↔ reply = .put (.ok value) := by
  rcases reply with (_ | _) | _ | _ | _ <;> simp [acknowledged]

/-- A put whose value is among those acknowledged was sent `Ok`. -/
theorem Reply.mem_of_acknowledged {replies : List (ChannelId × Reply)} {ch : ChannelId}
    {value : String} (h : (ch, value) ∈ replies.filterMap fun reply =>
      reply.2.acknowledged.map (reply.1, ·)) : (ch, .put (.ok value)) ∈ replies := by
  obtain ⟨⟨ch', reply⟩, hreply, heq⟩ := List.mem_filterMap.mp h
  obtain ⟨value', hvalue, heq⟩ := Option.map_eq_some_iff.mp heq
  cases heq
  exact Reply.acknowledged_eq_some.mp hvalue ▸ hreply

structure PendingPut where
  key : String
  value : String
  respondTo : ChannelId
  deriving DecidableEq, Repr

/-- `notify_put` looks for a pending put with the key and the value of a report. -/
def PendingPut.isFor (report : ApplyReport) (pending : PendingPut) : Bool :=
  pending.key = report.key && pending.value = report.value

/-! ### Framing -/

/-- What `try_send` writes; the length is cast to a `u32`. -/
def frame (bytes : List UInt8) : List UInt8 := beBytes 4 bytes.length ++ bytes

/-- `handle_connection` up to forwarding the message, on all that a connection
delivers; its errors by their texts. -/
def handleConnection (L : Library) (bytes : List UInt8) : Except String L.Message :=
  match readBe 4 bytes with
  | none => .error "failed to fill whole buffer"
  | some (len, rest) =>
    match readExact len rest with
    | none => .error "failed to fill whole buffer"
    -- what follows the frame is never read
    | some (buf, _) => L.decode buf

/-! ### The worker -/

/-- `logTx`, `replies` and `wire` are what went through the log channel, the
response channels and to the addresses of peers so far. -/
structure Worker (L : Library) where
  node : RaftNode L
  peers : Std.TreeMap ℕ String
  logTx : List LogMessage
  replies : List (ChannelId × Reply)
  wire : List (String × List UInt8)
  pendingPuts : List PendingPut
  lastRole : StateRole

namespace Worker

def new (node : RaftNode L) (peers : Std.TreeMap ℕ String) : Worker L :=
  { node, peers, logTx := [], replies := [], wire := [], pendingPuts := []
    lastRole := node.role }

def log (w : Worker L) (message : LogMessage) : Worker L :=
  { w with logTx := w.logTx ++ [message] }

def respond (w : Worker L) (respondTo : ChannelId) (reply : Reply) : Worker L :=
  { w with replies := w.replies ++ [(respondTo, reply)] }

/-- The answer to a put on a node that is not the leader. -/
def notLeader (leaderId : ℕ) : String :=
  if leaderId = 0 then "No leader elected yet. Try again after a leader is elected."
  else s!"Write operations must be sent to the leader (Node {leaderId})"

/-- `false` is the request to shut down; an error is a panic of the library. -/
def handleClientRequest (w : Worker L) : ClientRequest → Except Fault (Bool × Worker L)
  | .put key value respondTo =>
    if w.node.role ≠ .leader then
      .ok (true, w.respond respondTo (.put (.error [notLeader w.node.leaderId])))
    else
      match w.node.propose (.put key value) with
      -- the reply waits until an entry with this key and value is applied
      | (.ok (), node) =>
        .ok (true, { w with node, pendingPuts := w.pendingPuts ++ [⟨key, value, respondTo⟩] })
      | (.error (.error chain), node) =>
        .ok (true, { w with node }.respond respondTo (.put (.error chain)))
      | (.error .panic, _) => .error .panic
  | .get key respondTo => .ok (true, w.respond respondTo (.get (w.node.valueFor key)))
  | .status respondTo =>
    let status : NodeStatus := ⟨w.node.id, w.node.role, w.node.leaderId, w.node.term,
      w.node.snapshot⟩
    .ok (true, w.respond respondTo (.status status))
  | .campaign respondTo =>
    let id := w.node.id
    let oldRole := w.node.role.debug
    match w.node.campaign with
    | (.ok (), node) =>
      let msg := s!"Campaign initiated! Previous role: {oldRole}, starting election..."
      .ok (true, ({ w with node }.log (.info s!"[node {id}] {msg}")).respond respondTo
        (.campaign (.ok msg)))
    | (.error (.error chain), node) =>
      .ok (true, { w with node }.respond respondTo (.campaign (.error chain)))
    | (.error .panic, _) => .error .panic
  | .shutdown => .ok (false, w)

/-- `send_message` and `try_send`; `sendErr` is the error of the connection. -/
def sendMessage (w : Worker L) (addr : String) (msg : L.Message) (sendErr : Option String) :
    Worker L :=
  match sendErr with
  | none => { w with wire := w.wire ++ [(addr, frame (L.encodeToVec msg))] }
  | some err => w.log (.error s!"failed to send message to {addr}: {err}")

def dispatchMessage (w : Worker L) (msg : L.Message) (sendErr : Option String) :
    Except Fault (Worker L) :=
  let receiver := L.msgTo msg
  if receiver = w.node.id then
    -- a message to the node itself is stepped at once
    match w.node.step msg with
    | (.ok (), node) => .ok { w with node }
    | (.error fault, _) => .error fault
  else
    match w.peers[receiver]? with
    | none => .ok (w.log (.error s!"no address for peer {receiver}, dropping message"))
    | some addr => .ok (w.sendMessage addr msg sendErr)

def notifyPut (w : Worker L) (report : ApplyReport) : Worker L :=
  let id := w.node.id
  let ⟨_, key, value, index, term⟩ := report
  let w := w.log (.info
    s!"[node {id}] applied key={key} value={value} (index {index}, term {term})")
  match w.pendingPuts.findIdx? (·.isFor report) with
  | none => w
  -- the first that matches is answered, whoever proposed the entry
  | some position =>
    { w with
      pendingPuts := w.pendingPuts.eraseIdx position
      replies := w.replies ++ w.pendingPuts[position]?.toList.map fun pending =>
        (pending.respondTo, .put (.ok report.value)) }

def logRoleChange (w : Worker L) : Worker L :=
  let id := w.node.id
  let current := w.node.role
  let leaderId := w.node.leaderId
  let was := w.lastRole.debug
  let now := current.debug
  if current = w.lastRole then w
  else { w.log (.info s!"[node {id}] role changed {was} -> {now} (leader: {leaderId})") with
    lastRole := current }

end Worker

/-! ### The host -/

inductive StopCause where
  | shutdown
  | clientDropped
  | listenerGone
  deriving DecidableEq, Repr

/-- Where `Worker::run` stands: it waits for the next event, or it is in
`process_ready`, about to poll, to dispatch a message, or to notify of a report;
or it has returned or panicked. -/
inductive Phase (L : Library) where
  | selecting
  | polling
  | dispatching (messages : List L.Message) (applied : List ApplyReport)
  | notifying (applied : List ApplyReport)
  | stopped (cause : StopCause)
  | crashed (fault : Fault)

def Phase.running : Phase L → Bool
  | .stopped _ => false
  | .crashed _ => false
  | _ => true

/-- `process_ready` has finished. -/
def Phase.isSelecting : Phase L → Bool
  | .selecting => true
  | _ => false

theorem Phase.isSelecting_iff {phase : Phase L} :
    phase.isSelecting = true ↔ phase = .selecting := by
  cases phase <;> simp [isSelecting]

/-- The reports of the current bundle that were not notified yet. -/
def Phase.unnotified : Phase L → List ApplyReport
  | .dispatching _ applied => applied
  | .notifying applied => applied
  | _ => []

/-- A put that the library took, with the position of its log entry, the number
of reports notified before, and the number of equal puts then pending. -/
structure Accepted where
  respondTo : ChannelId
  key : String
  value : String
  index : ℕ
  term : ℕ
  after : ℕ
  ahead : ℕ
  deriving DecidableEq, Repr

/-- `answered` has the channel of a put with the position in `notified` of the
report on which it was answered. -/
structure History where
  delivered : List Entry
  applied : List ApplyReport
  notified : List ApplyReport
  accepted : List Accepted
  answered : List (ChannelId × ℕ)

structure Host (L : Library) where
  worker : Worker L
  phase : Phase L
  clientQueue : List ClientRequest
  handleOpen : Bool
  networkQueue : List L.Message
  listenerOpen : Bool
  nextChannel : ChannelId
  history : History

inductive Event where
  | put (key value : String)
  | get (key : String)
  | status
  | campaign
  | shutdown
  | dropHandle
  | connection (bytes : List UInt8)
  | dropListener
  | recvClient (ticked : Bool)
  | recvNetwork (ticked : Bool)
  | timeout (ticked : Bool)
  | process (sendErr : Option String)
  deriving DecidableEq, Repr

/-- The puts that a request has added to the pending ones, as accepted. -/
def History.accept (h : History) (w w' : Worker L) : History :=
  { h with
    accepted := h.accepted ++ (w'.pendingPuts.drop w.pendingPuts.length).map fun put =>
      { respondTo := put.respondTo, key := put.key, value := put.value
        index := L.lastIndex w'.node.raw w'.node.storage, term := w'.node.term
        after := h.notified.length
        ahead := (w.pendingPuts.filter fun other =>
          other.key = put.key && other.value = put.value).length } }

namespace Host

/-- A method of `NodeHandle` up to its wait for the reply; on a worker that is
gone it fails at once and changes nothing. -/
def request (s : Host L) (req : ClientRequest) : Option (Host L) :=
  if s.handleOpen ∧ s.phase.running then
    some { s with clientQueue := s.clientQueue ++ [req], nextChannel := s.nextChannel + 1 }
  else none

/-- What a connection delivers is read in a thread of its own. -/
def receive (s : Host L) (bytes : List UInt8) : Host L :=
  match handleConnection L bytes with
  | .error err => { s with worker := s.worker.log (.error s!"connection error: {err}") }
  | .ok msg =>
    if s.phase.running then { s with networkQueue := s.networkQueue ++ [msg] }
    else { s with worker := s.worker.log (.error "connection error: worker gone") }

/-- The tick after `select!`, if it is due. -/
def afterSelect (s : Host L) (ticked : Bool) : Host L :=
  { s with
    worker := if ticked then { s.worker with node := s.worker.node.tick } else s.worker
    phase := .polling }

def recvClient (s : Host L) (ticked : Bool) : Option (Host L) :=
  match s.clientQueue with
  | [] => if s.handleOpen then none else some { s with phase := .stopped .clientDropped }
  | req :: clientQueue =>
    match s.worker.handleClientRequest req with
    | .error fault => some { s with clientQueue, phase := .crashed fault }
    | .ok (false, worker) => some { s with worker, clientQueue, phase := .stopped .shutdown }
    | .ok (true, worker) =>
      let history := s.history.accept s.worker worker
      some ({ s with worker, clientQueue, history }.afterSelect ticked)

def recvNetwork (s : Host L) (ticked : Bool) : Option (Host L) :=
  match s.networkQueue with
  | [] => if s.listenerOpen then none else some { s with phase := .stopped .listenerGone }
  | msg :: networkQueue =>
    match s.worker.node.step msg with
    -- `?` in `run`: the worker is gone
    | (.error fault, _) => some { s with networkQueue, phase := .crashed fault }
    | (.ok (), node) =>
      some ({ s with worker := { s.worker with node }, networkQueue }.afterSelect ticked)

/-- `default(timeout)`: nothing has come, and both senders are there. -/
def timeout (s : Host L) (ticked : Bool) : Option (Host L) :=
  if s.clientQueue.isEmpty ∧ s.networkQueue.isEmpty ∧ s.handleOpen ∧ s.listenerOpen then
    some (s.afterSelect ticked)
  else none

/-- `poll_ready` in `process_ready`; when nothing is ready, the loop goes round. -/
def poll (s : Host L) : Host L :=
  match s.worker.node.pollReady with
  -- `?` in `process_ready`, and from there in `run`
  | .error fault => { s with phase := .crashed fault }
  | .ok (none, node) =>
    { s with worker := { s.worker with node }.logRoleChange, phase := .selecting }
  | .ok (some bundle, node) =>
    { s with
      worker := { s.worker with node }
      phase := .dispatching bundle.messages bundle.applied
      history := { s.history with
        delivered := s.history.delivered ++ s.worker.node.handed
        applied := s.history.applied ++ bundle.applied } }

/-- One round of the loop over the messages of a bundle. -/
def dispatch (s : Host L) (messages : List L.Message) (applied : List ApplyReport)
    (sendErr : Option String) : Host L :=
  match messages with
  | [] => { s with phase := .notifying applied }
  | msg :: messages =>
    match s.worker.dispatchMessage msg sendErr with
    | .error fault => { s with phase := .crashed fault }
    | .ok worker => { s with worker, phase := .dispatching messages applied }

/-- One round of the loop over the reports of a bundle; what the worker sends on
response channels is recorded as answered by the report. -/
def notify (s : Host L) : List ApplyReport → Host L
  | [] => { s with phase := .polling }
  | report :: applied =>
    let worker := s.worker.notifyPut report
    { s with
      worker
      phase := .notifying applied
      history := { s.history with
        notified := s.history.notified ++ [report]
        answered := s.history.answered ++
          (worker.replies.drop s.worker.replies.length).map fun reply =>
            (reply.1, s.history.notified.length) } }

def step (s : Host L) : Event → Option (Host L)
  | .put key value => s.request (.put key value s.nextChannel)
  | .get key => s.request (.get key s.nextChannel)
  | .status => s.request (.status s.nextChannel)
  | .campaign => s.request (.campaign s.nextChannel)
  | .shutdown => s.request .shutdown
  | .dropHandle => if s.handleOpen then some { s with handleOpen := false } else none
  | .connection bytes => if s.listenerOpen then some (s.receive bytes) else none
  | .dropListener => if s.listenerOpen then some { s with listenerOpen := false } else none
  | .recvClient ticked =>
    match s.phase with
    | .selecting => s.recvClient ticked
    | _ => none
  | .recvNetwork ticked =>
    match s.phase with
    | .selecting => s.recvNetwork ticked
    | _ => none
  | .timeout ticked =>
    match s.phase with
    | .selecting => s.timeout ticked
    | _ => none
  | .process sendErr =>
    match s.phase with
    | .polling => some s.poll
    | .dispatching messages applied => some (s.dispatch messages applied sendErr)
    | .notifying applied => some (s.notify applied)
    | _ => none

end Host

/-! ### Spawning -/

structure NodeConfig where
  id : ℕ
  listenAddr : String
  peers : Std.TreeMap ℕ String

/-- Nothing has come yet. -/
def Host.start (worker : Worker L) : Host L where
  worker := worker
  phase := .selecting
  clientQueue := []
  handleOpen := true
  networkQueue := []
  listenerOpen := true
  nextChannel := 0
  history := ⟨[], [], [], [], []⟩

/-- The voters are the keys of the map, in order. -/
def spawnNode (L : Library) (config : NodeConfig) : Except Fault (Host L) :=
  if config.peers.contains config.id then do
    let node ← RaftNode.new config.id config.peers.keys
    pure (.start (.new node config.peers))
  else
    let id := config.id
    .error (.error [s!"listen node id {id} missing from peers map"])

/-- The host after the events `es`, from its start. -/
def runHost (L : Library) (config : NodeConfig) (es : List Event) : Option (Host L) :=
  (spawnNode L config).toOption.bind fun s => run Host.step s es

/-- A host starts with a new node under the id of its configuration. -/
theorem spawnNode_eq_ok {config : NodeConfig} {s : Host L} (h : spawnNode L config = .ok s) :
    config.id ∈ config.peers.keys ∧ ∃ node, RaftNode.new config.id config.peers.keys = .ok node ∧
      s = .start (.new node config.peers) := by
  unfold spawnNode at h
  split at h
  · rename_i hmem
    obtain ⟨node, hnode, h⟩ := bind_eq_ok.mp h
    cases h
    exact ⟨Std.TreeMap.mem_keys.mpr (Std.TreeMap.mem_iff_contains.mpr hmem), node, hnode, rfl⟩
  · cases h

theorem runHost_eq_some {config : NodeConfig} {es : List Event} {s : Host L} :
    runHost L config es = some s ↔
      ∃ s₀, spawnNode L config = .ok s₀ ∧ run Host.step s₀ es = some s := by
  rw [runHost]
  cases spawnNode L config <;> simp [Except.toOption]

end Raft
