/-
The chat broker (`broker.rs`).

Each connection is a task that runs `handle_connection`.  A task gives way at
every `.await`, and the tasks run on several threads, so a step is one await of
one task completing, together with at most one access to what the tasks share:
the registry under its mutex, the id counter, or the broadcast channel.  What
the environment decides is in the event: what arrives on a socket, whether a
write succeeds, and which branch of `select!` is polled.

* `BrokerState` — the shared state and its methods;
* `Phase`, `Conn` — where a task stands in `handle_connection`, with its
  reader and with what it has written to its client;
* `Conn.step`, `Broker.step` — the steps.

`order` records the calls of `BrokerState::broadcast` with the connection that
made them, and `Conn` records when it was issued its id, registered and
subscribed; nothing reads these fields.  Log messages and peer addresses are
left out.
-/
import AsyncRust.Broadcast
import AsyncRust.ChatMessage
import Mathlib.Data.List.AList

namespace Chat

open LineReader Broadcast

/-! ### Shared state -/

abbrev ClientId := ℕ

structure ClientRecord where
  nickname : String
  deriving DecidableEq, Repr

/-- The map has no order in the program; nothing below depends on the order of
its entries here.  The ids are `u64` there, and do not wrap in the life of a
broker. -/
structure BrokerState where
  clients : AList fun _ : ClientId => ClientRecord
  broadcaster : Channel ServerToClient
  nextId : ClientId

def BrokerState.new : BrokerState := ⟨∅, ⟨128, []⟩, 1⟩

/-- `next_id`: the id that is issued, and the counter past it. -/
def BrokerState.issueId (st : BrokerState) : ClientId × BrokerState :=
  (st.nextId, { st with nextId := st.nextId + 1 })

inductive RegisterClientError where
  | nicknameTaken
  deriving DecidableEq, Repr

/-- The nicknames of `clients.values()`. -/
def BrokerState.nicknames (st : BrokerState) : List String :=
  st.clients.entries.map fun entry => entry.2.nickname

/-- Check and insertion happen under one lock. -/
def BrokerState.registerClient (st : BrokerState) (id : ClientId) (nickname : String) :
    Except RegisterClientError (List String × BrokerState) :=
  if st.nicknames.contains nickname then .error .nicknameTaken
  else .ok (st.nicknames, { st with clients := st.clients.insert id ⟨nickname⟩ })

def BrokerState.removeClient (st : BrokerState) (id : ClientId) :
    Option ClientRecord × BrokerState :=
  (st.clients.lookup id, { st with clients := st.clients.erase id })

/-- A send that finds no receiver is only logged. -/
def BrokerState.broadcast (st : BrokerState) (receivers : ℕ) (message : ServerToClient) :
    BrokerState :=
  match st.broadcaster.send receivers message with
  | .ok broadcaster => { st with broadcaster }
  | .error _ => st

def BrokerState.subscribe (st : BrokerState) : ℕ := st.broadcaster.subscribe

/-! ### The handshake -/

/-- Why `handle_connection` returns an error. -/
inductive Failure where
  | io (err : IoError)
  | bail (message : String)
  deriving DecidableEq, Repr

def extractNickname : ClientToServer → Except Failure String
  | .hello nickname => .ok (trim nickname)
  | .chat _ => .error (.bail "expected hello message first")

/-- The error that is written to the client for an unusable nickname. -/
def validateNickname (nickname : String) : Option String :=
  if nickname = "" then some "nickname cannot be empty" else none

/-- How `perform_handshake` goes on once the first message is read. -/
inductive Handshake where
  | failed (failure : Failure)
  | invalid (message : String)
  | done (nickname : String)
  deriving DecidableEq, Repr

def performHandshake : ReadResult ClientToServer → Handshake
  | .error err => .failed (.io err)
  | .ok none => .failed (.bail "connection closed before handshake")
  | .ok (some hello) =>
    match extractNickname hello with
    | .error failure => .failed failure
    | .ok nickname =>
      match validateNickname nickname with
      | some message => .invalid message
      | none => .done nickname

/-! ### The session -/

/-- What `handle_client_message` does with what was read. -/
inductive Handled where
  | broadcast (message : ServerToClient)
  | ignore
  | reply (message : ServerToClient)
  | finish
  | failed (err : IoError)
  deriving DecidableEq, Repr

def handleClientMessage (nickname : String) : ReadResult ClientToServer → Handled
  | .error err => .failed err
  | .ok (some (.chat text)) =>
    if trim text = "" then .ignore else .broadcast (.chat nickname text)
  | .ok (some (.hello _)) => .reply (.error "already connected")
  | .ok none => .finish

/-- The message that `handle_broadcast_message` writes for what its inbox gave.
(`RecvError::Closed` cannot occur: the task itself holds the sender.) -/
def relayedMessage : Delivery ServerToClient → ServerToClient
  | .value message => message
  | .lagged skipped =>
    .error s!"you are behind by {skipped} messages; consider reconnecting"

/-! ### Connections -/

/-- A registered client: its id and its nickname. -/
structure Member where
  id : ClientId
  nickname : String
  deriving DecidableEq, Repr

/-- Where a task stands in `handle_connection`; `inbox` is the position of its
receiver. -/
inductive Phase where
  /-- `perform_handshake` reads the first message. -/
  | handshake
  /-- An `Error` is being written, after which the connection is given up. -/
  | rejecting (message reason : String)
  /-- An id is issued; `register_client` waits for the lock. -/
  | registering (client : Member)
  | welcoming (client : Member) (roster : List String)
  | rostering (client : Member) (roster : List String)
  /-- Welcomed; `UserJoined` is broadcast next. -/
  | announcing (client : Member)
  /-- Announced; `run_client_session` subscribes next. -/
  | subscribing (client : Member)
  | session (client : Member) (inbox : ℕ)
  /-- The reply to a second `Hello` is being written. -/
  | replying (client : Member) (inbox : ℕ) (message : ServerToClient)
  /-- What the inbox gave is being written. -/
  | delivering (client : Member) (inbox : ℕ) (item : Delivery ServerToClient)
  /-- The session has ended well; `remove_client` waits for the lock. -/
  | cleanup (client : Member)
  /-- The record is removed; `UserLeft` is broadcast next. -/
  | leaving (nickname : String)
  /-- `handle_connection` has returned, leaving no record. -/
  | closed (failure : Option Failure)
  /-- `handle_connection` has returned by a `?` past its cleanup; `joined` tells
  whether its `UserJoined` was broadcast. -/
  | aborted (client : Member) (joined : Bool) (failure : Failure)
  deriving DecidableEq, Repr

/-- A message on the client's socket: one the task wrote by itself, or one it
relayed from its inbox. -/
inductive Written where
  | own (message : ServerToClient)
  | relayed (item : Delivery ServerToClient)
  deriving DecidableEq, Repr

def Written.message : Written → ServerToClient
  | .own message => message
  | .relayed item => relayedMessage item

structure Conn where
  phase : Phase
  reading : Reading (ReadResult ClientToServer)
  written : List Written
  issued : Option ClientId
  registeredAt : Option ℕ
  subscribedAt : Option ℕ
  deriving DecidableEq, Repr

def Conn.new : Conn := ⟨.handshake, .start, [], none, none, none⟩

/-- The task owns a `broadcast::Receiver`. -/
def Phase.holdsInbox : Phase → Bool
  | .session .. => true
  | .replying .. => true
  | .delivering .. => true
  | _ => false

/-- `handle_connection` has not returned. -/
def Phase.running : Phase → Bool
  | .closed _ => false
  | .aborted .. => false
  | _ => true

/-! ### Steps -/

/-- What can happen to a connection: a part of its stream arrives, its pending
`read_message` is polled, its inbox wins the `select!`, its pending write
succeeds or fails, or it goes on by itself. -/
inductive Action where
  | arrive (fill : Fill)
  | poll
  | recv
  | write (ok : Bool)
  | proceed
  deriving DecidableEq, Repr

/-- The task and the shared state after a step, and the message of the
`broadcast` call if the step made one. -/
structure Outcome where
  conn : Conn
  state : BrokerState
  said : Option ServerToClient

variable (fromStr : String → Option ClientToServer)

/-- One step of a task; `receivers` counts the inboxes, `now` the broadcasts so
far.  A write that fails after the record was inserted, and a failed read in
the session, leave through `?`; a failed delivery only ends the session. -/
def Conn.step (st : BrokerState) (receivers now : ℕ) (conn : Conn) : Action → Option Outcome
  | .arrive fill => some ⟨{ conn with reading := conn.reading.feed fill }, st, none⟩
  | .poll =>
    let (result, reading) := conn.reading.poll (readMessage fromStr)
    match conn.phase, result with
    | .handshake, none => some ⟨{ conn with reading }, st, none⟩
    | .handshake, some result =>
      match performHandshake result with
      | .failed failure =>
        some ⟨{ conn with reading, phase := .closed (some failure) }, st, none⟩
      | .invalid message =>
        some ⟨{ conn with reading, phase := .rejecting message message }, st, none⟩
      | .done nickname =>
        let (id, st) := st.issueId
        some ⟨{ conn with reading, phase := .registering ⟨id, nickname⟩, issued := some id },
          st, none⟩
    | .session _ _, none => some ⟨{ conn with reading }, st, none⟩
    | .session client inbox, some result =>
      match handleClientMessage client.nickname result with
      | .broadcast message =>
        some ⟨{ conn with reading }, st.broadcast receivers message, some message⟩
      | .ignore => some ⟨{ conn with reading }, st, none⟩
      | .reply message =>
        some ⟨{ conn with reading, phase := .replying client inbox message }, st, none⟩
      | .finish => some ⟨{ conn with reading, phase := .cleanup client }, st, none⟩
      -- `?` in the session: no cleanup
      | .failed err =>
        some ⟨{ conn with reading, phase := .aborted client true (.io err) }, st, none⟩
    | _, _ => none
  | .recv =>
    match conn.phase with
    | .session client inbox =>
      -- the `read_message` branch loses, and its future is dropped
      (st.broadcaster.recv inbox).map fun (item, inbox) =>
        ⟨{ conn with
            reading := conn.reading.cancel, phase := .delivering client inbox item }, st, none⟩
    | _ => none
  | .write ok =>
    match conn.phase, ok with
    | .rejecting message reason, true =>
      some ⟨{ conn with
        phase := .closed (some (.bail reason))
        written := conn.written ++ [.own (.error message)] }, st, none⟩
    | .rejecting _ _, false =>
      some ⟨{ conn with phase := .closed (some (.io .stream)) }, st, none⟩
    | .welcoming client roster, true =>
      some ⟨{ conn with
        phase := if roster = [] then .announcing client else .rostering client roster
        written := conn.written ++ [.own (.welcome client.nickname)] }, st, none⟩
    | .rostering client roster, true =>
      some ⟨{ conn with
        phase := .announcing client
        written := conn.written ++ [.own (.roster roster)] }, st, none⟩
    -- `?` after the registration: no cleanup
    | .welcoming client _, false | .rostering client _, false =>
      some ⟨{ conn with phase := .aborted client false (.io .stream) }, st, none⟩
    | .replying client inbox message, true =>
      some ⟨{ conn with
        phase := .session client inbox
        written := conn.written ++ [.own message] }, st, none⟩
    | .replying client _ _, false =>
      some ⟨{ conn with phase := .aborted client true (.io .stream) }, st, none⟩
    | .delivering client inbox item, true =>
      some ⟨{ conn with
        phase := .session client inbox
        written := conn.written ++ [.relayed item] }, st, none⟩
    -- the session breaks off its loop, and is cleaned up
    | .delivering client _ _, false =>
      some ⟨{ conn with phase := .cleanup client }, st, none⟩
    | _, _ => none
  | .proceed =>
    match conn.phase with
    | .registering client =>
      -- the roster is taken and the record inserted under one lock
      match st.registerClient client.id client.nickname with
      | .error .nicknameTaken =>
        some ⟨{ conn with
          phase := .rejecting s!"nickname '{client.nickname}' is already in use"
            "nickname already taken" }, st, none⟩
      | .ok (roster, st) =>
        some ⟨{ conn with phase := .welcoming client roster, registeredAt := some now },
          st, none⟩
    | .announcing client =>
      let message := ServerToClient.userJoined client.nickname
      some ⟨{ conn with phase := .subscribing client }, st.broadcast receivers message,
        some message⟩
    | .subscribing client =>
      -- the receiver sees what is broadcast from now on
      some ⟨{ conn with phase := .session client st.subscribe, subscribedAt := some now },
        st, none⟩
    | .cleanup client =>
      match st.removeClient client.id with
      | (some record, st) => some ⟨{ conn with phase := .leaving record.nickname }, st, none⟩
      | (none, st) => some ⟨{ conn with phase := .closed none }, st, none⟩
    | .leaving nickname =>
      let message := ServerToClient.userLeft nickname
      some ⟨{ conn with phase := .closed none }, st.broadcast receivers message, some message⟩
    | _ => none

/-- The broker with its connections, in the order in which they were accepted. -/
structure Broker where
  state : BrokerState
  conns : List Conn
  accepting : Bool
  order : List (Option ℕ × ServerToClient)

def Broker.new : Broker := ⟨.new, [], true, []⟩

/-- `run_until` accepts connections until the shutdown future completes; the
tasks go on after that. -/
inductive Event where
  | accept
  | shutdown
  | conn (c : ℕ) (action : Action)
  deriving DecidableEq, Repr

def Broker.receivers (s : Broker) : ℕ := s.conns.countP fun conn => conn.phase.holdsInbox

def shutdownNotice : ServerToClient := .error "broker shutting down"

def Broker.step (s : Broker) : Event → Option Broker
  | .accept =>
    if s.accepting then some { s with conns := s.conns ++ [.new] } else none
  | .shutdown =>
    if s.accepting then
      some { s with
        accepting := false
        state := s.state.broadcast s.receivers shutdownNotice
        order := s.order ++ [(none, shutdownNotice)] }
    else none
  | .conn c action => do
    let conn ← s.conns[c]?
    let o ← conn.step fromStr s.state s.receivers s.order.length action
    some { s with
      state := o.state
      conns := s.conns.set c o.conn
      order := s.order ++ o.said.toList.map fun message => (some c, message) }

/-! ### Scripts for runs on given input -/

/-- A `Hello` in the JSON of the protocol. -/
def helloLine (nickname : String) : String :=
  "\x7b\"type\":\"hello\",\"nickname\":\"" ++ nickname ++ "\"\x7d"

/-- A `Chat` in the JSON of the protocol. -/
def chatLine (text : String) : String :=
  "\x7b\"type\":\"chat\",\"text\":\"" ++ text ++ "\"\x7d"

/-- `serde_json::from_str` on the lines of the scripts; every other line of
theirs is malformed. -/
def scriptFromStr (line : String) : Option ClientToServer :=
  if line = helloLine "alice" then some (.hello "alice")
  else if line = helloLine "bob" then some (.hello "bob")
  else if line = chatLine "hi" then some (.chat "hi")
  else none

def sendLine (c : ℕ) (line : String) : List Event :=
  [.conn c (.arrive (Fill.ofString (line ++ "\n"))), .conn c .poll]

/-- Connection `c` is accepted and registered. -/
def registerScript (c : ℕ) (nickname : String) : List Event :=
  .accept :: sendLine c (helloLine nickname) ++ [.conn c .proceed]

/-- It is sent its greeting, in `writes` messages, and announced. -/
def announceScript (c writes : ℕ) : List Event :=
  List.replicate writes (.conn c (.write true)) ++ [.conn c .proceed]

/-- The whole way of a connection into its session. -/
def joinScript (c : ℕ) (nickname : String) (writes : ℕ) : List Event :=
  registerScript c nickname ++ announceScript c writes ++ [.conn c .proceed]

end Chat
