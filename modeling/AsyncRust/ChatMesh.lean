/-
A broker with its clients, joined by their connections.

`Mesh` puts a broker and any number of client processes side by side.  What one side writes
is in transit until the transport delivers it, in parts of any size; it delivers the end
of the stream once the writing side is gone and nothing is in transit any more, or a failure
at any time, and then nothing else.  A failing write may leave any part of its line on the
way.  What is typed reaches the standard input of its client in parts of any size, too, until
its end or a failure.  The steps of the parts are those of `Client.step` and `Broker.step`.

* `Mesh.step` — the steps of the whole;
* `Mesh.broker_reachable` — its broker runs as it does alone;
* `Mesh.pair_invariant` — what every step keeps of each connection and its client.

`Peer.tried` records what the task of the connection has tried to write; nothing reads it.
-/
import AsyncRust.BrokerFanout
import AsyncRust.ChatClient
import AsyncRust.LineDrops
import AsyncRust.LineProtocol
import AsyncRust.Lists

namespace Chat

open LineReader Broadcast Runs Lists

/-! ### Connections -/

/-- One direction of a connection: what was written and has not arrived, and whether the
reading side was told of the end or of a failure. -/
structure Link where
  transit : List UInt8
  ended : Bool
  deriving DecidableEq, Repr

def Link.new : Link := ⟨[], false⟩

def Link.write (link : Link) (bytes : List UInt8) : Link :=
  { link with transit := link.transit ++ bytes }

/-- What the transport delivers next. -/
inductive Carried where
  /-- One byte in transit and at most `more` behind it. -/
  | bytes (more : ℕ)
  | eof
  | failed
  deriving DecidableEq, Repr

/-- What arrives, and what is still in transit; `closed` says that the writing side is
gone. -/
def Link.carry (link : Link) (closed : Bool) : Carried → Option (Fill × Link)
  | .bytes more =>
    match link.transit with
    | [] => none
    | byte :: rest =>
      if link.ended then none
      else some (.data byte (rest.take more), { link with transit := rest.drop more })
  | .eof =>
    if link.transit = [] ∧ closed ∧ link.ended = false then some (.eof, { link with ended := true })
    else none
  | .failed => if link.ended then none else some (.failed, { link with ended := true })

/-- What a write of `message` puts on its way: the line, or a part of it if the write
fails. -/
def emitted {T : Type} (json : Serde T) (message : T) (ok : Bool) (cut : ℕ) : List UInt8 :=
  if ok then (Item.message message).line json else ((Item.message message).line json).take cut

/-- The message that the client is writing. -/
def Client.writing (client : Client) : Option ClientToServer :=
  match client.phase with
  | .greeting => some (.hello client.nickname)
  | .sending message => some message
  | _ => none

/-- `run` has returned, and the socket is closed. -/
def Client.gone (client : Client) : Bool :=
  match client.phase with
  | .returned _ => true
  | _ => false

/-- The message that the task is writing. -/
def Phase.writing : Phase → Option ServerToClient
  | .rejecting message _ => some (.error message)
  | .welcoming client _ => some (.welcome client.nickname)
  | .rostering _ roster => some (.roster roster)
  | .replying _ _ message => some message
  | .delivering _ _ item => some (relayedMessage item)
  | _ => none

/-! ### The mesh -/

/-- A client process, and what is on its connection. -/
structure Peer where
  client : Client
  up : Link
  down : Link
  tried : List ServerToClient
  deriving DecidableEq, Repr

def Peer.new (nickname : String) : Peer := ⟨.new nickname, .new, .new, []⟩

/-- Connection `c` of the broker is that of `peers[c]`. -/
structure Mesh where
  broker : Broker
  peers : List Peer

def Mesh.new : Mesh := ⟨.new, []⟩

inductive MeshEvent where
  /-- A client is started with this nickname, and its connection is accepted. -/
  | join (nickname : String)
  | shutdown
  /-- Standard input of client `c` gets a part of what is typed there. -/
  | typed (c : ℕ) (fill : Fill)
  | client (c : ℕ) (e : ClientEvent) (cut : ℕ)
  | task (c : ℕ) (action : Action) (cut : ℕ)
  | carryUp (c : ℕ) (what : Carried)
  | carryDown (c : ℕ) (what : Carried)
  deriving DecidableEq, Repr

/-- What arrives for the client is a matter of the transport and of its terminal. -/
def ClientEvent.isArrival : ClientEvent → Bool
  | .serverArrive _ => true
  | .stdinArrive _ => true
  | _ => false

def Action.isArrival : Action → Bool
  | .arrive _ => true
  | _ => false

section
variable (client : Serde ClientToServer) (server : Serde ServerToClient)

/-- The client after the event, and its write on its way. -/
def Peer.clientStep (peer : Peer) (e : ClientEvent) (cut : ℕ) : Option Peer :=
  (peer.client.step server.fromStr e).map fun after =>
    match e, peer.client.writing with
    | .write ok, some message =>
      { peer with client := after, up := peer.up.write (emitted client message ok cut) }
    | _, _ => { peer with client := after }

/-- What the task in `phase` has written by the action is on its way. -/
def Peer.taskStep (peer : Peer) (phase : Phase) (action : Action) (cut : ℕ) : Peer :=
  match action, phase.writing with
  | .write ok, some message =>
    { peer with
      down := peer.down.write (emitted server message ok cut)
      tried := peer.tried ++ [message] }
  | _, _ => peer

def Mesh.step (s : Mesh) : MeshEvent → Option Mesh
  | .join nickname => do
    let broker ← s.broker.step client.fromStr .accept
    some ⟨broker, s.peers ++ [.new nickname]⟩
  | .shutdown => do
    let broker ← s.broker.step client.fromStr .shutdown
    some { s with broker }
  | .typed c fill => do
    let peer ← s.peers[c]?
    if peer.client.stdin.arrived.all Fill.isData then
      let client ← peer.client.step server.fromStr (.stdinArrive fill)
      some { s with peers := s.peers.set c { peer with client } }
    else none
  | .client c e cut =>
    if e.isArrival then none
    else do
      let peer ← s.peers[c]?
      let peer ← peer.clientStep client server e cut
      some { s with peers := s.peers.set c peer }
  | .task c action cut =>
    if action.isArrival then none
    else do
      let peer ← s.peers[c]?
      let conn ← s.broker.conns[c]?
      let broker ← s.broker.step client.fromStr (.conn c action)
      some ⟨broker, s.peers.set c (peer.taskStep server conn.phase action cut)⟩
  | .carryUp c what => do
    let peer ← s.peers[c]?
    let (fill, up) ← peer.up.carry peer.client.gone what
    let broker ← s.broker.step client.fromStr (.conn c (.arrive fill))
    some ⟨broker, s.peers.set c { peer with up }⟩
  | .carryDown c what => do
    let peer ← s.peers[c]?
    let conn ← s.broker.conns[c]?
    let (fill, down) ← peer.down.carry (!conn.phase.running) what
    let client ← peer.client.step server.fromStr (.serverArrive fill)
    some { s with peers := s.peers.set c { peer with client, down } }

/-- The steps of the mesh, by the part that takes them. -/
inductive Mesh.Step (s : Mesh) : MeshEvent → Mesh → Prop
  | joined (nickname : String) {broker : Broker}
      (h : s.broker.step client.fromStr .accept = some broker) :
      Step s (.join nickname) ⟨broker, s.peers ++ [.new nickname]⟩
  | announced {broker : Broker} (h : s.broker.step client.fromStr .shutdown = some broker) :
      Step s .shutdown { s with broker }
  | typed {c : ℕ} {fill : Fill} {peer : Peer} (hpeer : s.peers[c]? = some peer)
      (hopen : ∀ fill ∈ peer.client.stdin.arrived, fill.isData = true) :
      Step s (.typed c fill) { s with peers := s.peers.set c { peer with
        client := { peer.client with stdin := peer.client.stdin.feed fill } } }
  | clientMoved {c : ℕ} {e : ClientEvent} {cut : ℕ} {peer peer' : Peer}
      (he : e.isArrival = false) (hpeer : s.peers[c]? = some peer)
      (h : peer.clientStep client server e cut = some peer') :
      Step s (.client c e cut) { s with peers := s.peers.set c peer' }
  | taskMoved {c : ℕ} {action : Action} {cut : ℕ} {peer : Peer} {conn : Conn} {broker : Broker}
      (ha : action.isArrival = false) (hpeer : s.peers[c]? = some peer)
      (hconn : s.broker.conns[c]? = some conn)
      (h : s.broker.step client.fromStr (.conn c action) = some broker) :
      Step s (.task c action cut)
        ⟨broker, s.peers.set c (peer.taskStep server conn.phase action cut)⟩
  | upCarried {c : ℕ} {what : Carried} {peer : Peer} {fill : Fill} {up : Link} {broker : Broker}
      (hpeer : s.peers[c]? = some peer)
      (hup : peer.up.carry peer.client.gone what = some (fill, up))
      (h : s.broker.step client.fromStr (.conn c (.arrive fill)) = some broker) :
      Step s (.carryUp c what) ⟨broker, s.peers.set c { peer with up }⟩
  | downCarried {c : ℕ} {what : Carried} {peer : Peer} {conn : Conn} {fill : Fill} {down : Link}
      (hpeer : s.peers[c]? = some peer) (hconn : s.broker.conns[c]? = some conn)
      (hdown : peer.down.carry (!conn.phase.running) what = some (fill, down)) :
      Step s (.carryDown c what) { s with peers := s.peers.set c { peer with
        client := { peer.client with reading := peer.client.reading.feed fill }, down } }

end

section
variable {client : Serde ClientToServer} {server : Serde ServerToClient} {s s' : Mesh}
  {e : MeshEvent} {c : ℕ} {peer : Peer}

theorem Mesh.step_cases (h : s.step client server e = some s') : s.Step client server e s' := by
  cases e with
  | join nickname =>
    obtain ⟨broker, hbroker, h⟩ := Option.bind_eq_some_iff.mp h
    obtain rfl := Option.some_inj.mp h
    exact .joined nickname hbroker
  | shutdown =>
    obtain ⟨broker, hbroker, h⟩ := Option.bind_eq_some_iff.mp h
    obtain rfl := Option.some_inj.mp h
    exact .announced hbroker
  | typed c fill =>
    obtain ⟨peer, hpeer, h⟩ := Option.bind_eq_some_iff.mp h
    split at h
    · rename_i hopen
      obtain rfl := Option.some_inj.mp h
      exact .typed hpeer (List.all_eq_true.mp hopen)
    · cases h
  | client c e cut =>
    simp only [Mesh.step] at h
    split at h
    · cases h
    · rename_i he
      obtain ⟨peer, hpeer, h⟩ := Option.bind_eq_some_iff.mp h
      obtain ⟨peer', hpeer', h⟩ := Option.bind_eq_some_iff.mp h
      obtain rfl := Option.some_inj.mp h
      exact .clientMoved (by simpa using he) hpeer hpeer'
  | task c action cut =>
    simp only [Mesh.step] at h
    split at h
    · cases h
    · rename_i ha
      obtain ⟨peer, hpeer, h⟩ := Option.bind_eq_some_iff.mp h
      obtain ⟨conn, hconn, h⟩ := Option.bind_eq_some_iff.mp h
      obtain ⟨broker, hbroker, h⟩ := Option.bind_eq_some_iff.mp h
      obtain rfl := Option.some_inj.mp h
      exact .taskMoved (by simpa using ha) hpeer hconn hbroker
  | carryUp c what =>
    obtain ⟨peer, hpeer, h⟩ := Option.bind_eq_some_iff.mp h
    obtain ⟨⟨fill, up⟩, hup, h⟩ := Option.bind_eq_some_iff.mp h
    obtain ⟨broker, hbroker, h⟩ := Option.bind_eq_some_iff.mp h
    obtain rfl := Option.some_inj.mp h
    exact .upCarried hpeer hup hbroker
  | carryDown c what =>
    obtain ⟨peer, hpeer, h⟩ := Option.bind_eq_some_iff.mp h
    obtain ⟨conn, hconn, h⟩ := Option.bind_eq_some_iff.mp h
    obtain ⟨⟨fill, down⟩, hdown, h⟩ := Option.bind_eq_some_iff.mp h
    obtain rfl := Option.some_inj.mp h
    exact .downCarried hpeer hconn hdown

/-! ### The parts alone -/

/-- **The broker** in a mesh runs as it does alone. -/
theorem Mesh.broker_reachable (h : Reachable (Mesh.step client server) .new s) :
    Reachable (Broker.step client.fromStr) .new s.broker := by
  refine h.invariant (I := fun s => Reachable (Broker.step client.fromStr) .new s.broker) (.refl _)
    fun s e s' _ hs he => ?_
  cases Mesh.step_cases he with
  | joined nickname h => exact hs.tail h
  | announced h => exact hs.tail h
  | typed hpeer hopen => exact hs
  | clientMoved he hpeer h => exact hs
  | taskMoved ha hpeer hconn h => exact hs.tail h
  | upCarried hpeer hup h => exact hs.tail h
  | downCarried hpeer hconn hdown => exact hs

/-- There is one client for each connection. -/
theorem length_step (hlen : s.peers.length = s.broker.conns.length)
    (he : s.step client server e = some s') : s'.peers.length = s'.broker.conns.length := by
  have hbroker : ∀ {broker : Broker} {c : ℕ} {action : Action},
      s.broker.step client.fromStr (.conn c action) = some broker →
        broker.conns.length = s.broker.conns.length := by
    intro broker c action h
    cases Broker.step_cases h with
    | moved hconn hmove => simp [Broker.after]
  cases Mesh.step_cases he with
  | joined nickname h =>
    cases Broker.step_cases h with
    | accepted => simp [hlen]
  | announced h =>
    cases Broker.step_cases h with
    | announced => exact hlen
  | typed hpeer hopen => simpa using hlen
  | clientMoved he hpeer h => simpa using hlen
  | taskMoved ha hpeer hconn h => simpa [hbroker h] using hlen
  | upCarried hpeer hup h => simpa [hbroker h] using hlen
  | downCarried hpeer hconn hdown => simpa using hlen

/-- A connection and its client after a step: new, as before, or moved by it. -/
inductive Mesh.PairStep (client : Serde ClientToServer) (server : Serde ServerToClient) (s : Mesh)
    (e : MeshEvent) (c : ℕ) : Conn → Peer → Prop
  | new (nickname : String) : PairStep client server s e c .new (.new nickname)
  | same {conn : Conn} {peer : Peer} (hconn : s.broker.conns[c]? = some conn)
      (hpeer : s.peers[c]? = some peer) : PairStep client server s e c conn peer
  | typed {conn : Conn} {peer : Peer} (hconn : s.broker.conns[c]? = some conn)
      (hpeer : s.peers[c]? = some peer)
      (hopen : ∀ fill ∈ peer.client.stdin.arrived, fill.isData = true) (fill : Fill) :
      PairStep client server s e c conn { peer with
        client := { peer.client with stdin := peer.client.stdin.feed fill } }
  | clientMoved {conn : Conn} {peer peer' : Peer} {ce : ClientEvent} {cut : ℕ}
      (hconn : s.broker.conns[c]? = some conn) (hpeer : s.peers[c]? = some peer)
      (he : e = .client c ce cut) (harrival : ce.isArrival = false)
      (h : peer.clientStep client server ce cut = some peer') :
      PairStep client server s e c conn peer'
  | taskMoved {conn : Conn} {peer : Peer} {action : Action} {cut : ℕ} {o : Outcome}
      (hconn : s.broker.conns[c]? = some conn) (hpeer : s.peers[c]? = some peer)
      (he : e = .task c action cut) (harrival : action.isArrival = false)
      (h : conn.Move client.fromStr s.broker.state s.broker.receivers s.broker.order.length action
        o) :
      PairStep client server s e c o.conn (peer.taskStep server conn.phase action cut)
  | upCarried {conn : Conn} {peer : Peer} {what : Carried} {fill : Fill} {up : Link}
      (hconn : s.broker.conns[c]? = some conn) (hpeer : s.peers[c]? = some peer)
      (h : peer.up.carry peer.client.gone what = some (fill, up)) :
      PairStep client server s e c { conn with reading := conn.reading.feed fill } { peer with up }
  | downCarried {conn : Conn} {peer : Peer} {what : Carried} {fill : Fill} {down : Link}
      (hconn : s.broker.conns[c]? = some conn) (hpeer : s.peers[c]? = some peer)
      (h : peer.down.carry (!conn.phase.running) what = some (fill, down)) :
      PairStep client server s e c conn { peer with
        client := { peer.client with reading := peer.client.reading.feed fill }, down }

theorem Mesh.pair_cases {d : ℕ} {conn' : Conn} {peer' : Peer}
    (hlen : s.peers.length = s.broker.conns.length) (he : s.step client server e = some s')
    (hconn' : s'.broker.conns[d]? = some conn') (hpeer' : s'.peers[d]? = some peer') :
    s.PairStep client server e d conn' peer' := by
  cases Mesh.step_cases he with
  | joined nickname h =>
    cases Broker.step_cases h with
    | accepted =>
      rcases getElem?_concat_cases hpeer' with ⟨hd, hpeer'⟩ | ⟨hd, rfl⟩
      · rcases getElem?_concat_cases hconn' with ⟨-, hconn'⟩ | ⟨hd', -⟩
        · exact .same hconn' hpeer'
        · omega
      · rcases getElem?_concat_cases hconn' with ⟨hd', -⟩ | ⟨-, rfl⟩
        · omega
        · exact .new nickname
  | announced h =>
    cases Broker.step_cases h with
    | announced => exact .same hconn' hpeer'
  | @typed c fill peer hpeer hopen =>
    rcases getElem?_set_cases hpeer' with ⟨rfl, rfl⟩ | ⟨-, hpeer'⟩
    · have hconn : s.broker.conns[d]? = some conn' := hconn'
      exact .typed hconn hpeer hopen fill
    · exact .same hconn' hpeer'
  | @clientMoved c ce cut peer peer₁ harrival hpeer h =>
    rcases getElem?_set_cases hpeer' with ⟨rfl, rfl⟩ | ⟨-, hpeer'⟩
    · exact .clientMoved hconn' hpeer rfl harrival h
    · exact .same hconn' hpeer'
  | @taskMoved c action cut peer conn broker harrival hpeer hconn h =>
    cases Broker.step_cases h with
    | @moved _ _ conn₁ o hconn₁ hmove =>
      obtain rfl : conn = conn₁ := Option.some_inj.mp (hconn.symm.trans hconn₁)
      rcases getElem?_set_cases hpeer' with ⟨rfl, rfl⟩ | ⟨hdc, hpeer'⟩
      · obtain rfl := Option.some_inj.mp ((Broker.getElem?_after_self hconn).symm.trans hconn')
        exact .taskMoved hconn hpeer rfl harrival hmove
      · exact .same ((Broker.getElem?_after_ne hdc).symm.trans hconn') hpeer'
  | @upCarried c what peer fill up broker hpeer hup h =>
    cases Broker.step_cases h with
    | @moved _ _ conn o hconn hmove =>
      rcases getElem?_set_cases hpeer' with ⟨rfl, rfl⟩ | ⟨hdc, hpeer'⟩
      · obtain rfl := Option.some_inj.mp ((Broker.getElem?_after_self hconn).symm.trans hconn')
        cases hmove with
        | arrived fill => exact .upCarried hconn hpeer hup
      · exact .same ((Broker.getElem?_after_ne hdc).symm.trans hconn') hpeer'
  | @downCarried c what peer conn fill down hpeer hconn hdown =>
    rcases getElem?_set_cases hpeer' with ⟨rfl, rfl⟩ | ⟨-, hpeer'⟩
    · obtain rfl : conn = conn' := Option.some_inj.mp (hconn.symm.trans hconn')
      exact .downCarried hconn hpeer hdown
    · exact .same hconn' hpeer'

/-- What every step keeps of each connection and its client, holds of them in every state
that a run reaches whose steps meet `ok`. -/
theorem Mesh.pair_invariant (ok : Mesh → MeshEvent → Prop) {P : Conn → Peer → Prop}
    (hstep : ∀ (s : Mesh) (e : MeshEvent) (c : ℕ) (conn' : Conn) (peer' : Peer), ok s e →
      (∀ conn peer, s.broker.conns[c]? = some conn → s.peers[c]? = some peer → P conn peer) →
      s.PairStep client server e c conn' peer' → P conn' peer')
    {es : List MeshEvent} (hok : Meets (Mesh.step client server) ok .new es)
    (h : run (Mesh.step client server) .new es = some s) :
    s.peers.length = s.broker.conns.length ∧ ∀ (c : ℕ) (conn : Conn) (peer : Peer),
      s.broker.conns[c]? = some conn → s.peers[c]? = some peer → P conn peer := by
  refine run_invariant_of_meets (I := fun s : Mesh => s.peers.length = s.broker.conns.length ∧
    ∀ (c : ℕ) (conn : Conn) (peer : Peer), s.broker.conns[c]? = some conn →
      s.peers[c]? = some peer → P conn peer) ?_ ⟨rfl, ?_⟩ hok h
  · rintro s e s' ⟨hlen, hP⟩ hok he
    refine ⟨length_step hlen he, fun c conn' peer' hconn' hpeer' => ?_⟩
    exact hstep s e c conn' peer' hok (hP c) (Mesh.pair_cases hlen he hconn' hpeer')
  · intro c conn peer hconn
    simp [Mesh.new, Broker.new] at hconn

end

end Chat
