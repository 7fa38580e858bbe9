/-
What the clients of the chat room see of each other.

A line that is typed at one terminal goes through two readers whose reads may be dropped, and
through the broker.

* `typed_chats_arrive` — whatever is dropped, cut off or lost, the chats that the broker
  broadcasts for a client are what suffixes of different typed lines ask for, in order and
  under its nickname;
* `room_in_order` — as long as no read is dropped within a line, they are those of the first
  lines that were typed, and what a client shows are the first of the messages that its task
  has written;
* `room_agrees` — once nothing moves any more, they are all of them: every line that was typed
  was broadcast, and each client shows its greeting and the broadcasts since it subscribed.
-/
import AsyncRust.BrokerConversation
import AsyncRust.ChatDelivery

namespace Chat

open LineReader Broadcast Runs Lists

/-! ### What arrives -/

/-- The text of a chat that is not blank. -/
def ClientToServer.spoken : ClientToServer → Option String
  | .chat text => if trim text = "" then none else some text
  | .hello _ => none

theorem spokenText_eq (result : ReadResult ClientToServer) :
    spokenText result = (messageOf result).bind ClientToServer.spoken := by
  rcases result with err | _ | nickname | text <;> rfl

theorem trim_trimEnd_ne {input : String} (h : trimEnd input ≠ "") : trim (trimEnd input) ≠ "" := by
  rw [trimEnd] at h ⊢
  set kept := input.toList.rdropWhile isWhitespace with hkept
  have hne : kept ≠ [] := by
    intro hnil
    rw [hnil] at h
    exact h rfl
  have hlast := List.rdropWhile_last_not isWhitespace input.toList hne
  rw [trim, String.toList_ofList]
  intro htrim
  have hall := List.rdropWhile_eq_nil_iff.mp (by simpa using congrArg String.toList htrim)
  rcases hdrop : kept.dropWhile isWhitespace with _ | ⟨ch, rest⟩
  · exact hlast (List.dropWhile_eq_nil_iff.mp hdrop _ (List.getLast_mem hne))
  · have hhead := List.head?_dropWhile_not isWhitespace kept
    rw [hdrop] at hall hhead
    simp [hall ch List.mem_cons_self] at hhead

/-- A chat that was typed is not blank. -/
theorem spoken_of_typedText {result : StdinResult} {text : String}
    (h : typedText result = some text) : trim text ≠ "" := by
  unfold typedText at h
  split at h
  · rename_i text' hsend
    obtain rfl := Option.some_inj.mp h
    rcases result with err | input
    · cases hsend
    · rw [handleStdinInput] at hsend
      split at hsend
      · cases hsend
      · split at hsend
        · cases hsend
        · rename_i hblank
          split at hsend
          · cases hsend
          · obtain rfl := ClientToServer.chat.inj (Typed.send.inj hsend)
            exact trim_trimEnd_ne hblank
  · cases h

theorem Client.spoken_messages (client : Client) :
    client.messages.filterMap ClientToServer.spoken = client.asked := by
  change (client.asked.map .chat).filterMap ClientToServer.spoken = client.asked
  rw [List.filterMap_map]
  refine (List.filterMap_congr fun text htext => ?_).trans List.filterMap_some
  obtain ⟨result, -, hresult⟩ := List.mem_filterMap.mp htext
  exact if_neg (spoken_of_typedText hresult)

section
variable {client : Client} {conn : Conn}

theorem chats_sublist
    (h : (conn.reading.results.filterMap messageOf).Sublist client.messages) :
    ((conn.reading.results.drop 1).filterMap spokenText).Sublist client.asked := by
  have hspoken : spokenText = fun result => (messageOf result).bind ClientToServer.spoken :=
    funext spokenText_eq
  rw [← client.spoken_messages, hspoken, ← List.filterMap_filterMap]
  exact (((List.drop_sublist 1 _).filterMap messageOf).trans h).filterMap _

/-- The first message is not a chat. -/
theorem chats_eq (h : conn.reading.results.filterMap messageOf <+: client.messages) :
    (conn.reading.results.drop 1).filterMap spokenText =
      (conn.reading.results.filterMap messageOf).filterMap ClientToServer.spoken := by
  have hspoken : spokenText = fun result => (messageOf result).bind ClientToServer.spoken :=
    funext spokenText_eq
  rw [hspoken, ← List.filterMap_filterMap]
  cases hresults : conn.reading.results with
  | nil => rfl
  | cons result results =>
    rw [List.drop_one, List.tail_cons]
    rw [hresults] at h
    cases hmessage : messageOf result with
    | none => rw [List.filterMap_cons_none hmessage]
    | some message =>
      rw [List.filterMap_cons_some hmessage] at h ⊢
      obtain ⟨rfl, -⟩ := List.cons_prefix_cons.mp h
      rfl

theorem chats_isPrefix (h : conn.reading.results.filterMap messageOf <+: client.messages) :
    (conn.reading.results.drop 1).filterMap spokenText <+: client.asked := by
  rw [chats_eq h, ← client.spoken_messages]
  exact h.filterMap _

/-- The first message is the client's `Hello`. -/
theorem nickname_of_hello {nickname : String}
    (h : (conn.reading.results.filterMap messageOf).Sublist client.messages)
    (hhello : conn.Hello nickname) : nickname = trim client.nickname := by
  obtain ⟨-, sent, hhead, rfl⟩ := hhello
  obtain ⟨results, hresults⟩ := List.head?_eq_some_iff.mp hhead
  rw [hresults] at h
  change (ClientToServer.hello sent :: results.filterMap messageOf).Sublist client.messages at h
  have hmem := h.subset List.mem_cons_self
  rcases List.mem_cons.mp hmem with heq | hmem
  · rw [ClientToServer.hello.inj heq]
  · obtain ⟨text, -, htext⟩ := List.mem_map.mp hmem
    cases htext

end

section
variable {fromStr : String → Option ClientToServer} {s : Broker} {c : ℕ} {conn : Conn}

/-- The first message of a connection stays. -/
theorem Conn.Move.hello {st : BrokerState} {receivers now : ℕ} {action : Action} {o : Outcome}
    {nickname : String} (h : conn.Move fromStr st receivers now action o)
    (hhello : conn.Hello nickname) : o.conn.Hello nickname := by
  have hkeep : ∀ {reading : Reading (ReadResult ClientToServer)},
      o.conn.reading = reading → conn.reading.results <+: reading.results →
        o.conn.Hello nickname := by
    rintro reading rfl hpre
    obtain ⟨hne, sent, hhead, hsent⟩ := hhello
    exact ⟨hne, sent, head?_of_isPrefix hpre hhead, hsent⟩
  cases harrival : action.isArrival with
  | true =>
    cases h with
    | arrived fill => exact hkeep rfl List.prefix_rfl
    | _ => cases harrival
  | false =>
    rcases h.reading_cases harrival with hreading | hreading | ⟨-, hreading⟩
    · exact hkeep hreading List.prefix_rfl
    · exact hkeep hreading (List.prefix_append _ _)
    · exact hkeep hreading List.prefix_rfl

/-- A chat is broadcast under the nickname of the `Hello`. -/
theorem hello_of_chat (h : Reachable (Broker.step fromStr) .new s) :
    ∀ (c : ℕ) (nickname text : String), (some c, .chat nickname text) ∈ s.order →
      ∃ conn, s.conns[c]? = some conn ∧ conn.Hello nickname := by
  refine h.invariant (I := fun s => ∀ (c : ℕ) (nickname text : String),
    (some c, ServerToClient.chat nickname text) ∈ s.order →
      ∃ conn, s.conns[c]? = some conn ∧ conn.Hello nickname) (by simp [Broker.new]) ?_
  intro s e s' hs hI he c nickname text hmem
  cases Broker.step_cases he with
  | accepted =>
    obtain ⟨conn, hconn, hhello⟩ := hI c nickname text hmem
    exact ⟨conn, List.getElem?_append_left (List.getElem?_eq_some_iff.mp hconn).1 ▸ hconn, hhello⟩
  | announced =>
    rcases List.mem_append.mp hmem with hmem | hmem
    · exact hI c nickname text hmem
    · cases List.mem_singleton.mp hmem
  | @moved d action conn o hconn hmove =>
    rcases List.mem_append.mp hmem with hmem | hmem
    · obtain ⟨other, hother, hhello⟩ := hI c nickname text hmem
      by_cases hcd : c = d
      · subst hcd
        obtain rfl : conn = other := Option.some_inj.mp (hconn.symm.trans hother)
        exact ⟨o.conn, Broker.getElem?_after_self hconn, hmove.hello hhello⟩
      · exact ⟨other, (Broker.getElem?_after_ne hcd).trans hother, hhello⟩
    · obtain ⟨message, hmessage, hentry⟩ := List.mem_map.mp hmem
      obtain ⟨hcd, rfl⟩ := Prod.mk.inj hentry
      obtain rfl := Option.some_inj.mp hcd
      refine ⟨o.conn, Broker.getElem?_after_self hconn, hmove.hello ?_⟩
      obtain ⟨es, hes⟩ := hs
      cases hmove with
      | @chatted client inbox text' hphase hread htext =>
        obtain ⟨rfl, rfl⟩ := ServerToClient.chat.inj (List.mem_singleton.mp hmessage)
        rcases talk_of_run hes _ conn hconn with
          hsilent | ⟨client', roster, unsent, later, htalk, -⟩
        · have := hsilent.2
          rw [hphase] at this
          exact this.elim
        · have hclient := htalk.phase
          rw [hphase] at hclient
          exact hclient.1 ▸ htalk.hello
      | joined hphase => cases List.mem_singleton.mp hmessage
      | left hphase => cases List.mem_singleton.mp hmessage
      | _ => cases hmessage

end

/-! ### A room of two -/

/-- Nothing moves on the connection: its task and its client are in their loops, nothing is
in transit, and neither of their readers nor standard input, which is still open, nor the inbox
has anything to give. -/
structure Mesh.Quiet (client : Serde ClientToServer) (server : Serde ServerToClient) (s : Mesh)
    (conn : Conn) (peer : Peer) : Prop where
  selecting : peer.client.phase = .selecting
  session : ∃ member inbox, conn.phase = .session member inbox ∧
    s.broker.state.broadcaster.recv inbox = none
  up : peer.up = .new
  down : peer.down = .new
  heard : (conn.reading.poll (readMessage client.fromStr)).1 = none
  told : (peer.client.reading.poll (readMessage server.fromStr)).1 = none
  input : (peer.client.stdin.poll readStdin).1 = none
  inputOpen : ∀ fill ∈ peer.client.stdin.arrived, fill.isData = true

/-- Messages of the broker arrive at client `c`, and it shows `count` of them. -/
def showScript (c count : ℕ) : List MeshEvent :=
  .carryDown c (.bytes 100) ::
    (List.replicate count [MeshEvent.client c .pollServer 0, .client c (.write true) 0]).flatten

/-- A client is started, joins, and shows its greeting of `writes` messages. -/
def meetScript (c : ℕ) (nickname : String) (writes : ℕ) : List MeshEvent :=
  [.join nickname, .client c (.write true) 0, .carryUp c (.bytes 100), .task c .poll 0,
    .task c .proceed 0] ++ List.replicate writes (.task c (.write true) 0) ++
    [.task c .proceed 0, .task c .proceed 0] ++ showScript c writes

/-- A broadcast is relayed to client `c`. -/
def relayScript (c : ℕ) : List MeshEvent :=
  [.task c .recv 0, .task c (.write true) 0] ++ showScript c 1

/-- Two clients meet, and the first one types a line, which arrives in two parts. -/
def roomScript : List MeshEvent :=
  meetScript 0 "a" 1 ++ meetScript 1 "b" 2 ++ relayScript 0 ++
    [.typed 0 (Fill.ofString "hi \n"), .client 0 .pollStdin 0,
      .client 0 (.write true) 0, .carryUp 0 (.bytes 20), .task 0 .poll 0,
      .carryUp 0 (.bytes 100), .task 0 .poll 0] ++ relayScript 1 ++ relayScript 0

/-- What the witnesses need of the run. -/
theorem roomScript_run : ∃ s conn peer,
    run (Mesh.step clientJson serverJson) .new roomScript = some s ∧
      s.broker.conns[0]? = some conn ∧ s.peers[0]? = some peer ∧
      peer.client.typedLines.filterMap chatOfLine = ["hi"] ∧
      peer.client.shown = [.stdout "*** connected as a", .stdout "*** b joined the chat",
        .stdout "<a> hi"] ∧ Mesh.Quiet clientJson serverJson s conn peer := by
  have hrun : ((run (Mesh.step clientJson serverJson) .new roomScript).bind fun s =>
      s.broker.conns[0]?.bind fun conn => s.peers[0]?.map fun peer => decide
        (peer.client.typedLines.filterMap chatOfLine = ["hi"] ∧
          peer.client.shown = [.stdout "*** connected as a", .stdout "*** b joined the chat",
            .stdout "<a> hi"] ∧
          peer.client.phase = .selecting ∧ conn.phase = .session ⟨1, "a"⟩ 2 ∧
          s.broker.state.broadcaster.recv 2 = none ∧ peer.up = .new ∧ peer.down = .new ∧
          (conn.reading.poll (readMessage clientJson.fromStr)).1 = none ∧
          (peer.client.reading.poll (readMessage serverJson.fromStr)).1 = none ∧
          (peer.client.stdin.poll readStdin).1 = none ∧
          ∀ fill ∈ peer.client.stdin.arrived, fill.isData = true)) = some true := by
    decide +kernel
  obtain ⟨s, hs, hrun⟩ := Option.bind_eq_some_iff.mp hrun
  obtain ⟨conn, hconn, hrun⟩ := Option.bind_eq_some_iff.mp hrun
  obtain ⟨peer, hpeer, hfacts⟩ := Option.map_eq_some_iff.mp hrun
  obtain ⟨htyped, hshown, hselecting, hphase, hrecv, hup, hdown, hheard, htold, hinput, hopen⟩ :=
    of_decide_eq_true hfacts
  exact ⟨s, conn, peer, hs, hconn, hpeer, htyped, hshown,
    ⟨hselecting, ⟨_, 2, hphase, hrecv⟩, hup, hdown, hheard, htold, hinput, hopen⟩⟩

/-- Nothing is dropped in it. -/
theorem roomScript_drops :
    Meets (Mesh.step clientJson serverJson) (fun s e => s.inputsDropNothing serverJson e = true)
      .new roomScript ∧
    Meets (Mesh.step clientJson serverJson) (fun s e => s.sessionsDropNothing e = true) .new
      roomScript ∧
    Meets (Mesh.step clientJson serverJson) (fun s e => s.clientsDropNothing e = true) .new
      roomScript := by
  decide +kernel

/-! ### The room -/

section
variable {client : Serde ClientToServer} {server : Serde ServerToClient} {s : Mesh}
  {strictIn strictUp strictDown : Prop} {c : ℕ} {conn : Conn} {peer : Peer}

theorem PeerRight.results_sublist
    (h : PeerRight client server strictIn strictUp strictDown conn peer) (hjson : client.Lawful)
    (hsolid : client.Solid) :
    (conn.reading.results.filterMap messageOf).Sublist peer.client.messages := by
  have hsent := (List.prefix_append _ _).trans h.up.onWay
  have hall := h.up.told.sublist (whole_of_mem_linesOf hjson) (sturdy_of_mem_linesOf hjson hsolid)
    hsent
  rwa [filterMap_found_linesOf hjson] at hall

theorem PeerRight.results_isPrefix (h : PeerRight client server strictIn True strictDown conn peer)
    (hjson : client.Lawful) (hclosed : client.Closed) :
    conn.reading.results.filterMap messageOf <+: peer.client.messages := by
  have hsent := (List.prefix_append _ _).trans h.up.onWay
  have hall := h.up.told.isPrefix (whole_of_mem_linesOf hjson) (closed_of_mem_linesOf hjson hclosed)
    hsent
  rwa [filterMap_found_linesOf hjson] at hall

theorem PeerRight.told_isPrefix (h : PeerRight client server strictIn strictUp True conn peer)
    (hjson : server.Lawful) (hclosed : server.Closed) :
    peer.client.told <+: peer.tried.filterMap renderServerMessage := by
  have hsent := (List.prefix_append _ _).trans h.down.onWay
  have hall := h.down.told.isPrefix (whole_of_mem_linesOf hjson)
    (closed_of_mem_linesOf hjson hclosed) hsent
  rw [filterMap_found_linesOf hjson] at hall
  exact hall.filterMap _

/-- What is shown are the first of the messages that were read, and at most a parting
line. -/
theorem Client.Tells.shown_eq {client : Client} (h : client.Tells) :
    ∃ told bye, client.shown = told ++ bye ∧ told <+: client.told ∧ bye ⊆ partings := by
  have hall : client.shown = client.told →
      ∃ told bye, client.shown = told ++ bye ∧ told <+: client.told ∧ bye ⊆ partings :=
    tells_left rfl
  rw [Client.Tells] at h
  cases hphase : client.phase <;> rw [hphase] at h
  case greeting => exact hall h
  case selecting => exact hall h
  case sending => exact hall h
  case showing output => exact ⟨_, [], (List.append_nil _).symm, ⟨_, h⟩, List.nil_subset _⟩
  case parting => exact hall h.1
  case closing => exact h
  case returned => exact h

/-- **Typed chats arrive.**  Whatever is dropped, cut off or lost, each chat that the broker
broadcasts for a client is what a suffix of a line asks for that was typed there; they come of
different lines, in their order, and bear the nickname of that client; and so do they in the
stream of every receiver. -/
theorem typed_chats_arrive (client : Serde ClientToServer) (server : Serde ServerToClient)
    (hjson : client.Lawful) (hsolid : client.Solid) {s : Mesh}
    (h : Reachable (Mesh.step client server) .new s) {c : ℕ} {conn : Conn} {peer : Peer}
    (hconn : s.broker.conns[c]? = some conn) (hpeer : s.peers[c]? = some peer) :
    List.SublistForall₂ AskedBy ((s.broker.saidBy c).filterMap ServerToClient.chatText)
      peer.client.typedLines ∧
    (∀ nickname text, (some c, .chat nickname text) ∈ s.broker.order →
      nickname = trim peer.client.nickname) ∧
    ∀ (d : ℕ) (other : Conn) (start : ℕ), s.broker.conns[d]? = some other →
      other.subscribedAt = some start → ∃ items, Relayed s.broker other start items ∧
        List.SublistForall₂ AskedBy
          ((places start items).filterMap fun n => s.broker.order[n]?.bind (chatOf c))
          peer.client.typedLines := by
  have hbroker := Mesh.broker_reachable h
  obtain ⟨es, hes⟩ := h
  have hright := (peerRight_of_run False False False False.elim False.elim
    False.elim hes).2 c conn peer hconn hpeer
  have hresults := hright.results_sublist hjson hsolid
  have hchats := chats_sublist hresults
  have hasked : List.SublistForall₂ AskedBy peer.client.asked peer.client.typedLines :=
    hright.stdin.givenBy_lines
  refine ⟨?_, fun nickname text hmem => ?_, fun d other start hother hstart => ?_⟩
  · rw [chats_of_reachable hbroker hconn]
    exact sublistForall₂_of_sublist hasked hchats
  · obtain ⟨conn', hconn', hhello⟩ := hello_of_chat hbroker c nickname text hmem
    obtain rfl : conn = conn' := Option.some_inj.mp (hconn.symm.trans hconn')
    exact nickname_of_hello hresults hhello
  · exact ⟨_, relayed_of_reachable hbroker hother hstart, sublistForall₂_of_sublist hasked
      ((relayed_chats_sublist hbroker hconn _ start).trans hchats)⟩

/-- "hi" is broadcast for the client where it was typed. -/
theorem typed_chats_arrive_hi : ∃ s peer,
    run (Mesh.step clientJson serverJson) .new roomScript = some s ∧ s.peers[0]? = some peer ∧
      peer.client.typedLines.filterMap chatOfLine = ["hi"] ∧
      List.SublistForall₂ AskedBy ((s.broker.saidBy 0).filterMap ServerToClient.chatText)
        peer.client.typedLines ∧
      (∀ nickname text, (some 0, .chat nickname text) ∈ s.broker.order →
        nickname = trim peer.client.nickname) ∧
      ∀ (d : ℕ) (other : Conn) (start : ℕ), s.broker.conns[d]? = some other →
        other.subscribedAt = some start → ∃ items, Relayed s.broker other start items ∧
          List.SublistForall₂ AskedBy
            ((places start items).filterMap fun n => s.broker.order[n]?.bind (chatOf 0))
            peer.client.typedLines := by
  obtain ⟨s, conn, peer, hs, hconn, hpeer, htyped, -, -⟩ := roomScript_run
  exact ⟨s, peer, hs, hpeer, htyped, typed_chats_arrive clientJson serverJson clientJson_lawful
    clientJson_solid ⟨_, hs⟩ hconn hpeer⟩

/-- **The room in order.**  In a run in which no session drops a part of a line and no client a
part of what is typed, the chats that are broadcast for a client are those of the first lines
that were typed there.  If no client drops a part of a line of the broker, each shows the first
of the messages that were written to it, of which only the last one can be one whose write has
failed. -/
theorem room_in_order (client : Serde ClientToServer) (server : Serde ServerToClient)
    (hclient : client.Lawful ∧ client.Closed) (hserver : server.Lawful ∧ server.Closed)
    {es : List MeshEvent} {s : Mesh} (h : run (Mesh.step client server) .new es = some s)
    {c : ℕ} {conn : Conn} {peer : Peer} (hconn : s.broker.conns[c]? = some conn)
    (hpeer : s.peers[c]? = some peer) :
    (Meets (Mesh.step client server) (fun s e => s.inputsDropNothing server e = true) .new es →
      Meets (Mesh.step client server) (fun s e => s.sessionsDropNothing e = true) .new es →
        (s.broker.saidBy c).filterMap ServerToClient.chatText <+:
          peer.client.typedLines.filterMap chatOfLine) ∧
    (Meets (Mesh.step client server) (fun s e => s.clientsDropNothing e = true) .new es →
      ∃ told bye unwritten, peer.client.shown = told ++ bye ∧ bye ⊆ partings ∧
        told <+: (conn.messages ++ unwritten).filterMap renderServerMessage ∧
        unwritten.length ≤ 1 ∧ (conn.phase.intact = true → unwritten = [])) := by
  refine ⟨fun hin hup => ?_, fun hdown => ?_⟩
  · have hright := (peerRight_of_run True True False (fun _ => hin) (fun _ => hup)
      False.elim h).2 c conn peer hconn hpeer
    have hasked : peer.client.asked <+: peer.client.typedLines.filterMap chatOfLine :=
      hright.stdin.isPrefix_lines
    rw [chats_of_reachable (Mesh.broker_reachable ⟨es, h⟩) hconn]
    exact (chats_isPrefix (hright.results_isPrefix hclient.1 hclient.2)).trans hasked
  · have hright := (peerRight_of_run False False True False.elim False.elim
      (fun _ => hdown) h).2 c conn peer hconn hpeer
    obtain ⟨told, bye, hshown, htold, hbye⟩ := hright.tells.shown_eq
    obtain ⟨unwritten, htried⟩ := hright.down.isPrefix
    refine ⟨told, bye, unwritten, hshown, hbye, ?_, ?_, fun hintact => ?_⟩
    · rw [Conn.messages, htried]
      exact htold.trans (hright.told_isPrefix hserver.1 hserver.2)
    · have honce := hright.once
      rw [← htried, List.length_append, List.length_map] at honce
      omega
    · rw [hright.tried hintact] at htried
      exact List.append_right_eq_self.mp htried

/-- Nothing is dropped in the room of two. -/
theorem room_in_order_hi : ∃ s conn peer,
    run (Mesh.step clientJson serverJson) .new roomScript = some s ∧
      s.broker.conns[0]? = some conn ∧ s.peers[0]? = some peer ∧
      peer.client.typedLines.filterMap chatOfLine = ["hi"] ∧
      (s.broker.saidBy 0).filterMap ServerToClient.chatText <+:
        peer.client.typedLines.filterMap chatOfLine ∧
      ∃ told bye unwritten, peer.client.shown = told ++ bye ∧ bye ⊆ partings ∧
        told <+: (conn.messages ++ unwritten).filterMap renderServerMessage ∧
        unwritten.length ≤ 1 ∧ (conn.phase.intact = true → unwritten = []) := by
  obtain ⟨s, conn, peer, hs, hconn, hpeer, htyped, -, -⟩ := roomScript_run
  obtain ⟨hin, hup, hdown⟩ := roomScript_drops
  obtain ⟨hchats, hshown⟩ := room_in_order clientJson serverJson
    ⟨clientJson_lawful, recordJson_closed _ _⟩ ⟨serverJson_lawful, recordJson_closed _ _⟩ hs hconn
    hpeer
  exact ⟨s, conn, peer, hs, hconn, hpeer, htyped, hchats hin hup, hshown hdown⟩

/-- Once the session has nothing more to read, it has read all messages of its client. -/
theorem PeerRight.results_eq (h : PeerRight client server strictIn True strictDown conn peer)
    (hjson : client.Lawful) (hquiet : Mesh.Quiet client server s conn peer) :
    conn.reading.results.filterMap messageOf = peer.client.messages := by
  have hgone : peer.client.gone = false := by simp [Client.gone, hquiet.selecting]
  have hsaid := h.saying.exact hgone
  have hwriting : peer.client.writing = none := by simp [Client.writing, hquiet.selecting]
  rw [hwriting, Option.toList_none, List.append_nil] at hsaid
  have hup := h.up
  rw [hgone, hquiet.up] at hup
  have hall := hup.whole rfl
  rw [hsaid, Link.new, List.append_nil] at hall
  have hread := hup.told.eq_of_waiting rfl rfl (whole_of_mem_linesOf hjson) (hup.opened rfl)
    hquiet.heard hall
  rwa [filterMap_found_linesOf hjson] at hread

theorem PeerRight.told_eq (h : PeerRight client server strictIn strictUp True conn peer)
    (hjson : server.Lawful) (hquiet : Mesh.Quiet client server s conn peer) :
    peer.client.told = (conn.written.map Written.message).filterMap renderServerMessage := by
  obtain ⟨member, inbox, hphase, -⟩ := hquiet.session
  have hintact : conn.phase.intact = true := by rw [hphase]; rfl
  have hdown := h.down
  rw [hintact, hquiet.down] at hdown
  have hall := hdown.whole rfl
  rw [Link.new, List.append_nil] at hall
  have hread := hdown.told.eq_of_waiting rfl rfl (whole_of_mem_linesOf hjson) (hdown.opened rfl)
    hquiet.told hall
  rw [filterMap_found_linesOf hjson] at hread
  rw [Client.told, hread]

/-- Behind the greeting of a client that has said hello once, only its inbox has been
relayed to it. -/
theorem messages_of_talk {messages : List ServerToClient} {member : Member}
    {roster : List String} {later : List Written}
    (htalk : Talk messages conn member roster [] later)
    (hresults : conn.reading.results.filterMap messageOf = peer.client.messages) :
    conn.messages =
      welcomeMessages member.nickname roster ++ conn.deliveries.map (Delivery.fill lagError) := by
  have hhellos : conn.furtherHellos = 0 := by
    obtain ⟨-, sent, hhead, -⟩ := htalk.hello
    obtain ⟨results, hcons⟩ := List.head?_eq_some_iff.mp hhead
    rw [hcons] at hresults
    change ClientToServer.hello sent :: results.filterMap messageOf = _ at hresults
    have hrest : results.filterMap messageOf = peer.client.asked.map .chat :=
      (List.cons.inj hresults).2
    rw [Conn.furtherHellos, hcons, List.drop_one, List.tail_cons, List.countP_eq_zero]
    rintro (err | _ | nickname | text) hmem hhello
    · cases hhello
    · cases hhello
    · have hchat : ClientToServer.hello nickname ∈ peer.client.asked.map .chat := by
        rw [← hrest]
        exact List.mem_filterMap.mpr ⟨_, hmem, rfl⟩
      obtain ⟨text, -, htext⟩ := List.mem_map.mp hchat
      cases htext
    · cases hhello
  have hnoreply : alreadyConnected ∉ later :=
    List.count_eq_zero.mp (htalk.replies.trans hhellos)
  have hrelayed : ∀ {ws : List Written}, (∀ w ∈ ws, w.InSession member.nickname messages) →
      alreadyConnected ∉ ws →
        ws.map Written.message =
          (ws.filterMap Written.delivery?).map (Delivery.fill lagError) := by
    intro ws
    induction ws with
    | nil => exact fun _ _ => rfl
    | cons w ws ih =>
      intro hall hnot
      obtain ⟨hw, hws⟩ := List.forall_mem_cons.mp hall
      obtain ⟨hne, hnot⟩ := not_or.mp (List.mem_cons.not.mp hnot)
      rw [List.map_cons, ih hws hnot]
      cases hw with
      | reply => exact absurd rfl hne
      | broadcast hmem hown => rfl
      | lag skipped => rfl
  have hwritten := htalk.written
  rw [List.map_nil, List.append_nil] at hwritten
  rw [Conn.messages, Conn.deliveries, hwritten, List.map_append, List.filterMap_append,
    deliveries_greeting, List.nil_append, messages_greeting, hrelayed htalk.inSession hnoreply]

/-- **The room agrees.**  In a run in which nothing is dropped, once nothing moves on a
connection any more, every line that was typed there is broadcast if it asks for a chat, and the
client shows its greeting and the broadcasts since it subscribed, up to the lag errors that
count what is missing where they stand. -/
theorem room_agrees (client : Serde ClientToServer) (server : Serde ServerToClient)
    (hclient : client.Lawful) (hserver : server.Lawful) {es : List MeshEvent} {s : Mesh}
    (hin : Meets (Mesh.step client server) (fun s e => s.inputsDropNothing server e = true) .new es)
    (hup : Meets (Mesh.step client server) (fun s e => s.sessionsDropNothing e = true) .new es)
    (hdown : Meets (Mesh.step client server) (fun s e => s.clientsDropNothing e = true) .new es)
    (h : run (Mesh.step client server) .new es = some s) {c : ℕ} {conn : Conn} {peer : Peer}
    (hconn : s.broker.conns[c]? = some conn) (hpeer : s.peers[c]? = some peer)
    (hquiet : Mesh.Quiet client server s conn peer) :
    (s.broker.saidBy c).filterMap ServerToClient.chatText =
      (peer.client.typedLines.filter (newline ∈ ·)).filterMap chatOfLine ∧
    ∃ roster start items, conn.subscribedAt = some start ∧
      Accounts items (s.broker.messages.drop start) ∧
      peer.client.shown = (welcomeMessages (trim peer.client.nickname) roster ++
        items.map (Delivery.fill lagError)).filterMap renderServerMessage ∧
      ((∀ k, .lagged k ∉ items) →
        peer.client.shown = (welcomeMessages (trim peer.client.nickname) roster ++
          s.broker.messages.drop start).filterMap renderServerMessage) := by
  have hbroker := Mesh.broker_reachable ⟨es, h⟩
  have hright := (peerRight_of_run True True True (fun _ => hin) (fun _ => hup)
    (fun _ => hdown) h).2 c conn peer hconn hpeer
  have hresults := hright.results_eq hclient hquiet
  obtain ⟨member, inbox, hphase, hrecv⟩ := hquiet.session
  obtain ⟨start, hstart, haccounts⟩ :=
    (allFed_of_reachable hbroker c conn hconn).accounts_of_drained hphase (recv_eq_none hrecv)
  -- its conversation
  obtain ⟨bes, hbes⟩ := hbroker
  rcases talk_of_run hbes c conn hconn with hsilent | ⟨member', roster, unsent, later, htalk, -⟩
  · have := hsilent.2
    rw [hphase] at this
    exact this.elim
  have hmember := htalk.phase
  rw [hphase] at hmember
  obtain ⟨rfl, rfl⟩ := hmember
  have hnickname : member.nickname = trim peer.client.nickname :=
    nickname_of_hello (by rw [hresults]) htalk.hello
  have hshown : peer.client.shown = (welcomeMessages (trim peer.client.nickname) roster ++
      conn.deliveries.map (Delivery.fill lagError)).filterMap renderServerMessage := by
    have htells := hright.tells
    rw [Client.Tells, hquiet.selecting] at htells
    rw [← hnickname, ← messages_of_talk htalk hresults]
    exact htells.trans (hright.told_eq hserver hquiet)
  refine ⟨?_, roster, start, conn.deliveries, hstart, haccounts, hshown, fun hgap => ?_⟩
  · rw [chats_of_reachable ⟨bes, hbes⟩ hconn, chats_eq (by rw [hresults]), hresults,
      peer.client.spoken_messages]
    exact hright.stdin.eq_lines_of_waiting rfl rfl hquiet.inputOpen hquiet.input
  · rw [hshown, map_fill_eq_values _ hgap, haccounts.values_eq hgap]

/-- All three lines of the first client are what it should show. -/
theorem room_agrees_hi : ∃ s conn peer,
    run (Mesh.step clientJson serverJson) .new roomScript = some s ∧
      s.broker.conns[0]? = some conn ∧ s.peers[0]? = some peer ∧
      peer.client.shown = [.stdout "*** connected as a", .stdout "*** b joined the chat",
        .stdout "<a> hi"] ∧
      (s.broker.saidBy 0).filterMap ServerToClient.chatText =
        (peer.client.typedLines.filter (newline ∈ ·)).filterMap chatOfLine ∧
      ∃ roster start items, conn.subscribedAt = some start ∧
        Accounts items (s.broker.messages.drop start) ∧
        peer.client.shown = (welcomeMessages (trim peer.client.nickname) roster ++
          items.map (Delivery.fill lagError)).filterMap renderServerMessage ∧
        ((∀ k, .lagged k ∉ items) →
          peer.client.shown = (welcomeMessages (trim peer.client.nickname) roster ++
            s.broker.messages.drop start).filterMap renderServerMessage) := by
  obtain ⟨s, conn, peer, hs, hconn, hpeer, -, hshown, hquiet⟩ := roomScript_run
  obtain ⟨hin, hup, hdown⟩ := roomScript_drops
  exact ⟨s, conn, peer, hs, hconn, hpeer, hshown, room_agrees clientJson serverJson
    clientJson_lawful serverJson_lawful hin hup hdown hs hconn hpeer hquiet⟩

end

end Chat
