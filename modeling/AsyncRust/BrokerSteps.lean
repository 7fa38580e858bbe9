/-
What a step of the broker can do.

`Conn.Move` lists the steps of a task, one constructor for each way an await of
`handle_connection` can complete; `move_of_step` inverts `Conn.step` into it,
once, so that no proof about the broker unfolds `Conn.step` again.  `Step` does
the same for the broker's events.
-/
import AsyncRust.Broker
import AsyncRust.Runs

namespace Chat

open LineReader Broadcast

variable {fromStr : String → Option ClientToServer} {st : BrokerState} {receivers now : ℕ}

/-- The result of polling the pending `read_message`, and the reading after it. -/
abbrev Conn.polled (fromStr : String → Option ClientToServer) (conn : Conn) :
    Option (ReadResult ClientToServer) × Reading (ReadResult ClientToServer) :=
  conn.reading.poll (readMessage fromStr)

inductive Conn.Move (fromStr : String → Option ClientToServer) (st : BrokerState)
    (receivers now : ℕ) (conn : Conn) : Action → Outcome → Prop
  | arrived (fill : Fill) :
      Move fromStr st receivers now conn (.arrive fill)
        ⟨{ conn with reading := conn.reading.feed fill }, st, none⟩
  | waited (hphase : conn.phase = .handshake ∨ ∃ client inbox, conn.phase = .session client inbox)
      (hread : (conn.polled fromStr).1 = none) :
      Move fromStr st receivers now conn .poll
        ⟨{ conn with reading := (conn.polled fromStr).2 }, st, none⟩
  | handshakeFailed {result : ReadResult ClientToServer} {failure : Failure}
      (hphase : conn.phase = .handshake) (hread : (conn.polled fromStr).1 = some result)
      (hresult : performHandshake result = .failed failure) :
      Move fromStr st receivers now conn .poll
        ⟨{ conn with reading := (conn.polled fromStr).2, phase := .closed (some failure) },
          st, none⟩
  | handshakeInvalid {result : ReadResult ClientToServer} {message : String}
      (hphase : conn.phase = .handshake) (hread : (conn.polled fromStr).1 = some result)
      (hresult : performHandshake result = .invalid message) :
      Move fromStr st receivers now conn .poll
        ⟨{ conn with reading := (conn.polled fromStr).2, phase := .rejecting message message },
          st, none⟩
  | issued {result : ReadResult ClientToServer} {nickname : String}
      (hphase : conn.phase = .handshake) (hread : (conn.polled fromStr).1 = some result)
      (hresult : performHandshake result = .done nickname) :
      Move fromStr st receivers now conn .poll
        ⟨{ conn with
            reading := (conn.polled fromStr).2
            phase := .registering ⟨st.nextId, nickname⟩
            issued := some st.nextId },
          { st with nextId := st.nextId + 1 }, none⟩
  | rejected {message reason : String} (hphase : conn.phase = .rejecting message reason) :
      Move fromStr st receivers now conn (.write true)
        ⟨{ conn with
            phase := .closed (some (.bail reason))
            written := conn.written ++ [.own (.error message)] }, st, none⟩
  | rejectFailed {message reason : String} (hphase : conn.phase = .rejecting message reason) :
      Move fromStr st receivers now conn (.write false)
        ⟨{ conn with phase := .closed (some (.io .stream)) }, st, none⟩
  | taken {client : Member} (hphase : conn.phase = .registering client)
      (htaken : client.nickname ∈ st.nicknames) :
      Move fromStr st receivers now conn .proceed
        ⟨{ conn with
            phase := .rejecting s!"nickname '{client.nickname}' is already in use"
              "nickname already taken" }, st, none⟩
  | registered {client : Member} (hphase : conn.phase = .registering client)
      (hfree : client.nickname ∉ st.nicknames) :
      Move fromStr st receivers now conn .proceed
        ⟨{ conn with phase := .welcoming client st.nicknames, registeredAt := some now },
          { st with clients := st.clients.insert client.id ⟨client.nickname⟩ }, none⟩
  | welcomed {client : Member} {roster : List String}
      (hphase : conn.phase = .welcoming client roster) :
      Move fromStr st receivers now conn (.write true)
        ⟨{ conn with
            phase := if roster = [] then .announcing client else .rostering client roster
            written := conn.written ++ [.own (.welcome client.nickname)] }, st, none⟩
  | rostered {client : Member} {roster : List String}
      (hphase : conn.phase = .rostering client roster) :
      Move fromStr st receivers now conn (.write true)
        ⟨{ conn with
            phase := .announcing client
            written := conn.written ++ [.own (.roster roster)] }, st, none⟩
  | welcomeFailed {client : Member} {roster : List String}
      (hphase : conn.phase = .welcoming client roster ∨ conn.phase = .rostering client roster) :
      Move fromStr st receivers now conn (.write false)
        ⟨{ conn with phase := .aborted client false (.io .stream) }, st, none⟩
  | joined {client : Member} (hphase : conn.phase = .announcing client) :
      Move fromStr st receivers now conn .proceed
        ⟨{ conn with phase := .subscribing client },
          st.broadcast receivers (.userJoined client.nickname),
          some (.userJoined client.nickname)⟩
  | subscribed {client : Member} (hphase : conn.phase = .subscribing client) :
      Move fromStr st receivers now conn .proceed
        ⟨{ conn with
            phase := .session client st.broadcaster.sent.length
            subscribedAt := some now }, st, none⟩
  | chatted {client : Member} {inbox : ℕ} {text : String}
      (hphase : conn.phase = .session client inbox)
      (hread : (conn.polled fromStr).1 = some (.ok (some (.chat text))))
      (htext : trim text ≠ "") :
      Move fromStr st receivers now conn .poll
        ⟨{ conn with reading := (conn.polled fromStr).2 },
          st.broadcast receivers (.chat client.nickname text),
          some (.chat client.nickname text)⟩
  | ignored {client : Member} {inbox : ℕ} {text : String}
      (hphase : conn.phase = .session client inbox)
      (hread : (conn.polled fromStr).1 = some (.ok (some (.chat text))))
      (htext : trim text = "") :
      Move fromStr st receivers now conn .poll
        ⟨{ conn with reading := (conn.polled fromStr).2 }, st, none⟩
  | greeted {client : Member} {inbox : ℕ} {nickname : String}
      (hphase : conn.phase = .session client inbox)
      (hread : (conn.polled fromStr).1 = some (.ok (some (.hello nickname)))) :
      Move fromStr st receivers now conn .poll
        ⟨{ conn with
            reading := (conn.polled fromStr).2
            phase := .replying client inbox (.error "already connected") }, st, none⟩
  | finished {client : Member} {inbox : ℕ} (hphase : conn.phase = .session client inbox)
      (hread : (conn.polled fromStr).1 = some (.ok none)) :
      Move fromStr st receivers now conn .poll
        ⟨{ conn with reading := (conn.polled fromStr).2, phase := .cleanup client }, st, none⟩
  | readFailed {client : Member} {inbox : ℕ} {err : IoError}
      (hphase : conn.phase = .session client inbox)
      (hread : (conn.polled fromStr).1 = some (.error err)) :
      Move fromStr st receivers now conn .poll
        ⟨{ conn with
            reading := (conn.polled fromStr).2
            phase := .aborted client true (.io err) }, st, none⟩
  | received {client : Member} {inbox inbox' : ℕ} {item : Delivery ServerToClient}
      (hphase : conn.phase = .session client inbox)
      (hrecv : st.broadcaster.recv inbox = some (item, inbox')) :
      Move fromStr st receivers now conn .recv
        ⟨{ conn with
            reading := conn.reading.cancel
            phase := .delivering client inbox' item }, st, none⟩
  | replied {client : Member} {inbox : ℕ} {message : ServerToClient}
      (hphase : conn.phase = .replying client inbox message) :
      Move fromStr st receivers now conn (.write true)
        ⟨{ conn with
            phase := .session client inbox
            written := conn.written ++ [.own message] }, st, none⟩
  | replyFailed {client : Member} {inbox : ℕ} {message : ServerToClient}
      (hphase : conn.phase = .replying client inbox message) :
      Move fromStr st receivers now conn (.write false)
        ⟨{ conn with phase := .aborted client true (.io .stream) }, st, none⟩
  | delivered {client : Member} {inbox : ℕ} {item : Delivery ServerToClient}
      (hphase : conn.phase = .delivering client inbox item) :
      Move fromStr st receivers now conn (.write true)
        ⟨{ conn with
            phase := .session client inbox
            written := conn.written ++ [.relayed item] }, st, none⟩
  | deliveryFailed {client : Member} {inbox : ℕ} {item : Delivery ServerToClient}
      (hphase : conn.phase = .delivering client inbox item) :
      Move fromStr st receivers now conn (.write false)
        ⟨{ conn with phase := .cleanup client }, st, none⟩
  | removed {client : Member} {record : ClientRecord} (hphase : conn.phase = .cleanup client)
      (hrecord : st.clients.lookup client.id = some record) :
      Move fromStr st receivers now conn .proceed
        ⟨{ conn with phase := .leaving record.nickname },
          { st with clients := st.clients.erase client.id }, none⟩
  | absent {client : Member} (hphase : conn.phase = .cleanup client)
      (hrecord : st.clients.lookup client.id = none) :
      Move fromStr st receivers now conn .proceed
        ⟨{ conn with phase := .closed none },
          { st with clients := st.clients.erase client.id }, none⟩
  | left {nickname : String} (hphase : conn.phase = .leaving nickname) :
      Move fromStr st receivers now conn .proceed
        ⟨{ conn with phase := .closed none },
          st.broadcast receivers (.userLeft nickname), some (.userLeft nickname)⟩

theorem Conn.move_of_step {conn : Conn} {action : Action} {o : Outcome}
    (h : conn.step fromStr st receivers now action = some o) :
    conn.Move fromStr st receivers now action o := by
  cases action with
  | arrive fill =>
    obtain rfl := Option.some_inj.mp h
    exact .arrived fill
  | poll =>
    simp only [Conn.step] at h
    split at h
    · rename_i hphase hread
      obtain rfl := Option.some_inj.mp h
      exact .waited (.inl hphase) hread
    · rename_i result hphase hread
      split at h <;> rename_i hresult <;> obtain rfl := Option.some_inj.mp h
      · exact .handshakeFailed hphase hread hresult
      · exact .handshakeInvalid hphase hread hresult
      · exact .issued hphase hread hresult
    · rename_i client inbox hphase hread
      obtain rfl := Option.some_inj.mp h
      exact .waited (.inr ⟨client, inbox, hphase⟩) hread
    · rename_i client inbox result hphase hread
      rcases result with err | _ | nickname | text
      · obtain rfl := Option.some_inj.mp h
        exact .readFailed hphase hread
      · obtain rfl := Option.some_inj.mp h
        exact .finished hphase hread
      · obtain rfl := Option.some_inj.mp h
        exact .greeted hphase hread
      · by_cases htext : trim text = ""
        · simp only [handleClientMessage, htext, if_true] at h
          obtain rfl := Option.some_inj.mp h
          exact .ignored hphase hread htext
        · simp only [handleClientMessage, htext, if_false] at h
          obtain rfl := Option.some_inj.mp h
          exact .chatted hphase hread htext
    · exact absurd h (by simp)
  | recv =>
    simp only [Conn.step] at h
    split at h
    · rename_i client inbox hphase
      obtain ⟨⟨item, inbox'⟩, hrecv, rfl⟩ := Option.map_eq_some_iff.mp h
      exact .received hphase hrecv
    · exact absurd h (by simp)
  | write ok =>
    simp only [Conn.step] at h
    split at h
    · obtain rfl := Option.some_inj.mp h
      exact .rejected ‹_›
    · obtain rfl := Option.some_inj.mp h
      exact .rejectFailed ‹_›
    · obtain rfl := Option.some_inj.mp h
      exact .welcomed ‹_›
    · obtain rfl := Option.some_inj.mp h
      exact .rostered ‹_›
    · rename_i hphase
      obtain rfl := Option.some_inj.mp h
      exact .welcomeFailed (.inl hphase)
    · rename_i hphase
      obtain rfl := Option.some_inj.mp h
      exact .welcomeFailed (.inr hphase)
    · obtain rfl := Option.some_inj.mp h
      exact .replied ‹_›
    · obtain rfl := Option.some_inj.mp h
      exact .replyFailed ‹_›
    · obtain rfl := Option.some_inj.mp h
      exact .delivered ‹_›
    · obtain rfl := Option.some_inj.mp h
      exact .deliveryFailed ‹_›
    · exact absurd h (by simp)
  | proceed =>
    simp only [Conn.step] at h
    split at h
    · rename_i client hphase
      unfold BrokerState.registerClient at h
      by_cases hn : client.nickname ∈ st.nicknames
      · simp only [List.contains_iff_mem, hn, if_true] at h
        obtain rfl := Option.some_inj.mp h
        exact .taken hphase hn
      · simp only [List.contains_iff_mem, hn, if_false] at h
        obtain rfl := Option.some_inj.mp h
        exact .registered hphase hn
    · obtain rfl := Option.some_inj.mp h
      exact .joined ‹_›
    · obtain rfl := Option.some_inj.mp h
      exact .subscribed ‹_›
    · rename_i client hphase
      unfold BrokerState.removeClient at h
      cases hrecord : st.clients.lookup client.id with
      | none =>
        simp only [hrecord] at h
        obtain rfl := Option.some_inj.mp h
        exact .absent hphase hrecord
      | some record =>
        simp only [hrecord] at h
        obtain rfl := Option.some_inj.mp h
        exact .removed hphase hrecord
    · obtain rfl := Option.some_inj.mp h
      exact .left ‹_›
    · exact absurd h (by simp)

/-- The broker after connection `c` has made a step with outcome `o`. -/
def Broker.after (s : Broker) (c : ℕ) (o : Outcome) : Broker :=
  { s with
    state := o.state
    conns := s.conns.set c o.conn
    order := s.order ++ o.said.toList.map fun message => (some c, message) }

/-- The steps of the broker: a connection is accepted, the shutdown is
announced, or a task moves. -/
inductive Broker.Step (fromStr : String → Option ClientToServer) (s : Broker) :
    Event → Broker → Prop
  | accepted : Step fromStr s .accept { s with conns := s.conns ++ [.new] }
  | announced :
      Step fromStr s .shutdown
        { s with
          accepting := false
          state := s.state.broadcast s.receivers shutdownNotice
          order := s.order ++ [(none, shutdownNotice)] }
  | moved {c : ℕ} {action : Action} {conn : Conn} {o : Outcome}
      (hconn : s.conns[c]? = some conn)
      (hmove : conn.Move fromStr s.state s.receivers s.order.length action o) :
      Step fromStr s (.conn c action) (s.after c o)

theorem Broker.step_cases {s s' : Broker} {e : Event} (h : s.step fromStr e = some s') :
    s.Step fromStr e s' := by
  cases e with
  | accept =>
    simp only [Broker.step] at h
    split at h
    · obtain rfl := Option.some_inj.mp h
      exact .accepted
    · exact absurd h (by simp)
  | shutdown =>
    simp only [Broker.step] at h
    split at h
    · obtain rfl := Option.some_inj.mp h
      exact .announced
    · exact absurd h (by simp)
  | conn c action =>
    simp only [Broker.step, Option.bind_eq_bind, Option.bind_eq_some_iff, Option.some_inj] at h
    obtain ⟨conn, hconn, o, ho, rfl⟩ := h
    exact .moved hconn (Conn.move_of_step ho)

/-! ### Frames -/

section
variable {s : Broker} {c d : ℕ} {o : Outcome} {conn other : Conn}

/-- After a step of `c`, a connection is `c` in its new state or an unchanged one. -/
theorem Broker.getElem?_after (h : (s.after c o).conns[d]? = some other) :
    (d = c ∧ other = o.conn) ∨ (d ≠ c ∧ s.conns[d]? = some other) := by
  simp only [Broker.after, List.getElem?_set] at h
  split at h
  · rename_i hcd
    split at h
    · exact .inl ⟨hcd.symm, (Option.some_inj.mp h).symm⟩
    · exact absurd h (by simp)
  · rename_i hcd
    exact .inr ⟨fun hdc => hcd hdc.symm, h⟩

theorem Broker.getElem?_after_self (h : s.conns[c]? = some conn) :
    (s.after c o).conns[c]? = some o.conn := by
  obtain ⟨hlt, -⟩ := List.getElem?_eq_some_iff.mp h
  simp [Broker.after, hlt]

theorem Broker.getElem?_after_ne (hdc : d ≠ c) :
    (s.after c o).conns[d]? = s.conns[d]? := by
  simp only [Broker.after, List.getElem?_set, if_neg hdc.symm]

/-- Some connection with a property still has it after a step of `c`, if `c` keeps
it when it has it. -/
theorem Broker.exists_after {p : Conn → Prop} (hconn : s.conns[c]? = some conn)
    (h : ∃ (d : ℕ) (other : Conn), s.conns[d]? = some other ∧ p other)
    (hmoved : p conn → p o.conn) :
    ∃ (d : ℕ) (other : Conn), (s.after c o).conns[d]? = some other ∧ p other := by
  obtain ⟨d, other, hd, hp⟩ := h
  by_cases hdc : d = c
  · subst hdc
    obtain rfl : conn = other := Option.some_inj.mp (hconn.symm.trans hd)
    exact ⟨d, o.conn, Broker.getElem?_after_self hconn, hmoved hp⟩
  · exact ⟨d, other, (Broker.getElem?_after_ne hdc).trans hd, hp⟩

/-- A connection with a property had it before a step of `c`, if `c` has not got
it by the step. -/
theorem Broker.of_after {p : Conn → Prop} (hconn : s.conns[c]? = some conn)
    (hd : (s.after c o).conns[d]? = some other) (hp : p other) (hmoved : p o.conn → p conn) :
    ∃ old, s.conns[d]? = some old ∧ p old := by
  rcases Broker.getElem?_after hd with ⟨rfl, rfl⟩ | ⟨-, hd⟩
  · exact ⟨conn, hconn, hmoved hp⟩
  · exact ⟨other, hd, hp⟩

/-- A connection that was just accepted has not done anything. -/
theorem getElem?_concat_new {conns : List Conn}
    (h : (conns ++ [Conn.new])[d]? = some other) :
    conns[d]? = some other ∨ other = .new := by
  rw [List.getElem?_append] at h
  split at h
  · exact .inl h
  · refine .inr ?_
    rcases hd : d - conns.length with _ | n
    · rw [hd] at h
      exact (Option.some_inj.mp h).symm
    · rw [hd] at h
      exact absurd h (by simp)

@[simp] theorem BrokerState.clients_broadcast (st : BrokerState) (receivers : ℕ)
    (message : ServerToClient) : (st.broadcast receivers message).clients = st.clients := by
  unfold BrokerState.broadcast
  split <;> rfl

@[simp] theorem BrokerState.nextId_broadcast (st : BrokerState) (receivers : ℕ)
    (message : ServerToClient) : (st.broadcast receivers message).nextId = st.nextId := by
  unfold BrokerState.broadcast
  split <;> rfl

end

end Chat
