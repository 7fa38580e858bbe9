/-
What each task of the broker has broadcast and written.

`task_invariant` lifts a property of one task, and of the broadcasts it has made,
from the moves of the task to every reachable state.  From it:

* `noticed_of_reachable` — the notices a task has broadcast follow from where it
  stands;
* `wrote_of_reachable` — its client was sent the welcome and the roster first, and
  after them nothing but replies and what was relayed;
* `Welcomed.messages_eq` — the same of the messages as they stand in its stream;
* `chats_of_reachable` — the chats it has broadcast are the ones it has read and
  found not blank, in their order.
-/
import AsyncRust.BrokerRegistry

namespace Chat

open LineReader Broadcast Runs

variable {fromStr : String → Option ClientToServer} {s : Broker} {c d : ℕ} {conn : Conn}
  {o : Outcome}

/-- The messages that the task of connection `c` has broadcast. -/
def Broker.saidBy (s : Broker) (c : ℕ) : List ServerToClient :=
  (s.order.filter fun entry => entry.1 = some c).map Prod.snd

theorem saidBy_append (order : List (Option ℕ × ServerToClient)) (state : BrokerState)
    (conns : List Conn) (accepting : Bool) (who : Option ℕ) (said : List ServerToClient) :
    (Broker.mk state conns accepting (order ++ said.map fun message => (who, message))).saidBy c =
      (Broker.mk state conns accepting order).saidBy c ++ if who = some c then said else [] := by
  unfold Broker.saidBy
  rw [List.filter_append, List.map_append]
  congr 1
  by_cases hwho : who = some c
  · simp [List.filter_map, Function.comp_def, hwho]
  · simp [List.filter_map, Function.comp_def, hwho]

theorem saidBy_after_self :
    (s.after c o).saidBy c = s.saidBy c ++ o.said.toList := by
  have := saidBy_append (c := c) s.order o.state (s.conns.set c o.conn) s.accepting (some c)
    o.said.toList
  rwa [if_pos rfl] at this

theorem saidBy_after_ne (hdc : d ≠ c) : (s.after c o).saidBy d = s.saidBy d := by
  have := saidBy_append (c := d) s.order o.state (s.conns.set c o.conn) s.accepting (some c)
    o.said.toList
  rwa [if_neg fun h => hdc (Option.some_inj.mp h).symm, List.append_nil] at this

/-- **One task at a time.**  What holds of a new task and is kept by every move
of the task holds of every task in every reachable state. -/
theorem task_invariant {P : Conn → List ServerToClient → Prop} (hnew : P .new [])
    (hmove : ∀ {s : Broker} {c : ℕ} {conn : Conn} {action : Action} {o : Outcome}
      {said : List ServerToClient}, Reachable (Broker.step fromStr) .new s →
        s.conns[c]? = some conn →
          conn.Move fromStr s.state s.receivers s.order.length action o →
            P conn said → P o.conn (said ++ o.said.toList))
    (h : Reachable (Broker.step fromStr) .new s) (hc : s.conns[c]? = some conn) :
    P conn (s.saidBy c) := by
  -- a connection that is not accepted yet has said nothing
  suffices hall : (∀ c conn, s.conns[c]? = some conn → P conn (s.saidBy c)) ∧
      ∀ c, s.conns.length ≤ c → s.saidBy c = [] from hall.1 c conn hc
  refine h.invariant (I := fun t => (∀ c conn, t.conns[c]? = some conn → P conn (t.saidBy c)) ∧
    ∀ c, t.conns.length ≤ c → t.saidBy c = [])
    ⟨fun c conn h => by simp [Broker.new] at h, fun _ _ => rfl⟩ ?_
  rintro t e t' hr ⟨hP, hsilent⟩ he
  cases Broker.step_cases he with
  | accepted =>
    refine ⟨fun d other hd => ?_, fun d hd => hsilent d ?_⟩
    · rcases lt_or_ge d t.conns.length with hlt | hge
      · rw [List.getElem?_append_left hlt] at hd
        exact hP d other hd
      · have hnone : t.conns[d]? = none := List.getElem?_eq_none_iff.mpr hge
        rcases getElem?_concat_new hd with hd | rfl
        · exact absurd (hnone.symm.trans hd) (by simp)
        · exact (hsilent d hge).symm ▸ hnew
    · exact (List.length_append ▸ Nat.le_add_right _ _ : t.conns.length ≤ _).trans hd
  | announced =>
    have hsaid : ∀ d, Broker.saidBy { t with
        accepting := false
        state := t.state.broadcast t.receivers shutdownNotice
        order := t.order ++ [(none, shutdownNotice)] } d = t.saidBy d := by
      intro d
      have := saidBy_append (c := d) t.order (t.state.broadcast t.receivers shutdownNotice)
        t.conns false none [shutdownNotice]
      rwa [if_neg (by simp), List.append_nil] at this
    exact ⟨fun d other hd => hsaid d ▸ hP d other hd, fun d hd => (hsaid d).trans (hsilent d hd)⟩
  | @moved c action conn o hconn hmv =>
    refine ⟨fun d other hd => ?_, fun d hd => ?_⟩
    · rcases Broker.getElem?_after hd with ⟨rfl, rfl⟩ | ⟨hdc, hd⟩
      · rw [saidBy_after_self]
        exact hmove hr hconn hmv (hP d conn hconn)
      · rw [saidBy_after_ne hdc]
        exact hP d other hd
    · have hlen : t.conns.length ≤ d := by simpa [Broker.after] using hd
      obtain ⟨hlt, -⟩ := List.getElem?_eq_some_iff.mp hconn
      rw [saidBy_after_ne (by omega)]
      exact hsilent d hlen

/-! ### Notices -/

/-- `UserJoined` and `UserLeft`. -/
def ServerToClient.isNotice : ServerToClient → Bool
  | .userJoined _ => true
  | .userLeft _ => true
  | _ => false

/-- The notices that a task has broadcast when it stands in a phase. -/
def Phase.Noticed : Phase → List ServerToClient → Prop
  | .subscribing client, notices => notices = [.userJoined client.nickname]
  | .session client _, notices => notices = [.userJoined client.nickname]
  | .replying client _ _, notices => notices = [.userJoined client.nickname]
  | .delivering client _ _, notices => notices = [.userJoined client.nickname]
  | .cleanup client, notices => notices = [.userJoined client.nickname]
  | .leaving nickname, notices => notices = [.userJoined nickname]
  | .closed _, notices =>
    notices = [] ∨ ∃ nickname, notices = [.userJoined nickname, .userLeft nickname]
  | .aborted client joined _, notices =>
    notices = if joined then [.userJoined client.nickname] else []
  | _, notices => notices = []

theorem noticed_of_reachable (h : Reachable (Broker.step fromStr) .new s)
    (hc : s.conns[c]? = some conn) :
    conn.phase.Noticed ((s.saidBy c).filter ServerToClient.isNotice) := by
  refine task_invariant (P := fun conn said =>
    conn.phase.Noticed (said.filter ServerToClient.isNotice)) rfl ?_ h hc
  intro s c conn action o said hreach hconn hmove hP
  have hreg := registry_reachable hreach
  have hquiet : (said ++ []).filter ServerToClient.isNotice =
      said.filter ServerToClient.isNotice := by rw [List.append_nil]
  -- a step that says nothing, between phases that the notices do not tell apart
  have hstay : ∀ {phase phase' : Phase}, conn.phase = phase → phase.Noticed = phase'.Noticed →
      phase'.Noticed ((said ++ []).filter ServerToClient.isNotice) := by
    intro phase phase' hphase hsame
    rw [← hsame, ← hphase, hquiet]
    exact hP
  cases hmove with
  | arrived fill => exact hquiet.symm ▸ hP
  | waited hphase hread => exact hquiet.symm ▸ hP
  | handshakeFailed hphase hread hresult =>
    rw [hphase] at hP
    exact .inl (hquiet.trans hP)
  | handshakeInvalid hphase hread hresult => exact hstay hphase rfl
  | issued hphase hread hresult => exact hstay hphase rfl
  | rejected hphase =>
    rw [hphase] at hP
    exact .inl (hquiet.trans hP)
  | rejectFailed hphase =>
    rw [hphase] at hP
    exact .inl (hquiet.trans hP)
  | taken hphase htaken => exact hstay hphase rfl
  | registered hphase hfree => exact hstay hphase rfl
  | @welcomed client roster hphase =>
    rw [hphase] at hP
    by_cases hroster : roster = []
    · simp only [hroster, if_true]
      exact hquiet.trans hP
    · simp only [hroster, if_false]
      exact hquiet.trans hP
  | rostered hphase => exact hstay hphase rfl
  | welcomeFailed hphase =>
    rcases hphase with hphase | hphase <;> rw [hphase] at hP <;> exact hquiet.trans hP
  | joined hphase =>
    rw [hphase] at hP
    change (said ++ [_]).filter ServerToClient.isNotice = _
    rw [List.filter_append, show said.filter ServerToClient.isNotice = [] from hP]
    rfl
  | subscribed hphase => exact hstay hphase rfl
  | chatted hphase hread htext =>
    -- a chat is not a notice
    change conn.phase.Noticed ((said ++ [_]).filter ServerToClient.isNotice)
    rw [List.filter_append]
    exact (List.append_nil _).symm ▸ hP
  | ignored hphase hread htext => exact hquiet.symm ▸ hP
  | greeted hphase hread => exact hstay hphase rfl
  | finished hphase hread => exact hstay hphase rfl
  | readFailed hphase hread => exact hstay hphase rfl
  | received hphase hrecv => exact hstay hphase rfl
  | replied hphase => exact hstay hphase rfl
  | replyFailed hphase => exact hstay hphase rfl
  | delivered hphase => exact hstay hphase rfl
  | deliveryFailed hphase => exact hstay hphase rfl
  | @removed client record hphase hrecord =>
    rw [hphase] at hP
    -- the record is the one the task inserted
    have hown := hreg.present c conn client hconn (by rw [hphase]; rfl)
    obtain rfl := Option.some_inj.mp (hrecord.symm.trans hown)
    exact hquiet.trans hP
  | @absent client hphase hrecord =>
    have hown := hreg.present c conn client hconn (by rw [hphase]; rfl)
    exact absurd (hrecord.symm.trans hown) (by simp)
  | @left nickname hphase =>
    rw [hphase] at hP
    refine .inr ⟨nickname, ?_⟩
    change (said ++ [_]).filter ServerToClient.isNotice = _
    rw [List.filter_append,
      show said.filter ServerToClient.isNotice = [.userJoined nickname] from hP]
    rfl

/-! ### Writes -/

/-- What a client is sent when it has registered. -/
def greeting (client : Member) (roster : List String) : List Written :=
  .own (.welcome client.nickname) :: if roster = [] then [] else [.own (.roster roster)]

/-- The reply to a further `Hello`. -/
def alreadyConnected : Written := .own (.error "already connected")

/-- What a client is sent after the greeting. -/
inductive Written.Later : Written → Prop
  | reply : Later alreadyConnected
  | relayed (item : Delivery ServerToClient) : Later (.relayed item)

/-- The greeting has been written, and after it replies and relayed messages. -/
def Welcomed (client : Member) (written : List Written) : Prop :=
  ∃ roster later, written = greeting client roster ++ later ∧ ∀ w ∈ later, Written.Later w

theorem welcomed_greeting (client : Member) (roster : List String) :
    Welcomed client (greeting client roster) :=
  ⟨roster, [], (List.append_nil _).symm, by simp⟩

theorem Welcomed.append {client : Member} {written : List Written} {w : Written}
    (h : Welcomed client written) (hw : w.Later) : Welcomed client (written ++ [w]) := by
  obtain ⟨roster, later, rfl, hlater⟩ := h
  refine ⟨roster, later ++ [w], List.append_assoc _ _ _, ?_⟩
  intro x hx
  rcases List.mem_append.mp hx with hx | hx
  · exact hlater x hx
  · rw [List.mem_singleton.mp hx]
    exact hw

theorem Welcomed.head?_eq {client : Member} {written : List Written}
    (h : Welcomed client written) : written.head? = some (.own (.welcome client.nickname)) := by
  obtain ⟨roster, later, rfl, -⟩ := h
  rfl

/-- What a task has written when it stands in a phase. -/
def Phase.Wrote : Phase → List Written → Prop
  | .handshake, written => written = []
  | .rejecting _ _, written => written = []
  | .registering _, written => written = []
  | .welcoming _ _, written => written = []
  | .rostering client roster, written =>
    roster ≠ [] ∧ written = [.own (.welcome client.nickname)]
  | .announcing client, written => Welcomed client written
  | .subscribing client, written => Welcomed client written
  | .session client _, written => Welcomed client written
  | .replying client _ message, written =>
    .own message = alreadyConnected ∧ Welcomed client written
  | .delivering client _ _, written => Welcomed client written
  | .cleanup client, written => Welcomed client written
  | _, _ => True

theorem wrote_of_reachable (h : Reachable (Broker.step fromStr) .new s)
    (hc : s.conns[c]? = some conn) : conn.phase.Wrote conn.written := by
  refine task_invariant (P := fun conn _ => conn.phase.Wrote conn.written) rfl ?_ h hc
  intro s c conn action o said _ hconn hmove hP
  cases hmove with
  | arrived fill => exact hP
  | waited hphase hread => exact hP
  | handshakeFailed hphase hread hresult => trivial
  | handshakeInvalid hphase hread hresult => rw [hphase] at hP; exact hP
  | issued hphase hread hresult => rw [hphase] at hP; exact hP
  | rejected hphase => trivial
  | rejectFailed hphase => trivial
  | taken hphase htaken => rw [hphase] at hP; exact hP
  | registered hphase hfree => rw [hphase] at hP; exact hP
  | @welcomed client roster hphase =>
    rw [hphase] at hP
    have hnil : conn.written = [] := hP
    by_cases hroster : roster = []
    · simp only [hroster, if_true]
      exact hnil.symm ▸ welcomed_greeting client []
    · simp only [hroster, if_false]
      exact ⟨hroster, by rw [hnil]; rfl⟩
  | @rostered client roster hphase =>
    rw [hphase] at hP
    obtain ⟨hroster, hone⟩ := hP
    have := welcomed_greeting client roster
    rw [greeting, if_neg hroster] at this
    exact hone.symm ▸ this
  | welcomeFailed hphase => trivial
  | joined hphase => rw [hphase] at hP; exact hP
  | subscribed hphase => rw [hphase] at hP; exact hP
  | chatted hphase hread htext => exact hP
  | ignored hphase hread htext => exact hP
  | greeted hphase hread => rw [hphase] at hP; exact ⟨rfl, hP⟩
  | finished hphase hread => rw [hphase] at hP; exact hP
  | readFailed hphase hread => trivial
  | received hphase hrecv => rw [hphase] at hP; exact hP
  | replied hphase =>
    rw [hphase] at hP
    obtain ⟨hmessage, hwelcomed⟩ := hP
    exact hwelcomed.append (hmessage ▸ .reply)
  | replyFailed hphase => trivial
  | delivered hphase =>
    rw [hphase] at hP
    exact Welcomed.append hP (.relayed _)
  | deliveryFailed hphase => rw [hphase] at hP; exact hP
  | removed hphase hrecord => trivial
  | absent hphase hrecord => trivial
  | left hphase => trivial

/-! ### Messages -/

/-- The messages in the stream of the client, in order. -/
def Conn.messages (conn : Conn) : List ServerToClient := conn.written.map Written.message

/-- `Welcome` and, unless nobody else is online, `Roster`. -/
def welcomeMessages (nickname : String) (roster : List String) : List ServerToClient :=
  .welcome nickname :: if roster = [] then [] else [.roster roster]

/-- The error that tells a client how much it has missed. -/
def lagError (skipped : ℕ) : ServerToClient :=
  .error s!"you are behind by {skipped} messages; consider reconnecting"

theorem relayedMessage_eq : relayedMessage = Delivery.fill lagError := by
  funext item
  cases item <;> rfl

theorem lagError_ne (skipped : ℕ) : lagError skipped ≠ .error "already connected" := by
  intro h
  have hchars := congrArg String.toList (ServerToClient.error.inj h)
  simp [toString] at hchars

theorem greeting_eq (client : Member) (roster : List String) :
    greeting client roster = (welcomeMessages client.nickname roster).map .own := by
  unfold greeting welcomeMessages
  split <;> rfl

theorem messages_greeting (client : Member) (roster : List String) :
    (greeting client roster).map Written.message = welcomeMessages client.nickname roster := by
  rw [greeting_eq, List.map_map]
  exact List.map_id _

/-! ### Chats -/

def ServerToClient.chatText : ServerToClient → Option String
  | .chat _ text => some text
  | _ => none

/-- The text of a chat that is not blank. -/
def spokenText : ReadResult ClientToServer → Option String
  | .ok (some (.chat text)) => if trim text = "" then none else some text
  | _ => none

theorem results_polled {result : ReadResult ClientToServer}
    (h : (conn.polled fromStr).1 = some result) :
    (conn.polled fromStr).2.results = conn.reading.results ++ [result] := by
  simp only [Conn.polled, Reading.poll] at h ⊢
  rw [h]
  rfl

theorem results_polled_none (h : (conn.polled fromStr).1 = none) :
    (conn.polled fromStr).2.results = conn.reading.results := by
  simp only [Conn.polled, Reading.poll] at h ⊢
  rw [h]
  exact List.append_nil _

/-- The first result is the handshake's. -/
theorem chats_of_reachable (h : Reachable (Broker.step fromStr) .new s)
    (hc : s.conns[c]? = some conn) :
    (s.saidBy c).filterMap ServerToClient.chatText =
      (conn.reading.results.drop 1).filterMap spokenText := by
  refine (task_invariant (P := fun conn said =>
    (conn.reading.results = [] ↔ conn.phase = .handshake) ∧
      said.filterMap ServerToClient.chatText =
        (conn.reading.results.drop 1).filterMap spokenText) ⟨by simp [Conn.new, Reading.start], rfl⟩
    ?_ h hc).2
  intro s c conn action o said _ hconn hmove hsaid
  obtain ⟨hfirst, hP⟩ := hsaid
  -- a step that reads nothing and says nothing that is a chat
  have hstay : ∀ {phase : Phase} {message : Option ServerToClient},
      conn.phase ≠ .handshake → phase ≠ .handshake → message.toList.filterMap (·.chatText) = [] →
        (conn.reading.results = [] ↔ phase = .handshake) ∧
          (said ++ message.toList).filterMap ServerToClient.chatText =
            (conn.reading.results.drop 1).filterMap spokenText := by
    intro phase message hphase hphase' hmessage
    refine ⟨by simp [hfirst, hphase, hphase'], ?_⟩
    rw [List.filterMap_append, hmessage, List.append_nil]
    exact hP
  -- the first result, which is not a chat's
  have hgreet : ∀ {phase : Phase} {result : ReadResult ClientToServer},
      conn.phase = .handshake → phase ≠ .handshake → (conn.polled fromStr).1 = some result →
        ((conn.polled fromStr).2.results = [] ↔ phase = .handshake) ∧
          (said ++ []).filterMap ServerToClient.chatText =
            ((conn.polled fromStr).2.results.drop 1).filterMap spokenText := by
    intro phase result hphase hphase' hread
    rw [results_polled hread, List.append_nil, hP, hfirst.mpr hphase]
    exact ⟨by simp [hphase'], rfl⟩
  -- a result of the session, and what is said for it
  have hsession : ∀ {phase : Phase} {result : ReadResult ClientToServer}
      {message : Option ServerToClient}, conn.phase ≠ .handshake → phase ≠ .handshake →
        (conn.polled fromStr).1 = some result →
        message.toList.filterMap (·.chatText) = (spokenText result).toList →
        ((conn.polled fromStr).2.results = [] ↔ phase = .handshake) ∧
          (said ++ message.toList).filterMap ServerToClient.chatText =
            ((conn.polled fromStr).2.results.drop 1).filterMap spokenText := by
    intro phase result message hphase hphase' hread hmessage
    have hpos : 1 ≤ conn.reading.results.length :=
      List.length_pos_iff.mpr fun hnil => hphase (hfirst.mp hnil)
    rw [results_polled hread, List.drop_append_of_le_length hpos, List.filterMap_append,
      List.filterMap_append, hmessage, hP]
    refine ⟨by simp [hphase'], ?_⟩
    cases hspoken : spokenText result <;> simp [hspoken]
  cases hmove with
  | arrived fill => exact ⟨hfirst, (List.append_nil said).symm ▸ hP⟩
  | waited hphase hread =>
    have hresults := results_polled_none hread
    exact ⟨hresults.symm ▸ hfirst, hresults.symm ▸ (List.append_nil said).symm ▸ hP⟩
  | handshakeFailed hphase hread hresult => exact hgreet hphase (by simp) hread
  | handshakeInvalid hphase hread hresult => exact hgreet hphase (by simp) hread
  | issued hphase hread hresult => exact hgreet hphase (by simp) hread
  | rejected hphase => exact hstay (by simp [hphase]) (by simp) rfl
  | rejectFailed hphase => exact hstay (by simp [hphase]) (by simp) rfl
  | taken hphase htaken => exact hstay (by simp [hphase]) (by simp) rfl
  | registered hphase hfree => exact hstay (by simp [hphase]) (by simp) rfl
  | welcomed hphase => exact hstay (by simp [hphase]) (by split <;> simp) rfl
  | rostered hphase => exact hstay (by simp [hphase]) (by simp) rfl
  | welcomeFailed hphase =>
    exact hstay (by rcases hphase with hphase | hphase <;> simp [hphase]) (by simp) rfl
  | joined hphase => exact hstay (by simp [hphase]) (by simp) rfl
  | subscribed hphase => exact hstay (by simp [hphase]) (by simp) rfl
  | chatted hphase hread htext =>
    exact hsession (by simp [hphase]) (by simp [hphase]) hread
      (by simp [ServerToClient.chatText, spokenText, htext])
  | ignored hphase hread htext =>
    exact hsession (by simp [hphase]) (by simp [hphase]) hread
      (by simp [spokenText, htext])
  | greeted hphase hread =>
    exact hsession (by simp [hphase]) (by simp) hread rfl
  | finished hphase hread =>
    exact hsession (by simp [hphase]) (by simp) hread rfl
  | readFailed hphase hread =>
    exact hsession (by simp [hphase]) (by simp) hread rfl
  | received hphase hrecv => exact hstay (by simp [hphase]) (by simp) rfl
  | replied hphase => exact hstay (by simp [hphase]) (by simp) rfl
  | replyFailed hphase => exact hstay (by simp [hphase]) (by simp) rfl
  | delivered hphase => exact hstay (by simp [hphase]) (by simp) rfl
  | deliveryFailed hphase => exact hstay (by simp [hphase]) (by simp) rfl
  | removed hphase hrecord => exact hstay (by simp [hphase]) (by simp) rfl
  | absent hphase hrecord => exact hstay (by simp [hphase]) (by simp) rfl
  | left hphase => exact hstay (by simp [hphase]) (by simp) rfl

end Chat
