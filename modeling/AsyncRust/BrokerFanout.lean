/-
What each client receives of the broadcasts.

`Fed` relates one connection to the broadcasts: what was relayed to its client
accounts for the broadcasts since its subscription up to some point, gap by gap, and
the rest is still in its inbox.  Every step keeps it for every connection
(`fed_step`).

* `messages_of_subscribed` — what was relayed, as it stands in the stream: a
  broadcast as itself, a gap as the error that tells its size;
* `fanout` — the broadcasts written to a client form the run of the broadcast order
  that begins at its subscription, with a lag error at each gap that counts what is
  missing there; any two clients see what both receive in one order; and the chats of
  one sender arrive in the order in which its session has handled them.
-/
import AsyncRust.BrokerAttribution

namespace Chat

open LineReader Broadcast Runs

variable {fromStr : String → Option ClientToServer} {st : BrokerState} {receivers now : ℕ}
  {s s' : Broker} {c d : ℕ} {conn conn' : Conn} {action : Action} {o : Outcome}
  {all sent : List ServerToClient}

def Written.delivery? : Written → Option (Delivery ServerToClient)
  | .relayed item => some item
  | .own _ => none

/-- What the inbox gave and the task has written to its client. -/
def Conn.deliveries (conn : Conn) : List (Delivery ServerToClient) :=
  conn.written.filterMap Written.delivery?

def Phase.inbox : Phase → Option ℕ
  | .session _ inbox => some inbox
  | .replying _ inbox _ => some inbox
  | .delivering _ inbox _ => some inbox
  | _ => none

/-- What the inbox gave and is not written yet. -/
def Phase.pending : Phase → List (Delivery ServerToClient)
  | .delivering _ _ item => [item]
  | _ => []

/-- The task has still to subscribe. -/
def Phase.unsubscribed : Phase → Bool
  | .handshake => true
  | .rejecting .. => true
  | .registering _ => true
  | .welcoming .. => true
  | .rostering .. => true
  | .announcing _ => true
  | .subscribing _ => true
  | _ => false

/-- All broadcasts so far. -/
def Broker.messages (s : Broker) : List ServerToClient := s.order.map Prod.snd

/-- What a connection has received when `all` was broadcast and the channel has
taken `sent`. -/
structure Fed (all sent : List ServerToClient) (conn : Conn) : Prop where
  fresh : conn.phase.unsubscribed = true → conn.subscribedAt = none ∧ conn.deliveries = []
  served : ∀ start, conn.subscribedAt = some start → start ≤ all.length ∧
    ∃ msgs, Accounts conn.deliveries msgs ∧ msgs <+: all.drop start
  /-- The inbox holds the rest. -/
  rest : ∀ inbox, conn.phase.inbox = some inbox → inbox ≤ sent.length ∧
    ∃ start msgs, conn.subscribedAt = some start ∧ start ≤ all.length ∧
      Accounts (conn.deliveries ++ conn.phase.pending) msgs ∧
      all.drop start = msgs ++ sent.drop inbox

theorem fed_new : Fed all sent .new where
  fresh _ := ⟨rfl, rfl⟩
  served start h := by simp [Conn.new] at h
  rest inbox h := by simp [Conn.new, Phase.inbox] at h

/-- A broadcast reaches every inbox. -/
theorem Fed.extend {sent' more : List ServerToClient} (h : Fed all sent conn)
    (hsent : conn.phase.inbox ≠ none → sent' = sent ++ more) : Fed (all ++ more) sent' conn where
  fresh := h.fresh
  served start hstart := by
    obtain ⟨hle, msgs, hacc, hpre⟩ := h.served start hstart
    refine ⟨hle.trans (List.length_append ▸ Nat.le_add_right _ _), msgs, hacc, ?_⟩
    rw [List.drop_append_of_le_length hle]
    exact hpre.trans (List.prefix_append _ _)
  rest inbox hinbox := by
    obtain ⟨hlen, start, msgs, hstart, hle, hacc, hdrop⟩ := h.rest inbox hinbox
    rw [hsent (by simp [hinbox])]
    refine ⟨hlen.trans (List.length_append ▸ Nat.le_add_right _ _), start, msgs, hstart,
      hle.trans (List.length_append ▸ Nat.le_add_right _ _), hacc, ?_⟩
    rw [List.drop_append_of_le_length hle, List.drop_append_of_le_length hlen, hdrop,
      List.append_assoc]

/-- A step that relays nothing and takes nothing from the inbox. -/
theorem Fed.of_phase (h : Fed all sent conn) (hsub : conn'.subscribedAt = conn.subscribedAt)
    (hwritten : conn'.deliveries = conn.deliveries)
    (hfresh : conn'.phase.unsubscribed = true → conn.phase.unsubscribed = true)
    (hinbox : conn'.phase.inbox = none ∨
      conn'.phase.inbox = conn.phase.inbox ∧ conn'.phase.pending = conn.phase.pending) :
    Fed all sent conn' where
  fresh hun := by
    rw [hsub, hwritten]
    exact h.fresh (hfresh hun)
  served start hstart := by
    rw [hwritten]
    exact h.served start (hsub.symm.trans hstart)
  rest inbox hin := by
    rcases hinbox with hnone | ⟨heq, hpending⟩
    · exact absurd (hnone.symm.trans hin) (by simp)
    · rw [hsub, hwritten, hpending]
      exact h.rest inbox (heq.symm.trans hin)

/-- A session whose inbox is empty has relayed everything since its subscription. -/
theorem Fed.accounts_of_drained {client : Member} {inbox : ℕ} (h : Fed all sent conn)
    (hphase : conn.phase = .session client inbox) (hdrained : sent.length ≤ inbox) :
    ∃ start, conn.subscribedAt = some start ∧ Accounts conn.deliveries (all.drop start) := by
  obtain ⟨-, start, msgs, hstart, -, hacc, hdrop⟩ := h.rest inbox (by rw [hphase]; rfl)
  rw [List.drop_eq_nil_of_le hdrained, List.append_nil] at hdrop
  have hpending : conn.phase.pending = [] := by rw [hphase]; rfl
  rw [hpending, List.append_nil, ← hdrop] at hacc
  exact ⟨start, hstart, hacc⟩

theorem deliveries_greeting (client : Member) (roster : List String) :
    (greeting client roster).filterMap Written.delivery? = [] := by
  by_cases hroster : roster = [] <;> simp [greeting, hroster, Written.delivery?]

/-! ### Steps -/

theorem sent_broadcast (message : ServerToClient) :
    (st.broadcast receivers message).broadcaster.sent =
      st.broadcaster.sent ++ if receivers = 0 then [] else [message] := by
  unfold BrokerState.broadcast Channel.send
  by_cases h : receivers = 0 <;> simp [h]

theorem Conn.Move.sent_eq (h : conn.Move fromStr st receivers now action o) :
    o.state.broadcaster.sent =
      st.broadcaster.sent ++ if receivers = 0 then [] else o.said.toList := by
  cases h <;> simp [sent_broadcast]

@[simp] theorem deliveries_own (conn : Conn) (message : ServerToClient) :
    (conn.written ++ [Written.own message]).filterMap Written.delivery? = conn.deliveries := by
  simp [Conn.deliveries, Written.delivery?]

/-- The step of a task, seen from its own client. -/
theorem Conn.Move.fed (h : conn.Move fromStr st receivers now action o)
    (hfed : Fed all st.broadcaster.sent conn) (hnow : now = all.length)
    (hreceivers : conn.phase.inbox ≠ none → receivers ≠ 0) :
    Fed (all ++ o.said.toList) o.state.broadcaster.sent o.conn := by
  have hext : Fed (all ++ o.said.toList) o.state.broadcaster.sent conn := by
    refine hfed.extend fun hin => ?_
    rw [h.sent_eq, if_neg (hreceivers hin)]
  cases h with
  | arrived fill => exact hext.of_phase rfl rfl id (.inr ⟨rfl, rfl⟩)
  | waited hphase hread => exact hext.of_phase rfl rfl id (.inr ⟨rfl, rfl⟩)
  | handshakeFailed hphase | handshakeInvalid hphase | issued hphase | taken hphase
  | registered hphase | joined hphase =>
    exact hext.of_phase rfl rfl (by simp [hphase, Phase.unsubscribed]) (.inl rfl)
  | rejectFailed hphase | finished hphase | readFailed hphase | replyFailed hphase
  | deliveryFailed hphase | removed hphase | absent hphase | left hphase =>
    exact hext.of_phase rfl rfl (by simp [Phase.unsubscribed]) (.inl rfl)
  | rejected hphase =>
    exact hext.of_phase rfl (deliveries_own _ _) (by simp [Phase.unsubscribed]) (.inl rfl)
  | welcomed hphase =>
    exact hext.of_phase rfl (deliveries_own _ _) (by simp [hphase, Phase.unsubscribed])
      (.inl (by simp only; split <;> rfl))
  | rostered hphase =>
    exact hext.of_phase rfl (deliveries_own _ _) (by simp [hphase, Phase.unsubscribed]) (.inl rfl)
  | welcomeFailed hphase =>
    exact hext.of_phase rfl rfl (by simp [Phase.unsubscribed]) (.inl rfl)
  | chatted hphase hread htext => exact hext.of_phase rfl rfl id (.inr ⟨rfl, rfl⟩)
  | ignored hphase hread htext => exact hext.of_phase rfl rfl id (.inr ⟨rfl, rfl⟩)
  | greeted hphase hread =>
    exact hext.of_phase rfl rfl (by simp [Phase.unsubscribed])
      (.inr (by rw [hphase]; exact ⟨rfl, rfl⟩))
  | replied hphase =>
    exact hext.of_phase rfl (deliveries_own _ _) (by simp [Phase.unsubscribed])
      (.inr (by rw [hphase]; exact ⟨rfl, rfl⟩))
  | @subscribed client hphase =>
    -- the run of messages that it accounts for is still empty
    obtain ⟨-, hnil⟩ := hext.fresh (by rw [hphase]; rfl)
    have hnil' : Conn.deliveries { conn with
        phase := .session client st.broadcaster.sent.length, subscribedAt := some now } = [] := hnil
    simp only [Option.toList_none, List.append_nil]
    constructor
    case fresh => simp [Phase.unsubscribed]
    case served =>
      intro start hstart
      obtain rfl := Option.some_inj.mp hstart
      rw [hnil']
      exact ⟨hnow.le, [], .nil, List.nil_prefix⟩
    case rest =>
      intro inbox hin
      obtain rfl := Option.some_inj.mp hin
      rw [hnil']
      refine ⟨le_refl _, now, [], rfl, hnow.le, .nil, ?_⟩
      rw [hnow, List.drop_length, List.drop_length]
      rfl
  | @received client inbox inbox' item hphase hrecv =>
    obtain ⟨hnext, hlen, hitem⟩ := recv_eq_some hrecv
    simp only [Option.toList_none, List.append_nil] at hext ⊢
    constructor
    case fresh => simp [Phase.unsubscribed]
    case served => exact hext.served
    case rest =>
      intro inbox'' hin
      obtain rfl := Option.some_inj.mp hin
      obtain ⟨-, start, msgs, hstart, hle, hacc, hdrop⟩ := hext.rest inbox (by rw [hphase]; rfl)
      rw [hphase] at hacc
      -- the run of messages grows by the span of what the inbox gave
      refine ⟨hlen, start, msgs ++ (st.broadcaster.sent.drop inbox).take item.span, hstart, hle,
        ?_, ?_⟩
      · have := hacc.append hitem
        rwa [List.append_assoc] at this
      · rw [hdrop, List.append_assoc, hnext, ← List.drop_drop, List.take_append_drop]
  | @delivered client inbox item hphase =>
    -- the same run, with its last delivery written
    have hdel : Conn.deliveries { conn with
        phase := .session client inbox, written := conn.written ++ [.relayed item] } =
          conn.deliveries ++ [item] := by
      simp [Conn.deliveries, Written.delivery?]
    obtain ⟨hlen, start, msgs, hstart, hle, hacc, hdrop⟩ := hext.rest inbox (by rw [hphase]; rfl)
    rw [hphase] at hacc
    constructor
    case fresh => simp [Phase.unsubscribed]
    case served =>
      intro start' hstart'
      obtain rfl : start = start' := Option.some_inj.mp (hstart.symm.trans hstart')
      rw [hdel]
      exact ⟨hle, msgs, hacc, hdrop ▸ List.prefix_append _ _⟩
    case rest =>
      intro inbox' hin
      obtain rfl := Option.some_inj.mp hin
      rw [hdel]
      exact ⟨hlen, start, msgs, hstart, hle, (List.append_nil _).symm ▸ hacc, hdrop⟩

theorem receivers_ne_zero (hc : s.conns[c]? = some conn) (h : conn.phase.inbox ≠ none) :
    s.receivers ≠ 0 := by
  have hpos : 0 < s.receivers := by
    refine List.countP_pos_iff.mpr ⟨conn, List.mem_of_getElem? hc, ?_⟩
    cases hphase : conn.phase <;> simp_all [Phase.inbox, Phase.holdsInbox]
  exact hpos.ne'

/-- Every connection is fed. -/
def Broker.AllFed (s : Broker) : Prop :=
  ∀ (c : ℕ) (conn : Conn), s.conns[c]? = some conn →
    Fed s.messages s.state.broadcaster.sent conn

theorem messages_after : (s.after c o).messages = s.messages ++ o.said.toList := by
  simp [Broker.messages, Broker.after, Function.comp_def]

/-- The shutdown adds its notice. -/
theorem messages_announced (s : Broker) : Broker.messages { s with
    accepting := false
    state := s.state.broadcast s.receivers shutdownNotice
    order := s.order ++ [(none, shutdownNotice)] } = s.messages ++ [shutdownNotice] := by
  simp [Broker.messages]

theorem fed_step {e : Event} (h : s.AllFed) (he : s.step fromStr e = some s') : s'.AllFed := by
  intro d other hd
  cases Broker.step_cases he with
  | accepted =>
    rcases getElem?_concat_new hd with hd | rfl
    · exact h d other hd
    · exact fed_new
  | announced =>
    rw [messages_announced]
    refine (h d other hd).extend fun hin => ?_
    have hne : s.receivers ≠ 0 := receivers_ne_zero hd hin
    rw [sent_broadcast, if_neg hne]
  | @moved c action conn o hconn hmove =>
    rw [messages_after]
    rcases Broker.getElem?_after hd with ⟨rfl, rfl⟩ | ⟨-, hd⟩
    · exact hmove.fed (h d conn hconn) (by simp [Broker.messages])
        (receivers_ne_zero hconn)
    · -- the inbox of a task that did not move holds what was broadcast
      refine (h d other hd).extend fun hin => ?_
      rw [show (s.after c o).state.broadcaster.sent = o.state.broadcaster.sent from rfl,
        hmove.sent_eq, if_neg (receivers_ne_zero hd hin)]

theorem allFed_of_reachable (h : Reachable (Broker.step fromStr) .new s) : s.AllFed :=
  h.invariant (fun c conn hc => by simp [Broker.new] at hc) fun _ _ _ _ ht he => fed_step ht he

/-! ### The chats of a sender -/

/-- The text that connection `b` has sent, if the entry is a chat of its. -/
def chatOf (b : ℕ) (entry : Option ℕ × ServerToClient) : Option String :=
  if entry.1 = some b then entry.2.chatText else none

theorem filterMap_chatOf (s : Broker) (b : ℕ) :
    s.order.filterMap (chatOf b) = (s.saidBy b).filterMap ServerToClient.chatText := by
  unfold Broker.saidBy
  rw [List.filterMap_map]
  induction s.order with
  | nil => rfl
  | cons entry order ih =>
    by_cases hentry : entry.1 = some b
    · simp only [List.filterMap_cons, chatOf, hentry, if_true, ih, decide_true,
        List.filter_cons_of_pos, Function.comp_apply]
    · simp only [List.filterMap_cons, chatOf, hentry, if_false, ih, decide_false,
        List.filter_cons_of_neg, Bool.false_eq_true, not_false_eq_true]

/-- The chats of connection `b` that another one has been relayed are some of those that its
session has read, in order. -/
theorem relayed_chats_sublist (h : Reachable (Broker.step fromStr) .new s) {b : ℕ} {sender : Conn}
    (hb : s.conns[b]? = some sender) (items : List (Delivery ServerToClient)) (start : ℕ) :
    ((places start items).filterMap fun n => s.order[n]?.bind (chatOf b)).Sublist
      ((sender.reading.results.drop 1).filterMap spokenText) := by
  have := filterMap_places_sublist items start s.order (chatOf b)
  rwa [filterMap_chatOf, chats_of_reachable h hb] at this

/-! ### The messages in the stream -/

/-- No task of a connection broadcasts an error. -/
theorem Conn.Move.said_ne_error (h : conn.Move fromStr st receivers now action o)
    (text : String) : .error text ∉ o.said := by
  cases h <;> simp

/-- The only error that is broadcast is the notice of the shutdown. -/
theorem error_of_mem_messages (h : Reachable (Broker.step fromStr) .new s) :
    ∀ text, .error text ∈ s.messages → .error text = shutdownNotice := by
  refine h.invariant (I := fun t => ∀ text, .error text ∈ t.messages →
    .error text = shutdownNotice)
    (fun text hmem => by simp [Broker.messages, Broker.new] at hmem) ?_
  intro t e t' _ ht he text hmem
  cases Broker.step_cases he with
  | accepted => exact ht text hmem
  | announced =>
    rw [messages_announced] at hmem
    rcases List.mem_append.mp hmem with hmem | hmem
    · exact ht text hmem
    · exact List.mem_singleton.mp hmem
  | moved hconn hmove =>
    rw [messages_after] at hmem
    rcases List.mem_append.mp hmem with hmem | hmem
    · exact ht text hmem
    · exact absurd (Option.mem_toList.mp hmem) (hmove.said_ne_error text)

/-- No broadcast looks like the reply to a further `Hello`. -/
theorem reply_not_mem_messages (h : Reachable (Broker.step fromStr) .new s) :
    .error "already connected" ∉ s.messages := fun hmem =>
  absurd (error_of_mem_messages h _ hmem) (by simp [shutdownNotice])

/-- A task that has ever subscribed has written the greeting, and after it replies and relayed
messages. -/
theorem welcomed_of_subscribed (h : Reachable (Broker.step fromStr) .new s)
    (hc : s.conns[c]? = some conn) (hsubscribed : conn.subscribedAt ≠ none) :
    ∃ client, Welcomed client conn.written := by
  refine task_invariant (P := fun conn _ => conn.subscribedAt ≠ none →
    ∃ client, Welcomed client conn.written) (fun hne => absurd rfl hne) ?_ h hc hsubscribed
  intro s c conn action o said hreach hconn hmove hP
  have hwrote := wrote_of_reachable hreach hconn
  -- a task that has not subscribed yet does not write as a subscriber
  have hfresh : ∀ {written : List Written}, conn.phase.unsubscribed = true →
      conn.subscribedAt ≠ none → ∃ client, Welcomed client written := fun hun hne =>
    absurd ((allFed_of_reachable hreach c conn hconn).fresh hun).1 hne
  cases hmove with
  | rejected hphase | welcomed hphase | rostered hphase =>
    exact hfresh (by rw [hphase]; rfl)
  | subscribed hphase =>
    rw [hphase] at hwrote
    exact fun _ => ⟨_, hwrote⟩
  | replied hphase =>
    rw [hphase] at hwrote
    exact fun _ => ⟨_, hwrote.2.append (hwrote.1 ▸ .reply)⟩
  | delivered hphase =>
    rw [hphase] at hwrote
    exact fun _ => ⟨_, Welcomed.append hwrote (.relayed _)⟩
  | _ => exact hP

/-- Apart from the replies, what comes after the greeting is what was relayed, a gap as the
error that tells its size. -/
theorem filter_messages_later {later : List Written} (hlater : ∀ w ∈ later, w.Later)
    (hvalues : ∀ message, .value message ∈ later.filterMap Written.delivery? →
      message ≠ .error "already connected") :
    (later.map Written.message).filter (· ≠ .error "already connected") =
      (later.filterMap Written.delivery?).map (Delivery.fill lagError) := by
  induction later with
  | nil => rfl
  | cons w later ih =>
    have htail := ih (fun x hx => hlater x (List.mem_cons_of_mem w hx)) fun message hmem =>
      hvalues message (List.mem_filterMap.mpr (by
        obtain ⟨x, hx, hmessage⟩ := List.mem_filterMap.mp hmem
        exact ⟨x, List.mem_cons_of_mem w hx, hmessage⟩))
    cases hlater w List.mem_cons_self with
    | reply =>
      rw [List.map_cons, List.filter_cons_of_neg (by simp [alreadyConnected, Written.message])]
      exact htail
    | relayed item =>
      have hne : Delivery.fill lagError item ≠ .error "already connected" := by
        cases item with
        | value message => exact hvalues message List.mem_cons_self
        | lagged skipped => exact lagError_ne skipped
      rw [List.map_cons, Written.message, relayedMessage_eq, List.filter_cons_of_pos (by simpa),
        htail]
      rfl

/-- **The messages of a subscriber.**  After the greeting, and apart from replies to further
`Hello`s, its stream holds what its inbox gave, a gap as the error that tells its size. -/
theorem messages_of_subscribed (h : Reachable (Broker.step fromStr) .new s)
    (hc : s.conns[c]? = some conn) {start : ℕ} (hstart : conn.subscribedAt = some start) :
    ∃ nickname roster body, conn.messages = welcomeMessages nickname roster ++ body ∧
      body.filter (· ≠ .error "already connected") =
        conn.deliveries.map (Delivery.fill lagError) := by
  obtain ⟨client, roster, later, hwritten, hlater⟩ :=
    welcomed_of_subscribed h hc (by rw [hstart]; simp)
  have hdeliveries : conn.deliveries = later.filterMap Written.delivery? := by
    rw [Conn.deliveries, hwritten, List.filterMap_append, deliveries_greeting, List.nil_append]
  refine ⟨client.nickname, roster, later.map Written.message, ?_, ?_⟩
  · rw [Conn.messages, hwritten, List.map_append, messages_greeting]
  · rw [hdeliveries]
    refine filter_messages_later hlater fun message hmem => ?_
    -- what was relayed was broadcast
    obtain ⟨-, msgs, hacc, hpre⟩ := (allFed_of_reachable h c conn hc).served start hstart
    rw [← hdeliveries] at hmem
    rintro rfl
    exact reply_not_mem_messages h (List.mem_of_mem_drop (hpre.subset (hacc.mem hmem)))

/-! ### Fan-out -/

/-- The stream of a connection that has subscribed when `start` broadcasts were made: `items` are
the broadcasts and the gaps in it. -/
structure Relayed (s : Broker) (conn : Conn) (start : ℕ)
    (items : List (Delivery ServerToClient)) : Prop where
  /-- After the greeting the client is written its items, a gap as the error that tells how many
  are missing; only replies to further `Hello`s stand between them. -/
  written : ∃ nickname roster body, conn.messages = welcomeMessages nickname roster ++ body ∧
    body.filter (· ≠ .error "already connected") = items.map (Delivery.fill lagError)
  /-- The items are the run of the broadcast order that begins at the subscription, up to gaps
  that count what is missing where they stand. -/
  contiguous : ∃ msgs, msgs <+: s.messages.drop start ∧ Accounts items msgs
  /-- The broadcasts among the items were made at increasing places. -/
  placed : (places start items).SortedLT ∧
    (places start items).map (s.messages[·]?) = (values items).map some

theorem relayed_of_reachable (h : Reachable (Broker.step fromStr) .new s)
    (hc : s.conns[c]? = some conn) {start : ℕ} (hstart : conn.subscribedAt = some start) :
    Relayed s conn start conn.deliveries := by
  obtain ⟨-, msgs, hacc, hbegins⟩ := (allFed_of_reachable h c conn hc).served start hstart
  exact ⟨messages_of_subscribed h hc hstart, ⟨msgs, hbegins, hacc⟩, places_sortedLT _ _,
    map_getElem?_places hacc hbegins⟩

/-- What the clients receive, in one state: `items c` are the broadcasts and gaps in the stream
of connection `c`. -/
structure FanOut (s : Broker) (items : ℕ → List (Delivery ServerToClient)) : Prop where
  relayed : ∀ (c : ℕ) (conn : Conn) (start : ℕ), s.conns[c]? = some conn →
    conn.subscribedAt = some start → Relayed s conn start (items c)
  /-- Once the inbox is empty, nothing is left out at the end. -/
  drained : ∀ (c : ℕ) (conn : Conn) (client : Member) (inbox : ℕ), s.conns[c]? = some conn →
    conn.phase = .session client inbox → s.state.broadcaster.recv inbox = none →
      ∃ start, conn.subscribedAt = some start ∧ Accounts (items c) (s.messages.drop start)
  /-- The broadcasts that two clients both receive come in the same order. -/
  sameOrder : ∀ (c d : ℕ) (conn other : Conn) (start start' : ℕ), s.conns[c]? = some conn →
    s.conns[d]? = some other → conn.subscribedAt = some start →
      other.subscribedAt = some start' →
        (places start (items c)).filter (· ∈ places start' (items d)) =
          (places start' (items d)).filter (· ∈ places start (items c))
  /-- The chats of one sender come in the order in which its session has read
  them, to the sender itself too. -/
  senderOrder : ∀ (c b : ℕ) (conn sender : Conn) (start : ℕ), s.conns[c]? = some conn →
    s.conns[b]? = some sender → conn.subscribedAt = some start →
      ((places start (items c)).filterMap fun n => s.order[n]?.bind (chatOf b)).Sublist
        ((sender.reading.results.drop 1).filterMap spokenText)

/-- The broadcasts and gaps in the stream of connection `c`. -/
def Broker.itemsOf (s : Broker) (c : ℕ) : List (Delivery ServerToClient) :=
  (s.conns[c]?.map Conn.deliveries).getD []

theorem Broker.itemsOf_eq (hc : s.conns[c]? = some conn) : s.itemsOf c = conn.deliveries := by
  rw [itemsOf, hc]
  rfl

/-- **Fan-out** in every reachable state. -/
theorem fanout (h : Reachable (Broker.step fromStr) .new s) : ∃ items, FanOut s items := by
  refine ⟨s.itemsOf, ?_⟩
  constructor
  case relayed =>
    intro c conn start hc hstart
    rw [Broker.itemsOf_eq hc]
    exact relayed_of_reachable h hc hstart
  case drained =>
    intro c conn client inbox hc hphase hrecv
    rw [Broker.itemsOf_eq hc]
    exact (allFed_of_reachable h c conn hc).accounts_of_drained hphase (recv_eq_none hrecv)
  case sameOrder => exact fun _ _ _ _ _ _ _ _ _ _ => filter_mem_places_comm _ _ _ _
  case senderOrder => exact fun _ _ _ _ start _ hb _ => relayed_chats_sublist h hb _ start

/-- Alice and Bob have joined, and Alice's "hi" has been relayed to both, to Bob
first. -/
def echoScript : List Event :=
  chatScript ++ [.conn 1 .recv, .conn 1 (.write true), .conn 0 .recv, .conn 0 (.write true),
    .conn 0 .recv, .conn 0 (.write true)]

set_option maxRecDepth 10000 in
theorem fanout_alice_bob :
    ∃ s items, run (Broker.step scriptFromStr) .new echoScript = some s ∧
      s.conns.map Conn.messages =
        [[.welcome "alice", .userJoined "bob", .chat "alice" "hi"],
          [.welcome "bob", .roster ["alice"], .chat "alice" "hi"]] ∧ FanOut s items := by
  have hrun : ((run (Broker.step scriptFromStr) .new echoScript).map fun s =>
      s.conns.map Conn.messages) =
        some [[.welcome "alice", .userJoined "bob", .chat "alice" "hi"],
          [.welcome "bob", .roster ["alice"], .chat "alice" "hi"]] := by decide
  obtain ⟨s, hs, hmessages⟩ := Option.map_eq_some_iff.mp hrun
  obtain ⟨items, hfan⟩ := fanout ⟨_, hs⟩
  exact ⟨s, items, hs, hmessages, hfan⟩

end Chat
