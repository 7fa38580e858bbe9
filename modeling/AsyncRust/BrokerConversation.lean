/-
What a client is told from the first message to the last.

`Conn.Silent` and `Talk` say for every task what it has written and how this follows from
what it has read: a task without a record has written nothing, or an error before it
ended; a task that has inserted one has written the greeting and then replies and what
its inbox gave.  A move of the task keeps them (`Conn.Move.of_silent`, `Conn.Move.talk`).

* `firstLine_of_opened` — the message of the handshake is the first line of the stream
  with any content;
* `untouched_of_unregistered` — a task without a record has changed neither the registry
  nor the broadcasts;
* `conversation_shape` — the two shapes of a conversation.
-/
import AsyncRust.BrokerFanout
import AsyncRust.ByteFormat
import AsyncRust.LineStream

namespace Chat

open LineReader Broadcast Runs ByteFormat

variable {fromStr : String → Option ClientToServer} {st : BrokerState} {receivers now : ℕ}
  {s s' : Broker} {c d : ℕ} {conn conn' : Conn} {action : Action} {o : Outcome}
  {client : Member} {roster : List String} {messages unsent : List ServerToClient}
  {later : List Written} {es : List Event}

/-! ### The first line -/

def carriageReturn : UInt8 := 13

/-- The line has any content besides CR and LF. -/
def hasContent (line : List UInt8) : Bool := line.any fun b => b ≠ newline && b ≠ carriageReturn

theorem trimEndMatches_eq_empty {text : String} :
    trimEndMatches text = "" ↔ ∀ ch ∈ text.toList, ch = '\n' ∨ ch = '\r' := by
  have hempty : trimEndMatches text = "" ↔
      text.toList.rdropWhile lineEndings.contains = [] := by
    rw [trimEndMatches]
    exact ⟨fun h => by simpa using congrArg String.toList h,
      fun h => congrArg String.ofList h⟩
  rw [hempty, List.rdropWhile_eq_nil_iff]
  simp [lineEndings]

/-- **Blank lines** are those without content, and only they are skipped. -/
theorem finishLine_eq_none {line : List UInt8} :
    finishLine fromStr line = none ↔ hasContent line = false := by
  have hcontent : hasContent line = false ↔ ∀ b ∈ line, b = newline ∨ b = carriageReturn := by
    simp only [hasContent, List.any_eq_false, Bool.and_eq_true, decide_eq_true_eq]
    exact forall₂_congr fun b _ => by tauto
  rw [hcontent]
  constructor
  · intro h b hb
    cases htext : ofUtf8 line with
    | none =>
      rw [finishLine_of_none htext] at h
      exact absurd h (by simp)
    | some text =>
      have htrim : trimEndMatches text = "" := by
        by_contra hne
        rw [finishLine_of_some htext, if_neg hne] at h
        cases hparsed : fromStr (trimEndMatches text) <;> simp [hparsed] at h
      rw [← utf8_of_ofUtf8 htext, utf8_eq_flatMap] at hb
      obtain ⟨ch, hch, hb⟩ := List.mem_flatMap.mp hb
      rcases trimEndMatches_eq_empty.mp htrim ch hch with rfl | rfl
      · exact .inl (List.mem_singleton.mp hb)
      · exact .inr (List.mem_singleton.mp hb)
  · intro h
    -- such a line is the encoding of its line endings
    set text := String.ofList (line.map fun b => if b = newline then '\n' else '\r') with htext
    have hutf8 : utf8 text = line := by
      rw [htext, utf8_ofList, List.flatMap_map]
      refine (List.flatMap_congr fun b hb => ?_).trans (List.flatMap_singleton' line)
      rcases h b hb with rfl | rfl <;> rfl
    have htrim : trimEndMatches text = "" := by
      rw [trimEndMatches_eq_empty, htext, String.toList_ofList]
      intro ch hch
      obtain ⟨b, -, rfl⟩ := List.mem_map.mp hch
      split
      · exact .inl rfl
      · exact .inr rfl
    have hline := ofUtf8_utf8 text
    rw [hutf8] at hline
    rw [finishLine_of_some hline, if_pos htrim]

/-- A line that has given a message. -/
theorem message_of_finishLine {line : List UInt8} {message : ClientToServer}
    (h : finishLine fromStr line = some (.ok (some message))) :
    ∃ text, ofUtf8 line = some text ∧ fromStr (trimEndMatches text) = some message := by
  cases htext : ofUtf8 line with
  | none =>
    rw [finishLine_of_none htext] at h
    exact absurd h (by simp)
  | some text =>
    rw [finishLine_of_some htext] at h
    refine ⟨text, rfl, ?_⟩
    by_cases hempty : trimEndMatches text = ""
    · simp [hempty] at h
    · rw [if_neg hempty] at h
      cases hparsed : fromStr (trimEndMatches text) <;> simp_all

/-- **The first message** that was read is that of the first line with any content. -/
theorem firstLine_of_opened {t : Reading (ReadResult ClientToServer)} {message : ClientToServer}
    (h : t.Opened (readMessage fromStr) (.ok (some message))) :
    ∃ line text, (lines (received t.arrived)).find? hasContent = some line ∧
      ofUtf8 line = some text ∧ fromStr (trimEndMatches text) = some message := by
  have hfirst := h.findSome?_lines (by simp [readMessage]) (by simp [readMessage])
  obtain ⟨skipped, line, after, hlines, hline, hskipped⟩ := List.findSome?_eq_some_iff.mp hfirst
  obtain ⟨text, htext, hmessage⟩ := message_of_finishLine hline
  refine ⟨line, text, ?_, htext, hmessage⟩
  rw [List.find?_eq_some_iff_append]
  refine ⟨?_, skipped, after, hlines, fun l hl => ?_⟩
  · by_contra hblank
    have hnone : finishLine fromStr line = none :=
      finishLine_eq_none.mpr (Bool.eq_false_iff.mpr hblank)
    exact absurd (hnone.symm.trans hline) (by simp)
  · rw [finishLine_eq_none.mp (hskipped l hl)]
    rfl

/-- A task that waits for its first message has dropped no read, and its first message
is the one that a reader of the whole stream finds. -/
theorem opened_of_reachable (h : Reachable (Broker.step fromStr) .new s)
    (hc : s.conns[c]? = some conn) :
    (conn.phase = .handshake → conn.reading.Unread (readMessage fromStr)) ∧
      (conn.phase ≠ .handshake → ∃ x, conn.reading.Opened (readMessage fromStr) x) := by
  refine task_invariant (P := fun conn _ =>
    (conn.phase = .handshake → conn.reading.Unread (readMessage fromStr)) ∧
      (conn.phase ≠ .handshake → ∃ x, conn.reading.Opened (readMessage fromStr) x))
    ⟨fun _ => unread_start, fun hne => absurd rfl hne⟩ ?_ h hc
  rintro s c conn action o - - - hmove ⟨hunread, hopened⟩
  -- the read of the handshake gives its result
  have hfirst : ∀ {phase : Phase} {result : ReadResult ClientToServer},
      conn.phase = .handshake → (conn.polled fromStr).1 = some result → phase ≠ .handshake →
        (phase = .handshake → (conn.polled fromStr).2.Unread (readMessage fromStr)) ∧
          (phase ≠ .handshake → ∃ x, (conn.polled fromStr).2.Opened (readMessage fromStr) x) :=
    fun hphase hread hne =>
      ⟨fun h => absurd h hne, fun _ => ⟨_, (hunread hphase).poll_some hread⟩⟩
  -- a step after the handshake
  have hlater : ∀ {phase : Phase} {reading : Reading (ReadResult ClientToServer)},
      conn.phase ≠ .handshake → phase ≠ .handshake →
        (∀ x, conn.reading.Opened (readMessage fromStr) x →
          reading.Opened (readMessage fromStr) x) →
        (phase = .handshake → reading.Unread (readMessage fromStr)) ∧
          (phase ≠ .handshake → ∃ x, reading.Opened (readMessage fromStr) x) := by
    intro phase reading hphase hphase' hkeep
    obtain ⟨x, hx⟩ := hopened hphase
    exact ⟨fun h => absurd h hphase', fun _ => ⟨x, hkeep x hx⟩⟩
  cases hmove with
  | arrived fill =>
    refine ⟨fun hphase => (hunread hphase).feed fill, fun hphase => ?_⟩
    obtain ⟨x, hx⟩ := hopened hphase
    exact ⟨x, hx.feed fill⟩
  | waited hphase hread =>
    refine ⟨fun hphase => (hunread hphase).poll_none hread, fun hphase => ?_⟩
    obtain ⟨x, hx⟩ := hopened hphase
    exact ⟨x, hx.poll⟩
  | handshakeFailed hphase hread | handshakeInvalid hphase hread | issued hphase hread =>
    exact hfirst hphase hread (by simp)
  | welcomeFailed hphase =>
    exact hlater (by rcases hphase with hphase | hphase <;> simp [hphase]) (by simp) fun _ hx => hx
  | welcomed hphase =>
    exact hlater (by simp [hphase]) (by simp only; split <;> simp) fun _ hx => hx
  | rejected hphase | rejectFailed hphase | taken hphase | registered hphase | rostered hphase
  | joined hphase | subscribed hphase | replied hphase | replyFailed hphase | delivered hphase
  | deliveryFailed hphase | removed hphase | absent hphase | left hphase =>
    exact hlater (by simp [hphase]) (by simp) fun _ hx => hx
  | chatted hphase | ignored hphase =>
    exact hlater (by simp [hphase]) (by simp [hphase]) fun _ hx => hx.poll
  | greeted hphase | finished hphase | readFailed hphase =>
    exact hlater (by simp [hphase]) (by simp) fun _ hx => hx.poll
  | received hphase => exact hlater (by simp [hphase]) (by simp) fun _ hx => hx

/-! ### What a task has written -/

def isHello : ReadResult ClientToServer → Bool
  | .ok (some (.hello _)) => true
  | _ => false

/-- The `Hello`s that the session has read, after the one of the handshake. -/
def Conn.furtherHellos (conn : Conn) : ℕ := (conn.reading.results.drop 1).countP isHello

/-- The first message was a `Hello` with this nickname. -/
def Conn.Hello (conn : Conn) (nickname : String) : Prop :=
  nickname ≠ "" ∧
    ∃ sent, conn.reading.results.head? = some (.ok (some (.hello sent))) ∧ nickname = trim sent

theorem hello_of_performHandshake {result : ReadResult ClientToServer} {nickname : String}
    (h : performHandshake result = .done nickname) :
    ∃ sent, result = .ok (some (.hello sent)) ∧ nickname = trim sent := by
  rcases result with err | _ | sent | text
  · simp [performHandshake] at h
  · simp [performHandshake] at h
  · refine ⟨sent, rfl, ?_⟩
    by_cases hempty : trim sent = ""
    · simp [performHandshake, extractNickname, validateNickname, hempty] at h
    · simp only [performHandshake, extractNickname, validateNickname, if_neg hempty,
        Handshake.done.injEq] at h
      exact h.symm
  · simp [performHandshake, extractNickname] at h

/-- A task that has inserted no record. -/
def Conn.Silent (conn : Conn) : Prop :=
  conn.registeredAt = none ∧
    match conn.phase with
    | .handshake => conn.reading.results = [] ∧ conn.written = []
    | .rejecting .. => conn.written = []
    | .registering client =>
      conn.reading.results.length = 1 ∧ conn.Hello client.nickname ∧ conn.written = []
    | .closed failure => conn.written = [] ∨
      ∃ text reason, conn.written = [.own (.error text)] ∧ failure = some (.bail reason)
    | _ => False

/-- What a task that has inserted its record is writing, or has failed to write. -/
def Phase.Unsent (client : Member) (roster : List String) :
    Phase → List ServerToClient → Prop
  | .welcoming client' roster', unsent =>
    client' = client ∧ roster' = roster ∧ unsent = welcomeMessages client.nickname roster
  | .rostering client' roster', unsent =>
    client' = client ∧ roster' = roster ∧ unsent = [.roster roster]
  | .announcing client', unsent => client' = client ∧ unsent = []
  | .subscribing client', unsent => client' = client ∧ unsent = []
  | .session client' _, unsent => client' = client ∧ unsent = []
  | .replying client' _ message, unsent =>
    client' = client ∧ message = .error "already connected" ∧ unsent = [message]
  | .delivering client' _ _, unsent => client' = client ∧ unsent = []
  | .cleanup client', unsent => client' = client ∧ unsent = []
  | .leaving _, unsent => unsent = []
  | .closed _, unsent => unsent = []
  | .aborted client' _ failure, unsent =>
    client' = client ∧ (unsent = [] ∨ failure = .io .stream ∧
      (unsent = welcomeMessages client.nickname roster ∨ unsent = [.roster roster] ∨
        unsent = [.error "already connected"]))
  | _, _ => False

/-- What is written after the greeting: replies to further `Hello`s, broadcasts except for
the client's own `UserJoined`, and lag errors. -/
inductive Written.InSession (nickname : String) (messages : List ServerToClient) : Written → Prop
  | reply : InSession nickname messages alreadyConnected
  | broadcast {message : ServerToClient} (hmem : message ∈ messages)
      (hown : message ≠ .userJoined nickname) :
      InSession nickname messages (.relayed (.value message))
  | lag (skipped : ℕ) : InSession nickname messages (.relayed (.lagged skipped))

/-- A task that has inserted a record for `client` when `roster` was online: together with
`unsent` it has written the greeting and then `later`. -/
structure Talk (messages : List ServerToClient) (conn : Conn) (client : Member)
    (roster : List String) (unsent : List ServerToClient) (later : List Written) : Prop where
  registered : conn.registeredAt ≠ none
  hello : conn.Hello client.nickname
  written : conn.written ++ unsent.map .own = greeting client roster ++ later
  phase : conn.phase.Unsent client roster unsent
  inSession : ∀ w ∈ later, w.InSession client.nickname messages
  replies : later.count alreadyConnected = conn.furtherHellos

theorem Conn.Hello.of_head? {nickname : String} (h : conn.Hello nickname)
    (hhead : conn'.reading.results.head? = conn.reading.results.head?) :
    conn'.Hello nickname := by
  obtain ⟨hne, sent, hfirst, hsent⟩ := h
  exact ⟨hne, sent, hhead.trans hfirst, hsent⟩

theorem Written.InSession.mono {messages' : List ServerToClient} {nickname : String} {w : Written}
    (h : w.InSession nickname messages) (hsub : messages ⊆ messages') :
    w.InSession nickname messages' := by
  cases h with
  | reply => exact .reply
  | broadcast hmem hown => exact .broadcast (hsub hmem) hown
  | lag skipped => exact .lag skipped

theorem Talk.mono {messages' : List ServerToClient}
    (h : Talk messages conn client roster unsent later) (hsub : messages ⊆ messages') :
    Talk messages' conn client roster unsent later :=
  { h with inSession := fun w hw => (h.inSession w hw).mono hsub }

/-- A step that reads and writes nothing. -/
theorem Talk.stay (h : Talk messages conn client roster unsent later)
    (hregistered : conn'.registeredAt = conn.registeredAt)
    (hresults : conn'.reading.results = conn.reading.results)
    (hwritten : conn'.written = conn.written) (hphase : conn'.phase.Unsent client roster unsent) :
    Talk messages conn' client roster unsent later where
  registered := hregistered ▸ h.registered
  hello := h.hello.of_head? (congrArg List.head? hresults)
  written := hwritten ▸ h.written
  phase := hphase
  inSession := h.inSession
  replies := by
    rw [Conn.furtherHellos, hresults]
    exact h.replies

/-- A step that writes what was waiting to be written. -/
theorem Talk.write {message : ServerToClient} {rest : List ServerToClient}
    (h : Talk messages conn client roster (message :: rest) later)
    (hregistered : conn'.registeredAt = conn.registeredAt)
    (hreading : conn'.reading = conn.reading)
    (hwritten : conn'.written = conn.written ++ [.own message])
    (hphase : conn'.phase.Unsent client roster rest) :
    Talk messages conn' client roster rest later where
  registered := hregistered ▸ h.registered
  hello := h.hello.of_head? (hreading ▸ rfl)
  written := by
    rw [hwritten, List.append_assoc]
    exact h.written
  phase := hphase
  inSession := h.inSession
  replies := by
    rw [Conn.furtherHellos, hreading]
    exact h.replies

/-- A step that relays what its inbox gave. -/
theorem Talk.relay {item : Delivery ServerToClient}
    (h : Talk messages conn client roster [] later)
    (hregistered : conn'.registeredAt = conn.registeredAt)
    (hreading : conn'.reading = conn.reading)
    (hwritten : conn'.written = conn.written ++ [.relayed item])
    (hphase : conn'.phase.Unsent client roster [])
    (hitem : (Written.relayed item).InSession client.nickname messages) :
    Talk messages conn' client roster [] (later ++ [.relayed item]) where
  registered := hregistered ▸ h.registered
  hello := h.hello.of_head? (hreading ▸ rfl)
  written := by
    have := h.written
    rw [List.map_nil, List.append_nil] at this
    rw [hwritten, this, List.map_nil, List.append_nil, List.append_assoc]
  phase := hphase
  inSession := by
    intro w hw
    rcases List.mem_append.mp hw with hw | hw
    · exact h.inSession w hw
    · exact List.mem_singleton.mp hw ▸ hitem
  replies := by
    rw [Conn.furtherHellos, hreading, List.count_append, List.count_singleton]
    simp only [alreadyConnected, beq_iff_eq, reduceCtorEq, if_false, Nat.add_zero]
    exact h.replies

/-- A step that reads a message of the session: a `Hello` is to be replied to. -/
theorem Talk.read {result : ReadResult ClientToServer}
    (h : Talk messages conn client roster [] later)
    (hread : (conn.polled fromStr).1 = some result)
    (hregistered : conn'.registeredAt = conn.registeredAt)
    (hreading : conn'.reading = (conn.polled fromStr).2) (hwritten : conn'.written = conn.written)
    (hphase : conn'.phase.Unsent client roster
      (if isHello result then [.error "already connected"] else [])) :
    Talk messages conn' client roster
      (if isHello result then [.error "already connected"] else [])
      (later ++ if isHello result then [alreadyConnected] else []) := by
  obtain ⟨-, sent, hhead, -⟩ := h.hello
  have hresults : conn'.reading.results = conn.reading.results ++ [result] := by
    rw [hreading, results_polled hread]
  have hpos : 1 ≤ conn.reading.results.length :=
    List.length_pos_iff.mpr fun hnil => by simp [hnil] at hhead
  constructor
  case registered => exact hregistered ▸ h.registered
  case hello =>
    refine h.hello.of_head? ?_
    rw [hresults, List.head?_append, hhead]
    rfl
  case written =>
    have := h.written
    rw [List.map_nil, List.append_nil] at this
    rw [hwritten, this, List.append_assoc]
    split <;> rfl
  case phase => exact hphase
  case inSession =>
    intro w hw
    rcases List.mem_append.mp hw with hw | hw
    · exact h.inSession w hw
    · split at hw
      · exact List.mem_singleton.mp hw ▸ .reply
      · exact absurd hw List.not_mem_nil
  case replies =>
    rw [Conn.furtherHellos, hresults, List.drop_append_of_le_length hpos, List.countP_append,
      List.count_append, h.replies]
    cases hhello : isHello result <;> simp [Conn.furtherHellos, hhello]

/-! ### Moves -/

/-- A task without a record goes on without one and changes nothing that is shared, or
inserts its record. -/
theorem Conn.Move.of_silent (messages : List ServerToClient)
    (h : conn.Move fromStr st receivers now action o) (hs : conn.Silent) :
    (o.conn.Silent ∧ o.state.clients = st.clients ∧ o.said = none) ∨
      ∃ client, action = .proceed ∧ client.nickname ∉ st.nicknames ∧ o.said = none ∧
        o.state.clients = st.clients.insert client.id ⟨client.nickname⟩ ∧
        Talk messages o.conn client st.nicknames
          (welcomeMessages client.nickname st.nicknames) [] := by
  obtain ⟨hnone, hs⟩ := hs
  cases h with
  | arrived fill => exact .inl ⟨⟨hnone, hs⟩, rfl, rfl⟩
  | waited hphase hread =>
    rcases hphase with hphase | ⟨client, inbox, hphase⟩
    · rw [hphase] at hs
      refine .inl ⟨⟨hnone, ?_⟩, rfl, rfl⟩
      simp only [hphase]
      exact ⟨(results_polled_none hread).trans hs.1, hs.2⟩
    · rw [hphase] at hs
      exact hs.elim
  | handshakeFailed hphase hread hresult =>
    rw [hphase] at hs
    exact .inl ⟨⟨hnone, .inl hs.2⟩, rfl, rfl⟩
  | handshakeInvalid hphase hread hresult =>
    rw [hphase] at hs
    exact .inl ⟨⟨hnone, hs.2⟩, rfl, rfl⟩
  | @issued result nickname hphase hread hresult =>
    rw [hphase] at hs
    have hresults : (conn.polled fromStr).2.results = [result] := by
      rw [results_polled hread, hs.1]
      rfl
    obtain ⟨sent, rfl, rfl⟩ := hello_of_performHandshake hresult
    refine .inl ⟨⟨hnone, ?_, ⟨(validNickname_of_performHandshake hresult).1, sent, ?_, rfl⟩, hs.2⟩,
      rfl, rfl⟩
    · exact congrArg List.length hresults
    · exact congrArg List.head? hresults
  | @rejected message reason hphase =>
    rw [hphase] at hs
    refine .inl ⟨⟨hnone, .inr ⟨message, reason, ?_, rfl⟩⟩, rfl, rfl⟩
    change conn.written ++ _ = _
    rw [hs]
    rfl
  | rejectFailed hphase =>
    rw [hphase] at hs
    exact .inl ⟨⟨hnone, .inl hs⟩, rfl, rfl⟩
  | taken hphase htaken =>
    rw [hphase] at hs
    exact .inl ⟨⟨hnone, hs.2.2⟩, rfl, rfl⟩
  | @registered client hphase hfree =>
    rw [hphase] at hs
    obtain ⟨hone, hhello, hwritten⟩ := hs
    refine .inr ⟨client, rfl, hfree, rfl, rfl, ?_⟩
    constructor
    case registered => simp
    case hello => exact hhello
    case written =>
      rw [List.append_nil, greeting_eq]
      exact congrArg (· ++ _) hwritten
    case phase => exact ⟨rfl, rfl, rfl⟩
    case inSession => exact List.forall_mem_nil _
    case replies =>
      change 0 = (conn.reading.results.drop 1).countP isHello
      rw [List.drop_eq_nil_of_le hone.le]
      rfl
  | welcomeFailed hphase =>
    rcases hphase with hphase | hphase <;> rw [hphase] at hs <;> exact hs.elim
  | welcomed hphase | rostered hphase | joined hphase | subscribed hphase | chatted hphase
  | ignored hphase | greeted hphase | finished hphase | readFailed hphase | received hphase
  | replied hphase | replyFailed hphase | delivered hphase | deliveryFailed hphase
  | removed hphase | absent hphase | left hphase =>
    rw [hphase] at hs
    exact hs.elim

/-- A task with a record goes on with its conversation. -/
theorem Conn.Move.talk (h : conn.Move fromStr st receivers now action o)
    (ht : Talk messages conn client roster unsent later)
    (hitem : ∀ client' inbox item, conn.phase = .delivering client' inbox item →
      (Written.relayed item).InSession client.nickname messages) :
    ∃ unsent' later', Talk messages o.conn client roster unsent' later' := by
  have hphase' := ht.phase
  cases h with
  | arrived fill => exact ⟨unsent, later, ht.stay rfl rfl rfl ht.phase⟩
  | waited hphase hread =>
    exact ⟨unsent, later, ht.stay rfl (results_polled_none hread) rfl ht.phase⟩
  | handshakeFailed hphase | handshakeInvalid hphase | issued hphase | rejected hphase
  | rejectFailed hphase | taken hphase | registered hphase =>
    rw [hphase] at hphase'
    exact hphase'.elim
  | @welcomed client' roster' hphase =>
    rw [hphase] at hphase'
    obtain ⟨rfl, rfl, rfl⟩ := hphase'
    refine ⟨_, later, ht.write rfl rfl rfl ?_⟩
    by_cases hroster : roster' = []
    · simp only [hroster, if_true]
      exact ⟨rfl, rfl⟩
    · simp only [hroster, if_false]
      exact ⟨rfl, rfl, rfl⟩
  | rostered hphase =>
    rw [hphase] at hphase'
    obtain ⟨rfl, rfl, rfl⟩ := hphase'
    exact ⟨_, later, ht.write rfl rfl rfl ⟨rfl, rfl⟩⟩
  | welcomeFailed hphase =>
    rcases hphase with hphase | hphase <;> rw [hphase] at hphase'
    · exact ⟨unsent, later, ht.stay rfl rfl rfl ⟨hphase'.1, .inr ⟨rfl, .inl hphase'.2.2⟩⟩⟩
    · exact ⟨unsent, later, ht.stay rfl rfl rfl ⟨hphase'.1, .inr ⟨rfl, .inr (.inl hphase'.2.2)⟩⟩⟩
  | joined hphase | subscribed hphase | received hphase | deliveryFailed hphase =>
    rw [hphase] at hphase'
    exact ⟨unsent, later, ht.stay rfl rfl rfl hphase'⟩
  | removed hphase | absent hphase =>
    rw [hphase] at hphase'
    exact ⟨unsent, later, ht.stay rfl rfl rfl hphase'.2⟩
  | left hphase =>
    rw [hphase] at hphase'
    exact ⟨unsent, later, ht.stay rfl rfl rfl hphase'⟩
  | chatted hphase hread | ignored hphase hread =>
    rw [hphase] at hphase'
    obtain ⟨rfl, rfl⟩ := hphase'
    exact ⟨_, _, ht.read hread rfl rfl rfl (by simp only [hphase]; exact ⟨rfl, rfl⟩)⟩
  | greeted hphase hread =>
    rw [hphase] at hphase'
    obtain ⟨rfl, rfl⟩ := hphase'
    exact ⟨_, _, ht.read hread rfl rfl rfl ⟨rfl, rfl, rfl⟩⟩
  | finished hphase hread =>
    rw [hphase] at hphase'
    obtain ⟨rfl, rfl⟩ := hphase'
    exact ⟨_, _, ht.read hread rfl rfl rfl ⟨rfl, rfl⟩⟩
  | readFailed hphase hread =>
    rw [hphase] at hphase'
    obtain ⟨rfl, rfl⟩ := hphase'
    exact ⟨_, _, ht.read hread rfl rfl rfl ⟨rfl, .inl rfl⟩⟩
  | replied hphase =>
    rw [hphase] at hphase'
    obtain ⟨rfl, -, rfl⟩ := hphase'
    exact ⟨[], later, ht.write rfl rfl rfl ⟨rfl, rfl⟩⟩
  | replyFailed hphase =>
    rw [hphase] at hphase'
    obtain ⟨rfl, hmessage, hunsent⟩ := hphase'
    exact ⟨unsent, later, ht.stay rfl rfl rfl
      ⟨rfl, .inr ⟨rfl, .inr (.inr (by rw [hunsent, hmessage]))⟩⟩⟩
  | delivered hphase =>
    have := hitem _ _ _ hphase
    rw [hphase] at hphase'
    obtain ⟨rfl, rfl⟩ := hphase'
    exact ⟨[], _, ht.relay rfl rfl rfl ⟨rfl, rfl⟩ this⟩

/-! ### The own `UserJoined` -/

/-- Only a task that is announcing itself broadcasts a `UserJoined`. -/
theorem Conn.Move.of_joined {nickname : String} (h : conn.Move fromStr st receivers now action o)
    (hsaid : .userJoined nickname ∈ o.said) :
    ∃ client, conn.phase.record = some client ∧ client.nickname = nickname ∧
      o.conn.phase.inSession = none := by
  cases h <;> simp only [Option.mem_def, reduceCtorEq, Option.some_inj] at hsaid
  case joined client hphase =>
    exact ⟨client, by rw [hphase]; rfl, ServerToClient.userJoined.inj hsaid, rfl⟩

/-- A task in its session was there before the step, or has just subscribed. -/
theorem Conn.Move.of_inSession (h : conn.Move fromStr st receivers now action o)
    (hclient : o.conn.phase.inSession = some client) :
    (conn.phase.inSession = some client ∧ o.conn.subscribedAt = conn.subscribedAt) ∨
      (o.conn.subscribedAt = some now ∧ o.said = none) := by
  cases h with
  | arrived fill | waited hphase hread => exact .inl ⟨hclient, rfl⟩
  | subscribed hphase => exact .inr ⟨rfl, rfl⟩
  | chatted hphase | ignored hphase => exact .inl ⟨hclient, rfl⟩
  | greeted hphase | received hphase | replied hphase | delivered hphase =>
    refine .inl ⟨?_, rfl⟩
    rw [hphase]
    exact hclient
  | welcomed hphase =>
    simp only at hclient
    split at hclient <;> exact absurd hclient (by simp [Phase.inSession])
  | handshakeFailed | handshakeInvalid | issued | rejected | rejectFailed | taken | registered
  | rostered | welcomeFailed | joined | finished | readFailed | replyFailed | deliveryFailed
  | removed | absent | left => exact absurd hclient (by simp [Phase.inSession])

/-- The inbox of a session holds no `UserJoined` under its own nickname: nobody else can
register under it before the session ends. -/
theorem not_mem_joined (h : Reachable (Broker.step fromStr) .new s) : ∀ (c : ℕ) (conn : Conn)
    (client : Member) (start : ℕ), s.conns[c]? = some conn →
      conn.phase.inSession = some client → conn.subscribedAt = some start →
        .userJoined client.nickname ∉ s.messages.drop start := by
  refine h.invariant (I := fun t => ∀ (c : ℕ) (conn : Conn) (client : Member) (start : ℕ),
    t.conns[c]? = some conn → conn.phase.inSession = some client →
      conn.subscribedAt = some start → .userJoined client.nickname ∉ t.messages.drop start)
    (fun c conn client start hc => by simp [Broker.new] at hc) ?_
  intro t e t' hreach ht he c conn client start hc hclient hstart
  have hreg := registry_reachable hreach
  -- what a step adds to the broadcasts stands at the end
  have hmore : ∀ {more : List ServerToClient}, .userJoined client.nickname ∉ t.messages.drop start →
      .userJoined client.nickname ∉ more →
        .userJoined client.nickname ∉ (t.messages ++ more).drop start := by
    intro more hold hnew hmem
    rw [List.drop_append] at hmem
    rcases List.mem_append.mp hmem with hmem | hmem
    · exact hold hmem
    · exact hnew (List.mem_of_mem_drop hmem)
  cases Broker.step_cases he with
  | accepted =>
    rcases getElem?_concat_new hc with hc | rfl
    · exact ht c conn client start hc hclient hstart
    · exact absurd hclient (by simp [Conn.new, Phase.inSession])
  | announced =>
    rw [messages_announced]
    exact hmore (ht c conn client start hc hclient hstart) (by simp [shutdownNotice])
  | @moved d action other o hother hmove =>
    rw [messages_after]
    rcases Broker.getElem?_after hc with ⟨rfl, rfl⟩ | ⟨hdc, hc⟩
    · rcases hmove.of_inSession hclient with ⟨hin, hsub⟩ | ⟨hsub, hsaid⟩
      · refine hmore (ht c other client start hother hin (hsub ▸ hstart)) fun hmem => ?_
        obtain ⟨-, -, -, hout⟩ := hmove.of_joined (Option.mem_toList.mp hmem)
        exact absurd (hout.symm.trans hclient) (by simp)
      · obtain rfl := Option.some_inj.mp (hsub.symm.trans hstart)
        rw [hsaid, Option.toList_none, List.append_nil,
          List.drop_eq_nil_of_le (by simp [Broker.messages])]
        exact List.not_mem_nil
    · refine hmore (ht c conn client start hc hclient hstart) fun hmem => ?_
      obtain ⟨member, hmember, hname, -⟩ := hmove.of_joined (Option.mem_toList.mp hmem)
      exact hdc (hreg.eq_of_nickname hc hother (Phase.record_of_inSession hclient) hmember
        hname.symm)

/-- What the inbox gives is a broadcast, or tells of a gap. -/
theorem inSession_of_delivering (h : Reachable (Broker.step fromStr) .new s)
    (hc : s.conns[c]? = some conn) {inbox : ℕ} {item : Delivery ServerToClient}
    (hphase : conn.phase = .delivering client inbox item) :
    (Written.relayed item).InSession client.nickname s.messages := by
  cases item with
  | lagged skipped => exact .lag skipped
  | value message =>
    obtain ⟨-, start, msgs, hstart, -, hacc, hdrop⟩ :=
      (allFed_of_reachable h c conn hc).rest inbox (by rw [hphase]; rfl)
    have hmem : message ∈ s.messages.drop start := by
      rw [hdrop]
      refine List.mem_append_left _ (hacc.mem (List.mem_append_right _ ?_))
      rw [hphase]
      exact List.mem_cons_self
    refine .broadcast (List.mem_of_mem_drop hmem) ?_
    rintro rfl
    exact not_mem_joined h c conn client start hc (by rw [hphase]; rfl) hstart hmem

/-! ### Runs -/

/-- In the run over `es`, connection `c` has inserted the record of `client`, with the
nicknames of `roster` in the registry. -/
def Inserted (fromStr : String → Option ClientToServer) (es : List Event) (c : ℕ)
    (client : Member) (roster : List String) : Prop :=
  ∃ before after t t', es = before ++ .conn c .proceed :: after ∧
    run (Broker.step fromStr) .new before = some t ∧
    t.step fromStr (.conn c .proceed) = some t' ∧
    roster = t.state.nicknames ∧ client.nickname ∉ roster ∧
    t'.state.clients = t.state.clients.insert client.id ⟨client.nickname⟩

theorem Inserted.concat {e : Event} (h : Inserted fromStr es c client roster) :
    Inserted fromStr (es ++ [e]) c client roster := by
  obtain ⟨before, after, t, t', rfl, hfacts⟩ := h
  exact ⟨before, after ++ [e], t, t', by rw [List.append_assoc, List.cons_append], hfacts⟩

theorem Inserted.nodup (h : Inserted fromStr es c client roster) : roster.Nodup := by
  obtain ⟨before, after, t, t', -, hrun, -, rfl, -⟩ := h
  exact (registry_reachable ⟨before, hrun⟩).nodup_nicknames

/-- **Every conversation**, in the run that it belongs to. -/
theorem talk_of_run (h : run (Broker.step fromStr) .new es = some s) :
    ∀ (c : ℕ) (conn : Conn), s.conns[c]? = some conn → conn.Silent ∨
      ∃ client roster unsent later, Talk s.messages conn client roster unsent later ∧
        Inserted fromStr es c client roster := by
  refine run_history (J := fun es t => ∀ (c : ℕ) (conn : Conn), t.conns[c]? = some conn →
    conn.Silent ∨ ∃ client roster unsent later, Talk t.messages conn client roster unsent later ∧
      Inserted fromStr es c client roster) (fun c conn hc => by simp [Broker.new] at hc) ?_ h
  intro es t e t' hrun ht he c conn hc
  -- a task that does not move
  have hkeep : t.conns[c]? = some conn → t.messages ⊆ t'.messages → conn.Silent ∨
      ∃ client roster unsent later, Talk t'.messages conn client roster unsent later ∧
        Inserted fromStr (es ++ [e]) c client roster := by
    intro hc hsub
    rcases ht c conn hc with hsilent | ⟨client, roster, unsent, later, htalk, hins⟩
    · exact .inl hsilent
    · exact .inr ⟨client, roster, unsent, later, htalk.mono hsub, hins.concat⟩
  cases Broker.step_cases he with
  | accepted =>
    rcases getElem?_concat_new hc with hc | rfl
    · exact hkeep hc (List.Subset.refl _)
    · exact .inl ⟨rfl, rfl, rfl⟩
  | announced =>
    rw [messages_announced] at hkeep ⊢
    exact hkeep hc (List.subset_append_left _ _)
  | @moved d action other o hother hmove =>
    have hsub : t.messages ⊆ (t.after d o).messages := by
      rw [messages_after]
      exact List.subset_append_left _ _
    rcases Broker.getElem?_after hc with ⟨rfl, rfl⟩ | ⟨-, hc⟩
    · rcases ht c other hother with hsilent | ⟨client, roster, unsent, later, htalk, hins⟩
      · rcases hmove.of_silent (t.after c o).messages hsilent with
          ⟨hsilent', -, -⟩ | ⟨client, rfl, hfree, -, hclients, htalk⟩
        · exact .inl hsilent'
        · exact .inr ⟨client, t.state.nicknames, _, [], htalk,
            es, [], t, _, rfl, hrun, he, rfl, hfree, hclients⟩
      · have hreach : Reachable (Broker.step fromStr) .new t := ⟨es, hrun⟩
        obtain ⟨unsent', later', htalk'⟩ := hmove.talk htalk fun client' inbox item hphase => by
          have hitem := inSession_of_delivering hreach hother hphase
          have hphase' := htalk.phase
          rw [hphase] at hphase'
          exact hphase'.1 ▸ hitem
        exact .inr ⟨client, roster, unsent', later', htalk'.mono hsub, hins.concat⟩
    · exact hkeep hc hsub

/-- If the event is a step of connection `c`, it changes neither the clients nor the
broadcasts. -/
def Broker.untouchedBy (fromStr : String → Option ClientToServer) (c : ℕ) (s : Broker)
    (e : Event) : Prop :=
  ∀ action s', e = .conn c action → s.step fromStr e = some s' →
    s'.state.clients = s.state.clients ∧ s'.order = s.order ∧
      s'.state.broadcaster.sent = s.state.broadcaster.sent

theorem Conn.Move.registeredAt_cases (h : conn.Move fromStr st receivers now action o) :
    o.conn.registeredAt = conn.registeredAt ∨ o.conn.registeredAt = some now := by
  cases h <;> first | exact .inl rfl | exact .inr rfl

theorem untouched_of_unregistered (h : run (Broker.step fromStr) .new es = some s) :
    ∀ c : ℕ, (∀ conn, s.conns[c]? = some conn → conn.registeredAt = none) →
      Meets (Broker.step fromStr) (Broker.untouchedBy fromStr c) .new es := by
  refine run_history (J := fun es t => ∀ c : ℕ,
    (∀ conn, t.conns[c]? = some conn → conn.registeredAt = none) →
      Meets (Broker.step fromStr) (Broker.untouchedBy fromStr c) .new es)
    (fun c _ => trivial) ?_ h
  intro es t e t' hrun ht he c hc'
  have hc : ∀ conn, t.conns[c]? = some conn → conn.registeredAt = none := by
    intro conn hconn
    cases Broker.step_cases he with
    | accepted =>
      obtain ⟨hlt, -⟩ := List.getElem?_eq_some_iff.mp hconn
      exact hc' conn ((List.getElem?_append_left hlt).trans hconn)
    | announced => exact hc' conn hconn
    | @moved d action other o hother hmove =>
      by_cases hcd : c = d
      · subst hcd
        obtain rfl : conn = other := Option.some_inj.mp (hconn.symm.trans hother)
        have hnone := hc' o.conn (Broker.getElem?_after_self hother)
        rcases hmove.registeredAt_cases with hreg | hreg
        · exact hreg.symm.trans hnone
        · exact absurd (hreg.symm.trans hnone) (by simp)
      · exact hc' conn ((Broker.getElem?_after_ne hcd).trans hconn)
  refine (ht c hc).concat fun u hu => ?_
  obtain rfl : t = u := Option.some_inj.mp (hrun.symm.trans hu)
  rintro action u rfl hu
  obtain rfl : t' = u := Option.some_inj.mp (he.symm.trans hu)
  cases Broker.step_cases he with
  | @moved _ _ conn o hconn hmove =>
    have hsent : ∀ {said : Option ServerToClient}, said = none →
        t.state.broadcaster.sent ++ (if t.receivers = 0 then [] else said.toList) =
          t.state.broadcaster.sent := by
      rintro said rfl
      split <;> exact List.append_nil _
    rcases talk_of_run hrun c conn hconn with hsilent | ⟨client, roster, unsent, later, htalk, -⟩
    · rcases hmove.of_silent t.messages hsilent with
        ⟨-, hclients, hsaid⟩ | ⟨client, -, -, -, -, htalk⟩
      · refine ⟨hclients, ?_, hmove.sent_eq.trans (hsent hsaid)⟩
        simp [Broker.after, hsaid]
      · exact absurd (hc' o.conn (Broker.getElem?_after_self hconn)) htalk.registered
    · exact absurd (hc conn hconn) htalk.registered

/-! ### The shapes -/

/-- A refused conversation: nothing, or an error with which it ended, and no trace in what
the connections share. -/
structure Refused (fromStr : String → Option ClientToServer) (es : List Event) (c : ℕ)
    (conn : Conn) : Prop where
  messages : conn.messages = [] ∨ ∃ text reason,
    conn.messages = [.error text] ∧ conn.phase = .closed (some (.bail reason))
  untouched : Meets (Broker.step fromStr) (Broker.untouchedBy fromStr c) .new es

/-- What a client is sent after its greeting: replies to further `Hello`s, broadcasts except
for its own `UserJoined`, and errors that tell how many broadcasts it has missed. -/
inductive SessionMessage (nickname : String) (broadcasts : List ServerToClient) :
    ServerToClient → Prop
  | reply : SessionMessage nickname broadcasts (.error "already connected")
  | broadcast {message : ServerToClient} (hmem : message ∈ broadcasts)
      (hown : message ≠ .userJoined nickname) : SessionMessage nickname broadcasts message
  | lag (skipped : ℕ) : SessionMessage nickname broadcasts (lagError skipped)

/-- The conversation of a client that was welcomed, or is about to be. -/
structure Conversation (fromStr : String → Option ClientToServer) (es : List Event)
    (s : Broker) (c : ℕ) (conn : Conn) (client : Member) (roster : List String) : Prop where
  /-- The nickname is that of a `Hello` in the first line with any content. -/
  hello : ∃ line text sent, (lines (received conn.reading.arrived)).find? hasContent = some line ∧
    ofUtf8 line = some text ∧ fromStr (trimEndMatches text) = some (.hello sent) ∧
    client.nickname = trim sent
  named : client.nickname ≠ ""
  /-- The roster is who was online when the nickname was inserted. -/
  inserted : Inserted fromStr es c client roster
  nodup : roster.Nodup
  /-- The greeting comes first; after it one reply for each further `Hello`, broadcasts
  and lag errors.  Only a write that is pending or has failed is missing. -/
  messages : ∃ unsent later,
    conn.messages ++ unsent = welcomeMessages client.nickname roster ++ later ∧
    conn.phase.Unsent client roster unsent ∧
    (∀ message ∈ later, SessionMessage client.nickname s.messages message) ∧
    later.count (.error "already connected") = conn.furtherHellos

theorem Written.InSession.sessionMessage {nickname : String} {w : Written}
    (h : w.InSession nickname messages) : SessionMessage nickname messages w.message := by
  cases h with
  | reply => exact .reply
  | broadcast hmem hown => exact .broadcast hmem hown
  | lag skipped => exact .lag skipped

/-- Only the replies read as replies. -/
theorem count_reply {nickname : String} (hquiet : .error "already connected" ∉ messages)
    (h : ∀ w ∈ later, w.InSession nickname messages) :
    (later.map Written.message).count (.error "already connected") =
      later.count alreadyConnected := by
  induction later with
  | nil => rfl
  | cons w later ih =>
    obtain ⟨hw, hlater⟩ := List.forall_mem_cons.mp h
    rw [List.map_cons, List.count_cons, List.count_cons, ih hlater]
    congr 1
    cases hw with
    | reply => rfl
    | broadcast hmem hown =>
      have hne : Written.message (.relayed (.value _)) ≠ .error "already connected" :=
        fun heq => hquiet (heq ▸ hmem)
      simp [hne, alreadyConnected]
    | lag skipped =>
      have hne : Written.message (.relayed (.lagged skipped)) ≠ .error "already connected" :=
        lagError_ne skipped
      simp [hne, alreadyConnected]

/-- **The shape of a conversation**, whatever the client sends and however the tasks
interleave. -/
theorem conversation_shape (h : run (Broker.step fromStr) .new es = some s)
    (hc : s.conns[c]? = some conn) :
    Refused fromStr es c conn ∨
      ∃ client roster, Conversation fromStr es s c conn client roster := by
  rcases talk_of_run h c conn hc with hsilent | ⟨client, roster, unsent, later, htalk, hins⟩
  · refine .inl ⟨?_, untouched_of_unregistered h c fun other hother => ?_⟩
    · obtain ⟨-, hphase⟩ := hsilent
      have hnone : conn.written = [] → conn.messages = [] := congrArg (List.map Written.message)
      cases hp : conn.phase <;> rw [hp] at hphase
      case handshake => exact .inl (hnone hphase.2)
      case rejecting => exact .inl (hnone hphase)
      case registering => exact .inl (hnone hphase.2.2)
      case closed failure =>
        rcases hphase with hnil | ⟨text, reason, hwritten, rfl⟩
        · exact .inl (hnone hnil)
        · exact .inr ⟨text, reason, congrArg (List.map Written.message) hwritten, rfl⟩
      all_goals exact hphase.elim
    · obtain rfl : conn = other := Option.some_inj.mp (hc.symm.trans hother)
      exact hsilent.1
  · refine .inr ⟨client, roster, ?_⟩
    obtain ⟨hne, sent, hhead, hsent⟩ := htalk.hello
    have hphase : conn.phase ≠ .handshake := by
      intro hp
      have := htalk.phase
      rw [hp] at this
      exact this.elim
    obtain ⟨x, hopened⟩ := (opened_of_reachable ⟨es, h⟩ hc).2 hphase
    obtain rfl : x = .ok (some (.hello sent)) :=
      Option.some_inj.mp (hopened.1.symm.trans hhead)
    obtain ⟨line, text, hline, htext, hmessage⟩ := firstLine_of_opened hopened
    have hmessages := congrArg (List.map Written.message) htalk.written
    rw [List.map_append, List.map_append, List.map_map, messages_greeting] at hmessages
    refine ⟨⟨line, text, sent, hline, htext, hmessage, hsent⟩, hne, hins, hins.nodup,
      unsent, later.map Written.message, ?_, htalk.phase, ?_, ?_⟩
    · exact (congrArg (_ ++ ·) (List.map_id unsent).symm).trans hmessages
    · intro message hmem
      obtain ⟨w, hw, rfl⟩ := List.mem_map.mp hmem
      exact (htalk.inSession w hw).sessionMessage
    · rw [count_reply (reply_not_mem_messages ⟨es, h⟩) htalk.inSession, htalk.replies]

/-- Alice and Bob have joined, Bob was relayed Alice's "hi", and says hello again. -/
def helloAgainScript : List Event :=
  chatScript ++ [.conn 1 .recv, .conn 1 (.write true)] ++ sendLine 1 (helloLine "bob") ++
    [.conn 1 (.write true)]

set_option maxRecDepth 10000 in
theorem conversation_shape_bob :
    ∃ s conn, run (Broker.step scriptFromStr) .new helloAgainScript = some s ∧
      s.conns[1]? = some conn ∧
      conn.messages = [.welcome "bob", .roster ["alice"], .chat "alice" "hi",
        .error "already connected"] ∧
      (Refused scriptFromStr helloAgainScript 1 conn ∨ ∃ client roster,
        Conversation scriptFromStr helloAgainScript s 1 conn client roster) := by
  have hrun : ((run (Broker.step scriptFromStr) .new helloAgainScript).bind fun s =>
      s.conns[1]?.map Conn.messages) = some [.welcome "bob", .roster ["alice"],
        .chat "alice" "hi", .error "already connected"] := by decide
  obtain ⟨s, hs, hconns⟩ := Option.bind_eq_some_iff.mp hrun
  obtain ⟨conn, hc, hmessages⟩ := Option.map_eq_some_iff.mp hconns
  exact ⟨s, conn, hs, hc, hmessages, conversation_shape hs hc⟩

end Chat
