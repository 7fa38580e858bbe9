/-
What the two sides of a chat connection write and show.

A client sends its `Hello` and then a chat for each typed line that asks for one; a task of
the broker writes the message that its phase names.  A client shows what it reads.

* `Client.Saying`, `client_effect` — what a client has sent, and what an event does to it;
* `Conn.Effect`, `Conn.Move.effect` — the same for a task;
* `Client.Tells` — what is shown is what was read.
-/
import AsyncRust.ChatMesh
import AsyncRust.ChatTerminal
import AsyncRust.MessageLines
import AsyncRust.SelectReading

namespace Chat

open LineReader

/-! ### What a client sends -/

/-- The text of the chat that a typed line makes the client send. -/
def typedText (result : StdinResult) : Option String :=
  match handleStdinInput result with
  | .send (.chat text) => some text
  | _ => none

/-- The chats that the lines ask for which standard input was read as. -/
def Client.asked (client : Client) : List String := client.stdin.results.filterMap typedText

/-- What was typed so far, by lines; the last one may be unfinished. -/
def Client.typedLines (client : Client) : List (List UInt8) := lines (bytesOf client.stdin.arrived)

/-- The chat that a line asks for if it is read in one piece. -/
def chatOfLine (line : List UInt8) : Option String := readStdin.found typedText line

/-- The chat is what a suffix of the line asks for: the line, or what a dropped read has left. -/
def AskedBy (text : String) (line : List UInt8) : Prop :=
  ∃ part, part <:+ line ∧ chatOfLine part = some text

/-- No pending `read_line` that has consumed something is dropped. -/
def Client.keepsInput (fromStr : String → Option ServerToClient) (client : Client) :
    ClientEvent → Bool
  | .pollServer =>
    (client.reading.poll (readMessage fromStr)).1.isNone || client.stdin.reader.line.isEmpty
  | .ctrlC => client.stdin.reader.line.isEmpty
  | _ => true

/-- What the client sends if all its writes succeed. -/
def Client.messages (client : Client) : List ClientToServer :=
  .hello client.nickname :: client.asked.map .chat

/-- What has been sent and is being sent are the client's messages. -/
structure Client.Saying (client : Client) : Prop where
  isPrefix : client.sent <+: client.messages
  exact : client.gone = false → client.sent ++ client.writing.toList = client.messages

/-- What an event does to what a client sends. -/
inductive Client.Effect (client : Client) (e : ClientEvent) (client' : Client) : Prop
  | wrote {message : ClientToServer} (he : e = .write true)
      (hwriting : client.writing = some message)
      (hsent : client'.sent = client.sent ++ [message]) (hasked : client'.asked = client.asked)
      (hgone : client.gone = false) (hwriting' : client'.writing = none)
  | failed {message : ClientToServer} (he : e = .write false)
      (hwriting : client.writing = some message) (hsent : client'.sent = client.sent)
      (hasked : client'.asked = client.asked) (hgone : client.gone = false)
      (hgone' : client'.gone = true)
  | asked {text : String} (he : ∀ ok, e ≠ .write ok) (hwriting : client.writing = none)
      (hsent : client'.sent = client.sent) (hasked : client'.asked = client.asked ++ [text])
      (hgone : client.gone = false) (hwriting' : client'.writing = some (.chat text))
  | quiet (he : ∀ ok, e = .write ok → client.writing = none) (hsent : client'.sent = client.sent)
      (hasked : client'.asked = client.asked)
      (hgone : client'.gone = false → client.gone = false ∧ client'.writing = client.writing)

section
variable {fromStr : String → Option ServerToClient} {client client' : Client} {e : ClientEvent}

theorem Client.nickname_step (h : client.step fromStr e = some client') :
    client'.nickname = client.nickname := by
  cases e with
  | serverArrive fill | stdinArrive fill =>
    obtain rfl := Option.some_inj.mp h
    rfl
  | pollServer =>
    simp only [Client.step] at h
    split at h
    · obtain rfl := Option.some_inj.mp h
      rfl
    · split at h <;> obtain rfl := Option.some_inj.mp h <;> rfl
    · cases h
  | pollStdin =>
    simp only [Client.step] at h
    split at h
    · obtain rfl := Option.some_inj.mp h
      rfl
    · split at h <;> obtain rfl := Option.some_inj.mp h <;> rfl
    · cases h
  | ctrlC | shutdown =>
    simp only [Client.step] at h
    split at h <;> cases h
    rfl
  | write ok =>
    cases hphase : client.phase <;> cases ok <;>
      simp only [Client.step, hphase, Option.some_inj, reduceCtorEq] at h <;> subst h <;> rfl

theorem Client.asked_polled (client : Client) :
    (client.stdin.poll readStdin).2.results.filterMap typedText =
      client.asked ++ (client.stdin.poll readStdin).1.toList.filterMap typedText := by
  rw [Reading.poll, List.filterMap_append]
  rfl

/-- A typed line is sent as a chat, if at all. -/
theorem chat_of_typed {result : StdinResult} {message : ClientToServer}
    (h : handleStdinInput result = .send message) : ∃ text, message = .chat text := by
  rcases result with err | input
  · cases h
  · rw [handleStdinInput] at h
    split at h
    · cases h
    · split at h
      · cases h
      · split at h
        · cases h
        · exact ⟨_, (Typed.send.inj h).symm⟩

theorem client_effect (h : client.step fromStr e = some client') : client.Effect e client' := by
  cases e with
  | serverArrive fill | stdinArrive fill =>
    obtain rfl := Option.some_inj.mp h
    exact .quiet (by simp) rfl rfl fun hgone => ⟨hgone, rfl⟩
  | pollServer =>
    simp only [Client.step] at h
    split at h
    · rename_i hphase hresult
      obtain rfl := Option.some_inj.mp h
      exact .quiet (by simp) rfl rfl fun hgone => ⟨hgone, rfl⟩
    · rename_i result hphase hresult
      have hwriting : client.writing = none := by simp [Client.writing, hphase]
      have hgone : client.gone = false := by simp [Client.gone, hphase]
      split at h <;> obtain rfl := Option.some_inj.mp h
      · exact .quiet (by simp) rfl rfl fun _ => ⟨hgone, rfl⟩
      · exact .quiet (by simp) rfl rfl fun _ => ⟨hgone, hwriting.symm ▸ rfl⟩
      · exact .quiet (by simp) rfl rfl fun _ => ⟨hgone, hwriting.symm ▸ rfl⟩
      · exact .quiet (by simp) rfl rfl fun hgone' => absurd hgone' (by simp [Client.gone])
    · cases h
  | pollStdin =>
    simp only [Client.step] at h
    split at h
    · rename_i hphase hresult
      obtain rfl := Option.some_inj.mp h
      refine .quiet (by simp) rfl ?_ fun hgone => ⟨hgone, rfl⟩
      exact client.asked_polled.trans (by simp [hresult])
    · rename_i result hphase hresult
      have hwriting : client.writing = none := by simp [Client.writing, hphase]
      have hgone : client.gone = false := by simp [Client.gone, hphase]
      -- nothing is sent for this line
      have hnothing : typedText result = none →
          (client.stdin.poll readStdin).2.results.filterMap typedText = client.asked := by
        intro hnone
        exact client.asked_polled.trans (by simp [hresult, hnone])
      split at h <;> rename_i hinput <;> obtain rfl := Option.some_inj.mp h
      · exact .quiet (by simp) rfl (hnothing (by simp [typedText, hinput])) fun _ => ⟨hgone, rfl⟩
      · obtain ⟨text, rfl⟩ := chat_of_typed hinput
        have hsome : typedText result = some text := by simp [typedText, hinput]
        refine .asked (by simp) hwriting rfl ?_ hgone rfl
        exact client.asked_polled.trans (by simp [hresult, hsome])
      · exact .quiet (by simp) rfl (hnothing (by simp [typedText, hinput])) fun _ =>
          ⟨hgone, hwriting.symm ▸ rfl⟩
      · exact .quiet (by simp) rfl (hnothing (by simp [typedText, hinput])) fun _ =>
          ⟨hgone, hwriting.symm ▸ rfl⟩
      · exact .quiet (by simp) rfl (hnothing (by simp [typedText, hinput])) fun hgone' =>
          absurd hgone' (by simp [Client.gone])
    · cases h
  | ctrlC =>
    simp only [Client.step] at h
    split at h
    · rename_i hphase
      obtain rfl := Option.some_inj.mp h
      exact .quiet (by simp) rfl rfl fun _ =>
        ⟨by simp [Client.gone, hphase], by simp [Client.writing, hphase]⟩
    · cases h
  | shutdown =>
    simp only [Client.step] at h
    split at h
    · obtain rfl := Option.some_inj.mp h
      exact .quiet (by simp) rfl rfl fun hgone => absurd hgone (by simp [Client.gone])
    · cases h
  | write ok =>
    cases hphase : client.phase <;> cases ok <;>
      simp only [Client.step, hphase, Option.some_inj, reduceCtorEq] at h <;> subst h
    case greeting.false | sending.false =>
      obtain ⟨message, hwriting⟩ : ∃ message, client.writing = some message := by
        simp [Client.writing, hphase]
      exact .failed rfl hwriting rfl rfl (by simp [Client.gone, hphase]) rfl
    case greeting.true =>
      have hwriting : client.writing = some (.hello client.nickname) := by
        simp [Client.writing, hphase]
      exact .wrote rfl hwriting rfl rfl (by simp [Client.gone, hphase]) rfl
    case sending.true message =>
      have hwriting : client.writing = some message := by simp [Client.writing, hphase]
      exact .wrote rfl hwriting rfl rfl (by simp [Client.gone, hphase]) rfl
    case showing.false | parting.false =>
      exact .quiet (fun _ _ => by simp [Client.writing, hphase]) rfl rfl
        fun hgone => absurd hgone (by simp [Client.gone])
    case showing.true | parting.true =>
      exact .quiet (fun _ _ => by simp [Client.writing, hphase]) rfl rfl
        fun _ => ⟨by simp [Client.gone, hphase], by simp [Client.writing, hphase]⟩

end

section
variable {client client' : Client} {e : ClientEvent}

theorem Client.Saying.step (h : client.Saying)
    (heffect : client.Effect e client') (hnickname : client'.nickname = client.nickname) :
    client'.Saying := by
  have hmessages : client'.asked = client.asked → client'.messages = client.messages := by
    intro hasked
    rw [Client.messages, Client.messages, hasked, hnickname]
  cases heffect with
  | @wrote message he hwriting hsent hasked hgone hwriting' =>
    have hexact := h.exact hgone
    rw [hwriting, Option.toList_some] at hexact
    refine ⟨?_, fun _ => ?_⟩
    · rw [hsent, hmessages hasked, hexact]
    · rw [hsent, hmessages hasked, hexact, hwriting']
      exact List.append_nil _
  | failed he hwriting hsent hasked hgone hgone' =>
    refine ⟨?_, fun hgone => ?_⟩
    · rw [hsent, hmessages hasked]
      exact h.isPrefix
    · rw [hgone'] at hgone
      cases hgone
  | @asked text he hwriting hsent hasked hgone hwriting' =>
    have hmore : client'.messages = client.messages ++ [.chat text] := by
      rw [Client.messages, hasked, hnickname, List.map_append]
      rfl
    have hexact := h.exact hgone
    rw [hwriting, Option.toList_none, List.append_nil] at hexact
    refine ⟨?_, fun _ => ?_⟩
    · rw [hsent, hmore]
      exact h.isPrefix.trans (List.prefix_append _ _)
    · rw [hsent, hmore, hexact, hwriting']
      rfl
  | quiet he hsent hasked hgone =>
    refine ⟨?_, fun hgone' => ?_⟩
    · rw [hsent, hmessages hasked]
      exact h.isPrefix
    · obtain ⟨hgone', hwriting⟩ := hgone hgone'
      rw [hsent, hmessages hasked, hwriting]
      exact h.exact hgone'

theorem isPrefix_messages (hnickname : client'.nickname = client.nickname)
    (hasked : client.asked <+: client'.asked) :
    client.messages <+: client'.messages := by
  obtain ⟨more, hmore⟩ := hasked
  refine ⟨more.map .chat, ?_⟩
  rw [Client.messages, Client.messages, ← hmore, hnickname, List.map_append, List.cons_append]

end

/-! ### What a task writes -/

/-- Nothing was written that went wrong: the task may still write. -/
def Phase.intact : Phase → Bool
  | .cleanup _ => false
  | .leaving _ => false
  | .closed _ => false
  | .aborted .. => false
  | _ => true

/-- What a step of a task does with what it writes. -/
inductive Conn.Effect (conn : Conn) (action : Action) (conn' : Conn) : Prop
  | wrote {message : ServerToClient} (ha : action = .write true)
      (hwriting : conn.phase.writing = some message) (hintact : conn.phase.intact = true)
      (hwritten : conn'.written.map Written.message =
        conn.written.map Written.message ++ [message])
  | failed {message : ServerToClient} (ha : action = .write false)
      (hwriting : conn.phase.writing = some message) (hintact : conn.phase.intact = true)
      (hwritten : conn'.written = conn.written) (hintact' : conn'.phase.intact = false)
  | quiet (ha : ∀ ok, action ≠ .write ok) (hwritten : conn'.written = conn.written)
      (hintact : conn'.phase.intact = true → conn.phase.intact = true)

section
variable {fromStr : String → Option ClientToServer} {st : BrokerState} {receivers now : ℕ}
  {conn : Conn} {action : Action} {o : Outcome}

theorem Conn.Move.effect (h : conn.Move fromStr st receivers now action o) :
    conn.Effect action o.conn := by
  cases h with
  | rejected hphase | welcomed hphase | rostered hphase | replied hphase | delivered hphase =>
    refine .wrote rfl (by rw [hphase]; rfl) (by rw [hphase]; rfl) ?_
    simp [Written.message]
  | rejectFailed hphase | replyFailed hphase | deliveryFailed hphase =>
    exact .failed rfl (by rw [hphase]; rfl) (by rw [hphase]; rfl) rfl rfl
  | welcomeFailed hphase =>
    rcases hphase with hphase | hphase
    · exact .failed rfl (by rw [hphase]; rfl) (by rw [hphase]; rfl) rfl rfl
    · exact .failed rfl (by rw [hphase]; rfl) (by rw [hphase]; rfl) rfl rfl
  | arrived fill => exact .quiet (by simp) rfl id
  | waited hphase hread => exact .quiet (by simp) rfl id
  | chatted hphase hread htext => exact .quiet (by simp) rfl id
  | ignored hphase hread htext => exact .quiet (by simp) rfl id
  | handshakeFailed hphase hread hresult => exact .quiet (by simp) rfl fun _ => by rw [hphase]; rfl
  | handshakeInvalid hphase hread hresult => exact .quiet (by simp) rfl fun _ => by rw [hphase]; rfl
  | issued hphase hread hresult => exact .quiet (by simp) rfl fun _ => by rw [hphase]; rfl
  | taken hphase htaken => exact .quiet (by simp) rfl fun _ => by rw [hphase]; rfl
  | registered hphase hfree => exact .quiet (by simp) rfl fun _ => by rw [hphase]; rfl
  | joined hphase => exact .quiet (by simp) rfl fun _ => by rw [hphase]; rfl
  | subscribed hphase => exact .quiet (by simp) rfl fun _ => by rw [hphase]; rfl
  | greeted hphase hread => exact .quiet (by simp) rfl fun _ => by rw [hphase]; rfl
  | finished hphase hread => exact .quiet (by simp) rfl fun _ => by rw [hphase]; rfl
  | readFailed hphase hread => exact .quiet (by simp) rfl fun _ => by rw [hphase]; rfl
  | received hphase hrecv => exact .quiet (by simp) rfl fun _ => by rw [hphase]; rfl
  | removed hphase hrecord => exact .quiet (by simp) rfl (by simp [Phase.intact])
  | absent hphase hrecord => exact .quiet (by simp) rfl (by simp [Phase.intact])
  | left hphase => exact .quiet (by simp) rfl (by simp [Phase.intact])

/-- What a step of a task does with its reader. -/
theorem Conn.Move.reading_cases (h : conn.Move fromStr st receivers now action o)
    (harrival : action.isArrival = false) :
    o.conn.reading = conn.reading ∨ o.conn.reading = (conn.polled fromStr).2 ∨
      action = .recv ∧ o.conn.reading = conn.reading.cancel := by
  cases h with
  | arrived fill => cases harrival
  | received hphase hrecv => exact .inr (.inr ⟨rfl, rfl⟩)
  | waited | handshakeFailed | handshakeInvalid | issued | chatted | ignored | greeted | finished
  | readFailed => exact .inr (.inl rfl)
  | rejected | rejectFailed | taken | registered | welcomed | rostered | welcomeFailed | joined
  | subscribed | replied | replyFailed | delivered | deliveryFailed | removed | absent | left =>
    exact .inl rfl

end

/-! ### What a client shows -/

/-- What the client has read, as it is shown. -/
def Client.told (client : Client) : List Output :=
  (client.reading.results.filterMap messageOf).filterMap renderServerMessage

/-- All that was read is shown, or is being shown, until the loop is left; a parting line
may follow. -/
def Client.Tells (client : Client) : Prop :=
  match client.phase with
  | .greeting => client.shown = client.told
  | .selecting => client.shown = client.told
  | .sending _ => client.shown = client.told
  | .showing output => client.shown ++ [output] = client.told
  | .parting output => client.shown = client.told ∧ output ∈ partings
  | .closing => ∃ told bye, client.shown = told ++ bye ∧ told <+: client.told ∧ bye ⊆ partings
  | .returned _ => ∃ told bye, client.shown = told ++ bye ∧ told <+: client.told ∧ bye ⊆ partings

section
variable {fromStr : String → Option ServerToClient} {client client' : Client} {e : ClientEvent}

/-- What a step of a client does with the reader of its standard input. -/
theorem Client.stdin_cases (h : client.step fromStr e = some client')
    (harrival : e.isArrival = false) :
    client'.stdin = client.stdin ∨ client'.stdin = (client.stdin.poll readStdin).2 ∨
      client'.stdin = client.stdin.cancel ∧
        (client.keepsInput fromStr e = true → client.stdin.reader.line = []) := by
  cases e with
  | serverArrive fill | stdinArrive fill => cases harrival
  | pollServer =>
    simp only [Client.step] at h
    split at h
    · obtain rfl := Option.some_inj.mp h
      exact .inl rfl
    · rename_i result hphase hresult
      have hline : client.keepsInput fromStr .pollServer = true →
          client.stdin.reader.line = [] := by
        simp [Client.keepsInput, hresult]
      split at h <;> obtain rfl := Option.some_inj.mp h <;> exact .inr (.inr ⟨rfl, hline⟩)
    · cases h
  | pollStdin =>
    simp only [Client.step] at h
    split at h
    · obtain rfl := Option.some_inj.mp h
      exact .inr (.inl rfl)
    · split at h <;> obtain rfl := Option.some_inj.mp h <;> exact .inr (.inl rfl)
    · cases h
  | ctrlC =>
    simp only [Client.step] at h
    split at h
    · obtain rfl := Option.some_inj.mp h
      exact .inr (.inr ⟨rfl, by simp [Client.keepsInput]⟩)
    · cases h
  | write ok =>
    cases hphase : client.phase <;> cases ok <;>
      simp only [Client.step, hphase, Option.some_inj, reduceCtorEq] at h <;> subst h <;>
      exact .inl rfl
  | shutdown =>
    simp only [Client.step] at h
    split at h
    · obtain rfl := Option.some_inj.mp h
      exact .inl rfl
    · cases h

/-- What a step of a client does with its reader. -/
theorem Client.reading_cases (h : client.step fromStr e = some client')
    (harrival : e.isArrival = false) :
    client'.reading = client.reading ∨
      client'.reading = (client.reading.poll (readMessage fromStr)).2 ∨
      client'.reading = client.reading.cancel ∧
        (client.dropsNothing e = true → client.reading.reader.line = []) := by
  cases e with
  | serverArrive fill | stdinArrive fill => cases harrival
  | pollServer =>
    simp only [Client.step] at h
    split at h
    · obtain rfl := Option.some_inj.mp h
      exact .inr (.inl rfl)
    · split at h <;> obtain rfl := Option.some_inj.mp h <;> exact .inr (.inl rfl)
    · cases h
  | pollStdin =>
    simp only [Client.step] at h
    split at h
    · obtain rfl := Option.some_inj.mp h
      exact .inl rfl
    · rename_i result hphase hresult
      have hline : client.dropsNothing .pollStdin = true → client.reading.reader.line = [] := by
        simp [Client.dropsNothing, hresult]
      split at h <;> obtain rfl := Option.some_inj.mp h <;> exact .inr (.inr ⟨rfl, hline⟩)
    · cases h
  | ctrlC =>
    simp only [Client.step] at h
    split at h
    · obtain rfl := Option.some_inj.mp h
      exact .inr (.inr ⟨rfl, by simp [Client.dropsNothing]⟩)
    · cases h
  | write ok =>
    cases hphase : client.phase <;> cases ok <;>
      simp only [Client.step, hphase, Option.some_inj, reduceCtorEq] at h <;> subst h <;>
      exact .inl rfl
  | shutdown =>
    simp only [Client.step] at h
    split at h
    · obtain rfl := Option.some_inj.mp h
      exact .inl rfl
    · cases h

theorem Client.told_polled (fromStr : String → Option ServerToClient) (client : Client) :
    ((client.reading.poll (readMessage fromStr)).2.results.filterMap messageOf).filterMap
        renderServerMessage = client.told ++
      ((client.reading.poll (readMessage fromStr)).1.toList.filterMap messageOf).filterMap
        renderServerMessage := by
  rw [Reading.poll, List.filterMap_append, List.filterMap_append]
  rfl

/-- What is shown of a result is what its message is shown as. -/
theorem rendered_of_served {result : ReadResult ServerToClient} {output : Option Output}
    (h : handleServerMessage result = .render output) :
    ([result].filterMap messageOf).filterMap renderServerMessage = output.toList := by
  rcases result with err | _ | m
  · cases h
  · cases h
  · obtain rfl := Served.render.inj h
    change [m].filterMap renderServerMessage = _
    cases hrender : renderServerMessage m <;> simp [hrender]

theorem rendered_of_left {result : ReadResult ServerToClient}
    (h : ∀ output, handleServerMessage result ≠ .render output) :
    ([result].filterMap messageOf).filterMap renderServerMessage = [] := by
  rcases result with err | _ | m
  · rfl
  · rfl
  · exact absurd rfl (h _)

/-- Once the loop is left, nothing more is read. -/
theorem tells_left {told : List Output} (h : client.shown = told) (htold : told = client.told) :
    ∃ told bye, client.shown = told ++ bye ∧ told <+: client.told ∧ bye ⊆ partings :=
  ⟨client.shown, [], (List.append_nil _).symm, h.trans htold ▸ List.prefix_rfl,
    List.nil_subset _⟩

theorem Client.Tells.step (h : client.Tells) (he : client.step fromStr e = some client')
    (harrival : e.isArrival = false) : client'.Tells := by
  cases e with
  | serverArrive fill | stdinArrive fill => cases harrival
  | pollServer =>
    simp only [Client.step] at he
    have hpolled := client.told_polled fromStr
    split at he
    · rename_i hphase hresult
      obtain rfl := Option.some_inj.mp he
      rw [hresult] at hpolled
      rw [Client.Tells, hphase] at h
      show Client.Tells _
      simp only [Client.Tells, hphase]
      exact h.trans (hpolled.trans (List.append_nil _)).symm
    · rename_i result hphase hresult
      rw [hresult, Option.toList_some] at hpolled
      rw [Client.Tells, hphase] at h
      split at he <;> rename_i hserved <;> obtain rfl := Option.some_inj.mp he
      · rw [rendered_of_served hserved, ← h] at hpolled
        simp only [Client.Tells, hphase]
        exact (hpolled.trans (List.append_nil _)).symm
      · rw [rendered_of_served hserved, ← h] at hpolled
        exact hpolled.symm
      · rw [rendered_of_left (by simp [hserved]), ← h] at hpolled
        exact ⟨(hpolled.trans (List.append_nil _)).symm, mem_partings_of_finish hserved⟩
      · rw [rendered_of_left (by simp [hserved]), ← h] at hpolled
        exact tells_left rfl (hpolled.trans (List.append_nil _)).symm
    · cases he
  | pollStdin =>
    simp only [Client.step] at he
    split at he
    · obtain rfl := Option.some_inj.mp he
      exact h
    · rename_i result hphase hresult
      rw [Client.Tells, hphase] at h
      split at he <;> rename_i htyped <;> obtain rfl := Option.some_inj.mp he
      · simp only [Client.Tells, hphase]
        exact h
      · exact h
      · exact tells_left rfl h
      · exact ⟨h, mem_partings_of_typed htyped⟩
      · exact tells_left rfl h
    · cases he
  | ctrlC =>
    simp only [Client.step] at he
    split at he
    · rename_i hphase
      obtain rfl := Option.some_inj.mp he
      rw [Client.Tells, hphase] at h
      exact tells_left rfl h
    · cases he
  | write ok =>
    rw [Client.Tells] at h
    cases hphase : client.phase <;> cases ok <;>
      simp only [Client.step, hphase, Option.some_inj, reduceCtorEq] at he <;> subst he <;>
      rw [hphase] at h
    case greeting.true | sending.true | showing.true => exact h
    case greeting.false | sending.false => exact tells_left rfl h
    case showing.false output => exact ⟨_, [], (List.append_nil _).symm, ⟨_, h⟩, List.nil_subset _⟩
    case parting.false => exact tells_left rfl h.1
    case parting.true output =>
      exact ⟨client.shown, [output], rfl, h.1 ▸ List.prefix_rfl, by simpa using h.2⟩
  | shutdown =>
    simp only [Client.step] at he
    split at he
    · rename_i hphase
      obtain rfl := Option.some_inj.mp he
      rw [Client.Tells, hphase] at h
      exact h
    · cases he

end

end Chat
