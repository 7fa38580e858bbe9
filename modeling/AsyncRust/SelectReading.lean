/-
Reading in the `select!` loops.

`run_client_session` and `run_client_loop` make a new `read_message` in every round
and drop it when another branch completes first; the bytes of an unfinished line that
it has consumed are gone then.  `ReadsAll` says that nothing was lost: the results
are those of a reader that is never interrupted.

* `reading_loses_nothing` — both loops keep `ReadsAll` in every run in which no
  dropped read has consumed a part of a line;
* `split_line_is_lost` — a line that arrives in two parts, with a broadcast or a
  typed line in between, becomes an error.
-/
import AsyncRust.BrokerAttribution
import AsyncRust.ChatClient

namespace Chat

open LineReader Broadcast Runs

/-- The results are the first ones of an uninterrupted reader, and all of them once
the reader has to wait or a result has ended the loop. -/
def ReadsAll {T : Type} (fromStr : String → Option T) (t : Reading (ReadResult T)) : Prop :=
  t.results <+: decoded (readMessage fromStr) endsLoop (.fresh t.arrived) ∧
    ((t.reader.poll (readMessage fromStr)).1 = none ∨ t.live endsLoop = false →
      t.results = decoded (readMessage fromStr) endsLoop (.fresh t.arrived))

/-- Nothing is lost, and the loop goes on only as long as no result has ended it. -/
def Sound {T : Type} (fromStr : String → Option T) (reads : Bool)
    (t : Reading (ReadResult T)) : Prop :=
  t.Faithful (readMessage fromStr) endsLoop ∧ (reads = true → t.live endsLoop = true)

section
variable {T : Type} {fromStr : String → Option T} {reads reads' : Bool}
  {t : Reading (ReadResult T)}

theorem Sound.readsAll (h : Sound fromStr reads t) : ReadsAll fromStr t :=
  ⟨h.1.results_isPrefix, fun hdone => h.1.results_eq rfl hdone⟩

theorem sound_start : Sound fromStr reads (.start : Reading (ReadResult T)) :=
  ⟨faithful_start, fun _ => rfl⟩

theorem Sound.of_reads (h : Sound fromStr reads t) (hreads : reads' = true → reads = true) :
    Sound fromStr reads' t :=
  ⟨h.1, fun hr => h.2 (hreads hr)⟩

theorem Sound.feed (h : Sound fromStr reads t) (fill : Fill) :
    Sound fromStr reads (t.feed fill) :=
  ⟨faithful_feed h.1 fill, h.2⟩

theorem Sound.cancel (h : Sound fromStr reads t) (hline : t.reader.line = []) :
    Sound fromStr reads t.cancel :=
  ⟨faithful_cancel h.1 hline, h.2⟩

theorem Sound.poll_none (h : Sound fromStr true t)
    (hnone : (t.poll (readMessage fromStr)).1 = none) :
    Sound fromStr true (t.poll (readMessage fromStr)).2 := by
  refine ⟨faithful_poll rfl h.1 (h.2 rfl), fun _ => ?_⟩
  have hlive := h.2 rfl
  simp only [Reading.poll, Reading.live] at hnone hlive ⊢
  rwa [hnone, Option.toList_none, List.append_nil]

/-- After a result that ends the loop nothing is read any more. -/
theorem Sound.poll_some {result : ReadResult T} (h : Sound fromStr true t)
    (hsome : (t.poll (readMessage fromStr)).1 = some result)
    (hends : reads' = true → endsLoop result = false) :
    Sound fromStr reads' (t.poll (readMessage fromStr)).2 := by
  refine ⟨faithful_poll rfl h.1 (h.2 rfl), fun hr => ?_⟩
  have hlive := h.2 rfl
  simp only [Reading.poll, Reading.live] at hsome hlive ⊢
  rw [hsome, Option.toList_some, List.all_append, hlive]
  simp [hends hr]

end

/-! ### The broker's sessions -/

/-- The task may still read. -/
def Phase.reads : Phase → Bool
  | .handshake => true
  | .registering _ => true
  | .welcoming .. => true
  | .rostering .. => true
  | .announcing _ => true
  | .subscribing _ => true
  | .session .. => true
  | .replying .. => true
  | .delivering .. => true
  | _ => false

/-- No pending read that has consumed something is dropped. -/
def Broker.dropsNothing (s : Broker) : Event → Bool
  | .conn c .recv => s.conns[c]?.all fun conn => conn.reading.reader.line.isEmpty
  | _ => true

section
variable {fromStr : String → Option ClientToServer} {st : BrokerState} {receivers now : ℕ}
  {s s' : Broker} {conn : Conn} {action : Action} {o : Outcome}

theorem endsLoop_of_done {result : ReadResult ClientToServer} {nickname : String}
    (h : performHandshake result = .done nickname) : endsLoop result = false := by
  rcases result with err | _ | hello
  · simp [performHandshake] at h
  · simp [performHandshake] at h
  · rfl

theorem Conn.Move.sound (h : conn.Move fromStr st receivers now action o)
    (hsound : Sound fromStr conn.phase.reads conn.reading)
    (hdrop : action = .recv → conn.reading.reader.line = []) :
    Sound fromStr o.conn.phase.reads o.conn.reading := by
  -- the phases in which the task polls
  have hhandshake : conn.phase = .handshake → Sound fromStr true conn.reading := by
    intro hphase
    rw [hphase] at hsound
    exact hsound
  have hsession : ∀ {client inbox}, conn.phase = .session client inbox →
      Sound fromStr true conn.reading := by
    intro client inbox hphase
    rw [hphase] at hsound
    exact hsound
  cases h with
  | arrived fill => exact hsound.feed fill
  | waited hphase hread =>
    rcases hphase with hphase | ⟨client, inbox, hphase⟩
    · exact ((hhandshake hphase).poll_none hread).of_reads fun _ => rfl
    · exact ((hsession hphase).poll_none hread).of_reads fun _ => rfl
  | handshakeFailed hphase hread hresult =>
    exact (hhandshake hphase).poll_some hread (by simp [Phase.reads])
  | handshakeInvalid hphase hread hresult =>
    exact (hhandshake hphase).poll_some hread (by simp [Phase.reads])
  | issued hphase hread hresult =>
    exact (hhandshake hphase).poll_some hread fun _ => endsLoop_of_done hresult
  | chatted hphase hread htext => exact (hsession hphase).poll_some hread fun _ => rfl
  | ignored hphase hread htext => exact (hsession hphase).poll_some hread fun _ => rfl
  | greeted hphase hread => exact (hsession hphase).poll_some hread fun _ => rfl
  | finished hphase hread => exact (hsession hphase).poll_some hread (by simp [Phase.reads])
  | readFailed hphase hread => exact (hsession hphase).poll_some hread (by simp [Phase.reads])
  | received hphase hrecv =>
    -- the inbox wins the `select!`, and the pending read is dropped
    exact ((hsession hphase).cancel (hdrop rfl)).of_reads fun _ => rfl
  | welcomed hphase => exact hsound.of_reads (by simp [hphase, Phase.reads])
  | welcomeFailed hphase => exact hsound.of_reads (by simp [Phase.reads])
  | rejected hphase | rejectFailed hphase | taken hphase | registered hphase | rostered hphase
  | joined hphase | subscribed hphase | replied hphase | replyFailed hphase | delivered hphase
  | deliveryFailed hphase | removed hphase | absent hphase | left hphase =>
    exact hsound.of_reads (by simp [hphase, Phase.reads])

theorem broker_sound_step {e : Event}
    (h : ∀ (c : ℕ) (conn : Conn), s.conns[c]? = some conn →
      Sound fromStr conn.phase.reads conn.reading)
    (hok : s.dropsNothing e = true) (he : s.step fromStr e = some s') :
    ∀ (c : ℕ) (conn : Conn), s'.conns[c]? = some conn →
      Sound fromStr conn.phase.reads conn.reading := by
  intro d other hd
  cases Broker.step_cases he with
  | accepted =>
    rcases getElem?_concat_new hd with hd | rfl
    · exact h d other hd
    · exact sound_start
  | announced => exact h d other hd
  | @moved c action conn o hconn hmove =>
    rcases Broker.getElem?_after hd with ⟨rfl, rfl⟩ | ⟨-, hd⟩
    · refine hmove.sound (h d conn hconn) ?_
      rintro rfl
      simpa [Broker.dropsNothing, hconn] using hok
    · exact h d other hd

end

/-! ### The client's loop -/

/-- No pending `read_message` that has consumed something is dropped. -/
def Client.dropsNothing (client : Client) : ClientEvent → Bool
  | .pollStdin => (client.stdin.poll readStdin).1.isNone || client.reading.reader.line.isEmpty
  | .ctrlC => client.reading.reader.line.isEmpty
  | _ => true

section
variable {fromStr : String → Option ServerToClient} {client client' : Client}

theorem endsLoop_of_render {result : ReadResult ServerToClient} {output : Option Output}
    (h : handleServerMessage result = .render output) : endsLoop result = false := by
  rcases result with err | _ | message
  · simp [handleServerMessage] at h
  · simp [handleServerMessage] at h
  · rfl

theorem client_sound_step {e : ClientEvent}
    (h : Sound fromStr client.phase.reads client.reading) (hok : client.dropsNothing e = true)
    (he : client.step fromStr e = some client') :
    Sound fromStr client'.phase.reads client'.reading := by
  have hselecting : client.phase = .selecting → Sound fromStr true client.reading := by
    intro hphase
    rw [hphase] at h
    exact h
  cases e with
  | serverArrive fill =>
    obtain rfl := Option.some_inj.mp he
    exact h.feed fill
  | stdinArrive fill =>
    obtain rfl := Option.some_inj.mp he
    exact h
  | pollServer =>
    simp only [Client.step] at he
    split at he
    · rename_i hphase hread
      obtain rfl := Option.some_inj.mp he
      exact ((hselecting hphase).poll_none hread).of_reads fun _ => rfl
    · rename_i result hphase hread
      split at he <;> rename_i hserved <;> obtain rfl := Option.some_inj.mp he
      · exact (hselecting hphase).poll_some hread fun _ => endsLoop_of_render hserved
      · exact (hselecting hphase).poll_some hread fun _ => endsLoop_of_render hserved
      · exact (hselecting hphase).poll_some hread (by simp [ClientPhase.reads])
      · exact (hselecting hphase).poll_some hread (by simp [ClientPhase.reads])
    · exact absurd he (by simp)
  | pollStdin =>
    simp only [Client.step] at he
    split at he
    · obtain rfl := Option.some_inj.mp he
      exact h
    · rename_i result hphase hread
      -- stdin wins the `select!`
      have hline : client.reading.reader.line = [] := by
        simpa [Client.dropsNothing, hread] using hok
      have hcancel := (hselecting hphase).cancel hline
      split at he <;> obtain rfl := Option.some_inj.mp he <;> exact hcancel.of_reads fun _ => rfl
    · exact absurd he (by simp)
  | ctrlC =>
    simp only [Client.step] at he
    split at he
    · rename_i hphase
      obtain rfl := Option.some_inj.mp he
      have hline : client.reading.reader.line = [] := by
        simpa [Client.dropsNothing] using hok
      exact ((hselecting hphase).cancel hline).of_reads fun _ => rfl
    · exact absurd he (by simp)
  | write ok =>
    -- a write does not touch the reader
    have hwrite : client'.reading = client.reading ∧
        (client'.phase.reads = true → client.phase.reads = true) := by
      cases hphase : client.phase <;> cases ok <;>
        simp only [Client.step, hphase, Option.some_inj, reduceCtorEq] at he <;> subst he <;>
        exact ⟨rfl, by simp [ClientPhase.reads]⟩
    rw [hwrite.1]
    exact h.of_reads hwrite.2
  | shutdown =>
    simp only [Client.step] at he
    split at he
    · obtain rfl := Option.some_inj.mp he
      exact h.of_reads (by simp [ClientPhase.reads])
    · exact absurd he (by simp)

end

/-! ### Runs -/

/-- **Reading loses nothing**, in the sessions of the broker and in the loop of a
client, as long as every read that is dropped has consumed nothing. -/
theorem reading_loses_nothing (fromClient : String → Option ClientToServer)
    (fromServer : String → Option ServerToClient) :
    (∀ es, Meets (Broker.step fromClient) (fun s e => s.dropsNothing e = true) .new es →
      Along (Broker.step fromClient) (fun s => ∀ (c : ℕ) (conn : Conn),
        s.conns[c]? = some conn → ReadsAll fromClient conn.reading) .new es) ∧
    ∀ nickname es,
      Meets (Client.step fromServer) (fun client e => client.dropsNothing e = true)
        (.new nickname) es →
      Along (Client.step fromServer) (fun client => ReadsAll fromServer client.reading)
        (.new nickname) es := by
  constructor
  · intro es h
    refine along_of_meets (I := fun s => ∀ (c : ℕ) (conn : Conn), s.conns[c]? = some conn →
      Sound fromClient conn.phase.reads conn.reading) ?_ ?_ ?_ h
    · exact fun s hs c conn hc => (hs c conn hc).readsAll
    · exact fun s e s' hs hok he => broker_sound_step hs hok he
    · exact fun c conn hc => by simp [Broker.new] at hc
  · intro nickname es h
    refine along_of_meets (I := fun client : Client =>
      Sound fromServer client.phase.reads client.reading) ?_ ?_ sound_start h
    · exact fun client hs => hs.readsAll
    · exact fun client e client' hs hok he => client_sound_step hs hok he

/-- Alice's first message is relayed to her, and then a second one arrives. -/
def wholeLinesScript : List Event :=
  joinScript 0 "alice" 1 ++ sendLine 0 (chatLine "hi") ++ [.conn 0 .recv, .conn 0 (.write true)] ++
    sendLine 0 (chatLine "hi")

/-- The same, but a part of the second message is there when the first one is relayed. -/
def splitLineScript : List Event :=
  joinScript 0 "alice" 1 ++ sendLine 0 (chatLine "hi") ++
    [.conn 0 (.arrive (Fill.ofString "\x7b\"type\":\"chat\",")), .conn 0 .poll,
      .conn 0 .recv, .conn 0 (.write true),
      .conn 0 (.arrive (Fill.ofString "\"text\":\"hi\"\x7d\n")), .conn 0 .poll]

/-- `serde_json::from_str` at the messages of the server; every other line of the
scripts is malformed. -/
def scriptFromServer (line : String) : Option ServerToClient :=
  if line = "\x7b\"type\":\"welcome\",\"nickname\":\"alice\"\x7d" then some (.welcome "alice")
  else none

/-- Alice types a line while her welcome has arrived in part. -/
def splitWelcomeScript : List ClientEvent :=
  [.write true, .serverArrive (Fill.ofString "\x7b\"type\":\"welcome\","), .pollServer,
    .stdinArrive (Fill.ofString "hi\n"), .pollStdin, .write true,
    .serverArrive (Fill.ofString "\"nickname\":\"alice\"\x7d\n"), .pollServer]

set_option maxRecDepth 10000 in
theorem reading_loses_nothing_whole_lines :
    Along (Broker.step scriptFromStr) (fun s => ∀ (c : ℕ) (conn : Conn),
      s.conns[c]? = some conn → ReadsAll scriptFromStr conn.reading) .new wholeLinesScript ∧
    Along (Client.step scriptFromServer)
      (fun client => ReadsAll scriptFromServer client.reading) (.new "alice")
      (splitWelcomeScript.take 4) :=
  ⟨(reading_loses_nothing scriptFromStr scriptFromServer).1 _ (by decide),
    (reading_loses_nothing scriptFromStr scriptFromServer).2 _ _ (by decide)⟩

/-- A result that an uninterrupted reader does not give. -/
theorem not_readsAll {T : Type} [DecidableEq T] {fromStr : String → Option T}
    {t : Reading (ReadResult T)} {result : ReadResult T} (hlast : t.results.getLast? = some result)
    (hmissing :
      (decoded (readMessage fromStr) endsLoop (.fresh t.arrived)).contains result = false) :
    ¬ ReadsAll fromStr t := by
  intro hall
  have hmem := hall.1.subset (List.mem_of_getLast? hlast)
  rw [← List.contains_iff_mem, hmissing] at hmem
  exact absurd hmem (by simp)

set_option maxRecDepth 10000 in
/-- Both loops lose the first part of the line. -/
theorem split_line_is_lost :
    ¬ Along (Broker.step scriptFromStr) (fun s => ∀ (c : ℕ) (conn : Conn),
      s.conns[c]? = some conn → ReadsAll scriptFromStr conn.reading) .new splitLineScript ∧
    ¬ Along (Client.step scriptFromServer)
      (fun client => ReadsAll scriptFromServer client.reading) (.new "alice")
      splitWelcomeScript := by
  constructor
  · intro hall
    have hrun : ((run (Broker.step scriptFromStr) .new splitLineScript).map fun s =>
        s.conns.map fun conn => (conn.reading.results.getLast?,
          (decoded (readMessage scriptFromStr) endsLoop
            (.fresh conn.reading.arrived)).contains (.error .invalidData))) =
          some [(some (.error .invalidData), false)] := by decide
    obtain ⟨s, hs, hconns⟩ := Option.map_eq_some_iff.mp hrun
    obtain ⟨conn, hconn, hfacts⟩ := List.map_eq_singleton_iff.mp hconns
    obtain ⟨hlast, hmissing⟩ := Prod.mk.inj hfacts
    exact not_readsAll hlast hmissing (hall.final hs 0 conn (by rw [hconn]; rfl))
  · intro hall
    have hrun : ((run (Client.step scriptFromServer) (.new "alice") splitWelcomeScript).map
        fun client => (client.reading.results.getLast?,
          (decoded (readMessage scriptFromServer) endsLoop
            (.fresh client.reading.arrived)).contains (.error .invalidData))) =
          some (some (.error .invalidData), false) := by decide
    obtain ⟨client, hs, hfacts⟩ := Option.map_eq_some_iff.mp hrun
    obtain ⟨hlast, hmissing⟩ := Prod.mk.inj hfacts
    exact not_readsAll hlast hmissing (hall.final hs)

end Chat
