/-
Records are removed when `handle_connection` returns, unless it returns by a `?`.

`CleanedUp` says what the broker owes when a connection ends: its record is gone,
so its nickname is free again, and its `UserJoined` was followed by its `UserLeft`.
The cleanup is one call at the end of `handle_connection`, and the `?` of a failed
welcome, of a failed reply and of a failed read in the session jump over it
(`Conn.skipsCleanup`):

* `cleanedUp_along_iff` — a run keeps `CleanedUp` iff no step of it takes such a `?`;
* `malformed_line_leaves_record` — one malformed line is enough to break it.
-/
import AsyncRust.BrokerAttribution

namespace Chat

open LineReader Broadcast Runs

variable {fromStr : String → Option ClientToServer} {st : BrokerState} {receivers now : ℕ}
  {s s' : Broker} {conn : Conn} {action : Action} {o : Outcome}

/-- `handle_connection` has returned by a `?` past its cleanup. -/
def Phase.isAborted : Phase → Bool
  | .aborted .. => true
  | _ => false

/-- A write to the new client or the reply to its second `Hello` fails, or the
session's `read_message` gives an error. -/
def Conn.skipsCleanup (fromStr : String → Option ClientToServer) (conn : Conn) : Action → Bool
  | .write false =>
    match conn.phase with
    | .welcoming .. => true
    | .rostering .. => true
    | .replying .. => true
    | _ => false
  | .poll =>
    match conn.phase, (conn.polled fromStr).1 with
    | .session .., some (.error _) => true
    | _, _ => false
  | _ => false

/-- No connection skips its cleanup in this step. -/
def Broker.CleansUp (fromStr : String → Option ClientToServer) (s : Broker) (e : Event) : Prop :=
  ∀ c action conn, e = .conn c action → s.conns[c]? = some conn →
    conn.skipsCleanup fromStr action = false

/-- What holds of the registry and of the notices when every connection that
ended has been cleaned up after. -/
structure CleanedUp (s : Broker) : Prop where
  /-- Every record belongs to a connection that is still running. -/
  running : ∀ id record, s.state.clients.lookup id = some record →
    ∃ (c : ℕ) (conn : Conn), s.conns[c]? = some conn ∧ conn.phase.running = true ∧
      conn.issued = some id
  /-- The record of a connection that has ended is gone. -/
  removed : ∀ (c : ℕ) (conn : Conn) (id : ClientId), s.conns[c]? = some conn →
    conn.phase.running = false → conn.issued = some id → s.state.clients.lookup id = none
  /-- A nickname that no running connection holds can be registered. -/
  free : ∀ (nickname : String) (id : ClientId),
    (∀ (c : ℕ) (conn : Conn) (client : Member), s.conns[c]? = some conn →
      conn.phase.running = true → conn.phase.record = some client →
        client.nickname ≠ nickname) →
      ∃ registered, s.state.registerClient id nickname = .ok registered
  /-- A connection that has ended after its `UserJoined` has broadcast its `UserLeft`. -/
  announced : ∀ (c : ℕ) (conn : Conn), s.conns[c]? = some conn → conn.phase.running = false →
    (s.saidBy c).filter ServerToClient.isNotice = [] ∨
      ∃ nickname, (s.saidBy c).filter ServerToClient.isNotice =
        [.userJoined nickname, .userLeft nickname]

/-! ### Steps -/

/-- A task gets past its cleanup in exactly these steps. -/
theorem Conn.Move.isAborted_eq (h : conn.Move fromStr st receivers now action o) :
    o.conn.phase.isAborted = (conn.phase.isAborted || conn.skipsCleanup fromStr action) := by
  cases h with
  | arrived fill => simp [Conn.skipsCleanup]
  | waited hphase hread =>
    have hskip : conn.skipsCleanup fromStr .poll = false := by
      simp only [Conn.skipsCleanup]
      rcases hphase with hphase | ⟨client, inbox, hphase⟩ <;> rw [hphase, hread]
    rw [hskip, Bool.or_false]
  | chatted hphase hread htext | ignored hphase hread htext =>
    have hskip : conn.skipsCleanup fromStr .poll = false := by
      simp only [Conn.skipsCleanup]
      rw [hphase, hread]
    rw [hskip, Bool.or_false]
  | readFailed hphase hread | greeted hphase hread | finished hphase hread =>
    simp only [Phase.isAborted, Conn.skipsCleanup, hphase]
    rw [hread]
    rfl
  | welcomed hphase => split <;> simp [Phase.isAborted, Conn.skipsCleanup, hphase]
  | welcomeFailed hphase =>
    rcases hphase with hphase | hphase <;> simp [Phase.isAborted, Conn.skipsCleanup, hphase]
  | handshakeFailed hphase | handshakeInvalid hphase | issued hphase | rejected hphase
  | rejectFailed hphase | taken hphase | registered hphase | rostered hphase | joined hphase
  | subscribed hphase | received hphase | replied hphase | replyFailed hphase
  | delivered hphase | deliveryFailed hphase | removed hphase | absent hphase | left hphase =>
    simp [Phase.isAborted, Conn.skipsCleanup, hphase]

/-- No connection has ended past its cleanup. -/
def Broker.NoneAborted (s : Broker) : Prop :=
  ∀ (c : ℕ) (conn : Conn), s.conns[c]? = some conn → conn.phase.isAborted = false

theorem noneAborted_step {e : Event} (h : s.NoneAborted) (hok : s.CleansUp fromStr e)
    (he : s.step fromStr e = some s') : s'.NoneAborted := by
  intro d other hd
  cases Broker.step_cases he with
  | accepted =>
    rcases getElem?_concat_new hd with hd | rfl
    · exact h d other hd
    · rfl
  | announced => exact h d other hd
  | @moved c action conn o hconn hmove =>
    rcases Broker.getElem?_after hd with ⟨rfl, rfl⟩ | ⟨-, hd⟩
    · rw [hmove.isAborted_eq, h d conn hconn, hok d action conn rfl hconn]
      rfl
    · exact h d other hd

theorem Phase.running_of_record {phase : Phase} {client : Member}
    (hrecord : phase.record = some client) (h : phase.isAborted = false) :
    phase.running = true := by
  cases phase <;> simp_all [Phase.record, Phase.isAborted, Phase.running]

theorem cleanedUp_of_noneAborted (h : Reachable (Broker.step fromStr) .new s)
    (hnone : s.NoneAborted) : CleanedUp s := by
  have hreg := registry_reachable h
  have howner : ∀ id record, s.state.clients.lookup id = some record →
      ∃ (c : ℕ) (conn : Conn), s.conns[c]? = some conn ∧ conn.phase.running = true ∧
        conn.phase.record = some ⟨id, record.nickname⟩ ∧ conn.issued = some id := by
    intro id record hlookup
    obtain ⟨c, conn, hc, hrecord⟩ := hreg.owned id record hlookup
    exact ⟨c, conn, hc, Phase.running_of_record hrecord (hnone c conn hc), hrecord,
      hreg.issued c conn _ hc (Phase.claim_of_record hrecord)⟩
  constructor
  case running =>
    intro id record hlookup
    obtain ⟨c, conn, hc, hrunning, -, hissued⟩ := howner id record hlookup
    exact ⟨c, conn, hc, hrunning, hissued⟩
  case removed =>
    intro c conn id hc hended hissued
    by_contra hne
    obtain ⟨record, hlookup⟩ := Option.ne_none_iff_exists'.mp hne
    obtain ⟨d, other, hd, hrunning, -, hissued'⟩ := howner id record hlookup
    obtain rfl := hreg.unique c d conn other id hc hd hissued hissued'
    obtain rfl : conn = other := Option.some_inj.mp (hc.symm.trans hd)
    exact absurd (hended.symm.trans hrunning) (by simp)
  case free =>
    intro nickname id hnobody
    -- whoever holds the nickname is running
    have hfree : nickname ∉ s.state.nicknames := by
      intro hmem
      obtain ⟨id', hlookup⟩ := mem_nicknames.mp hmem
      obtain ⟨c, conn, hc, hrunning, hrecord, -⟩ := howner id' _ hlookup
      exact hnobody c conn _ hc hrunning hrecord rfl
    unfold BrokerState.registerClient
    rw [if_neg (by simpa using hfree)]
    exact ⟨_, rfl⟩
  case announced =>
    intro c conn hc hended
    have hnoticed := noticed_of_reachable h hc
    have haborted := hnone c conn hc
    cases hphase : conn.phase <;> rw [hphase] at hended haborted hnoticed <;>
      simp only [Phase.running, Phase.isAborted, reduceCtorEq] at hended haborted
    exact hnoticed

/-- A connection that ends past its cleanup leaves its record. -/
theorem not_cleanedUp_of_isAborted {c : ℕ} (h : Reachable (Broker.step fromStr) .new s)
    (hc : s.conns[c]? = some conn) (haborted : conn.phase.isAborted = true) : ¬ CleanedUp s := by
  intro hclean
  have hreg := registry_reachable h
  obtain ⟨client, hrecord, hended⟩ : ∃ client, conn.phase.record = some client ∧
      conn.phase.running = false := by
    cases hphase : conn.phase <;> rw [hphase] at haborted <;>
      simp only [Phase.isAborted, reduceCtorEq] at haborted
    exact ⟨_, rfl, rfl⟩
  have hlookup := hreg.present c conn client hc hrecord
  have hissued := hreg.issued c conn client hc (Phase.claim_of_record hrecord)
  exact absurd (hlookup.symm.trans (hclean.removed c conn client.id hc hended hissued)) (by simp)

/-! ### Runs -/

/-- **Cleanup, exactly.**  Every state of a run of the broker is cleaned up iff no
step of the run is a failed write of a welcome, roster or reply, or a
failed read of a session. -/
theorem cleanedUp_along_iff (es : List Event) :
    Along (Broker.step fromStr) CleanedUp .new es ↔
      Meets (Broker.step fromStr) (Broker.CleansUp fromStr) .new es := by
  refine along_iff_meets
    (I := fun t => Reachable (Broker.step fromStr) .new t ∧ t.NoneAborted) ?_ ?_ ?_
    ⟨.refl _, fun c conn hc => by simp [Broker.new] at hc⟩
  · exact fun t ht => cleanedUp_of_noneAborted ht.1 ht.2
  · exact fun t e t' ht hok he => ⟨ht.1.tail he, noneAborted_step ht.2 hok he⟩
  · -- a step that skips the cleanup ends a connection that has a record
    intro t e t' ht hbad he
    simp only [Broker.CleansUp, not_forall, Bool.not_eq_false] at hbad
    obtain ⟨c, action, conn, rfl, hconn, hskip⟩ := hbad
    cases Broker.step_cases he with
    | @moved _ _ conn' o hconn' hmove =>
      obtain rfl : conn' = conn := Option.some_inj.mp (hconn'.symm.trans hconn)
      refine not_cleanedUp_of_isAborted (ht.1.tail he) (Broker.getElem?_after_self hconn) ?_
      rw [hmove.isAborted_eq, hskip, Bool.or_true]

/-- The run in which Alice joins and sends a line that is not a message. -/
def malformedScript : List Event := joinScript 0 "alice" 1 ++ sendLine 0 "oops"

set_option maxRecDepth 10000 in
/-- Alice's connection has ended, and "alice" stays taken. -/
theorem malformed_line_leaves_record :
    ¬ Along (Broker.step scriptFromStr) CleanedUp .new malformedScript := by
  intro hall
  have hrun : ((run (Broker.step scriptFromStr) .new malformedScript).map fun s =>
      (s.state.clients.lookup 1, s.conns.map (·.phase.running))) =
        some (some ⟨"alice"⟩, [false]) := by decide
  obtain ⟨s, hs, hfacts⟩ := Option.map_eq_some_iff.mp hrun
  obtain ⟨hlookup, hrunning⟩ := Prod.mk.inj hfacts
  obtain ⟨c, conn, hc, hup, -⟩ := (hall.final hs).running 1 _ hlookup
  have hmem := List.mem_map_of_mem (f := fun conn : Conn => conn.phase.running)
    (List.mem_of_getElem? hc)
  rw [hrunning, hup] at hmem
  exact absurd hmem (by simp)

end Chat
