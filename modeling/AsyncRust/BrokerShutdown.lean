/-
The end of the broker (`run_until` and `handle_shutdown` in `broker.rs`).

When the shutdown future completes, `run_until` broadcasts a notice and returns; the tasks of
the connections go on.

* `ShutDown` — the notice is broadcast once, and nobody is accepted after it;
* `shutdown_told` — who is told: the sessions that had subscribed, up to lag errors, and not
  those that subscribe later.
-/
import AsyncRust.BrokerFanout

namespace Chat

open Broadcast Runs

variable {fromStr : String → Option ClientToServer} {st : BrokerState} {receivers now : ℕ}
  {s s' : Broker} {conn : Conn} {action : Action} {o : Outcome}

/-- How often the notice is broadcast, as long as connections are accepted and afterwards. -/
def ShutDown (s : Broker) : Prop :=
  s.order.filter (fun entry => entry.2 = shutdownNotice) =
    if s.accepting then [] else [(none, shutdownNotice)]

theorem ShutDown.step {e : Event} (h : ShutDown s) (he : s.step fromStr e = some s') :
    ShutDown s' := by
  rw [ShutDown] at h ⊢
  cases e with
  | accept =>
    simp only [Broker.step, Option.ite_none_right_eq_some, Option.some_inj] at he
    obtain ⟨-, rfl⟩ := he
    exact h
  | shutdown =>
    simp only [Broker.step, Option.ite_none_right_eq_some, Option.some_inj] at he
    obtain ⟨haccepting, rfl⟩ := he
    rw [if_pos haccepting] at h
    rw [List.filter_append, h]
    simp
  | conn c action =>
    cases Broker.step_cases he with
    | @moved _ _ conn o hconn hmove =>
      have hsaid : (o.said.toList.map fun message => (some c, message)).filter
          (fun entry : Option ℕ × ServerToClient => entry.2 = shutdownNotice) = [] := by
        refine List.filter_eq_nil_iff.mpr fun entry hentry hnotice => hmove.said_ne_error
          "broker shutting down" ?_
        obtain ⟨message, hmem, rfl⟩ := List.mem_map.mp hentry
        obtain rfl : message = shutdownNotice := by simpa using hnotice
        exact Option.mem_toList.mp hmem
      show (s.order ++ _).filter _ = if s.accepting then _ else _
      rw [List.filter_append, hsaid, List.append_nil, h]

theorem shutDown_of_reachable (h : Reachable (Broker.step fromStr) .new s) : ShutDown s :=
  h.invariant rfl fun _ _ _ _ hs he => hs.step he

theorem ShutDown.count_eq (h : ShutDown s) :
    s.messages.count shutdownNotice = if s.accepting then 0 else 1 := by
  have hcount : s.messages.count shutdownNotice =
      (s.order.filter fun entry => entry.2 = shutdownNotice).length := by
    rw [Broker.messages, List.count_eq_countP, List.countP_map, List.countP_eq_length_filter]
    congr 2
  rw [hcount, h]
  split <;> rfl

/-- Nobody is accepted any more. -/
theorem not_accepting_of_reachable (hs : s.accepting = false)
    (h : Reachable (Broker.step fromStr) s s') :
    s'.accepting = false ∧ s'.conns.length = s.conns.length := by
  refine h.invariant (I := fun t => t.accepting = false ∧ t.conns.length = s.conns.length)
    ⟨hs, rfl⟩ fun t e t' _ ht he => ?_
  obtain ⟨haccepting, hlength⟩ := ht
  cases e with
  | accept | shutdown => simp [Broker.step, haccepting] at he
  | conn c action =>
    cases Broker.step_cases he with
    | moved hconn hmove => exact ⟨haccepting, (List.length_set ..).trans hlength⟩

/-- **Who is told of the shutdown.**  The notice is broadcast once, by `run_until` when it
returns, and no connection is accepted from then on.  Nobody is told twice.  A session that
has subscribed before the notice and has taken everything from its inbox has been told, or was
told by a lag error that it has missed something; and one that has subscribed after the notice
is never told, although it goes on like the others. -/
theorem shutdown_told (h : Reachable (Broker.step fromStr) .new s) :
    (s.order.filter (fun entry => entry.2 = shutdownNotice) =
      if s.accepting then [] else [(none, shutdownNotice)]) ∧
    (s.accepting = false → ∀ s', Reachable (Broker.step fromStr) s s' →
      s'.accepting = false ∧ s'.conns.length = s.conns.length) ∧
    ∀ (c : ℕ) (conn : Conn) (start : ℕ), s.conns[c]? = some conn →
      conn.subscribedAt = some start →
        conn.deliveries.count (.value shutdownNotice) ≤ 1 ∧
        ∀ n, s.messages[n]? = some shutdownNotice →
          (n < start → .value shutdownNotice ∉ conn.deliveries) ∧
          ∀ (client : Member) (inbox : ℕ), start ≤ n → conn.phase = .session client inbox →
            s.state.broadcaster.recv inbox = none →
              .value shutdownNotice ∈ conn.deliveries ∨ ∃ k, .lagged k ∈ conn.deliveries := by
  have hshut := shutDown_of_reachable h
  have hfed := allFed_of_reachable h
  have honce : s.messages.count shutdownNotice ≤ 1 := by
    rw [hshut.count_eq]
    split <;> decide
  refine ⟨hshut, fun hs s' hreach => not_accepting_of_reachable hs hreach,
    fun c conn start hconn hstart => ?_⟩
  obtain ⟨-, msgs, haccounts, hbegins⟩ := (hfed c conn hconn).served start hstart
  have hafter : msgs.count shutdownNotice ≤ (s.messages.drop start).count shutdownNotice :=
    hbegins.sublist.count_le _
  have hsplit : (s.messages.take start).count shutdownNotice +
      (s.messages.drop start).count shutdownNotice = s.messages.count shutdownNotice := by
    rw [← List.count_append, List.take_append_drop]
  have hdelivered := haccounts.count_le shutdownNotice
  refine ⟨by omega, fun n hn => ⟨fun hlt hmem => ?_, fun client inbox hle hphase hrecv => ?_⟩⟩
  · -- it would have been broadcast twice
    have hbefore : shutdownNotice ∈ s.messages.take start :=
      List.mem_of_getElem? (by rw [List.getElem?_take_of_lt hlt, hn])
    have hfirst := List.count_pos_iff.mpr hbefore
    have hsecond := List.count_pos_iff.mpr hmem
    omega
  · obtain ⟨start', hstart', hall⟩ :=
      (hfed c conn hconn).accounts_of_drained hphase (recv_eq_none hrecv)
    obtain rfl : start = start' := Option.some_inj.mp (hstart.symm.trans hstart')
    refine hall.mem_or_lagged (List.mem_of_getElem? (i := n - start) ?_)
    rw [List.getElem?_drop, Nat.add_sub_cancel' hle, hn]

/-- Alice is in her session and Bob was just accepted when the broker is shut down; Bob joins
after that, and Alice takes what was broadcast. -/
def shutdownScript : List Event :=
  joinScript 0 "alice" 1 ++ [.accept, .shutdown] ++ sendLine 1 (helloLine "bob") ++
    [.conn 1 .proceed] ++ announceScript 1 2 ++ [.conn 1 .proceed] ++
    [.conn 0 .recv, .conn 0 (.write true), .conn 0 .recv, .conn 0 (.write true)]

set_option maxRecDepth 10000 in
theorem shutdown_told_alice : ∃ s,
    run (Broker.step scriptFromStr) .new shutdownScript = some s ∧
    s.conns.map Conn.deliveries =
      [[.value shutdownNotice, .value (.userJoined "bob")], []] ∧
    ∀ s', Reachable (Broker.step scriptFromStr) s s' → s'.conns.length = 2 := by
  have hrun : ((run (Broker.step scriptFromStr) .new shutdownScript).map fun s =>
      (s.conns.map Conn.deliveries, s.accepting, s.conns.length)) =
        some ([[.value shutdownNotice, .value (.userJoined "bob")], []], false, 2) := by decide
  obtain ⟨s, hs, hfacts⟩ := Option.map_eq_some_iff.mp hrun
  simp only [Prod.mk.injEq] at hfacts
  obtain ⟨hdeliveries, haccepting, hlength⟩ := hfacts
  exact ⟨s, hs, hdeliveries, fun s' hreach =>
    hlength ▸ ((shutdown_told ⟨_, hs⟩).2.1 haccepting s' hreach).2⟩

end Chat
