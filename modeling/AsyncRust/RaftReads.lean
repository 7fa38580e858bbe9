/-
What a client of one node reads.

The store of a node is the fold of the reports that its polls have applied, so what a
`Get` or a `Status` returns for a key is the value of the last report for it.

* `Host.Stored` — the store is that of the applied reports, which are in the order of
  the delivered entries;
* `reads_follow_writes` — an acknowledged put was applied between its acceptance and its
  answer, every later read of its key returns its value or that of a put further up the
  log, and reads of a key never go back in log order.
-/
import AsyncRust.RaftPuts

namespace Raft

open Runs

variable {L : Library}

/-! ### The last report of a key -/

/-- The last of the reports for `key`. -/
def lastFor (key : String) (applied : List ApplyReport) : Option ApplyReport :=
  (applied.filter fun report => report.key = key).getLast?

theorem lastFor_append (key : String) (applied applied' : List ApplyReport) :
    lastFor key (applied ++ applied') = (lastFor key applied').or (lastFor key applied) := by
  rw [lastFor, List.filter_append, List.getLast?_append]
  rfl

theorem lastFor_cons (key : String) (report : ApplyReport) (applied : List ApplyReport) :
    lastFor key (report :: applied) =
      (lastFor key applied).or (if report.key = key then some report else none) := by
  rw [← List.singleton_append, lastFor_append]
  by_cases hkey : report.key = key <;> simp [lastFor, hkey]

theorem mem_of_lastFor {key : String} {applied : List ApplyReport} {report : ApplyReport}
    (h : lastFor key applied = some report) : report ∈ applied ∧ report.key = key := by
  have hmem := List.mem_filter.mp (List.mem_of_getLast? h)
  exact ⟨hmem.1, by simpa using hmem.2⟩

/-- The last report for the key of a report is this report or one with a higher index. -/
theorem exists_lastFor_of_mem {applied : List ApplyReport}
    (hordered : (applied.map ApplyReport.index).Pairwise (· < ·)) {report : ApplyReport}
    (h : report ∈ applied) : ∃ last, lastFor report.key applied = some last ∧
      (last = report ∨ report.index < last.index) := by
  obtain ⟨front, back, rfl⟩ := List.append_of_mem h
  rw [lastFor_append, lastFor_cons, if_pos rfl]
  cases hback : lastFor report.key back with
  | none => exact ⟨report, rfl, .inl rfl⟩
  | some last =>
    refine ⟨last, rfl, .inr ?_⟩
    rw [List.map_append, List.map_cons, List.pairwise_append, List.pairwise_cons] at hordered
    exact hordered.2.1.1 _ (List.mem_map.mpr ⟨last, (mem_of_lastFor hback).1, rfl⟩)

/-- More reports never move the last one of a key back. -/
theorem exists_lastFor_append {key : String} {applied applied' : List ApplyReport}
    (hordered : ((applied ++ applied').map ApplyReport.index).Pairwise (· < ·))
    {report : ApplyReport} (h : lastFor key applied = some report) :
    ∃ last, lastFor key (applied ++ applied') = some last ∧ report.index ≤ last.index := by
  obtain ⟨hmem, rfl⟩ := mem_of_lastFor h
  obtain ⟨last, hlast, hle⟩ := exists_lastFor_of_mem hordered (List.mem_append_left _ hmem)
  refine ⟨last, hlast, ?_⟩
  rcases hle with rfl | hlt
  · exact Nat.le_refl _
  · exact Nat.le_of_lt hlt

/-- What entries do to the store is what their reports say, in the order of the log. -/
theorem RaftNode.applyEntries_reports {entries : List Entry} : ∀ {node node' : RaftNode L}
    {applied : List ApplyReport}, node.applyEntries entries = .ok (applied, node') →
      (∀ key, node'.valueFor key =
        ((lastFor key applied).map ApplyReport.value).or (node.valueFor key)) ∧
      (applied.map ApplyReport.index).Sublist (entries.map Entry.index) := by
  induction entries with
  | nil =>
    intro node node' applied h
    cases h
    exact ⟨fun key => rfl, List.Sublist.refl _⟩
  | cons entry entries ih =>
    intro node node' applied h
    simp only [applyEntries] at h
    split at h
    · exact ⟨(ih h).1, (ih h).2.cons _⟩
    · split at h
      · obtain ⟨⟨key', value⟩, -, h⟩ := bind_eq_ok.mp h
        obtain ⟨⟨applied', node''⟩, happly, h⟩ := bind_eq_ok.mp h
        cases h
        obtain ⟨hvalue, hsub⟩ := ih happly
        refine ⟨fun key => ?_, hsub.cons_cons _⟩
        rw [hvalue key, lastFor_cons]
        cases lastFor key applied' with
        | some last => rfl
        | none =>
          simp only [applyCommand, valueFor, KvStore.get_put, Option.map_none, Option.none_or]
          by_cases hkey : key' = key
          · subst hkey
            simp
          · rw [Function.update_of_ne (Ne.symm hkey)]
            simp [hkey]
      · exact ⟨(ih h).1, (ih h).2.cons _⟩

/-! ### The store of a host -/

namespace Worker

variable {w w' : Worker L}

theorem store_of_handleClientRequest {req : ClientRequest} {goesOn : Bool}
    (h : w.handleClientRequest req = .ok (goesOn, w')) : w'.node.store = w.node.store := by
  cases req with
  | put key value ch =>
    have hstore : (w.node.propose (.put key value)).2.store = w.node.store := by
      obtain ⟨raw, hraw⟩ := w.node.propose_frame (.put key value)
      rw [hraw]
    simp only [handleClientRequest] at h
    split at h
    · cases h
      rfl
    · split at h
      · rename_i node hpropose
        cases h
        rwa [hpropose] at hstore
      · rename_i chain node hpropose
        cases h
        rwa [hpropose] at hstore
      · cases h
  | get key ch =>
    cases h
    rfl
  | status ch =>
    cases h
    rfl
  | campaign ch =>
    simp only [handleClientRequest] at h
    split at h
    · rename_i node hcampaign
      cases h
      exact congrArg (fun result => RaftNode.store result.2) hcampaign.symm
    · rename_i chain node hcampaign
      cases h
      exact congrArg (fun result => RaftNode.store result.2) hcampaign.symm
    · cases h
  | shutdown =>
    cases h
    rfl

theorem store_of_dispatchMessage {msg : L.Message} {sendErr : Option String}
    (h : w.dispatchMessage msg sendErr = .ok w') : w'.node.store = w.node.store := by
  simp only [dispatchMessage] at h
  split at h
  · split at h
    · rename_i node hstep
      cases h
      exact congrArg (fun result => RaftNode.store result.2) hstep.symm
    · cases h
  · split at h
    · cases h
      rfl
    · cases h
      unfold sendMessage
      split <;> rfl

theorem store_notifyPut (w : Worker L) (report : ApplyReport) :
    (w.notifyPut report).node.store = w.node.store := by
  simp only [notifyPut, log]
  split <;> rfl

theorem store_logRoleChange (w : Worker L) : w.logRoleChange.node.store = w.node.store := by
  simp only [logRoleChange, log]
  split <;> rfl

end Worker

namespace Host

variable {s s' : Host L}

/-- What a step does to the store and to what was applied to it. -/
inductive StoreStep (s s' : Host L) : Prop
  | same (hstore : s'.worker.node.store = s.worker.node.store)
    (happlied : s'.history.applied = s.history.applied)
    (hdelivered : s'.history.delivered = s.history.delivered)
  | polled (applied : List ApplyReport) (node : RaftNode L)
    (happly : s.worker.node.applyEntries s.worker.node.handed = .ok (applied, node))
    (hstore : s'.worker.node.store = node.store)
    (happlied : s'.history.applied = s.history.applied ++ applied)
    (hdelivered : s'.history.delivered = s.history.delivered ++ s.worker.node.handed)

theorem storeStep_poll (s : Host L) : StoreStep s s.poll := by
  unfold poll
  split
  · exact .same rfl rfl rfl
  · rename_i node hpoll
    obtain ⟨-, rfl⟩ := RaftNode.pollReady_eq_none hpoll
    exact .same (Worker.store_logRoleChange _) rfl rfl
  · rename_i bundle node hpoll
    obtain ⟨store, happly, hstore, -⟩ := RaftNode.pollReady_eq_some hpoll
    exact .polled bundle.applied _ happly hstore rfl rfl

theorem storeStep_of_recvClient {ticked : Bool} (h : s.recvClient ticked = some s') :
    StoreStep s s' := by
  unfold recvClient at h
  split at h
  · split at h <;> cases h
    exact .same rfl rfl rfl
  · split at h
    · cases h
      exact .same rfl rfl rfl
    · rename_i worker hhandle
      cases h
      exact .same (Worker.store_of_handleClientRequest hhandle) rfl rfl
    · rename_i worker hhandle
      have hstore := Worker.store_of_handleClientRequest hhandle
      cases h
      cases ticked <;> exact .same hstore rfl rfl

theorem storeStep_of_recvNetwork {ticked : Bool} (h : s.recvNetwork ticked = some s') :
    StoreStep s s' := by
  unfold recvNetwork at h
  split at h
  · split at h <;> cases h
    exact .same rfl rfl rfl
  · split at h
    · cases h
      exact .same rfl rfl rfl
    · rename_i node hstep
      cases h
      have hstore := congrArg (fun result => RaftNode.store result.2) hstep.symm
      cases ticked <;> exact .same hstore rfl rfl

theorem storeStep_dispatch (s : Host L) (messages : List L.Message) (applied : List ApplyReport)
    (sendErr : Option String) : StoreStep s (s.dispatch messages applied sendErr) := by
  unfold dispatch
  split
  · exact .same rfl rfl rfl
  · split
    · exact .same rfl rfl rfl
    · rename_i worker hdispatch
      exact .same (Worker.store_of_dispatchMessage hdispatch) rfl rfl

theorem storeStep_notify (s : Host L) (applied : List ApplyReport) :
    StoreStep s (s.notify applied) := by
  cases applied with
  | nil => exact .same rfl rfl rfl
  | cons report applied => exact .same (Worker.store_notifyPut _ _) rfl rfl

theorem storeStep_receive (s : Host L) (bytes : List UInt8) : StoreStep s (s.receive bytes) := by
  unfold receive
  split
  · exact .same rfl rfl rfl
  · split <;> exact .same rfl rfl rfl

/-- Only a poll changes the store, by applying what it is handed. -/
theorem storeStep_of_step {e : Event} (h : s.step e = some s') : StoreStep s s' := by
  cases step_cases h with
  | request => exact .same rfl rfl rfl
  | dropHandle => exact .same rfl rfl rfl
  | connection bytes => exact storeStep_receive s bytes
  | dropListener => exact .same rfl rfl rfl
  | recvClient hphase h => exact storeStep_of_recvClient h
  | recvNetwork hphase h => exact storeStep_of_recvNetwork h
  | timeout ticked => cases ticked <;> exact .same rfl rfl rfl
  | poll => exact storeStep_poll s
  | dispatch => exact storeStep_dispatch s _ _ _
  | notify => exact storeStep_notify s _

/-- The store is that of the applied reports, which are in the order of the log. -/
structure Stored (s : Host L) : Prop where
  valueFor : ∀ key, s.worker.node.valueFor key =
    (lastFor key s.history.applied).map ApplyReport.value
  sublist : (s.history.applied.map ApplyReport.index).Sublist
    (s.history.delivered.map Entry.index)

theorem Stored.step (h : s.Stored) (hstep : StoreStep s s') : s'.Stored := by
  cases hstep with
  | same hstore happlied hdelivered =>
    refine ⟨fun key => ?_, happlied ▸ hdelivered ▸ h.sublist⟩
    rw [happlied, ← h.valueFor key, RaftNode.valueFor, RaftNode.valueFor, hstore]
  | polled applied node happly hstore happlied hdelivered =>
    obtain ⟨hvalue, hsub⟩ := RaftNode.applyEntries_reports happly
    refine ⟨fun key => ?_, ?_⟩
    · rw [happlied, lastFor_append, Option.map_or, ← h.valueFor key, ← hvalue key,
        RaftNode.valueFor, RaftNode.valueFor, hstore]
    · rw [happlied, hdelivered, List.map_append, List.map_append]
      exact h.sublist.append hsub

/-- What was applied stays applied. -/
theorem StoreStep.applied_isPrefix (h : StoreStep s s') :
    s.history.applied <+: s'.history.applied := by
  cases h with
  | same _ happlied _ => exact happlied ▸ List.prefix_rfl
  | polled applied node _ _ happlied _ =>
    rw [happlied]
    exact List.prefix_append _ _

/-! ### Acknowledgements -/

/-- Replies are sent and puts are accepted only where the worker takes a request or
notifies a client. -/
theorem replies_of_step {e : Event} (h : s.step e = some s') :
    (s'.worker.replies = s.worker.replies ∧ s'.history.accepted = s.history.accepted) ∨
      (∃ ticked, s.phase = .selecting ∧ s.recvClient ticked = some s') ∨
      ∃ applied, s' = s.notify applied := by
  cases step_cases h with
  | request => exact .inl ⟨rfl, rfl⟩
  | dropHandle => exact .inl ⟨rfl, rfl⟩
  | connection bytes =>
    unfold receive
    split
    · exact .inl ⟨rfl, rfl⟩
    · split <;> exact .inl ⟨rfl, rfl⟩
  | dropListener => exact .inl ⟨rfl, rfl⟩
  | recvClient hphase h => exact .inr (.inl ⟨_, hphase, h⟩)
  | recvNetwork hphase h =>
    unfold recvNetwork at h
    split at h
    · split at h <;> cases h
      exact .inl ⟨rfl, rfl⟩
    · split at h <;> cases h
      · exact .inl ⟨rfl, rfl⟩
      · exact .inl ⟨(afterSelect_frame _ _).2, rfl⟩
  | timeout ticked => exact .inl ⟨(afterSelect_frame _ _).2, rfl⟩
  | poll =>
    unfold poll
    split
    · exact .inl ⟨rfl, rfl⟩
    · exact .inl ⟨logRoleChange_replies _, rfl⟩
    · exact .inl ⟨rfl, rfl⟩
  | dispatch =>
    unfold dispatch
    split
    · exact .inl ⟨rfl, rfl⟩
    · split
      · exact .inl ⟨rfl, rfl⟩
      · exact .inl ⟨(dispatchMessage_frame ‹_›).2, rfl⟩
  | notify => exact .inr (.inr ⟨_, rfl⟩)

/-- A request is never answered with `Ok` at once. -/
theorem acknowledged_of_handle {w w' : Worker L} {req : ClientRequest} {goesOn : Bool}
    (h : w.handleClientRequest req = .ok (goesOn, w')) {ch : ChannelId} {value : String}
    (hack : (ch, .put (.ok value)) ∈ w'.replies) : (ch, .put (.ok value)) ∈ w.replies := by
  have hkeep : ∀ {ch' : ChannelId} {reply : Reply}, reply.acknowledged = none →
      (ch, .put (.ok value)) ∈ w.replies ++ [(ch', reply)] →
      (ch, .put (.ok value)) ∈ w.replies := by
    intro ch' reply hreply hmem
    rcases List.mem_append.mp hmem with hmem | hmem
    · exact hmem
    · obtain ⟨-, rfl⟩ := Prod.mk.inj (List.mem_singleton.mp hmem)
      exact absurd hreply (by simp [Reply.acknowledged])
  cases req with
  | put key value' ch' =>
    simp only [Worker.handleClientRequest] at h
    split at h
    · cases h
      exact hkeep rfl hack
    · split at h <;> cases h
      · exact hack
      · exact hkeep rfl hack
  | get key ch' =>
    cases h
    exact hkeep rfl hack
  | status ch' =>
    cases h
    exact hkeep rfl hack
  | campaign ch' =>
    simp only [Worker.handleClientRequest] at h
    split at h <;> cases h <;> exact hkeep rfl hack
  | shutdown =>
    cases h
    exact hack

/-- A channel is sent at most one reply, and `Ok` only if its put was accepted. -/
structure Acks (s : Host L) : Prop where
  once : (s.worker.replies.map Prod.fst).Nodup
  accepted : ∀ ch value, (ch, .put (.ok value)) ∈ s.worker.replies →
    ch ∈ s.history.accepted.map Accepted.respondTo

theorem Acks.step (h : s.Acks) (hclients : s.Clients) {e : Event} (he : s.step e = some s') :
    s'.Acks := by
  constructor
  · cases putStep_of_step he with
    | quiet _ _ hsame => exact hsame.replies ▸ h.once
    | requested _ _ _ _ hsame => exact hsame.replies ▸ h.once
    | dropped _ _ _ hsame => exact hsame.replies ▸ h.once
    | replied req ch reply hch hqueue hnext hputs hreplies hhistory =>
      have hnew : ch ∉ s.worker.replies.map Prod.fst := fun hmem =>
        hclients.not_used hch hqueue (.inr hmem)
      rw [hreplies, List.map_append]
      exact List.nodup_append'.mpr ⟨h.once, List.nodup_singleton _, by simpa using hnew⟩
    | accepted put hqueue hnext hputs hreplies hafter hahead hhistory => exact hreplies ▸ h.once
    | notified report hqueue hnext hputs hreplies hhistory =>
      rw [hreplies, List.map_append]
      cases hfind : s.worker.pendingPuts.find? (·.isFor report) with
      | none => simpa using h.once
      | some pending =>
        have hnew := (hclients.of_pending (List.mem_of_find?_eq_some hfind)).2
        exact List.nodup_append'.mpr ⟨h.once, List.nodup_singleton _, by simpa using hnew⟩
  · intro ch value hack
    rcases replies_of_step he with ⟨hreplies, haccepted⟩ | ⟨ticked, -, hrecv⟩ | ⟨applied, rfl⟩
    · exact haccepted ▸ h.accepted ch value (hreplies ▸ hack)
    · unfold recvClient at hrecv
      split at hrecv
      · split at hrecv <;> cases hrecv
        exact h.accepted ch value hack
      · split at hrecv
        · cases hrecv
          exact h.accepted ch value hack
        · rename_i worker hhandle
          cases hrecv
          exact h.accepted ch value (acknowledged_of_handle hhandle hack)
        · rename_i worker hhandle
          cases hrecv
          rw [(afterSelect_frame _ ticked).2] at hack
          have hold := h.accepted ch value (acknowledged_of_handle hhandle hack)
          exact (List.map_append ▸ List.mem_append_left _ hold :
            ch ∈ (s.history.accept s.worker worker).accepted.map Accepted.respondTo)
    · cases applied with
      | nil => exact h.accepted ch value hack
      | cons report applied =>
        change _ ∈ (s.worker.notifyPut report).replies at hack
        rw [notifyPut_replies] at hack
        rcases List.mem_append.mp hack with hack | hack
        · exact h.accepted ch value hack
        · obtain ⟨pending, hpending, heq⟩ := List.mem_map.mp hack
          rw [Option.mem_toList] at hpending
          obtain ⟨rfl, -⟩ := Prod.mk.inj heq
          exact (hclients.of_pending (List.mem_of_find?_eq_some hpending)).1

/-! ### Acceptance -/

/-- What a put waits for was not applied when it was accepted. -/
def AcceptedSince (s₁ s : Host L) : Prop :=
  s₁.history.applied <+: s.history.applied ∧
    ∀ put ∈ s.history.accepted, put ∈ s₁.history.accepted ∨
      s₁.history.applied.length ≤ put.after

theorem AcceptedSince.step {s₁ : Host L} (h : AcceptedSince s₁ s) (hnotifies : s.Notifies)
    {e : Event} (he : s.step e = some s') : AcceptedSince s₁ s' := by
  refine ⟨h.1.trans (storeStep_of_step he).applied_isPrefix, fun put hput => ?_⟩
  rcases replies_of_step he with ⟨-, haccepted⟩ | ⟨ticked, hphase, -⟩ | ⟨applied, rfl⟩
  · exact h.2 put (haccepted ▸ hput)
  · -- the worker takes a request, so all that was applied was notified
    have hlen : s₁.history.applied.length ≤ s.history.notified.length :=
      hnotifies.applied_eq hphase ▸ h.1.length_le
    cases putStep_of_step he with
    | quiet _ _ hsame => exact h.2 put (hsame.accepted ▸ hput)
    | requested _ _ _ _ hsame => exact h.2 put (hsame.accepted ▸ hput)
    | dropped _ _ _ hsame => exact h.2 put (hsame.accepted ▸ hput)
    | replied _ _ _ _ _ _ _ _ hhistory => exact h.2 put (hhistory ▸ hput)
    | accepted new _ _ _ _ hafter _ hhistory =>
      rw [hhistory] at hput
      rcases List.mem_append.mp hput with hput | hput
      · exact h.2 put hput
      · obtain rfl := List.mem_singleton.mp hput
        exact .inr (hafter ▸ hlen)
    | notified _ _ _ _ _ hhistory =>
      rw [hhistory] at hput
      exact h.2 put hput
  · cases applied <;> exact h.2 put hput

/-! ### Reads -/

/-- In this state the worker takes a request from its queue that reads `key`, and answers
it with `value`. -/
inductive Reads (s : Host L) (key : String) : Option String → Prop
  | get {ticked : Bool} {ch : ChannelId} {value : Option String} {s' : Host L}
    (hstep : s.step (.recvClient ticked) = some s')
    (hqueue : s.clientQueue = .get key ch :: s'.clientQueue)
    (hreply : s'.worker.replies = s.worker.replies ++ [(ch, .get value)]) : Reads s key value
  | status {ticked : Bool} {ch : ChannelId} {status : NodeStatus} {s' : Host L}
    (hstep : s.step (.recvClient ticked) = some s')
    (hqueue : s.clientQueue = .status ch :: s'.clientQueue)
    (hreply : s'.worker.replies = s.worker.replies ++ [(ch, .status status)]) :
    Reads s key status.store[key]?

/-- A request is handled in the state in which the worker takes it. -/
theorem replies_of_handle {ticked : Bool} {req : ClientRequest} {queue : List ClientRequest}
    (h : s.step (.recvClient ticked) = some s') (hqueue : s.clientQueue = req :: queue)
    {worker : Worker L} (hhandle : s.worker.handleClientRequest req = .ok (true, worker)) :
    s'.worker.replies = worker.replies := by
  simp only [step] at h
  split at h
  · simp only [recvClient, hqueue, hhandle] at h
    cases h
    exact (afterSelect_frame _ ticked).2
  · cases h

/-- What is read is what the store holds. -/
theorem Reads.eq {key : String} {value : Option String} (h : s.Reads key value) :
    value = s.worker.node.valueFor key := by
  cases h with
  | get hstep hqueue hreply =>
    rw [replies_of_handle hstep hqueue rfl] at hreply
    simpa [Worker.respond] using hreply.symm
  | status hstep hqueue hreply =>
    rw [replies_of_handle hstep hqueue rfl] at hreply
    obtain rfl : _ = _ := by simpa [Worker.respond] using hreply
    rfl

theorem reads_of_get {key : String} {ch : ChannelId} {queue : List ClientRequest}
    (hphase : s.phase = .selecting) (hqueue : s.clientQueue = .get key ch :: queue) :
    s.Reads key (s.worker.node.valueFor key) := by
  have hstep : s.step (.recvClient false) = s.recvClient false := by
    rw [step, hphase]
  simp only [recvClient, hqueue] at hstep
  exact .get hstep hqueue rfl

/-- The put was sent `Ok`, and that on the report at position `p` of those applied, on
which nothing else was answered. -/
structure AnsweredBy (s : Host L) (put : Accepted) (p : ℕ) (report : ApplyReport) : Prop where
  accepted : put ∈ s.history.accepted
  reply : (put.respondTo, .put (.ok put.value)) ∈ s.worker.replies
  applied : s.history.applied[p]? = some report
  command : report.key = put.key ∧ report.value = put.value
  alone : ∀ ch, (ch, p) ∈ s.history.answered ↔ ch = put.respondTo

theorem exists_answeredBy (hclients : s.Clients) (hnotifies : s.Notifies) (hacks : s.Acks)
    {ch : ChannelId} {value : String} (hack : (ch, .put (.ok value)) ∈ s.worker.replies) :
    ∃ put p report, put.respondTo = ch ∧ put.value = value ∧ s.AnsweredBy put p report := by
  obtain ⟨put, hput, rfl⟩ := List.mem_map.mp (hacks.accepted ch value hack)
  obtain ⟨hreply, p, hanswered⟩ := (hclients.answer put hput _).mp hack
  obtain rfl : value = put.value := by simpa using hreply
  obtain ⟨-, ⟨report, hreport, hcommand⟩, -⟩ :=
    put.servedAt_iff.mp (hclients.turn hnotifies hput hanswered)
  refine ⟨put, p, report, rfl, rfl, hput, hack, hreport, hcommand, fun ch => ⟨fun hch => ?_, ?_⟩⟩
  · exact hclients.fifo.answers_unique hch hanswered
  · rintro rfl
    exact hanswered

variable {config : NodeConfig} {s₀ s₁ s₂ : Host L}

theorem acks_of_reachable (hspawn : spawnNode L config = .ok s₀) (h : Reachable step s₀ s) :
    s.Acks ∧ s.Stored := by
  refine h.invariant (I := fun s => s.Acks ∧ s.Stored) ?_ ?_
  · obtain ⟨-, node, hnode, rfl⟩ := spawnNode_eq_ok hspawn
    obtain ⟨raw, -, hnode⟩ := bind_eq_ok.mp hnode
    cases hnode
    exact ⟨⟨List.nodup_nil, fun ch value hack => absurd hack List.not_mem_nil⟩,
      fun key => KvStore.get_new key, List.Sublist.refl _⟩
  · rintro t e t' ht ⟨hacks, hstored⟩ he
    exact ⟨hacks.step (clients_of_reachable hspawn ht).1 he, hstored.step (storeStep_of_step he)⟩

theorem acceptedSince_of_reachable (hspawn : spawnNode L config = .ok s₀)
    (h₁ : Reachable step s₀ s₁) (h₂ : Reachable step s₁ s₂) : AcceptedSince s₁ s₂ := by
  refine h₂.invariant (I := fun s => AcceptedSince s₁ s) ?_ ?_
  · exact ⟨List.prefix_rfl, fun put hput => .inl hput⟩
  · intro t e t' ht h he
    exact h.step (clients_of_reachable hspawn (h₁.trans ht)).2 he

end Host

/-- **Reads follow writes.**  The entries that the library hands to the node come in log
order, each once.  Then no channel is sent two replies, and of any two states of a run:

* a put that was sent `Ok` by the first was answered on an applied entry with its key and
  value, on which no other put was answered, and what the second reads for the key is the
  value of this entry or of one with a higher index;
* a put that was accepted only after the first was answered on an entry that was not yet
  applied there;
* what both read for a key are the values of its last entries then, of which the second
  is not before the first in the log. -/
theorem reads_follow_writes {config : NodeConfig} {s₀ s₁ s₂ : Host L}
    (hspawn : spawnNode L config = .ok s₀) (h₁ : Reachable Host.step s₀ s₁)
    (h₂ : Reachable Host.step s₁ s₂)
    (hordered : (s₂.history.delivered.map Entry.index).Pairwise (· < ·)) :
    (s₂.worker.replies.map Prod.fst).Nodup ∧
    (∀ ch value, (ch, .put (.ok value)) ∈ s₁.worker.replies →
      ∃ put p report, put.respondTo = ch ∧ put.value = value ∧ s₁.AnsweredBy put p report ∧
        ∀ v, s₂.Reads put.key v → ∃ source ∈ s₂.history.applied, source.key = put.key ∧
          v = some source.value ∧ (source = report ∨ report.index < source.index)) ∧
    (∀ put p report, s₂.AnsweredBy put p report → put ∉ s₁.history.accepted →
      s₁.history.applied.length ≤ p) ∧
    ∀ key v₁ v₂, s₁.Reads key v₁ → s₂.Reads key v₂ →
      v₁ = (lastFor key s₁.history.applied).map ApplyReport.value ∧
      v₂ = (lastFor key s₂.history.applied).map ApplyReport.value ∧
      ∀ source₁, lastFor key s₁.history.applied = some source₁ →
        ∃ source₂, lastFor key s₂.history.applied = some source₂ ∧
          source₁.index ≤ source₂.index := by
  obtain ⟨hclients₁, hnotifies₁⟩ := Host.clients_of_reachable hspawn h₁
  obtain ⟨hclients₂, hnotifies₂⟩ := Host.clients_of_reachable hspawn (h₁.trans h₂)
  obtain ⟨hacks₁, hstored₁⟩ := Host.acks_of_reachable hspawn h₁
  obtain ⟨hacks₂, hstored₂⟩ := Host.acks_of_reachable hspawn (h₁.trans h₂)
  obtain ⟨⟨more, hmore⟩, hsince⟩ := Host.acceptedSince_of_reachable hspawn h₁ h₂
  have happlied : (s₂.history.applied.map ApplyReport.index).Pairwise (· < ·) :=
    hordered.sublist hstored₂.sublist
  refine ⟨hacks₂.once, fun ch value hack => ?_, fun put p report hanswered hnew => ?_,
    fun key v₁ v₂ hv₁ hv₂ => ⟨?_, ?_, fun source₁ hsource₁ => ?_⟩⟩
  · obtain ⟨put, p, report, hch, hvalue, hanswered⟩ :=
      Host.exists_answeredBy hclients₁ hnotifies₁ hacks₁ hack
    refine ⟨put, p, report, hch, hvalue, hanswered, fun v hv => ?_⟩
    have hmem : report ∈ s₂.history.applied :=
      hmore ▸ List.mem_append_left _ (List.mem_of_getElem? hanswered.applied)
    obtain ⟨source, hsource, hlast⟩ := exists_lastFor_of_mem happlied hmem
    rw [hanswered.command.1] at hsource
    refine ⟨source, (mem_of_lastFor hsource).1, (mem_of_lastFor hsource).2, ?_, hlast⟩
    rw [hv.eq, hstored₂.valueFor, hsource, Option.map_some]
  · have hafter := (hsince put hanswered.accepted).resolve_left hnew
    have hturn := hclients₂.turn hnotifies₂ hanswered.accepted ((hanswered.alone _).mpr rfl)
    exact Nat.le_trans hafter hturn.1
  · rw [hv₁.eq, hstored₁.valueFor]
  · rw [hv₂.eq, hstored₂.valueFor]
  · rw [← hmore] at happlied ⊢
    exact exists_lastFor_append happlied hsource₁

/-- A put on a node that is the only voter, and a `Get` in the queue. -/
def putAndGet : List Event :=
  [.campaign, .recvClient false] ++ List.replicate 4 (Event.process none) ++
    [.put "k" "v", .recvClient true] ++ List.replicate 5 (Event.process none) ++ [.get "k"]

/-- The `Get` is answered, and then come another put and another `Get`. -/
def putAndGetAgain : List Event :=
  [.recvClient false, .process none, .put "k" "w", .recvClient false] ++
    List.replicate 5 (Event.process none) ++ [.get "k"]

theorem reads_follow_writes_one_node : ∃ s₀ s₁ s₂ : Host (MiniRaft.miniRaft []),
    spawnNode (MiniRaft.miniRaft []) oneNode = .ok s₀ ∧ run Host.step s₀ putAndGet = some s₁ ∧
    run Host.step s₁ putAndGetAgain = some s₂ ∧ (1, .put (.ok "v")) ∈ s₁.worker.replies ∧
    s₁.Reads "k" (some "v") ∧ s₂.Reads "k" (some "w") ∧
    ∃ put p report, put.respondTo = 1 ∧ s₁.AnsweredBy put p report ∧
      ∃ source ∈ s₂.history.applied, some "w" = some source.value ∧
        (source = report ∨ report.index < source.index) := by
  have hrun₁ : (runHost (MiniRaft.miniRaft []) oneNode putAndGet).map (fun s =>
      ((s.phase.isSelecting, s.clientQueue), (s.worker.node.valueFor "k", s.history.accepted),
        s.worker.replies.filterMap fun reply => reply.2.acknowledged.map (reply.1, ·))) =
      some ((true, [.get "k" 2]), (some "v", [⟨1, "k", "v", 2, 1, 0, 0⟩]), [(1, "v")]) := by
    decide
  have hrun₂ : (runHost (MiniRaft.miniRaft []) oneNode (putAndGet ++ putAndGetAgain)).map (fun s =>
      ((s.phase.isSelecting, s.clientQueue), s.worker.node.valueFor "k",
        s.history.delivered.map Entry.index)) =
      some ((true, [.get "k" 4]), some "w", [1, 2, 3]) := by decide
  obtain ⟨s₁, hs₁, hfacts₁⟩ := Option.map_eq_some_iff.mp hrun₁
  obtain ⟨s₂, hs₂, hfacts₂⟩ := Option.map_eq_some_iff.mp hrun₂
  simp only [Prod.mk.injEq] at hfacts₁ hfacts₂
  obtain ⟨⟨hphase₁, hqueue₁⟩, ⟨hvalue₁, haccepted⟩, hacks⟩ := hfacts₁
  obtain ⟨⟨hphase₂, hqueue₂⟩, hvalue₂, hdelivered⟩ := hfacts₂
  obtain ⟨s₀, hspawn, hrun₁⟩ := runHost_eq_some.mp hs₁
  obtain ⟨s₀', hspawn', hrun₂⟩ := runHost_eq_some.mp hs₂
  obtain rfl := Except.ok.inj (hspawn.symm.trans hspawn')
  obtain ⟨t, ht, hrun₂⟩ := run_append_eq_some.mp hrun₂
  obtain rfl := Option.some_inj.mp (hrun₁.symm.trans ht)
  have hread₁ : s₁.Reads "k" (some "v") :=
    hvalue₁ ▸ Host.reads_of_get (Phase.isSelecting_iff.mp hphase₁) hqueue₁
  have hread₂ : s₂.Reads "k" (some "w") :=
    hvalue₂ ▸ Host.reads_of_get (Phase.isSelecting_iff.mp hphase₂) hqueue₂
  have hack : (1, .put (.ok "v")) ∈ s₁.worker.replies :=
    Reply.mem_of_acknowledged (by rw [hacks]; decide)
  obtain ⟨-, hputs, -, hreads⟩ := reads_follow_writes hspawn ⟨_, hrun₁⟩ ⟨_, hrun₂⟩
    (by rw [hdelivered]; decide)
  obtain ⟨put, p, report, hch, -, hanswered, hsource⟩ := hputs 1 "v" hack
  have hput := hanswered.accepted
  rw [haccepted, List.mem_singleton] at hput
  subst hput
  obtain ⟨source, hmem, -, hvalue, hlast⟩ := hsource _ hread₂
  exact ⟨s₀, s₁, s₂, hspawn, hrun₁, hrun₂, hack, hread₁, hread₂, _, p, report, hch, hanswered,
    source, hmem, hvalue, hlast⟩

end Raft
