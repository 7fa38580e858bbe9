/-
Which put is answered by which applied entry.

A worker keeps the puts that the library took in `pending_puts` and matches them
to applied entries by key and value.  So they form a queue in which the first
that waits for a key is served: the abstract queue of a host is `Host.queue`,
and every step of the host is an arrival, a service, or no step of it.

* `queue_of_accepted`, `queue_of_notified` — the steps of the queue;
* `Clients`, `clients_step` — the invariant: the queue is fair, every channel is
  used once, and an accepted put is sent `Ok` when the queue answers it, and
  nothing else;
* `put_pending_until_turn` — how long a put is pending;
* `put_answered_in_turn` — by which entry it is answered, and when that is its
  own.
-/
import AsyncRust.MatchQueue
import AsyncRust.MiniRaft
import AsyncRust.RaftWorkerSteps

namespace Raft

open Runs MatchQueue

variable {L : Library}

/-! ### The queue of a host -/

/-- What a report and a put are matched by. -/
abbrev Command := String × String

def ApplyReport.command (report : ApplyReport) : Command := (report.key, report.value)

def PendingPut.client (pending : PendingPut) : ChannelId × Command :=
  (pending.respondTo, pending.key, pending.value)

def Accepted.arrival (put : Accepted) : Arrival Command ChannelId :=
  ⟨put.respondTo, (put.key, put.value), put.after, put.ahead⟩

namespace Host

def queue (s : Host L) : Queue Command ChannelId where
  waiting := s.worker.pendingPuts.map PendingPut.client
  served := s.history.notified.map ApplyReport.command
  arrivals := s.history.accepted.map Accepted.arrival
  answered := s.history.answered

theorem isFor_iff {report : ApplyReport} {pending : PendingPut} :
    pending.isFor report = true ↔ pending.client.2 = report.command := by
  simp [PendingPut.isFor, PendingPut.client, ApplyReport.command]

variable {s s' : Host L}

theorem SamePuts.queue (h : SamePuts s s') : s'.queue = s.queue := by
  simp only [Host.queue, h.pendingPuts, h.accepted, h.notified, h.answered]

/-- An accepted put arrives in the queue. -/
theorem queue_of_accepted (put : Accepted)
    (hputs : s'.worker.pendingPuts =
      s.worker.pendingPuts ++ [⟨put.key, put.value, put.respondTo⟩])
    (hafter : put.after = s.history.notified.length)
    (hahead : put.ahead = (s.worker.pendingPuts.filter fun other =>
      other.key = put.key && other.value = put.value).length)
    (hhistory : s'.history = { s.history with accepted := s.history.accepted ++ [put] }) :
    s'.queue = s.queue.arrive put.respondTo (put.key, put.value) := by
  have hline : put.ahead = (line s.queue.waiting (put.key, put.value)).length := by
    rw [hahead]
    simp [line, queue, List.filter_map, PendingPut.client, Function.comp_def]
  simp only [queue, Queue.arrive, hputs, hhistory, List.map_append, List.map_cons, List.map_nil,
    PendingPut.client, Accepted.arrival, hafter, List.length_map] at hline ⊢
  rw [hline]

/-- A notified report serves its command. -/
theorem queue_of_notified (report : ApplyReport)
    (hputs : s'.worker.pendingPuts = s.worker.pendingPuts.eraseP (·.isFor report))
    (hhistory : s'.history = { s.history with
      notified := s.history.notified ++ [report]
      answered := s.history.answered ++
        (s.worker.pendingPuts.find? (·.isFor report)).toList.map fun pending =>
          (pending.respondTo, s.history.notified.length) }) :
    s'.queue = s.queue.serve report.command := by
  have hfor : ((fun client : ChannelId × Command => decide (client.2 = report.command)) ∘
      PendingPut.client) = (·.isFor report) := by
    funext pending
    rw [Bool.eq_iff_iff, isFor_iff]
    simp
  simp only [queue, Queue.serve, hputs, hhistory, List.map_append, List.map_cons, List.map_nil,
    List.eraseP_map, List.find?_map, hfor, List.length_map]
  congr 2
  cases s.worker.pendingPuts.find? (·.isFor report) <;> rfl

/-! ### The clients of a host -/

/-- The channels of requests that the worker has not taken. -/
def requested (s : Host L) : List ChannelId := s.clientQueue.filterMap ClientRequest.respondTo

/-- Channels of requests that it has taken. -/
def Used (s : Host L) (ch : ChannelId) : Prop :=
  ch ∈ s.history.accepted.map Accepted.respondTo ∨ ch ∈ s.worker.replies.map Prod.fst

/-- The invariant: the pending puts form a fair queue, channels are new and are
used once, and an accepted put is sent its value when the queue answers it, and
nothing else. -/
structure Clients (s : Host L) : Prop where
  fifo : s.queue.Fifo
  distinct : s.requested.Nodup
  requested_lt : ∀ ch ∈ s.requested, ch < s.nextChannel
  used_lt : ∀ ch, s.Used ch → ch < s.nextChannel
  fresh : ∀ ch ∈ s.requested, ¬ s.Used ch
  answer : ∀ put ∈ s.history.accepted, ∀ reply, (put.respondTo, reply) ∈ s.worker.replies ↔
    reply = .put (.ok put.value) ∧ ∃ p, (put.respondTo, p) ∈ s.history.answered

theorem requested_cons {req : ClientRequest} {ch : ChannelId} (hch : req.respondTo = some ch)
    (hqueue : s.clientQueue = req :: s'.clientQueue) : s.requested = ch :: s'.requested := by
  rw [requested, hqueue, List.filterMap_cons_some hch]
  rfl

theorem SamePuts.used (h : SamePuts s s') (ch : ChannelId) : s'.Used ch ↔ s.Used ch := by
  simp only [Used, h.accepted, h.replies]

theorem Clients.same (h : s.Clients) (hsame : SamePuts s s') (hdistinct : s'.requested.Nodup)
    (hnext : s.nextChannel ≤ s'.nextChannel)
    (hrequested : ∀ ch ∈ s'.requested,
      ch ∈ s.requested ∨ s.nextChannel ≤ ch ∧ ch < s'.nextChannel) :
    s'.Clients where
  fifo := hsame.queue ▸ h.fifo
  distinct := hdistinct
  requested_lt := by
    intro ch hch
    rcases hrequested ch hch with hch | ⟨-, hch⟩
    · exact Nat.lt_of_lt_of_le (h.requested_lt ch hch) hnext
    · exact hch
  used_lt := fun ch hused =>
    Nat.lt_of_lt_of_le (h.used_lt ch ((hsame.used ch).mp hused)) hnext
  fresh := by
    intro ch hch hused
    have hused := (hsame.used ch).mp hused
    rcases hrequested ch hch with hch | ⟨hch, -⟩
    · exact h.fresh ch hch hused
    · exact absurd (h.used_lt ch hused) (Nat.not_lt.mpr hch)
  answer := by
    rw [hsame.accepted, hsame.replies, hsame.answered]
    exact h.answer

/-- The worker takes a request off its queue, and its channel becomes a used one. -/
theorem Clients.take (h : s.Clients) {req : ClientRequest} {ch : ChannelId}
    (hch : req.respondTo = some ch) (hqueue : s.clientQueue = req :: s'.clientQueue)
    (hnext : s'.nextChannel = s.nextChannel) (hused : ∀ ch', s'.Used ch' → s.Used ch' ∨ ch' = ch)
    (hfifo : s'.queue.Fifo)
    (hanswer : ∀ put ∈ s'.history.accepted, ∀ reply, (put.respondTo, reply) ∈ s'.worker.replies ↔
      reply = .put (.ok put.value) ∧ ∃ p, (put.respondTo, p) ∈ s'.history.answered) :
    s'.Clients := by
  have hrequested := requested_cons hch hqueue
  have hmem : ch ∈ s.requested := hrequested ▸ List.mem_cons_self
  have hdistinct : (ch :: s'.requested).Nodup := hrequested ▸ h.distinct
  have hsub : ∀ {ch'}, ch' ∈ s'.requested → ch' ∈ s.requested :=
    fun hch' => hrequested ▸ List.mem_cons_of_mem _ hch'
  refine ⟨hfifo, (List.nodup_cons.mp hdistinct).2, ?_, ?_, ?_, hanswer⟩
  · exact fun ch' hch' => hnext ▸ h.requested_lt ch' (hsub hch')
  · intro ch' hch'
    rw [hnext]
    rcases hused ch' hch' with hold | rfl
    · exact h.used_lt ch' hold
    · exact h.requested_lt ch' hmem
  · intro ch' hch' hch''
    rcases hused ch' hch'' with hold | rfl
    · exact h.fresh ch' (hsub hch') hold
    · exact (List.nodup_cons.mp hdistinct).1 hch'

/-- The channel of the first request was not used. -/
theorem Clients.not_used (h : s.Clients) {req : ClientRequest} {ch : ChannelId}
    (hch : req.respondTo = some ch) (hqueue : s.clientQueue = req :: s'.clientQueue) :
    ¬ s.Used ch :=
  h.fresh ch (requested_cons hch hqueue ▸ List.mem_cons_self)

theorem Clients.replied (h : s.Clients) {req : ClientRequest} {ch : ChannelId} {reply : Reply}
    (hch : req.respondTo = some ch) (hqueue : s.clientQueue = req :: s'.clientQueue)
    (hnext : s'.nextChannel = s.nextChannel)
    (hputs : s'.worker.pendingPuts = s.worker.pendingPuts)
    (hreplies : s'.worker.replies = s.worker.replies ++ [(ch, reply)])
    (hhistory : s'.history = s.history) : s'.Clients := by
  have hqueueEq : s'.queue = s.queue := by simp only [queue, hputs, hhistory]
  refine h.take hch hqueue hnext ?_ (hqueueEq ▸ h.fifo) ?_
  · intro ch' hch'
    simpa only [Used, hhistory, hreplies, List.map_append, List.mem_append, List.map_cons,
      List.map_nil, List.mem_singleton, or_assoc] using hch'
  · intro put hput reply'
    rw [hhistory] at hput ⊢
    -- the reply is for another request
    have hne : put.respondTo ≠ ch := fun heq =>
      h.not_used hch hqueue (.inl (heq ▸ List.mem_map.mpr ⟨put, hput, rfl⟩))
    rw [hreplies, List.mem_append, h.answer put hput reply']
    simp [hne]

theorem Clients.accepted (h : s.Clients) (put : Accepted)
    (hqueue : s.clientQueue = .put put.key put.value put.respondTo :: s'.clientQueue)
    (hnext : s'.nextChannel = s.nextChannel) (hreplies : s'.worker.replies = s.worker.replies)
    (hhistory : s'.history = { s.history with accepted := s.history.accepted ++ [put] })
    (harrive : s'.queue = s.queue.arrive put.respondTo (put.key, put.value)) : s'.Clients := by
  have hnew := h.not_used rfl hqueue
  have hfifo : s'.queue.Fifo := by
    rw [harrive]
    refine h.fifo.arrive (fun hwho => hnew (.inl ?_)) _
    simpa [queue, Accepted.arrival] using hwho
  refine h.take rfl hqueue hnext ?_ hfifo ?_
  · rintro ch (hch | hch)
    · rw [hhistory, List.map_append] at hch
      rcases List.mem_append.mp hch with hch | hch
      · exact .inl (.inl hch)
      · exact .inr (List.mem_singleton.mp hch)
    · exact .inl (.inr (hreplies ▸ hch))
  · intro other hother reply
    rw [hhistory] at hother ⊢
    rw [hreplies]
    rcases List.mem_append.mp hother with hother | hother
    · exact h.answer other hother reply
    · -- nothing was sent to the new put
      obtain rfl := List.mem_singleton.mp hother
      refine iff_of_false (fun hreply => hnew (.inr (List.mem_map.mpr ⟨_, hreply, rfl⟩))) ?_
      rintro ⟨-, p, hanswered⟩
      have harrived := h.fifo.arrived other.respondTo
        (List.mem_append_right _ (List.mem_map.mpr ⟨_, hanswered, rfl⟩))
      exact hnew (.inl (by simpa [queue, Accepted.arrival] using harrived))

/-- A step takes no request, and uses no new channel. -/
theorem Clients.keep (h : s.Clients) (hqueue : s'.clientQueue = s.clientQueue)
    (hnext : s'.nextChannel = s.nextChannel) (hused : ∀ ch, s'.Used ch → s.Used ch)
    (hfifo : s'.queue.Fifo)
    (hanswer : ∀ put ∈ s'.history.accepted, ∀ reply, (put.respondTo, reply) ∈ s'.worker.replies ↔
      reply = .put (.ok put.value) ∧ ∃ p, (put.respondTo, p) ∈ s'.history.answered) :
    s'.Clients := by
  have hrequested : s'.requested = s.requested := by rw [requested, hqueue, requested]
  exact
    { fifo := hfifo
      distinct := hrequested ▸ h.distinct
      requested_lt := hrequested ▸ hnext ▸ h.requested_lt
      used_lt := fun ch hch => hnext ▸ h.used_lt ch (hused ch hch)
      fresh := fun ch hch hch' => h.fresh ch (hrequested ▸ hch) (hused ch hch')
      answer := hanswer }

/-- A pending put was accepted, and was sent nothing. -/
theorem Clients.of_pending (h : s.Clients) {pending : PendingPut}
    (hpending : pending ∈ s.worker.pendingPuts) :
    pending.respondTo ∈ s.history.accepted.map Accepted.respondTo ∧
      pending.respondTo ∉ s.worker.replies.map Prod.fst := by
  have hwaits : pending.respondTo ∈ s.queue.waiting.map Prod.fst :=
    List.mem_map.mpr ⟨pending.client, List.mem_map.mpr ⟨pending, hpending, rfl⟩, rfl⟩
  have haccepted : pending.respondTo ∈ s.history.accepted.map Accepted.respondTo := by
    simpa [queue, Accepted.arrival, Function.comp_def] using
      h.fifo.arrived _ (List.mem_append_left _ hwaits)
  refine ⟨haccepted, fun hreplied => ?_⟩
  obtain ⟨put, hput, hch⟩ := List.mem_map.mp haccepted
  obtain ⟨⟨ch, reply⟩, hreply, rfl⟩ := List.mem_map.mp hreplied
  obtain ⟨-, p, hanswered⟩ := (h.answer put hput reply).mp (hch ▸ hreply)
  exact h.fifo.not_both hwaits (hch ▸ hanswered)

theorem Clients.notified (h : s.Clients) (report : ApplyReport)
    (hqueue : s'.clientQueue = s.clientQueue) (hnext : s'.nextChannel = s.nextChannel)
    (hreplies : s'.worker.replies = s.worker.replies ++
      (s.worker.pendingPuts.find? (·.isFor report)).toList.map fun pending =>
        (pending.respondTo, .put (.ok report.value)))
    (hhistory : s'.history = { s.history with
      notified := s.history.notified ++ [report]
      answered := s.history.answered ++
        (s.worker.pendingPuts.find? (·.isFor report)).toList.map fun pending =>
          (pending.respondTo, s.history.notified.length) })
    (hserve : s'.queue = s.queue.serve report.command) : s'.Clients := by
  have hfifo : s'.queue.Fifo := hserve ▸ h.fifo.serve report.command
  -- nobody waits for the command, or the first who does is answered
  cases hfind : s.worker.pendingPuts.find? (·.isFor report) with
  | none =>
    simp only [hfind, Option.toList_none, List.map_nil, List.append_nil] at hreplies hhistory
    refine h.keep hqueue hnext (fun ch hch => ?_) hfifo ?_
    · simpa only [Used, hreplies, hhistory] using hch
    · rw [hreplies, hhistory]
      exact h.answer
  | some pending =>
    simp only [hfind, Option.toList_some, List.map_cons, List.map_nil] at hreplies hhistory
    have hwaiting : (pending.respondTo, pending.client.2) ∈ s.queue.waiting :=
      List.mem_map.mpr ⟨pending, List.mem_of_find?_eq_some hfind, rfl⟩
    have hcommand : pending.client.2 = report.command := isFor_iff.mp (List.find?_some hfind)
    have hwaits : pending.respondTo ∈ s.queue.waiting.map Prod.fst :=
      List.mem_map.mpr ⟨_, hwaiting, rfl⟩
    obtain ⟨haccepted, hunanswered⟩ := h.of_pending (List.mem_of_find?_eq_some hfind)
    refine h.keep hqueue hnext ?_ hfifo fun put hput reply => ?_
    · rintro ch (hch | hch)
      · rw [hhistory] at hch
        exact .inl hch
      · rw [hreplies, List.map_append] at hch
        rcases List.mem_append.mp hch with hch | hch
        · exact .inr hch
        · rw [List.mem_singleton.mp hch]
          exact .inl haccepted
    · rw [hhistory] at hput ⊢
      have hold := h.answer put hput reply
      simp only [hreplies, List.mem_append, List.mem_singleton, Prod.mk.injEq]
      by_cases hch : put.respondTo = pending.respondTo
      · -- this put is answered: it was sent nothing before
        have hnever : ∀ p, (put.respondTo, p) ∉ s.history.answered := fun p =>
          hch ▸ h.fifo.not_both hwaits
        have hvalue : report.value = put.value := by
          have hkey := h.fifo.waiting_key (List.mem_map.mpr ⟨put, hput, rfl⟩)
            (hch.symm ▸ hwaiting : (put.respondTo, pending.client.2) ∈ s.queue.waiting)
          exact congrArg Prod.snd (hcommand.symm.trans hkey)
        have hsilent : (put.respondTo, reply) ∉ s.worker.replies := fun hreply =>
          hunanswered (hch ▸ List.mem_map_of_mem hreply)
        simp [← hch, hsilent, hnever, hvalue]
      · simp only [hch, hold]
        simp

/-- Every step of a host keeps the invariant. -/
theorem clients_step (h : s.Clients) (hstep : PutStep s s') : s'.Clients := by
  cases hstep with
  | quiet hqueue hnext hsame =>
    have hrequested : s'.requested = s.requested := by rw [requested, hqueue, requested]
    exact h.same hsame (hrequested ▸ h.distinct) (Nat.le_of_eq hnext.symm)
      fun ch hch => .inl (hrequested ▸ hch)
  | requested req hch hqueue hnext hsame =>
    -- a new request gets the next channel, and all others are older
    have hrequested : s'.requested = s.requested ++ req.respondTo.toList := by
      rw [requested, hqueue, List.filterMap_append]
      rcases hch with hch | hch <;> simp [hch, requested]
    refine h.same hsame ?_ (by rw [hnext]; exact Nat.le_succ _) fun ch hmem => ?_
    · rw [hrequested]
      rcases hch with hch | hch
      · simpa [hch] using h.distinct
      · rw [hch, Option.toList_some, List.nodup_append]
        refine ⟨h.distinct, List.nodup_singleton _, fun ch hmem ch' hmem' => ?_⟩
        rw [List.mem_singleton.mp hmem']
        exact Nat.ne_of_lt (h.requested_lt ch hmem)
    · rw [hrequested] at hmem
      rcases List.mem_append.mp hmem with hmem | hmem
      · exact .inl hmem
      · rcases hch with hch | hch
        · simp [hch] at hmem
        · rw [hch, Option.toList_some, List.mem_singleton] at hmem
          rw [hnext, hmem]
          exact .inr ⟨Nat.le_refl _, Nat.lt_succ_self _⟩
  | dropped req hqueue hnext hsame =>
    have hsub : s'.requested.Sublist s.requested := by
      rw [requested, requested, hqueue]
      exact (List.sublist_cons_self req _).filterMap _
    exact h.same hsame (h.distinct.sublist hsub) (Nat.le_of_eq hnext.symm)
      fun ch hch => .inl (hsub.subset hch)
  | replied req ch reply hch hqueue hnext hputs hreplies hhistory =>
    exact h.replied hch hqueue hnext hputs hreplies hhistory
  | accepted put hqueue hnext hputs hreplies hafter hahead hhistory =>
    exact h.accepted put hqueue hnext hreplies hhistory
      (queue_of_accepted put hputs hafter hahead hhistory)
  | notified report hqueue hnext hputs hreplies hhistory =>
    exact h.notified report hqueue hnext hreplies hhistory
      (queue_of_notified report hputs hhistory)

/-! ### Applied and notified reports -/

/-- The reports of a bundle are notified one by one; a crash leaves the rest. -/
def Notifies (s : Host L) : Prop :=
  match s.phase with
  | .crashed _ => s.history.notified <+: s.history.applied
  | phase => s.history.applied = s.history.notified ++ phase.unnotified

theorem Notifies.isPrefix (h : s.Notifies) : s.history.notified <+: s.history.applied := by
  unfold Notifies at h
  split at h
  · exact h
  · exact h ▸ List.prefix_append _ _

theorem Notifies.of_running (h : s.Notifies) (hrunning : s.phase.running = true) :
    s.history.applied = s.history.notified ++ s.phase.unnotified := by
  unfold Notifies at h
  split at h
  · rename_i hphase
    rw [hphase] at hrunning
    cases hrunning
  · exact h

/-- Outside a bundle, what was applied was notified. -/
theorem Notifies.applied_eq (h : s.Notifies) (hphase : s.phase = .selecting) :
    s.history.applied = s.history.notified := by
  simpa [hphase, Phase.unnotified] using h.of_running (by rw [hphase]; rfl)

theorem Notifies.mk (h : s.history.applied = s.history.notified ++ s.phase.unnotified) :
    s.Notifies := by
  unfold Notifies
  split
  · exact h ▸ List.prefix_append _ _
  · exact h

theorem notifies_step (h : s.Notifies) (hstep : BundleStep s s') : s'.Notifies := by
  cases hstep with
  | same hphase happlied hnotified =>
    unfold Notifies at h ⊢
    rw [hphase, happlied, hnotified]
    exact h
  | crashed fault hphase happlied hnotified =>
    unfold Notifies
    rw [hphase, happlied, hnotified]
    exact h.isPrefix
  | moved hrunning hphase happlied hnotified =>
    refine .mk ?_
    rw [happlied, hnotified, hphase]
    exact h.of_running hrunning
  | polled messages applied hphase hphase' happlied hnotified =>
    refine .mk ?_
    have heq : s.history.applied = s.history.notified := by
      simpa [hphase, Phase.unnotified] using h.of_running (by rw [hphase]; rfl)
    rw [happlied, hnotified, hphase', heq]
    rfl
  | notified report applied hphase hphase' happlied hnotified =>
    refine .mk ?_
    have heq := h.of_running (by rw [hphase]; rfl)
    rw [happlied, hnotified, hphase', heq, hphase, List.append_assoc]
    rfl

/-! ### Runs -/

variable {config : NodeConfig} {s₀ : Host L}

/-- Both invariants hold in every state of every run. -/
theorem clients_of_reachable (hspawn : spawnNode L config = .ok s₀)
    (h : Reachable step s₀ s) : s.Clients ∧ s.Notifies := by
  refine h.invariant (I := fun s => s.Clients ∧ s.Notifies) ?_ ?_
  · obtain ⟨-, node, -, rfl⟩ := spawnNode_eq_ok hspawn
    refine ⟨?_, .mk rfl⟩
    constructor
    · exact Queue.fifo_empty
    all_goals simp [requested, Used, Host.start, Worker.new]
  · rintro t e t' - ⟨hclients, hnotifies⟩ he
    exact ⟨clients_step hclients (putStep_of_step he),
      notifies_step hnotifies (bundleStep_of_step he)⟩

end Host

/-! ### Turns -/

/-- The entries with the key and the value of a put that were applied since it
was accepted. -/
def Accepted.matching (put : Accepted) (applied : List ApplyReport) : List ApplyReport :=
  (applied.drop put.after).filter fun report => report.key = put.key && report.value = put.value

/-- The report is of the entry that was appended for the put. -/
def Accepted.IsOwn (put : Accepted) (report : ApplyReport) : Prop :=
  report.index = put.index ∧ report.term = put.term ∧
    report.key = put.key ∧ report.value = put.value

theorem Accepted.length_matching (put : Accepted) (applied : List ApplyReport) :
    put.arrival.services (applied.map ApplyReport.command) = (put.matching applied).length := by
  rw [Arrival.services_map, matching]
  congr 1
  refine List.filter_congr fun report _ => ?_
  simp [arrival, ApplyReport.command]

/-- The turn of a put, among the reports that were applied. -/
theorem Accepted.servedAt_iff (put : Accepted) {applied : List ApplyReport} {p : ℕ} :
    put.arrival.ServedAt (applied.map ApplyReport.command) p ↔
      put.after ≤ p ∧ (∃ report, applied[p]? = some report ∧
        report.key = put.key ∧ report.value = put.value) ∧
        (put.matching (applied.take p)).length = put.ahead := by
  rw [Arrival.ServedAt, ← List.map_take, put.length_matching, List.getElem?_map]
  simp [Accepted.arrival, ApplyReport.command, Option.map_eq_some_iff]

theorem Host.Clients.turn {s : Host L} (h : s.Clients) (hnotifies : s.Notifies) {put : Accepted}
    (hput : put ∈ s.history.accepted) {p : ℕ} (hanswered : (put.respondTo, p) ∈ s.history.answered) :
    put.arrival.ServedAt (s.history.applied.map ApplyReport.command) p := by
  have harrival : put.arrival ∈ s.queue.arrivals := List.mem_map.mpr ⟨put, hput, rfl⟩
  obtain ⟨rest, hrest⟩ := hnotifies.isPrefix
  rw [← hrest, List.map_append]
  exact ((h.fifo.answered_iff harrival).mp hanswered).append _

section

/-! ### A deposed leader -/

open MiniRaft

def oneNode : NodeConfig where
  id := 1
  listenAddr := "127.0.0.1:7101"
  peers := .ofList [(1, "127.0.0.1:7101")]

def threeNodes : NodeConfig where
  id := 1
  listenAddr := "127.0.0.1:7101"
  peers := .ofList [(1, "127.0.0.1:7101"), (2, "127.0.0.1:7102"), (3, "127.0.0.1:7103")]

/-- Node 2 votes for node 1 in term 1. -/
def voteGranted : Message :=
  { Message.default with
    msgType := .msgRequestVoteResponse, receiver := 1, sender := 2, term := 1 }

/-- Node 2, the leader of term 2, sends its log: the empty entry of its election
and a put, both committed. -/
def newLog (value : String) : Message :=
  { Message.default with
    msgType := .msgAppend, receiver := 1, sender := 2, term := 2, commit := 2
    entries := [⟨.entryNormal, 2, 1, []⟩,
      ⟨.entryNormal, 2, 2, (Bincode.serialize (.put "k" value)).toOption.getD []⟩] }

abbrev deposedBy (value : String) : Library := miniRaft [voteGranted, newLog value]

/-- Node 1 campaigns, becomes the leader of term 1, cannot reach its followers,
accepts a put, and then gets the log of the next leader. -/
def deposedRun (value : String) : List Event :=
  [.campaign, .recvClient false] ++ List.replicate 6 (Event.process none) ++
  [.connection (frame (encodeToVec voteGranted)), .recvNetwork false, .process none,
    .process (some "connection refused"), .process (some "connection refused")] ++
    List.replicate 3 (Event.process none) ++
  [.put "k" "v", .recvClient false] ++ List.replicate 4 (Event.process none) ++
  [.connection (frame (encodeToVec (newLog value))), .recvNetwork false] ++
    List.replicate 6 (Event.process none)

end

section

variable {config : NodeConfig} {s₀ s : Host L}

/-- **How long a put waits.**  Whenever `process_ready` has finished, an accepted
put is pending with nothing sent to it as long as at most as many entries with
its key and value were applied since it was accepted as equal puts were pending
then; with the next one it is removed and sent `Ok`.  Its log position plays no
part in this, and it is never sent an error. -/
theorem put_pending_until_turn (hspawn : spawnNode L config = .ok s₀)
    (h : Reachable Host.step s₀ s) (hphase : s.phase = .selecting) {put : Accepted}
    (hput : put ∈ s.history.accepted) :
    ((put.matching s.history.applied).length ≤ put.ahead →
      put.respondTo ∈ s.worker.pendingPuts.map PendingPut.respondTo ∧
        ∀ reply, (put.respondTo, reply) ∉ s.worker.replies) ∧
    (put.ahead < (put.matching s.history.applied).length →
      put.respondTo ∉ s.worker.pendingPuts.map PendingPut.respondTo ∧
        ∀ reply, (put.respondTo, reply) ∈ s.worker.replies ↔ reply = .put (.ok put.value)) := by
  obtain ⟨hclients, hnotifies⟩ := Host.clients_of_reachable hspawn h
  have harrival : put.arrival ∈ s.queue.arrivals := List.mem_map.mpr ⟨put, hput, rfl⟩
  have hservices : put.arrival.services s.queue.served =
      (put.matching s.history.applied).length := by
    rw [← put.length_matching, hnotifies.applied_eq hphase]
    rfl
  have hwaiting : put.respondTo ∈ s.worker.pendingPuts.map PendingPut.respondTo ↔
      (put.matching s.history.applied).length ≤ put.ahead := by
    have hwho := hclients.fifo.waiting_iff harrival
    rw [hservices] at hwho
    simpa [Host.queue, Function.comp_def, PendingPut.client, Accepted.arrival] using hwho
  refine ⟨fun hle => ⟨hwaiting.mpr hle, fun reply hreply => ?_⟩, fun hlt =>
    ⟨fun hmem => absurd (hwaiting.mp hmem) (Nat.not_le.mpr hlt), fun reply => ?_⟩⟩
  · obtain ⟨-, p, hanswered⟩ := (hclients.answer put hput reply).mp hreply
    have hturn := (hclients.fifo.answered_iff harrival).mp hanswered
    exact absurd (hservices ▸ hle) (Nat.not_le.mpr hturn.ahead_lt)
  · -- its turn has come, so the queue has answered it
    rw [hclients.answer put hput reply]
    refine and_iff_left ?_
    rcases hclients.fifo.fair put.arrival harrival with ⟨hle, -⟩ | ⟨p, -, hanswered⟩
    · exact absurd (hservices ▸ hle) (Nat.not_le.mpr hlt)
    · exact ⟨p, hanswered⟩

/-- The put of a deposed leader, after an entry of the next leader was applied at
its index: no entry with its key and value was applied, and it is pending. -/
theorem put_pending_until_turn_deposed : ∃ s₀ s put, spawnNode (deposedBy "w") threeNodes = .ok s₀ ∧
    run Host.step s₀ (deposedRun "w") = some s ∧ put ∈ s.history.accepted ∧
    put.respondTo ∈ s.worker.pendingPuts.map PendingPut.respondTo ∧
    ∀ reply, (put.respondTo, reply) ∉ s.worker.replies := by
  have hrun : (runHost (deposedBy "w") threeNodes (deposedRun "w")).map (fun s =>
      (s.phase.isSelecting, s.history.accepted, s.history.applied)) =
      some (true, [⟨1, "k", "v", 2, 1, 0, 0⟩], [⟨1, "k", "w", 2, 2⟩]) := by decide
  obtain ⟨s, hs, hfacts⟩ := Option.map_eq_some_iff.mp hrun
  obtain ⟨s₀, hspawn, hrun⟩ := runHost_eq_some.mp hs
  simp only [Prod.mk.injEq] at hfacts
  obtain ⟨hphase, haccepted, happlied⟩ := hfacts
  have hput : ⟨1, "k", "v", 2, 1, 0, 0⟩ ∈ s.history.accepted := by
    rw [haccepted]
    decide
  have hpending := (put_pending_until_turn hspawn ⟨_, hrun⟩ (Phase.isSelecting_iff.mp hphase)
    hput).1 (by rw [happlied]; decide)
  exact ⟨s₀, s, _, hspawn, hrun, hput, hpending⟩

/-- What would have to hold for no put to wait in vain: a put at whose log index
an entry of another term was applied is not pending, and was sent an error. -/
def Host.NoVainWait (s : Host L) : Prop :=
  s.phase.isSelecting = true → ∀ put ∈ s.history.accepted,
    (∃ entry ∈ s.history.delivered, entry.index = put.index ∧ entry.term ≠ put.term) →
    put.respondTo ∉ s.worker.pendingPuts.map PendingPut.respondTo ∧
      ∃ chain, (put.respondTo, .put (.error chain)) ∈ s.worker.replies

/-- The leader of term 1 is cut off with a put that it has accepted at index 2,
and the leader of term 2 overwrites its log with a put of another value: when all
is processed, the put is still pending. -/
theorem overwritten_put_waits : ∃ s₀, spawnNode (deposedBy "w") threeNodes = .ok s₀ ∧
    ¬ Along Host.step Host.NoVainWait s₀ (deposedRun "w") := by
  have hrun : (runHost (deposedBy "w") threeNodes (deposedRun "w")).map (fun s =>
      (s.phase.isSelecting, s.history.accepted, s.history.delivered.map fun entry =>
        (entry.index, entry.term), s.worker.pendingPuts)) =
      some (true, [⟨1, "k", "v", 2, 1, 0, 0⟩], [(1, 2), (2, 2)], [⟨"k", "v", 1⟩]) := by decide
  obtain ⟨s, hs, hfacts⟩ := Option.map_eq_some_iff.mp hrun
  obtain ⟨s₀, hspawn, hrun⟩ := runHost_eq_some.mp hs
  simp only [Prod.mk.injEq] at hfacts
  obtain ⟨hphase, haccepted, hdelivered, hpending⟩ := hfacts
  refine ⟨s₀, hspawn, fun hall => ?_⟩
  have hmem : ((2, 2) : ℕ × ℕ) ∈
      s.history.delivered.map fun entry => (entry.index, entry.term) := by
    rw [hdelivered]
    decide
  obtain ⟨entry, hentry, heq⟩ := List.mem_map.mp hmem
  rw [Prod.mk.injEq] at heq
  have hdecided := (hall.final hrun) hphase ⟨1, "k", "v", 2, 1, 0, 0⟩ (by rw [haccepted]; decide)
    ⟨entry, hentry, heq.1, by rw [heq.2]; decide⟩
  exact hdecided.1 (by rw [hpending]; decide)

/-- **Which entry answers a put.**  A put is sent `Ok` and nothing else, when an
entry with its key and value is applied since it was accepted and exactly as
many such entries were applied before that one as equal puts were pending.  No
entry answers two puts; and the entry is the one that was appended for the put
iff that many such entries were applied before the put's own. -/
theorem put_answered_in_turn (hspawn : spawnNode L config = .ok s₀)
    (h : Reachable Host.step s₀ s) {put : Accepted} (hput : put ∈ s.history.accepted) :
    (∀ reply, (put.respondTo, reply) ∈ s.worker.replies ↔
      reply = .put (.ok put.value) ∧ ∃ p, (put.respondTo, p) ∈ s.history.answered) ∧
    ∀ p, (put.respondTo, p) ∈ s.history.answered →
      ∃ report, s.history.applied[p]? = some report ∧ put.after ≤ p ∧
        report.key = put.key ∧ report.value = put.value ∧
        (put.matching (s.history.applied.take p)).length = put.ahead ∧
        (∀ ch, (ch, p) ∈ s.history.answered → ch = put.respondTo) ∧
        ∀ q own, s.history.applied[q]? = some own → put.after ≤ q → put.IsOwn own →
          (q = p ↔ (put.matching (s.history.applied.take q)).length = put.ahead) := by
  obtain ⟨hclients, hnotifies⟩ := Host.clients_of_reachable hspawn h
  refine ⟨hclients.answer put hput, fun p hanswered => ?_⟩
  have hturn := hclients.turn hnotifies hput hanswered
  obtain ⟨hafter, ⟨report, hreport, hkey, hvalue⟩, hahead⟩ := put.servedAt_iff.mp hturn
  refine ⟨report, hreport, hafter, hkey, hvalue, hahead,
    fun ch hch => hclients.fifo.answers_unique hch hanswered, fun q own hown hq hisOwn => ?_⟩
  -- a client has one turn, so the own entry answers iff the turn comes there
  constructor
  · rintro rfl
    exact hahead
  · intro hcount
    exact (put.servedAt_iff.mpr ⟨hq, ⟨own, hown, hisOwn.2.2⟩, hcount⟩).unique hturn

/-- On a node that is the only voter, a put is answered by the first report. -/
theorem put_answered_in_turn_one_node : ∃ s₀ s put,
    spawnNode (MiniRaft.miniRaft []) oneNode = .ok s₀ ∧
    run Host.step s₀ ([.campaign, .recvClient false] ++ List.replicate 4 (Event.process none) ++
      [.put "k" "v", .recvClient true] ++ List.replicate 5 (Event.process none)) = some s ∧
    put ∈ s.history.accepted ∧ (put.respondTo, .put (.ok put.value)) ∈ s.worker.replies ∧
    ∃ report, s.history.applied[0]? = some report ∧ report.key = put.key := by
  have hrun : (runHost (MiniRaft.miniRaft []) oneNode
      ([.campaign, .recvClient false] ++ List.replicate 4 (Event.process none) ++
        [.put "k" "v", .recvClient true] ++ List.replicate 5 (Event.process none))).map (fun s =>
      (s.history.accepted, s.history.answered)) =
      some ([⟨1, "k", "v", 2, 1, 0, 0⟩], [(1, 0)]) := by decide
  obtain ⟨s, hs, hfacts⟩ := Option.map_eq_some_iff.mp hrun
  obtain ⟨s₀, hspawn, hrun⟩ := runHost_eq_some.mp hs
  rw [Prod.mk.injEq] at hfacts
  obtain ⟨haccepted, hanswered⟩ := hfacts
  have hput : ⟨1, "k", "v", 2, 1, 0, 0⟩ ∈ s.history.accepted := by
    rw [haccepted]
    decide
  have hzero : ((1, 0) : ChannelId × ℕ) ∈ s.history.answered := by
    rw [hanswered]
    decide
  obtain ⟨hreply, hturn⟩ := put_answered_in_turn hspawn ⟨_, hrun⟩ hput
  obtain ⟨report, hreport, -, hkey, -⟩ := hturn 0 hzero
  exact ⟨s₀, s, _, hspawn, hrun, hput, (hreply _).mpr ⟨rfl, 0, hzero⟩, report, hreport, hkey⟩

/-- What would have to hold for acknowledgements to belong to the requests' own
entries: a put that was sent `Ok` was answered on the report of its entry. -/
def Host.OwnAnswers (s : Host L) : Prop :=
  ∀ put ∈ s.history.accepted, ∀ value,
    (put.respondTo, .put (.ok value)) ∈ s.worker.replies → ∀ p report,
      (put.respondTo, p) ∈ s.history.answered → s.history.applied[p]? = some report →
      report.index = put.index ∧ report.term = put.term

/-- The leader of term 1 is cut off with a put that it has accepted at index 2,
and the leader of term 2 overwrites its log with a put of the same key and
value: the put is answered `Ok` on the entry of the other leader. -/
theorem answered_by_other_leader : ∃ s₀, spawnNode (deposedBy "v") threeNodes = .ok s₀ ∧
    ¬ Along Host.step Host.OwnAnswers s₀ (deposedRun "v") := by
  have hrun : (runHost (deposedBy "v") threeNodes (deposedRun "v")).map (fun s =>
      ((s.history.accepted, s.history.answered), s.history.applied,
        s.worker.replies.filterMap fun reply => reply.2.acknowledged.map (reply.1, ·))) =
      some (([⟨1, "k", "v", 2, 1, 0, 0⟩], [(1, 0)]), [⟨1, "k", "v", 2, 2⟩], [(1, "v")]) := by
    decide
  obtain ⟨s, hs, hfacts⟩ := Option.map_eq_some_iff.mp hrun
  obtain ⟨s₀, hspawn, hrun⟩ := runHost_eq_some.mp hs
  simp only [Prod.mk.injEq] at hfacts
  obtain ⟨⟨haccepted, hanswered⟩, happlied, hreplies⟩ := hfacts
  refine ⟨s₀, hspawn, fun hall => ?_⟩
  have hreply : (1, .put (.ok "v")) ∈ s.worker.replies :=
    Reply.mem_of_acknowledged (by rw [hreplies]; decide)
  have hown := (hall.final hrun) ⟨1, "k", "v", 2, 1, 0, 0⟩ (by rw [haccepted]; decide) "v" hreply
    0 ⟨1, "k", "v", 2, 2⟩ (by rw [hanswered]; decide) (by rw [happlied]; rfl)
  exact absurd hown.2 (by decide)

end

end Raft
