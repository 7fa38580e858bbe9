/-
The calls of a `NodeHandle` (`runtime.rs`).

A method of the handle sends a request with a channel of its own and waits for what comes
through that channel.  The channel is closed when nobody holds its sender any more: the
worker has dropped the request, or it is gone together with its queue and its pending puts.

* `Host.requests` — the requests that were made in a run;
* `Host.result` — what a call has returned, if it does not wait;
* `calls_conserved` — every request is in one place: answered, pending, queued, or lost with
  the worker;
* `calls_return` — a call waits only for a running worker, what it returns fits the request,
  and what it has returned stays.
-/
import AsyncRust.RaftPuts

namespace Raft

open Runs

variable {L : Library}

/-! ### Calls -/

/-- The reply is one to such a request; a put is acknowledged with its value. -/
def Reply.Answers : Reply → ClientRequest → Prop
  | put (.ok acknowledged), .put _ value _ => acknowledged = value
  | put (.error _), .put _ _ _ => True
  | get _, .get _ _ => True
  | status _, .status _ => True
  | campaign _, .campaign _ => True
  | _, _ => False

/-- The context of the error when the response channel is closed. -/
def ClientRequest.closed : ClientRequest → String
  | put _ _ _ => "put response channel closed"
  | get _ _ => "get response channel closed"
  | status _ => "status response channel closed"
  | campaign _ => "campaign response channel closed"
  | shutdown => ""

/-- What the worker replies at once fits the request. -/
theorem answers_of_handleClientRequest {w w' : Worker L} {req : ClientRequest} {ch : ChannelId}
    {reply : Reply} (h : w.handleClientRequest req = .ok (true, w'))
    (hreplies : w'.replies = w.replies ++ [(ch, reply)]) : reply.Answers req := by
  -- the last reply is this one
  have hlast : ∀ {ch' : ChannelId} {reply' : Reply}, w'.replies = w.replies ++ [(ch', reply')] →
      reply = reply' := fun hreplies' =>
    (Prod.mk.inj (List.singleton_inj.mp (List.append_cancel_left
      (hreplies.symm.trans hreplies')))).2
  cases req with
  | put key value ch' =>
    simp only [Worker.handleClientRequest] at h
    split at h
    · cases h
      exact hlast rfl ▸ trivial
    · split at h
      · cases h
        exact absurd (congrArg List.length hreplies) (by simp)
      · cases h
        exact hlast rfl ▸ trivial
      · cases h
  | get key ch' =>
    cases h
    exact hlast rfl ▸ trivial
  | status ch' =>
    cases h
    exact hlast rfl ▸ trivial
  | campaign ch' =>
    simp only [Worker.handleClientRequest] at h
    split at h
    · cases h
      exact hlast rfl ▸ trivial
    · cases h
      exact hlast rfl ▸ trivial
    · cases h
  | shutdown => cases h

namespace Host

/-- The request that a method of the handle sends. -/
def asked (s : Host L) : Event → Option ClientRequest
  | .put key value => some (.put key value s.nextChannel)
  | .get key => some (.get key s.nextChannel)
  | .status => some (.status s.nextChannel)
  | .campaign => some (.campaign s.nextChannel)
  | .shutdown => some .shutdown
  | _ => none

/-- The requests that are made in a run, in order. -/
def requests (s : Host L) (es : List Event) : List ClientRequest := collect step asked s es

/-- Somebody still holds the sender of the channel. -/
def Held (s : Host L) (ch : ChannelId) : Prop :=
  s.phase.running = true ∧ (ch ∈ s.clientQueue.filterMap ClientRequest.respondTo ∨
    ch ∈ s.worker.pendingPuts.map PendingPut.respondTo)

instance (s : Host L) (ch : ChannelId) : Decidable (s.Held ch) :=
  inferInstanceAs (Decidable (_ ∧ _))

/-- What the call that waits on `ch` for a reply to `req` has returned. -/
def result (s : Host L) (req : ClientRequest) (ch : ChannelId) :
    Option (Except (List String) Reply) :=
  match s.worker.replies.find? fun reply => reply.1 = ch with
  | some (_, reply) => some (.ok reply)
  | none =>
    if s.Held ch then none
    else some (.error [req.closed, "receiving on an empty and disconnected channel"])

/-! ### One step -/

/-- What a step does to the requests. -/
inductive CallStep (s : Host L) (e : Event) (s' : Host L) : Prop
  | quiet (hasked : s.asked e = none) (hrunning : s'.phase.running = true → s.phase.running = true)
    (hqueue : s'.clientQueue = s.clientQueue) (hnext : s'.nextChannel = s.nextChannel)
    (hputs : s'.worker.pendingPuts = s.worker.pendingPuts)
    (hreplies : s'.worker.replies = s.worker.replies)
  | asked (req : ClientRequest) (hasked : s.asked e = some req)
    (hch : req.respondTo = none ∨ req.respondTo = some s.nextChannel)
    (hrunning : s.phase.running = true)
    (heq : s' = { s with
      clientQueue := s.clientQueue ++ [req], nextChannel := s.nextChannel + 1 })
  | dropped (req : ClientRequest) (hasked : s.asked e = none) (hrunning : s.phase.running = true)
    (hgone : s'.phase.running = false) (hqueue : s.clientQueue = req :: s'.clientQueue)
    (hnext : s'.nextChannel = s.nextChannel)
    (hputs : s'.worker.pendingPuts = s.worker.pendingPuts)
    (hreplies : s'.worker.replies = s.worker.replies)
  | handled (req : ClientRequest) (hasked : s.asked e = none) (hrunning : s.phase.running = true)
    (hqueue : s.clientQueue = req :: s'.clientQueue) (hnext : s'.nextChannel = s.nextChannel)
    (hhandled : s.worker.Handled req s'.worker)
    (hanswers : ∀ ch reply, s'.worker.replies = s.worker.replies ++ [(ch, reply)] →
      reply.Answers req)
  | notified (report : ApplyReport) (hasked : s.asked e = none)
    (hrunning : s.phase.running = true)
    (hqueue : s'.clientQueue = s.clientQueue) (hnext : s'.nextChannel = s.nextChannel)
    (hputs : s'.worker.pendingPuts = s.worker.pendingPuts.eraseP (·.isFor report))
    (hreplies : s'.worker.replies = s.worker.replies ++
      (s.worker.pendingPuts.find? (·.isFor report)).toList.map fun pending =>
        (pending.respondTo, .put (.ok report.value)))

variable {s s' : Host L} {e : Event}

theorem callStep_of_recvClient {ticked : Bool} (hphase : s.phase = .selecting)
    (h : s.recvClient ticked = some s') : s.CallStep (.recvClient ticked) s' := by
  have hrunning : s.phase.running = true := by rw [hphase]; rfl
  unfold recvClient at h
  split at h
  · split at h <;> cases h
    exact .quiet rfl (fun _ => hrunning) rfl rfl rfl rfl
  · rename_i req clientQueue hqueue
    split at h
    · cases h
      exact .dropped req rfl hrunning rfl hqueue rfl rfl rfl
    · rename_i worker hhandle
      cases h
      obtain ⟨rfl, rfl⟩ := shutdown_of_handleClientRequest hhandle
      exact .dropped .shutdown rfl hrunning rfl hqueue rfl rfl rfl
    · rename_i worker hhandle
      cases h
      obtain ⟨hputs, hreplies⟩ := afterSelect_frame
        { s with worker, clientQueue, history := s.history.accept s.worker worker } ticked
      refine .handled req rfl hrunning hqueue rfl ?_ fun ch reply hmore =>
        answers_of_handleClientRequest hhandle (hreplies.symm.trans hmore)
      cases handled_of_handleClientRequest hhandle with
      | replied ch reply hch hputs' hreplies' =>
        exact .replied ch reply hch (hputs.trans hputs') (hreplies.trans hreplies')
      | accepted key value ch hreq hputs' hreplies' =>
        exact .accepted key value ch hreq (hputs.trans hputs') (hreplies.trans hreplies')

theorem callStep_of_recvNetwork {ticked : Bool} (hphase : s.phase = .selecting)
    (h : s.recvNetwork ticked = some s') : s.CallStep (.recvNetwork ticked) s' := by
  have hrunning : s'.phase.running = true → s.phase.running = true := fun _ => by rw [hphase]; rfl
  unfold recvNetwork at h
  split at h
  · split at h <;> cases h
    exact .quiet rfl hrunning rfl rfl rfl rfl
  · split at h
    · cases h
      exact .quiet rfl hrunning rfl rfl rfl rfl
    · cases h
      cases ticked <;> exact .quiet rfl hrunning rfl rfl rfl rfl

theorem callStep_poll (sendErr : Option String) (hphase : s.phase = .polling) :
    s.CallStep (.process sendErr) s.poll := by
  unfold poll
  split
  · exact .quiet rfl (fun _ => by rw [hphase]; rfl) rfl rfl rfl rfl
  · refine .quiet rfl (fun _ => by rw [hphase]; rfl) rfl rfl ?_ ?_
    · exact logRoleChange_pendingPuts _
    · exact logRoleChange_replies _
  · exact .quiet rfl (fun _ => by rw [hphase]; rfl) rfl rfl rfl rfl

theorem callStep_dispatch {messages : List L.Message} {applied : List ApplyReport}
    (sendErr : Option String) (hphase : s.phase = .dispatching messages applied) :
    s.CallStep (.process sendErr) (s.dispatch messages applied sendErr) := by
  unfold dispatch
  split
  · exact .quiet rfl (fun _ => by rw [hphase]; rfl) rfl rfl rfl rfl
  · split
    · exact .quiet rfl (fun _ => by rw [hphase]; rfl) rfl rfl rfl rfl
    · rename_i worker hdispatch
      obtain ⟨hputs, hreplies⟩ := dispatchMessage_frame hdispatch
      exact .quiet rfl (fun _ => by rw [hphase]; rfl) rfl rfl hputs hreplies

theorem callStep_notify {applied : List ApplyReport} (sendErr : Option String)
    (hphase : s.phase = .notifying applied) :
    s.CallStep (.process sendErr) (s.notify applied) := by
  have hrunning : s.phase.running = true := by rw [hphase]; rfl
  cases applied with
  | nil => exact .quiet rfl (fun _ => hrunning) rfl rfl rfl rfl
  | cons report applied =>
    exact .notified report rfl hrunning rfl rfl (notifyPut_pendingPuts _ _) (notifyPut_replies _ _)

theorem callStep_receive (s : Host L) (bytes : List UInt8) :
    s.CallStep (.connection bytes) (s.receive bytes) := by
  unfold receive
  split
  · exact .quiet rfl id rfl rfl rfl rfl
  · split <;> exact .quiet rfl id rfl rfl rfl rfl

theorem callStep_of_request {req : ClientRequest} (hasked : s.asked e = some req)
    (hch : req.respondTo = none ∨ req.respondTo = some s.nextChannel)
    (h : s.request req = some s') : s.CallStep e s' := by
  unfold request at h
  split at h <;> cases h
  rename_i hguard
  exact .asked req hasked hch hguard.2 rfl

theorem callStep_of_step (h : s.step e = some s') : s.CallStep e s' := by
  cases e with
  | put key value => exact callStep_of_request rfl (.inr rfl) h
  | get key => exact callStep_of_request rfl (.inr rfl) h
  | status => exact callStep_of_request rfl (.inr rfl) h
  | campaign => exact callStep_of_request rfl (.inr rfl) h
  | shutdown => exact callStep_of_request rfl (.inl rfl) h
  | dropHandle | dropListener =>
    simp only [step] at h
    split at h <;> cases h
    exact .quiet rfl id rfl rfl rfl rfl
  | connection bytes =>
    simp only [step] at h
    split at h <;> cases h
    exact callStep_receive s bytes
  | recvClient ticked =>
    simp only [step] at h
    split at h
    · exact callStep_of_recvClient ‹_› h
    · cases h
  | recvNetwork ticked =>
    simp only [step] at h
    split at h
    · exact callStep_of_recvNetwork ‹_› h
    · cases h
  | timeout ticked =>
    simp only [step] at h
    split at h
    · rename_i hphase
      unfold timeout at h
      split at h <;> cases h
      obtain ⟨hputs, hreplies⟩ := afterSelect_frame s ticked
      exact .quiet rfl (fun _ => by rw [hphase]; rfl) rfl rfl hputs hreplies
    · cases h
  | process sendErr =>
    simp only [step] at h
    split at h <;> cases h
    · exact callStep_poll sendErr ‹_›
    · exact callStep_dispatch sendErr ‹_›
    · exact callStep_notify sendErr ‹_›

end Host

/-- The channels of requests. -/
def channels (reqs : List ClientRequest) : List ChannelId := reqs.filterMap ClientRequest.respondTo

theorem channels_append (reqs reqs' : List ClientRequest) :
    channels (reqs ++ reqs') = channels reqs ++ channels reqs' := List.filterMap_append

theorem mem_channels {reqs : List ClientRequest} {ch : ChannelId} :
    ch ∈ channels reqs ↔ ∃ req ∈ reqs, req.respondTo = some ch := List.mem_filterMap

theorem perm_eraseP {α : Type*} {p : α → Bool} {l : List α} {a : α} (h : l.find? p = some a) :
    l.Perm (a :: l.eraseP p) := by
  obtain ⟨ha, before, after, rfl, hbefore⟩ := List.find?_eq_some_iff_append.mp h
  have hnot : ∀ b ∈ before, ¬ p b = true := fun b hb => by simpa using hbefore b hb
  rw [List.eraseP_append_right _ hnot, List.eraseP_cons_of_pos ha]
  exact List.perm_middle

/-- Every request that was made is in one place. -/
structure CallsAt (reqs : List ClientRequest) (s : Host L) : Prop where
  issued : ∀ ch ∈ channels reqs, ch < s.nextChannel
  nodup : (channels reqs).Nodup
  /-- The requests in the queue are the last ones; the others are answered, pending, or
  lost with the worker. -/
  places : ∃ taken lost, reqs = taken ++ s.clientQueue ∧
    (channels taken).Perm
      (s.worker.replies.map Prod.fst ++ (s.worker.pendingPuts.map PendingPut.respondTo ++ lost)) ∧
    (s.phase.running = true → lost = []) ∧ lost.length ≤ 1
  answers : ∀ ch reply, (ch, reply) ∈ s.worker.replies →
    ∃ req ∈ reqs, req.respondTo = some ch ∧ reply.Answers req
  pending : ∀ put ∈ s.worker.pendingPuts, .put put.key put.value put.respondTo ∈ reqs

section
variable {reqs : List ClientRequest} {s s' : Host L} {e : Event}

theorem CallsAt.step (h : CallsAt reqs s) (he : s.step e = some s') :
    CallsAt (reqs ++ (s.asked e).toList) s' := by
  obtain ⟨taken, lost, hreqs, hperm, hlost, hone⟩ := h.places
  cases Host.callStep_of_step he with
  | quiet hasked hrunning hqueue hnext hputs hreplies =>
    rw [hasked, Option.toList_none, List.append_nil]
    refine ⟨hnext ▸ h.issued, h.nodup, ⟨taken, lost, hqueue ▸ hreqs, ?_,
      fun hr => hlost (hrunning hr), hone⟩, hreplies ▸ h.answers, hputs ▸ h.pending⟩
    rw [hputs, hreplies]
    exact hperm
  | asked req hasked hch hrunning heq =>
    subst heq
    rw [hasked, Option.toList_some]
    have hnew : channels [req] = [] ∨ channels [req] = [s.nextChannel] := by
      rcases hch with hch | hch
      · exact .inl (by simp [channels, hch])
      · exact .inr (by simp [channels, hch])
    refine ⟨fun ch hmem => ?_, ?_, ⟨taken, lost, by rw [hreqs, List.append_assoc], hperm, hlost,
      hone⟩, fun ch reply hmem => ?_, fun put hmem => List.mem_append_left _ (h.pending put hmem)⟩
    · rw [channels_append, List.mem_append] at hmem
      rcases hmem with hmem | hmem
      · exact Nat.lt_succ_of_lt (h.issued ch hmem)
      · rcases hnew with hnew | hnew <;> rw [hnew] at hmem
        · cases hmem
        · exact List.mem_singleton.mp hmem ▸ Nat.lt_succ_self _
    · rw [channels_append, List.nodup_append]
      refine ⟨h.nodup, ?_, fun ch hmem ch' hmem' => ?_⟩
      · rcases hnew with hnew | hnew <;> simp [hnew]
      · rcases hnew with hnew | hnew <;> rw [hnew] at hmem'
        · cases hmem'
        · rw [List.mem_singleton.mp hmem']
          exact (h.issued ch hmem).ne
    · obtain ⟨req', hreq', hfits⟩ := h.answers ch reply hmem
      exact ⟨req', List.mem_append_left _ hreq', hfits⟩
  | dropped req hasked hrunning hgone hqueue hnext hputs hreplies =>
    rw [hasked, Option.toList_none, List.append_nil]
    obtain rfl := hlost hrunning
    refine ⟨hnext ▸ h.issued, h.nodup, ⟨taken ++ [req], req.respondTo.toList, ?_, ?_, ?_, ?_⟩,
      hreplies ▸ h.answers, hputs ▸ h.pending⟩
    · rw [hreqs, hqueue, List.append_assoc]
      rfl
    · rw [channels_append, hputs, hreplies, ← List.append_assoc]
      rw [List.append_nil] at hperm
      refine hperm.append ?_
      cases hch : req.respondTo <;> simp [channels, hch]
    · intro hr
      rw [hgone] at hr
      cases hr
    · cases req.respondTo <;> simp
  | handled req hasked hrunning hqueue hnext hhandled hanswers =>
    rw [hasked, Option.toList_none, List.append_nil]
    obtain rfl := hlost hrunning
    have hreq : req ∈ reqs := by rw [hreqs, hqueue]; simp
    have htaken : reqs = (taken ++ [req]) ++ s'.clientQueue := by
      rw [hreqs, hqueue, List.append_assoc]
      rfl
    rw [List.append_nil] at hperm
    cases hhandled with
    | replied ch reply hch hputs hreplies =>
      refine ⟨hnext ▸ h.issued, h.nodup, ⟨taken ++ [req], [], htaken, ?_, fun _ => rfl,
        Nat.zero_le _⟩, fun ch' reply' hmem => ?_, hputs ▸ h.pending⟩
      · rw [channels_append, hputs, hreplies, List.map_append, List.append_nil]
        have hone : channels [req] = [ch] := by simp [channels, hch]
        rw [hone, List.append_assoc]
        refine (hperm.append_right [ch]).trans ?_
        rw [List.append_assoc]
        exact List.Perm.append_left _ List.perm_append_comm
      · rw [hreplies, List.mem_append, List.mem_singleton] at hmem
        rcases hmem with hmem | hmem
        · exact h.answers ch' reply' hmem
        · obtain ⟨rfl, rfl⟩ := Prod.mk.inj hmem
          exact ⟨req, hreq, hch, hanswers _ _ hreplies⟩
    | accepted key value ch hput hputs hreplies =>
      subst hput
      refine ⟨hnext ▸ h.issued, h.nodup,
        ⟨taken ++ [.put key value ch], [], htaken, ?_, fun _ => rfl, Nat.zero_le _⟩,
        hreplies ▸ h.answers, fun put hmem => ?_⟩
      · rw [channels_append, hputs, hreplies, List.map_append, List.append_nil, ← List.append_assoc]
        exact hperm.append_right _
      · rw [hputs, List.mem_append, List.mem_singleton] at hmem
        rcases hmem with hmem | rfl
        · exact h.pending put hmem
        · exact hreq
  | notified report hasked hrunning hqueue hnext hputs hreplies =>
    rw [hasked, Option.toList_none, List.append_nil]
    have hpending : ∀ put ∈ s'.worker.pendingPuts,
        ClientRequest.put put.key put.value put.respondTo ∈ reqs := by
      intro put hmem
      rw [hputs] at hmem
      exact h.pending put (List.mem_of_mem_eraseP hmem)
    cases hfind : s.worker.pendingPuts.find? (·.isFor report) with
    | none =>
      rw [hfind] at hreplies
      have hnone : s.worker.pendingPuts.eraseP (·.isFor report) = s.worker.pendingPuts :=
        List.eraseP_of_forall_not fun put hmem => by
          simpa using List.find?_eq_none.mp hfind put hmem
      rw [hnone] at hputs
      have hsame : s'.worker.replies = s.worker.replies := hreplies.trans (List.append_nil _)
      refine ⟨hnext ▸ h.issued, h.nodup, ⟨taken, lost, hqueue ▸ hreqs, ?_, ?_, hone⟩,
        hsame ▸ h.answers, hpending⟩
      · rw [hputs, hsame]
        exact hperm
      · exact fun _ => hlost hrunning
    | some put =>
      rw [hfind] at hreplies
      have hfor : put.isFor report = true := List.find?_some hfind
      have hvalue : report.value = put.value := by
        simp only [PendingPut.isFor, Bool.and_eq_true, decide_eq_true_eq] at hfor
        exact hfor.2.symm
      refine ⟨hnext ▸ h.issued, h.nodup, ⟨taken, lost, hqueue ▸ hreqs, ?_, fun _ => hlost hrunning,
        hone⟩, fun ch reply hmem => ?_, hpending⟩
      · refine hperm.trans ?_
        rw [hreplies, hputs, List.map_append, List.append_assoc]
        refine List.Perm.append_left _ ?_
        exact ((perm_eraseP hfind).map PendingPut.respondTo).append_right lost
      · rw [hreplies] at hmem
        rcases List.mem_append.mp hmem with hmem | hmem
        · exact h.answers ch reply hmem
        · obtain ⟨rfl, rfl⟩ := Prod.mk.inj (List.mem_singleton.mp hmem)
          exact ⟨_, h.pending put (List.mem_of_find?_eq_some hfind), rfl, hvalue⟩

theorem callsAt_of_run {s₀ : Host L} {worker : Worker L} {es : List Event}
    (hstart : s₀ = .start worker) (hworker : worker.replies = [] ∧ worker.pendingPuts = [])
    (h : run Host.step s₀ es = some s) : CallsAt (s₀.requests es) s := by
  refine run_history (J := fun es s => CallsAt (s₀.requests es) s) ?_ ?_ h
  · subst hstart
    refine ⟨fun ch hmem => absurd hmem List.not_mem_nil, List.nodup_nil,
      ⟨[], [], rfl, ?_, fun _ => rfl, Nat.zero_le _⟩, ?_, ?_⟩
    · simp [Host.start, channels, hworker]
    · simp [Host.start, hworker]
    · simp [Host.start, hworker]
  · intro es s e s' hrun hs he
    rw [Host.requests, collect_concat hrun he]
    exact hs.step he

end

/-! ### What a call returns -/

theorem eq_of_channels {req req' : ClientRequest} {ch : ChannelId} : ∀ {reqs : List ClientRequest},
    (channels reqs).Nodup → req ∈ reqs → req' ∈ reqs → req.respondTo = some ch →
      req'.respondTo = some ch → req = req' := by
  intro reqs hnodup hreq hreq' hch hch'
  obtain ⟨before, after, rfl⟩ := List.append_of_mem hreq
  have hone : channels (before ++ req :: after) = channels before ++ ch :: channels after := by
    rw [channels_append]
    simp [channels, hch]
  rw [hone, List.perm_middle.nodup_iff, List.nodup_cons, List.mem_append, not_or] at hnodup
  obtain ⟨⟨hbefore, hafter⟩, -⟩ := hnodup
  rcases List.mem_append.mp hreq' with hmem | hmem
  · exact absurd (mem_channels.mpr ⟨req', hmem, hch'⟩) hbefore
  · rcases List.mem_cons.mp hmem with heq | hmem
    · exact heq.symm
    · exact absurd (mem_channels.mpr ⟨req', hmem, hch'⟩) hafter

section
variable {reqs : List ClientRequest} {s s' : Host L} {req : ClientRequest} {ch : ChannelId}

/-- A channel that is held has no reply. -/
theorem CallsAt.not_replied (h : CallsAt reqs s) (hheld : s.Held ch) :
    ch ∉ s.worker.replies.map Prod.fst := by
  obtain ⟨taken, lost, hreqs, hperm, -, -⟩ := h.places
  have hnodup := h.nodup
  rw [hreqs, channels_append] at hnodup
  obtain ⟨htaken, -, hapart⟩ := List.nodup_append.mp hnodup
  intro hreply
  rcases hheld.2 with hqueued | hpending
  · exact hapart ch (hperm.mem_iff.mpr (List.mem_append_left _ hreply)) ch hqueued rfl
  · exact (List.nodup_append.mp (hperm.nodup htaken)).2.2 ch hreply ch
      (List.mem_append_left _ hpending) rfl

/-- While the worker runs, a channel is held until it has its reply. -/
theorem CallsAt.held (h : CallsAt reqs s) (hrunning : s.phase.running = true)
    (hch : ch ∈ channels reqs) (hreply : ch ∉ s.worker.replies.map Prod.fst) : s.Held ch := by
  obtain ⟨taken, lost, hreqs, hperm, hlost, -⟩ := h.places
  obtain rfl := hlost hrunning
  rw [hreqs, channels_append, List.mem_append, hperm.mem_iff, List.append_nil, List.mem_append]
    at hch
  rcases hch with (hmem | hmem) | hmem
  · exact absurd hmem hreply
  · exact ⟨hrunning, .inr hmem⟩
  · exact ⟨hrunning, .inl hmem⟩

namespace Host

theorem result_of_reply {reply : Reply}
    (h : s.worker.replies.find? (fun reply => reply.1 = ch) = some (ch, reply)) :
    s.result req ch = some (.ok reply) := by
  rw [result, h]

theorem result_of_no_reply (h : ch ∉ s.worker.replies.map Prod.fst) :
    s.result req ch = if s.Held ch then none else
      some (.error [req.closed, "receiving on an empty and disconnected channel"]) := by
  have hfind : s.worker.replies.find? (fun reply => reply.1 = ch) = none := by
    refine List.find?_eq_none.mpr fun reply hmem => ?_
    simp only [decide_eq_true_eq]
    rintro rfl
    exact h (List.mem_map_of_mem hmem)
  rw [result, hfind]

theorem find_reply (h : ch ∈ s.worker.replies.map Prod.fst) :
    ∃ reply, s.worker.replies.find? (fun reply => reply.1 = ch) = some (ch, reply) := by
  obtain ⟨reply, hmem, rfl⟩ := List.mem_map.mp h
  cases hfind : s.worker.replies.find? (fun other => other.1 = reply.1) with
  | none => exact absurd (List.find?_eq_none.mp hfind reply hmem) (by simp)
  | some found =>
    have hfst : found.1 = reply.1 := by simpa using List.find?_some hfind
    exact ⟨found.2, by rw [← hfst]⟩

theorem mem_of_result {reply : Reply} (h : s.result req ch = some (.ok reply)) :
    (ch, reply) ∈ s.worker.replies := by
  by_cases hmem : ch ∈ s.worker.replies.map Prod.fst
  · obtain ⟨reply', hfind⟩ := find_reply hmem
    rw [result_of_reply hfind] at h
    cases h
    exact List.mem_of_find?_eq_some hfind
  · rw [result_of_no_reply hmem] at h
    split at h <;> cases h

/-- Replies are only added, and none by a worker that is gone. -/
theorem replies_grow {e : Event} (he : s.step e = some s') :
    (∃ more, s'.worker.replies = s.worker.replies ++ more) ∧
    (s.phase.running = false →
      s'.phase.running = false ∧ s'.worker.replies = s.worker.replies) := by
  have hgoes : s.phase.running = true → s.phase.running = false →
      s'.phase.running = false ∧ s'.worker.replies = s.worker.replies := fun hr hnot => by
    rw [hr] at hnot
    cases hnot
  cases callStep_of_step he with
  | quiet hasked hrunning hqueue hnext hputs hreplies =>
    refine ⟨⟨[], by rw [hreplies, List.append_nil]⟩, fun hnot => ⟨?_, hreplies⟩⟩
    exact Bool.eq_false_iff.mpr fun hr => Bool.eq_false_iff.mp hnot (hrunning hr)
  | asked req hasked hch hrunning heq =>
    subst heq
    exact ⟨⟨[], (List.append_nil _).symm⟩, hgoes hrunning⟩
  | dropped req hasked hrunning hgone hqueue hnext hputs hreplies =>
    exact ⟨⟨[], by rw [hreplies, List.append_nil]⟩, hgoes hrunning⟩
  | handled req hasked hrunning hqueue hnext hhandled hanswers =>
    refine ⟨?_, hgoes hrunning⟩
    cases hhandled with
    | replied ch reply hch hputs hreplies => exact ⟨_, hreplies⟩
    | accepted key value ch hput hputs hreplies => exact ⟨[], by rw [hreplies, List.append_nil]⟩
  | notified report hasked hrunning hqueue hnext hputs hreplies =>
    exact ⟨⟨_, hreplies⟩, hgoes hrunning⟩

/-- What a call has returned stays. -/
theorem result_of_step {e : Event} {outcome : Except (List String) Reply} (h : CallsAt reqs s)
    (hch : ch ∈ channels reqs) (hresult : s.result req ch = some outcome)
    (he : s.step e = some s') : s'.result req ch = some outcome := by
  obtain ⟨⟨more, hmore⟩, hgone⟩ := replies_grow he
  by_cases hmem : ch ∈ s.worker.replies.map Prod.fst
  · obtain ⟨reply, hfind⟩ := find_reply hmem
    rw [result_of_reply hfind] at hresult
    rw [result_of_reply (by rw [hmore, List.find?_append, hfind, Option.some_or]), hresult]
  · -- the channel is closed, so the worker is gone
    rw [result_of_no_reply hmem] at hresult
    split at hresult
    · cases hresult
    · rename_i hclosed
      have hnot : s.phase.running = false :=
        Bool.eq_false_iff.mpr fun hr => hclosed (h.held hr hch hmem)
      obtain ⟨hnot', hreplies⟩ := hgone hnot
      rw [result_of_no_reply (hreplies ▸ hmem), if_neg fun hheld => ?_, hresult]
      exact Bool.eq_false_iff.mp hnot' hheld.1

end Host

end

section
variable {config : NodeConfig} {s₀ s : Host L} {es : List Event}

theorem callsAt_of_spawn (hspawn : spawnNode L config = .ok s₀)
    (hrun : run Host.step s₀ es = some s) : CallsAt (s₀.requests es) s := by
  obtain ⟨-, node, -, rfl⟩ := spawnNode_eq_ok hspawn
  exact callsAt_of_run rfl ⟨rfl, rfl⟩ hrun

/-- **No request is lost while the worker runs, and none is answered twice.**  The requests
have channels of their own.  The worker takes them in the order in which they were made, and
the channels of those that it has taken are the ones it has replied on, each once, and those
of the pending puts, up to the one that it was handling when it ended. -/
theorem calls_conserved (hspawn : spawnNode L config = .ok s₀)
    (hrun : run Host.step s₀ es = some s) :
    (channels (s₀.requests es)).Nodup ∧
    (∀ put ∈ s.worker.pendingPuts, .put put.key put.value put.respondTo ∈ s₀.requests es) ∧
    ∃ taken lost, s₀.requests es = taken ++ s.clientQueue ∧
      (channels taken).Perm (s.worker.replies.map Prod.fst ++
        (s.worker.pendingPuts.map PendingPut.respondTo ++ lost)) ∧
      (s.phase.running = true → lost = []) ∧ lost.length ≤ 1 := by
  have h := callsAt_of_spawn hspawn hrun
  exact ⟨h.nodup, h.pending, h.places⟩

/-- A put on a node that is the only voter, which then shuts down before a `Get`. -/
def putAndShutdown : List Event :=
  [.campaign, .recvClient false] ++ List.replicate 4 (Event.process none) ++
    [.put "k" "v", .recvClient true] ++ List.replicate 5 (Event.process none) ++
    [.shutdown, .get "k", .recvClient false]

theorem calls_conserved_one_node : ∃ s₀ s : Host (MiniRaft.miniRaft []),
    spawnNode (MiniRaft.miniRaft []) oneNode = .ok s₀ ∧
    run Host.step s₀ putAndShutdown = some s ∧ (channels (s₀.requests putAndShutdown)).Nodup ∧
    ∃ taken lost, s₀.requests putAndShutdown = taken ++ [.get "k" 3] ∧
      (channels taken).Perm ([0, 1] ++ ([] ++ lost)) := by
  have hrun : (runHost (MiniRaft.miniRaft []) oneNode putAndShutdown).map (fun s =>
      (s.clientQueue, s.worker.replies.map Prod.fst,
        s.worker.pendingPuts.map PendingPut.respondTo)) =
      some ([.get "k" 3], [0, 1], []) := by decide
  obtain ⟨s, hs, hfacts⟩ := Option.map_eq_some_iff.mp hrun
  obtain ⟨s₀, hspawn, hrun⟩ := runHost_eq_some.mp hs
  simp only [Prod.mk.injEq] at hfacts
  obtain ⟨hqueue, hreplies, hpending⟩ := hfacts
  obtain ⟨hnodup, -, taken, lost, hreqs, hperm, -, -⟩ := calls_conserved hspawn hrun
  rw [hqueue] at hreqs
  rw [hreplies, hpending] at hperm
  exact ⟨s₀, s, hspawn, hrun, hnodup, taken, lost, hreqs, hperm⟩

/-- **A call waits only for a running worker.**  It waits as long as the worker runs and has
its request in the queue or as a pending put.  What it returns then is a reply to its request;
it fails only when the worker is gone, with its own context.  What it has returned is not
taken back by anything that happens later. -/
theorem calls_return (hspawn : spawnNode L config = .ok s₀)
    (hrun : run Host.step s₀ es = some s) {req : ClientRequest} {ch : ChannelId}
    (hreq : req ∈ s₀.requests es) (hch : req.respondTo = some ch) :
    (s.result req ch = none ↔ s.Held ch) ∧
    (∀ reply, s.result req ch = some (.ok reply) → reply.Answers req) ∧
    (∀ context, s.result req ch = some (.error context) → s.phase.running = false ∧
      context = [req.closed, "receiving on an empty and disconnected channel"]) ∧
    ∀ outcome s', s.result req ch = some outcome → Reachable Host.step s s' →
      s'.result req ch = some outcome := by
  have h := callsAt_of_spawn hspawn hrun
  have hmem : ch ∈ channels (s₀.requests es) := mem_channels.mpr ⟨req, hreq, hch⟩
  refine ⟨⟨fun hwaits => ?_, fun hheld => ?_⟩, fun reply hresult => ?_, fun context hresult => ?_,
    fun outcome s' hresult hlater => ?_⟩
  · by_cases hreply : ch ∈ s.worker.replies.map Prod.fst
    · obtain ⟨reply, hfind⟩ := Host.find_reply hreply
      rw [Host.result_of_reply hfind] at hwaits
      cases hwaits
    · rw [Host.result_of_no_reply hreply] at hwaits
      by_contra hheld
      rw [if_neg hheld] at hwaits
      cases hwaits
  · rw [Host.result_of_no_reply (h.not_replied hheld), if_pos hheld]
  · obtain ⟨req', hreq', hch', hanswers⟩ := h.answers ch reply (Host.mem_of_result hresult)
    rwa [eq_of_channels h.nodup hreq hreq' hch hch']
  · by_cases hreply : ch ∈ s.worker.replies.map Prod.fst
    · obtain ⟨reply, hfind⟩ := Host.find_reply hreply
      rw [Host.result_of_reply hfind] at hresult
      cases hresult
    · rw [Host.result_of_no_reply hreply] at hresult
      split at hresult
      · cases hresult
      · rename_i hclosed
        cases hresult
        exact ⟨Bool.eq_false_iff.mpr fun hr => hclosed (h.held hr hmem hreply), rfl⟩
  · -- the later run makes further requests
    refine (hlater.invariant (I := fun t => t.result req ch = some outcome ∧
      ∃ reqs, CallsAt reqs t ∧ ch ∈ channels reqs) ⟨hresult, _, h, hmem⟩ ?_).1
    rintro t e t' - ⟨hresult, reqs, ht, hmem⟩ he
    refine ⟨Host.result_of_step ht hmem hresult he, _, ht.step he, ?_⟩
    rw [channels_append]
    exact List.mem_append_left _ hmem

end

theorem calls_return_one_node : ∃ s₀ s : Host (MiniRaft.miniRaft []),
    spawnNode (MiniRaft.miniRaft []) oneNode = .ok s₀ ∧
    run Host.step s₀ putAndShutdown = some s ∧
    (∃ reply, s.result (.put "k" "v" 1) 1 = some (.ok reply) ∧ reply.Answers (.put "k" "v" 1)) ∧
    s.result (.get "k" 3) 3 = some (.error ["get response channel closed",
      "receiving on an empty and disconnected channel"]) := by
  obtain ⟨s₀, hspawn⟩ : ∃ s₀, spawnNode (MiniRaft.miniRaft []) oneNode = .ok s₀ := ⟨_, rfl⟩
  have hmem : .put "k" "v" 1 ∈ s₀.requests putAndShutdown ∧
      .get "k" 3 ∈ s₀.requests putAndShutdown := by
    cases hspawn
    decide
  have hfacts : (run Host.step s₀ putAndShutdown).map (fun s =>
      (s.worker.replies.map Prod.fst, s.phase.running)) = some ([0, 1], false) := by
    cases hspawn
    decide
  obtain ⟨s, hrun, hfacts⟩ := Option.map_eq_some_iff.mp hfacts
  obtain ⟨hreplies, hgone⟩ := Prod.mk.inj hfacts
  obtain ⟨-, hput, -⟩ := calls_return hspawn hrun hmem.1 rfl
  have hreplied : 1 ∈ s.worker.replies.map Prod.fst := by
    rw [hreplies]
    decide
  obtain ⟨reply, hfind⟩ := Host.find_reply hreplied
  have hresult : s.result (.put "k" "v" 1) 1 = some (.ok reply) := Host.result_of_reply hfind
  refine ⟨s₀, s, hspawn, hrun, ⟨reply, hresult, hput reply hresult⟩, ?_⟩
  rw [Host.result_of_no_reply (by rw [hreplies]; decide), if_neg fun hheld => ?_]
  · rfl
  · exact Bool.eq_false_iff.mp hgone hheld.1

end Raft
