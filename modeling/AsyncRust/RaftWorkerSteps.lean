/-
What one step of a host does to the puts that its clients wait for.

* `handled_of_handleClientRequest` — a client request is answered at once, or
  it is a put that becomes pending;
* `notifyPut_pendingPuts`, `notifyPut_replies` — a report takes the first
  pending put with its key and value, and answers it;
* `Host.step_cases` — the steps of a host;
* `putStep_of_step` — the six things that a step may do to requests, pending
  puts and replies;
* `bundleStep_of_step` — the five things that it may do to the bundle that
  `process_ready` is working on.
-/
import AsyncRust.RaftWorker

namespace Raft

open Runs

variable {L : Library}

/-! ### The worker's methods -/

/-- A request other than a shutdown has been handled. -/
inductive Worker.Handled (w : Worker L) (req : ClientRequest) (w' : Worker L) : Prop
  | replied (ch : ChannelId) (reply : Reply) (hch : req.respondTo = some ch)
    (hputs : w'.pendingPuts = w.pendingPuts) (hreplies : w'.replies = w.replies ++ [(ch, reply)])
  | accepted (key value : String) (ch : ChannelId) (hreq : req = .put key value ch)
    (hputs : w'.pendingPuts = w.pendingPuts ++ [⟨key, value, ch⟩])
    (hreplies : w'.replies = w.replies)

theorem handled_of_handleClientRequest {w w' : Worker L} {req : ClientRequest}
    (h : w.handleClientRequest req = .ok (true, w')) : w.Handled req w' := by
  cases req with
  | put key value ch =>
    simp only [Worker.handleClientRequest] at h
    split at h
    · cases h
      exact .replied ch _ rfl rfl rfl
    · split at h
      · cases h
        exact .accepted key value ch rfl rfl rfl
      · cases h
        exact .replied ch _ rfl rfl rfl
      · cases h
  | get key ch =>
    cases h
    exact .replied ch _ rfl rfl rfl
  | status ch =>
    cases h
    exact .replied ch _ rfl rfl rfl
  | campaign ch =>
    simp only [Worker.handleClientRequest] at h
    split at h
    · cases h
      exact .replied ch _ rfl rfl rfl
    · cases h
      exact .replied ch _ rfl rfl rfl
    · cases h
  | shutdown => cases h

theorem shutdown_of_handleClientRequest {w w' : Worker L} {req : ClientRequest}
    (h : w.handleClientRequest req = .ok (false, w')) : req = .shutdown ∧ w' = w := by
  cases req with
  | put key value ch =>
    simp only [Worker.handleClientRequest] at h
    split at h
    · cases h
    · split at h <;> cases h
  | get key ch => cases h
  | status ch => cases h
  | campaign ch =>
    simp only [Worker.handleClientRequest] at h
    split at h <;> cases h
  | shutdown =>
    cases h
    exact ⟨rfl, rfl⟩

theorem notifyPut_pendingPuts (w : Worker L) (report : ApplyReport) :
    (w.notifyPut report).pendingPuts = w.pendingPuts.eraseP (·.isFor report) := by
  rw [List.eraseP_eq_eraseIdx]
  simp only [Worker.notifyPut, Worker.log]
  cases w.pendingPuts.findIdx? (·.isFor report) <;> rfl

theorem notifyPut_replies (w : Worker L) (report : ApplyReport) :
    (w.notifyPut report).replies = w.replies ++
      (w.pendingPuts.find? (·.isFor report)).toList.map fun pending =>
        (pending.respondTo, .put (.ok report.value)) := by
  rw [List.find?_eq_bind_findIdx?_getElem?]
  simp only [Worker.notifyPut, Worker.log]
  cases w.pendingPuts.findIdx? (·.isFor report) with
  | none => exact (List.append_nil _).symm
  | some position => rfl

@[simp] theorem logRoleChange_pendingPuts (w : Worker L) :
    w.logRoleChange.pendingPuts = w.pendingPuts := by
  simp only [Worker.logRoleChange, Worker.log]
  split <;> rfl

@[simp] theorem logRoleChange_replies (w : Worker L) : w.logRoleChange.replies = w.replies := by
  simp only [Worker.logRoleChange, Worker.log]
  split <;> rfl

theorem dispatchMessage_frame {w w' : Worker L} {msg : L.Message} {sendErr : Option String}
    (h : w.dispatchMessage msg sendErr = .ok w') :
    w'.pendingPuts = w.pendingPuts ∧ w'.replies = w.replies := by
  simp only [Worker.dispatchMessage] at h
  split at h
  · split at h
    · cases h
      exact ⟨rfl, rfl⟩
    · cases h
  · split at h
    · cases h
      exact ⟨rfl, rfl⟩
    · cases h
      unfold Worker.sendMessage
      split <;> exact ⟨rfl, rfl⟩

/-! ### The host's steps -/

namespace Host

/-- The steps of a host, by the thread that takes them. -/
inductive StepCase (s : Host L) : Event → Host L → Prop
  | request {e : Event} (req : ClientRequest)
    (hch : req.respondTo = none ∨ req.respondTo = some s.nextChannel)
    (hopen : s.handleOpen = true) (hrunning : s.phase.running = true) :
    StepCase s e
      { s with clientQueue := s.clientQueue ++ [req], nextChannel := s.nextChannel + 1 }
  | dropHandle (hopen : s.handleOpen = true) : StepCase s .dropHandle { s with handleOpen := false }
  | connection (bytes : List UInt8) (hopen : s.listenerOpen = true) :
    StepCase s (.connection bytes) (s.receive bytes)
  | dropListener (hopen : s.listenerOpen = true) :
    StepCase s .dropListener { s with listenerOpen := false }
  | recvClient {ticked : Bool} {s' : Host L} (hphase : s.phase = .selecting)
    (h : s.recvClient ticked = some s') : StepCase s (.recvClient ticked) s'
  | recvNetwork {ticked : Bool} {s' : Host L} (hphase : s.phase = .selecting)
    (h : s.recvNetwork ticked = some s') : StepCase s (.recvNetwork ticked) s'
  | timeout (ticked : Bool) (hphase : s.phase = .selecting) (hclient : s.clientQueue = [])
    (hnetwork : s.networkQueue = []) (hopen : s.handleOpen = true ∧ s.listenerOpen = true) :
    StepCase s (.timeout ticked) (s.afterSelect ticked)
  | poll (sendErr : Option String) (hphase : s.phase = .polling) :
    StepCase s (.process sendErr) s.poll
  | dispatch {messages : List L.Message} {applied : List ApplyReport} (sendErr : Option String)
    (hphase : s.phase = .dispatching messages applied) :
    StepCase s (.process sendErr) (s.dispatch messages applied sendErr)
  | notify {applied : List ApplyReport} (sendErr : Option String)
    (hphase : s.phase = .notifying applied) : StepCase s (.process sendErr) (s.notify applied)

variable {s s' : Host L}

theorem stepCase_of_request {e : Event} {req : ClientRequest}
    (hch : req.respondTo = none ∨ req.respondTo = some s.nextChannel)
    (h : s.request req = some s') : StepCase s e s' := by
  unfold request at h
  split at h <;> cases h
  rename_i hguard
  exact .request req hch hguard.1 hguard.2

/-- Every step is one of these. -/
theorem step_cases {e : Event} (h : s.step e = some s') : StepCase s e s' := by
  cases e with
  | put key value => exact stepCase_of_request (.inr rfl) h
  | get key => exact stepCase_of_request (.inr rfl) h
  | status => exact stepCase_of_request (.inr rfl) h
  | campaign => exact stepCase_of_request (.inr rfl) h
  | shutdown => exact stepCase_of_request (.inl rfl) h
  | dropHandle =>
    simp only [step] at h
    split at h <;> cases h
    exact .dropHandle ‹_›
  | connection bytes =>
    simp only [step] at h
    split at h <;> cases h
    exact .connection bytes ‹_›
  | dropListener =>
    simp only [step] at h
    split at h <;> cases h
    exact .dropListener ‹_›
  | recvClient ticked =>
    simp only [step] at h
    split at h
    · exact .recvClient ‹_› h
    · cases h
  | recvNetwork ticked =>
    simp only [step] at h
    split at h
    · exact .recvNetwork ‹_› h
    · cases h
  | timeout ticked =>
    simp only [step] at h
    split at h
    · unfold timeout at h
      split at h <;> cases h
      rename_i hphase hguard
      exact .timeout ticked hphase (List.isEmpty_iff.mp hguard.1)
        (List.isEmpty_iff.mp hguard.2.1) hguard.2.2
    · cases h
  | process sendErr =>
    simp only [step] at h
    split at h <;> cases h
    · exact .poll sendErr ‹_›
    · exact .dispatch sendErr ‹_›
    · exact .notify sendErr ‹_›

/-! ### Puts and replies -/

/-- Puts and replies are as before. -/
structure SamePuts (s s' : Host L) : Prop where
  pendingPuts : s'.worker.pendingPuts = s.worker.pendingPuts
  replies : s'.worker.replies = s.worker.replies
  accepted : s'.history.accepted = s.history.accepted
  notified : s'.history.notified = s.history.notified
  answered : s'.history.answered = s.history.answered

/-- What a step does to requests, pending puts and replies. -/
inductive PutStep (s s' : Host L) : Prop
  | quiet (hqueue : s'.clientQueue = s.clientQueue) (hnext : s'.nextChannel = s.nextChannel)
    (hsame : SamePuts s s')
  | requested (req : ClientRequest)
    (hch : req.respondTo = none ∨ req.respondTo = some s.nextChannel)
    (hqueue : s'.clientQueue = s.clientQueue ++ [req])
    (hnext : s'.nextChannel = s.nextChannel + 1) (hsame : SamePuts s s')
  | dropped (req : ClientRequest) (hqueue : s.clientQueue = req :: s'.clientQueue)
    (hnext : s'.nextChannel = s.nextChannel) (hsame : SamePuts s s')
  | replied (req : ClientRequest) (ch : ChannelId) (reply : Reply)
    (hch : req.respondTo = some ch) (hqueue : s.clientQueue = req :: s'.clientQueue)
    (hnext : s'.nextChannel = s.nextChannel)
    (hputs : s'.worker.pendingPuts = s.worker.pendingPuts)
    (hreplies : s'.worker.replies = s.worker.replies ++ [(ch, reply)])
    (hhistory : s'.history = s.history)
  | accepted (put : Accepted)
    (hqueue : s.clientQueue = .put put.key put.value put.respondTo :: s'.clientQueue)
    (hnext : s'.nextChannel = s.nextChannel)
    (hputs : s'.worker.pendingPuts =
      s.worker.pendingPuts ++ [⟨put.key, put.value, put.respondTo⟩])
    (hreplies : s'.worker.replies = s.worker.replies)
    (hafter : put.after = s.history.notified.length)
    (hahead : put.ahead = (s.worker.pendingPuts.filter fun other =>
      other.key = put.key && other.value = put.value).length)
    (hhistory : s'.history = { s.history with accepted := s.history.accepted ++ [put] })
  | notified (report : ApplyReport) (hqueue : s'.clientQueue = s.clientQueue)
    (hnext : s'.nextChannel = s.nextChannel)
    (hputs : s'.worker.pendingPuts = s.worker.pendingPuts.eraseP (·.isFor report))
    (hreplies : s'.worker.replies = s.worker.replies ++
      (s.worker.pendingPuts.find? (·.isFor report)).toList.map fun pending =>
        (pending.respondTo, .put (.ok report.value)))
    (hhistory : s'.history = { s.history with
      notified := s.history.notified ++ [report]
      answered := s.history.answered ++
        (s.worker.pendingPuts.find? (·.isFor report)).toList.map fun pending =>
          (pending.respondTo, s.history.notified.length) })

theorem SamePuts.of_eq (hworker : s'.worker = s.worker) (hhistory : s'.history = s.history) :
    SamePuts s s' := by
  constructor <;> simp only [hworker, hhistory]

theorem afterSelect_frame (s : Host L) (ticked : Bool) :
    (s.afterSelect ticked).worker.pendingPuts = s.worker.pendingPuts ∧
      (s.afterSelect ticked).worker.replies = s.worker.replies := by
  cases ticked <;> exact ⟨rfl, rfl⟩

theorem putStep_of_recvClient {ticked : Bool} (h : s.recvClient ticked = some s') :
    PutStep s s' := by
  unfold recvClient at h
  split at h
  · split at h
    · cases h
    · cases h
      exact .quiet rfl rfl (.of_eq rfl rfl)
  · rename_i req clientQueue hqueue
    split at h
    · cases h
      exact .dropped req hqueue rfl (.of_eq rfl rfl)
    · rename_i worker hhandle
      cases h
      obtain ⟨rfl, rfl⟩ := shutdown_of_handleClientRequest hhandle
      exact .dropped .shutdown hqueue rfl (.of_eq rfl rfl)
    · rename_i worker hhandle
      cases h
      obtain ⟨hputs, hreplies⟩ := afterSelect_frame
        { s with worker, clientQueue, history := s.history.accept s.worker worker } ticked
      cases handled_of_handleClientRequest hhandle with
      | replied ch reply hch hputs' hreplies' =>
        refine .replied req ch reply hch hqueue rfl (hputs.trans hputs')
          (hreplies.trans hreplies') ?_
        show s.history.accept s.worker worker = s.history
        simp [History.accept, hputs']
      | accepted key value ch hreq hputs' hreplies' =>
        -- the put is recorded as it stands after the proposal
        subst hreq
        let put : Accepted :=
          { respondTo := ch, key, value
            index := L.lastIndex worker.node.raw worker.node.storage, term := worker.node.term
            after := s.history.notified.length
            ahead := (s.worker.pendingPuts.filter fun other =>
              other.key = key && other.value = value).length }
        refine .accepted put hqueue rfl (hputs.trans hputs') (hreplies.trans hreplies') rfl rfl ?_
        show s.history.accept s.worker worker = _
        simp [History.accept, hputs', put]

theorem putStep_of_recvNetwork {ticked : Bool} (h : s.recvNetwork ticked = some s') :
    PutStep s s' := by
  unfold recvNetwork at h
  split at h
  · split at h
    · cases h
    · cases h
      exact .quiet rfl rfl (.of_eq rfl rfl)
  · split at h
    · cases h
      exact .quiet rfl rfl (.of_eq rfl rfl)
    · cases h
      cases ticked <;> exact .quiet rfl rfl ⟨rfl, rfl, rfl, rfl, rfl⟩

theorem putStep_poll (s : Host L) : PutStep s s.poll := by
  unfold poll
  split
  · exact .quiet rfl rfl (.of_eq rfl rfl)
  · refine .quiet rfl rfl ⟨?_, ?_, rfl, rfl, rfl⟩
    · exact logRoleChange_pendingPuts _
    · exact logRoleChange_replies _
  · exact .quiet rfl rfl ⟨rfl, rfl, rfl, rfl, rfl⟩

theorem putStep_dispatch (s : Host L) (messages : List L.Message) (applied : List ApplyReport)
    (sendErr : Option String) : PutStep s (s.dispatch messages applied sendErr) := by
  unfold dispatch
  split
  · exact .quiet rfl rfl (.of_eq rfl rfl)
  · split
    · exact .quiet rfl rfl (.of_eq rfl rfl)
    · rename_i worker hdispatch
      obtain ⟨hputs, hreplies⟩ := dispatchMessage_frame hdispatch
      exact .quiet rfl rfl ⟨hputs, hreplies, rfl, rfl, rfl⟩

theorem putStep_notify (s : Host L) (applied : List ApplyReport) :
    PutStep s (s.notify applied) := by
  cases applied with
  | nil => exact .quiet rfl rfl (.of_eq rfl rfl)
  | cons report applied =>
    refine .notified report rfl rfl (notifyPut_pendingPuts _ _) (notifyPut_replies _ _) ?_
    simp [notify, notifyPut_replies, Function.comp_def]

theorem putStep_receive (s : Host L) (bytes : List UInt8) : PutStep s (s.receive bytes) := by
  unfold receive
  split
  · exact .quiet rfl rfl ⟨rfl, rfl, rfl, rfl, rfl⟩
  · split <;> exact .quiet rfl rfl ⟨rfl, rfl, rfl, rfl, rfl⟩

/-- Every step of a host does one of six things to the puts. -/
theorem putStep_of_step {e : Event} (h : s.step e = some s') : PutStep s s' := by
  cases step_cases h with
  | request req hch => exact .requested req hch rfl rfl (.of_eq rfl rfl)
  | dropHandle => exact .quiet rfl rfl (.of_eq rfl rfl)
  | connection bytes => exact putStep_receive s bytes
  | dropListener => exact .quiet rfl rfl (.of_eq rfl rfl)
  | recvClient hphase h => exact putStep_of_recvClient h
  | recvNetwork hphase h => exact putStep_of_recvNetwork h
  | timeout ticked =>
    obtain ⟨hputs, hreplies⟩ := afterSelect_frame s ticked
    exact .quiet rfl rfl ⟨hputs, hreplies, rfl, rfl, rfl⟩
  | poll => exact putStep_poll s
  | dispatch => exact putStep_dispatch s _ _ _
  | notify => exact putStep_notify s _

/-! ### Bundles -/

/-- What a step does to the reports that were applied and notified. -/
inductive BundleStep (s s' : Host L) : Prop
  | same (hphase : s'.phase = s.phase) (happlied : s'.history.applied = s.history.applied)
    (hnotified : s'.history.notified = s.history.notified)
  | crashed (fault : Fault) (hphase : s'.phase = .crashed fault)
    (happlied : s'.history.applied = s.history.applied)
    (hnotified : s'.history.notified = s.history.notified)
  | moved (hrunning : s.phase.running = true) (hphase : s'.phase.unnotified = s.phase.unnotified)
    (happlied : s'.history.applied = s.history.applied)
    (hnotified : s'.history.notified = s.history.notified)
  | polled (messages : List L.Message) (applied : List ApplyReport) (hphase : s.phase = .polling)
    (hphase' : s'.phase = .dispatching messages applied)
    (happlied : s'.history.applied = s.history.applied ++ applied)
    (hnotified : s'.history.notified = s.history.notified)
  | notified (report : ApplyReport) (applied : List ApplyReport)
    (hphase : s.phase = .notifying (report :: applied)) (hphase' : s'.phase = .notifying applied)
    (happlied : s'.history.applied = s.history.applied)
    (hnotified : s'.history.notified = s.history.notified ++ [report])

theorem bundleStep_of_recvClient {ticked : Bool} (hphase : s.phase = .selecting)
    (h : s.recvClient ticked = some s') : BundleStep s s' := by
  have hrunning : s.phase.running = true := by rw [hphase]; rfl
  have hnone : s.phase.unnotified = [] := by rw [hphase]; rfl
  unfold recvClient at h
  split at h
  · split at h <;> cases h
    exact .moved hrunning hnone.symm rfl rfl
  · split at h
    · cases h
      exact .crashed _ rfl rfl rfl
    · cases h
      exact .moved hrunning hnone.symm rfl rfl
    · cases h
      exact .moved hrunning hnone.symm rfl rfl

theorem bundleStep_of_recvNetwork {ticked : Bool} (hphase : s.phase = .selecting)
    (h : s.recvNetwork ticked = some s') : BundleStep s s' := by
  have hrunning : s.phase.running = true := by rw [hphase]; rfl
  have hnone : s.phase.unnotified = [] := by rw [hphase]; rfl
  unfold recvNetwork at h
  split at h
  · split at h <;> cases h
    exact .moved hrunning hnone.symm rfl rfl
  · split at h
    · cases h
      exact .crashed _ rfl rfl rfl
    · cases h
      exact .moved hrunning hnone.symm rfl rfl

theorem bundleStep_poll (hphase : s.phase = .polling) : BundleStep s s.poll := by
  have hrunning : s.phase.running = true := by rw [hphase]; rfl
  have hnone : s.phase.unnotified = [] := by rw [hphase]; rfl
  unfold poll
  split
  · exact .crashed _ rfl rfl rfl
  · exact .moved hrunning hnone.symm rfl rfl
  · exact .polled _ _ hphase rfl rfl rfl

theorem bundleStep_dispatch {messages : List L.Message} {applied : List ApplyReport}
    (hphase : s.phase = .dispatching messages applied) (sendErr : Option String) :
    BundleStep s (s.dispatch messages applied sendErr) := by
  have hrunning : s.phase.running = true := by rw [hphase]; rfl
  have hrest : s.phase.unnotified = applied := by rw [hphase]; rfl
  unfold dispatch
  split
  · exact .moved hrunning hrest.symm rfl rfl
  · split
    · exact .crashed _ rfl rfl rfl
    · exact .moved hrunning hrest.symm rfl rfl

theorem bundleStep_notify {applied : List ApplyReport} (hphase : s.phase = .notifying applied) :
    BundleStep s (s.notify applied) := by
  cases applied with
  | nil => exact .moved (by rw [hphase]; rfl) (by rw [hphase]; rfl) rfl rfl
  | cons report applied => exact .notified report applied hphase rfl rfl rfl

theorem bundleStep_receive (s : Host L) (bytes : List UInt8) : BundleStep s (s.receive bytes) := by
  unfold receive
  split
  · exact .same rfl rfl rfl
  · split <;> exact .same rfl rfl rfl

/-- Every step of a host does one of five things to the current bundle. -/
theorem bundleStep_of_step {e : Event} (h : s.step e = some s') : BundleStep s s' := by
  cases step_cases h with
  | request => exact .same rfl rfl rfl
  | dropHandle => exact .same rfl rfl rfl
  | connection bytes => exact bundleStep_receive s bytes
  | dropListener => exact .same rfl rfl rfl
  | recvClient hphase h => exact bundleStep_of_recvClient hphase h
  | recvNetwork hphase h => exact bundleStep_of_recvNetwork hphase h
  | timeout ticked hphase =>
    exact .moved (by rw [hphase]; rfl) (by rw [hphase]; rfl) rfl rfl
  | poll sendErr hphase => exact bundleStep_poll hphase
  | dispatch sendErr hphase => exact bundleStep_dispatch hphase sendErr
  | notify sendErr hphase => exact bundleStep_notify hphase

end Host

end Raft
