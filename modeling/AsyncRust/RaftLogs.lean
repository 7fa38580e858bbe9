/-
What a node's log channel tells (`runtime.rs`).

The worker and the threads of its connections write lines for the terminal.  A `Notice` is
what a line is about.

* `Notice.message` — the line;
* `Host.logStep_of_step` — what a step adds to the log;
* `log_tells` — the lines about applied entries, changes of role and campaigns are exactly
  what has happened, each in its order.
-/
import AsyncRust.RaftPuts

namespace Raft

open Runs

variable {L : Library}

/-! ### Lines -/

inductive Notice where
  | applied (report : ApplyReport)
  | roleChanged (was now : StateRole) (leaderId : ℕ)
  | campaigned (was : StateRole)
  | failed (text : String)
  deriving DecidableEq, Repr

/-- What a campaign that was started is answered with. -/
def campaignInitiated (was : StateRole) : String :=
  let oldRole := was.debug
  s!"Campaign initiated! Previous role: {oldRole}, starting election..."

namespace Notice

/-- The line in the log of node `id`. -/
def message (id : ℕ) : Notice → LogMessage
  | applied ⟨_, key, value, index, term⟩ =>
    .info s!"[node {id}] applied key={key} value={value} (index {index}, term {term})"
  | roleChanged was now leaderId =>
    .info s!"[node {id}] role changed {was.debug} -> {now.debug} (leader: {leaderId})"
  | campaigned was =>
    let msg := campaignInitiated was
    .info s!"[node {id}] {msg}"
  | failed text => .error text

def report : Notice → Option ApplyReport
  | applied report => some report
  | _ => none

/-- The roles before and after a change. -/
def roles : Notice → Option (StateRole × StateRole)
  | roleChanged was now _ => some (was, now)
  | _ => none

def campaignText : Notice → Option String
  | campaigned was => some (campaignInitiated was)
  | _ => none

end Notice

/-- The text for a campaign that was started. -/
def Reply.campaignText : Reply → Option String
  | campaign (.ok text) => some text
  | _ => none

def campaignTexts (replies : List (ChannelId × Reply)) : List String :=
  replies.filterMap fun reply => reply.2.campaignText

/-- Each change goes from the role to which the one before it has led to another one. -/
def Follows : StateRole → List (StateRole × StateRole) → StateRole → Prop
  | role, [], role' => role = role'
  | role, (was, now) :: changes, role' => role = was ∧ was ≠ now ∧ Follows now changes role'

theorem Follows.append {changes' : List (StateRole × StateRole)} {role' role'' : StateRole} :
    ∀ {changes : List (StateRole × StateRole)} {role : StateRole}, Follows role changes role' →
      Follows role' changes' role'' → Follows role (changes ++ changes') role'' := by
  intro changes
  induction changes with
  | nil =>
    intro role h h'
    obtain rfl : role = role' := h
    exact h'
  | cons change changes ih => exact fun ⟨hwas, hne, h⟩ h' => ⟨hwas, hne, ih h h'⟩

/-! ### The worker -/

/-- What is added to the log of a worker, and what it is about. -/
structure Worker.Logs (w w' : Worker L) (notices : List Notice) : Prop where
  id : w'.node.id = w.node.id
  lines : w'.logTx = w.logTx ++ notices.map (Notice.message w.node.id)
  campaigns : campaignTexts w'.replies = campaignTexts w.replies ++
    notices.filterMap Notice.campaignText
  roles : Follows w.lastRole (notices.filterMap Notice.roles) w'.lastRole

namespace Worker

/-- Nothing is logged. -/
theorem Logs.nothing {w w' : Worker L} (hid : w'.node.id = w.node.id) (hlines : w'.logTx = w.logTx)
    (hreplies : campaignTexts w'.replies = campaignTexts w.replies)
    (hrole : w'.lastRole = w.lastRole) : w.Logs w' [] :=
  ⟨hid, hlines.trans (List.append_nil _).symm, hreplies.trans (List.append_nil _).symm, hrole.symm⟩

theorem Logs.failed (w : Worker L) (text : String) :
    w.Logs (w.log (.error text)) [.failed text] :=
  ⟨rfl, rfl, (List.append_nil _).symm, rfl⟩

end Worker

theorem campaignTexts_append (replies replies' : List (ChannelId × Reply)) :
    campaignTexts (replies ++ replies') = campaignTexts replies ++ campaignTexts replies' :=
  List.filterMap_append

theorem campaignTexts_respond (w : Worker L) (ch : ChannelId) {reply : Reply}
    (h : reply.campaignText = none) :
    campaignTexts (w.respond ch reply).replies = campaignTexts w.replies := by
  rw [Worker.respond, campaignTexts_append]
  simp [campaignTexts, h]

theorem logs_of_handleClientRequest {w w' : Worker L} {req : ClientRequest} {goesOn : Bool}
    (h : w.handleClientRequest req = .ok (goesOn, w')) :
    ∃ notices, w.Logs w' notices ∧ notices.filterMap Notice.report = [] := by
  cases req with
  | put key value ch =>
    simp only [Worker.handleClientRequest] at h
    split at h
    · cases h
      exact ⟨[], .nothing rfl rfl (campaignTexts_respond w ch rfl) rfl, rfl⟩
    · have hid : (w.node.propose (.put key value)).2.id = w.node.id := by
        obtain ⟨raw, hraw⟩ := w.node.propose_frame (.put key value)
        rw [hraw]
      split at h
      · rename_i node hpropose
        cases h
        rw [hpropose] at hid
        exact ⟨[], .nothing hid rfl rfl rfl, rfl⟩
      · rename_i chain node hpropose
        cases h
        rw [hpropose] at hid
        exact ⟨[], .nothing hid rfl (campaignTexts_respond { w with node } ch rfl) rfl, rfl⟩
      · cases h
  | get key ch =>
    cases h
    exact ⟨[], .nothing rfl rfl (campaignTexts_respond w ch rfl) rfl, rfl⟩
  | status ch =>
    cases h
    exact ⟨[], .nothing rfl rfl (campaignTexts_respond w ch rfl) rfl, rfl⟩
  | campaign ch =>
    have hid : w.node.campaign.2.id = w.node.id := rfl
    simp only [Worker.handleClientRequest] at h
    split at h
    · rename_i node hcampaign
      cases h
      rw [hcampaign] at hid
      refine ⟨[.campaigned w.node.role], ⟨hid, rfl, ?_, rfl⟩, rfl⟩
      exact campaignTexts_append _ _
    · rename_i chain node hcampaign
      cases h
      rw [hcampaign] at hid
      exact ⟨[], .nothing hid rfl (campaignTexts_respond { w with node } ch rfl) rfl, rfl⟩
    · cases h
  | shutdown =>
    cases h
    exact ⟨[], .nothing rfl rfl rfl rfl, rfl⟩

theorem logs_notifyPut (w : Worker L) (report : ApplyReport) :
    w.Logs (w.notifyPut report) [.applied report] := by
  refine ⟨?_, ?_, ?_, ?_⟩
  · simp only [Worker.notifyPut, Worker.log]
    split <;> rfl
  · simp only [Worker.notifyPut, Worker.log]
    split <;> rfl
  · rw [notifyPut_replies, campaignTexts_append]
    refine congrArg _ ?_
    cases w.pendingPuts.find? (·.isFor report) <;> rfl
  · simp only [Worker.notifyPut, Worker.log]
    split <;> rfl

/-- The role that the log has told last is then the node's. -/
theorem logs_logRoleChange (w : Worker L) : ∃ notices, w.Logs w.logRoleChange notices ∧
    notices.filterMap Notice.report = [] ∧
    w.logRoleChange.lastRole = w.logRoleChange.node.role := by
  simp only [Worker.logRoleChange]
  split
  · rename_i hsame
    exact ⟨[], .nothing rfl rfl rfl rfl, rfl, hsame.symm⟩
  · rename_i hchanged
    exact ⟨[.roleChanged w.lastRole w.node.role w.node.leaderId],
      ⟨rfl, rfl, (List.append_nil _).symm, rfl, Ne.symm hchanged, rfl⟩, rfl, rfl⟩

theorem logs_of_dispatchMessage {w w' : Worker L} {msg : L.Message} {sendErr : Option String}
    (h : w.dispatchMessage msg sendErr = .ok w') :
    ∃ notices, w.Logs w' notices ∧ notices.filterMap Notice.report = [] := by
  simp only [Worker.dispatchMessage] at h
  split at h
  · have hid : (w.node.step msg).2.id = w.node.id := rfl
    split at h
    · rename_i node hstep
      cases h
      rw [hstep] at hid
      exact ⟨[], .nothing hid rfl rfl rfl, rfl⟩
    · cases h
  · split at h
    · cases h
      exact ⟨_, .failed w _, rfl⟩
    · cases h
      unfold Worker.sendMessage
      split
      · exact ⟨[], .nothing rfl rfl rfl rfl, rfl⟩
      · exact ⟨_, .failed w _, rfl⟩

/-! ### The host -/

namespace Host

/-- What a step adds to the log; before the next event is waited for, the log has told the
node's role. -/
structure LogStep (s s' : Host L) (notices : List Notice) : Prop where
  worker : s.worker.Logs s'.worker notices
  applied : s'.history.notified = s.history.notified ++ notices.filterMap Notice.report
  role : s'.phase = .selecting → s.phase = .selecting ∧ s'.worker.node = s.worker.node ∧
    s'.worker.lastRole = s.worker.lastRole ∨ s'.worker.lastRole = s'.worker.node.role

variable {s s' : Host L} {e : Event}

theorem LogStep.quiet (hworker : s'.worker = s.worker) (hnotified : s'.history = s.history)
    (hphase : s'.phase = .selecting → s.phase = .selecting) : s.LogStep s' [] := by
  refine ⟨?_, ?_, fun h => .inl ⟨hphase h, ?_, ?_⟩⟩
  · rw [hworker]
    exact .nothing rfl rfl rfl rfl
  · rw [hnotified]
    exact (List.append_nil _).symm
  · rw [hworker]
  · rw [hworker]

theorem logs_afterSelect (s : Host L) (ticked : Bool) :
    s.worker.Logs (s.afterSelect ticked).worker [] := by
  cases ticked <;> exact .nothing rfl rfl rfl rfl

theorem logStep_receive (s : Host L) (bytes : List UInt8) :
    ∃ notices, s.LogStep (s.receive bytes) notices := by
  unfold receive
  split
  · exact ⟨_, .failed s.worker _, (List.append_nil _).symm, fun h => .inl ⟨h, rfl, rfl⟩⟩
  · split
    · exact ⟨[], .nothing rfl rfl rfl rfl, (List.append_nil _).symm, fun h => .inl ⟨h, rfl, rfl⟩⟩
    · exact ⟨_, .failed s.worker _, (List.append_nil _).symm, fun h => .inl ⟨h, rfl, rfl⟩⟩

theorem logStep_of_recvClient {ticked : Bool} (h : s.recvClient ticked = some s') :
    ∃ notices, s.LogStep s' notices := by
  unfold recvClient at h
  split at h
  · split at h <;> cases h
    exact ⟨[], .quiet rfl rfl fun h => by cases h⟩
  · rename_i req clientQueue hqueue
    split at h
    · cases h
      exact ⟨[], .quiet rfl rfl fun h => by cases h⟩
    · rename_i worker hhandle
      cases h
      obtain ⟨notices, hlogs, hreport⟩ := logs_of_handleClientRequest hhandle
      refine ⟨notices, hlogs, ?_, fun h => by cases h⟩
      rw [hreport]
      exact (List.append_nil _).symm
    · rename_i worker hhandle
      cases h
      obtain ⟨notices, hlogs, hreport⟩ := logs_of_handleClientRequest hhandle
      refine ⟨notices, ?_, ?_, fun h => by cases h⟩
      · cases ticked <;> exact ⟨hlogs.id, hlogs.lines, hlogs.campaigns, hlogs.roles⟩
      · rw [hreport]
        exact (List.append_nil _).symm

theorem logStep_of_recvNetwork {ticked : Bool} (h : s.recvNetwork ticked = some s') :
    ∃ notices, s.LogStep s' notices := by
  unfold recvNetwork at h
  split at h
  · split at h <;> cases h
    exact ⟨[], .quiet rfl rfl fun h => by cases h⟩
  · rename_i msg networkQueue hqueue
    split at h
    · cases h
      exact ⟨[], .quiet rfl rfl fun h => by cases h⟩
    · rename_i node hstep
      cases h
      have hid : node.id = s.worker.node.id := by
        have hnode : (s.worker.node.step msg).2.id = s.worker.node.id := rfl
        rwa [hstep] at hnode
      refine ⟨[], ?_, (List.append_nil _).symm, fun h => by cases h⟩
      cases ticked <;> exact .nothing hid rfl rfl rfl

theorem logStep_poll (s : Host L) : ∃ notices, s.LogStep s.poll notices := by
  unfold poll
  split
  · exact ⟨[], .quiet rfl rfl fun h => by cases h⟩
  · rename_i node hpoll
    obtain ⟨-, rfl⟩ := RaftNode.pollReady_eq_none hpoll
    obtain ⟨notices, hlogs, hreport, hrole⟩ := logs_logRoleChange s.worker
    refine ⟨notices, hlogs, ?_, fun _ => .inr hrole⟩
    rw [hreport]
    exact (List.append_nil _).symm
  · rename_i bundle node hpoll
    obtain ⟨store, -, -, hid⟩ := RaftNode.pollReady_eq_some hpoll
    exact ⟨[], .nothing hid rfl rfl rfl, (List.append_nil _).symm, fun h => by cases h⟩

theorem logStep_dispatch (s : Host L) (messages : List L.Message) (applied : List ApplyReport)
    (sendErr : Option String) :
    ∃ notices, s.LogStep (s.dispatch messages applied sendErr) notices := by
  unfold dispatch
  split
  · exact ⟨[], .quiet rfl rfl fun h => by cases h⟩
  · split
    · exact ⟨[], .quiet rfl rfl fun h => by cases h⟩
    · rename_i worker hdispatch
      obtain ⟨notices, hlogs, hreport⟩ := logs_of_dispatchMessage hdispatch
      refine ⟨notices, hlogs, ?_, fun h => by cases h⟩
      rw [hreport]
      exact (List.append_nil _).symm

theorem logStep_notify (s : Host L) (applied : List ApplyReport) :
    ∃ notices, s.LogStep (s.notify applied) notices := by
  cases applied with
  | nil => exact ⟨[], .quiet rfl rfl fun h => by cases h⟩
  | cons report applied =>
    exact ⟨_, logs_notifyPut s.worker report, rfl, fun h => by cases h⟩

theorem logStep_of_step (h : s.step e = some s') : ∃ notices, s.LogStep s' notices := by
  cases step_cases h with
  | request | dropHandle | dropListener => exact ⟨[], .quiet rfl rfl id⟩
  | connection bytes => exact logStep_receive s bytes
  | recvClient hphase hrecv => exact logStep_of_recvClient hrecv
  | recvNetwork hphase hrecv => exact logStep_of_recvNetwork hrecv
  | timeout ticked =>
    exact ⟨[], logs_afterSelect s ticked, (List.append_nil _).symm, fun h => by cases h⟩
  | poll => exact logStep_poll s
  | dispatch => exact logStep_dispatch s _ _ _
  | notify => exact logStep_notify s _

/-- What the log of node `id`, which has started in the role `initial`, has told. -/
structure Told (id : ℕ) (initial : StateRole) (s : Host L) (notices : List Notice) : Prop where
  id_eq : s.worker.node.id = id
  lines : s.worker.logTx = notices.map (Notice.message id)
  applied : notices.filterMap Notice.report = s.history.notified
  campaigns : notices.filterMap Notice.campaignText = campaignTexts s.worker.replies
  roles : Follows initial (notices.filterMap Notice.roles) s.worker.lastRole
  role : s.phase = .selecting → s.worker.lastRole = s.worker.node.role

theorem Told.step {id : ℕ} {initial : StateRole} {notices : List Notice}
    (hs : s.Told id initial notices) (h : s.step e = some s') :
    ∃ notices', s'.Told id initial notices' := by
  obtain ⟨more, hworker, happlied, hrole⟩ := logStep_of_step h
  refine ⟨notices ++ more, hworker.id.trans hs.id_eq, ?_, ?_, ?_, ?_, fun hphase => ?_⟩
  · rw [hworker.lines, hs.lines, hs.id_eq, List.map_append]
  · rw [List.filterMap_append, hs.applied, happlied]
  · rw [List.filterMap_append, hs.campaigns, hworker.campaigns]
  · rw [List.filterMap_append]
    exact hs.roles.append hworker.roles
  · rcases hrole hphase with ⟨hbefore, hnode, hlast⟩ | hlast
    · rw [hlast, hs.role hbefore, hnode]
    · exact hlast

end Host

/-- **The log tells what happens.**  The lines of the log are about notices of which those of
applied entries are what `process_ready` has reported, in order, and, whenever it has
finished, all that was applied; those of changes of role lead from the first role to the
last, each to another one, and, whenever it has finished, to the role that the node has; and
those of campaigns are the answers to the requests that have started one.  All others are
errors. -/
theorem log_tells {config : NodeConfig} {s₀ s : Host L} (hspawn : spawnNode L config = .ok s₀)
    (h : Reachable Host.step s₀ s) : ∃ notices : List Notice,
    s.worker.logTx = notices.map (Notice.message config.id) ∧
    notices.filterMap Notice.report = s.history.notified ∧
    notices.filterMap Notice.campaignText = campaignTexts s.worker.replies ∧
    Follows s₀.worker.node.role (notices.filterMap Notice.roles) s.worker.lastRole ∧
    (s.phase = .selecting → s.worker.lastRole = s.worker.node.role ∧
      notices.filterMap Notice.report = s.history.applied) := by
  have htold : ∃ notices, s.Told config.id s₀.worker.node.role notices := by
    refine h.invariant (I := fun s => ∃ notices, s.Told config.id s₀.worker.node.role notices) ?_ ?_
    · obtain ⟨-, node, hnode, rfl⟩ := spawnNode_eq_ok hspawn
      obtain ⟨raw, -, hnew⟩ := bind_eq_ok.mp hnode
      cases hnew
      exact ⟨[], rfl, rfl, rfl, rfl, rfl, fun _ => rfl⟩
    · rintro t e t' - ⟨notices, ht⟩ he
      exact ht.step he
  obtain ⟨notices, hs⟩ := htold
  refine ⟨notices, hs.lines, hs.applied, hs.campaigns, hs.roles, fun hphase => ⟨hs.role hphase, ?_⟩⟩
  rw [hs.applied, (Host.clients_of_reachable hspawn h).2.applied_eq hphase]

/-- On a node that is the only voter, an election and a put. -/
def electionAndPut : List Event :=
  [.campaign, .recvClient false] ++ List.replicate 4 (Event.process none) ++
    [.put "k" "v", .recvClient true] ++ List.replicate 5 (Event.process none)

theorem log_tells_one_node : ∃ s₀ s : Host (MiniRaft.miniRaft []),
    spawnNode (MiniRaft.miniRaft []) oneNode = .ok s₀ ∧ run Host.step s₀ electionAndPut = some s ∧
    s.worker.logTx =
      [.info "[node 1] Campaign initiated! Previous role: Follower, starting election...",
        .info "[node 1] role changed Follower -> Leader (leader: 1)",
        .info "[node 1] applied key=k value=v (index 2, term 1)"] ∧
    ∃ notices : List Notice, s.worker.logTx = notices.map (Notice.message 1) ∧
      notices.filterMap Notice.report = [⟨1, "k", "v", 2, 1⟩] := by
  have hrun : (runHost (MiniRaft.miniRaft []) oneNode electionAndPut).map (fun s =>
      (s.worker.logTx, s.phase.isSelecting, s.history.applied)) = some
      ([.info "[node 1] Campaign initiated! Previous role: Follower, starting election...",
        .info "[node 1] role changed Follower -> Leader (leader: 1)",
        .info "[node 1] applied key=k value=v (index 2, term 1)"], true,
        [⟨1, "k", "v", 2, 1⟩]) := by decide
  obtain ⟨s, hs, hfacts⟩ := Option.map_eq_some_iff.mp hrun
  obtain ⟨s₀, hspawn, hrun⟩ := runHost_eq_some.mp hs
  simp only [Prod.mk.injEq] at hfacts
  obtain ⟨hlines, hphase, happlied⟩ := hfacts
  obtain ⟨notices, hnotices, -, -, -, hidle⟩ := log_tells hspawn ⟨_, hrun⟩
  refine ⟨s₀, s, hspawn, hrun, hlines, notices, hnotices, ?_⟩
  rw [(hidle (Phase.isSelecting_iff.mp hphase)).2, happlied]

end Raft
