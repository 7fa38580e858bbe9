/-
The node of the Raft demo (`18-hello-raft`), and its agreement with `RaftNode`.

`DemoNode` was written on its own, with a hash map in place of the store.  The
demo declares `CommandPayload`, `ApplyReport` and, as `ReadyOutcome`, the bundle
of a poll with the same fields as the replication crate; they are not repeated.

* `DemoNode.pollReady_eq_some` — a poll applies the commands that it is handed,
  and reports them;
* `DemoNode.Matches` — a demo node and a `RaftNode` with the same library state
  and the same values under all keys;
* `Matches.pollReady` — polled from such a state, they return the same and
  match again, so that what is proved of `RaftNode` holds of the demo too.
-/
import AsyncRust.RaftNode
import Mathlib.Data.List.AList

namespace Raft

variable {L : Library}

/-- The map has no order in the program; nothing below depends on the order of
its entries here. -/
structure DemoNode (L : Library) where
  id : ℕ
  raw : L.Raw
  storage : L.Storage
  stateMachine : AList fun _ : String => String

/-- Whether `apply_entries` applies the entry: it skips the empty entries of new
leaders, and changes of the configuration. -/
def Entry.isCommand (entry : Entry) : Bool :=
  entry.data ≠ [] ∧ entry.entryType = .entryNormal

/-- The report of the node `id` on the command in `entry`. -/
structure ApplyReport.Records (L : Library) (id : ℕ) (entry : Entry) (report : ApplyReport) :
    Prop where
  nodeId : report.nodeId = id
  index : report.index = entry.index
  term : report.term = entry.term
  command : CommandPayload.decode L entry.data = .ok (.put report.key report.value)

namespace DemoNode

def new (id : ℕ) (voters : List ℕ) : Except Fault (DemoNode L) := do
  let storage := L.newWithConfState voters []
  let raw ← context s!"failed to create RawNode {id}" (L.newRaw (config id) storage)
  pure { id, raw, storage, stateMachine := ∅ }

def campaign (node : DemoNode L) : Except Fault Unit × DemoNode L :=
  let (result, raw) := L.campaign node.raw node.storage
  (context "campaign failed" result, { node with raw })

def tick (node : DemoNode L) : DemoNode L :=
  { node with raw := L.tick node.raw node.storage }

def role (node : DemoNode L) : StateRole := L.role node.raw

def step (node : DemoNode L) (msg : L.Message) : Except Fault Unit × DemoNode L :=
  let (result, raw) := L.step node.raw node.storage msg
  (context "step failed" result, { node with raw })

def propose (node : DemoNode L) (cmd : CommandPayload) :
    Except Fault Unit × DemoNode L :=
  match context "encode command failed" (cmd.encode L) with
  | .error fault => (.error fault, node)
  | .ok data =>
    let (result, raw) := L.propose node.raw node.storage [] data
    (context "propose failed" result, { node with raw })

def valueFor (node : DemoNode L) (key : String) : Option String :=
  node.stateMachine.lookup key

def snapshot (node : DemoNode L) : AList fun _ : String => String := node.stateMachine

def applyCommand (node : DemoNode L) (index term : ℕ) :
    CommandPayload → ApplyReport × DemoNode L
  | .put key value =>
    (⟨node.id, key, value, index, term⟩,
      { node with stateMachine := node.stateMachine.insert key value })

def applyEntries (node : DemoNode L) :
    List Entry → Except Fault (List ApplyReport × DemoNode L)
  | [] => pure ([], node)
  | entry :: entries =>
    if entry.data = [] then node.applyEntries entries
    else if entry.entryType = .entryNormal then do
      let command ← context "decode command failed" (CommandPayload.decode L entry.data)
      let (report, node) := node.applyCommand entry.index entry.term command
      let (applied, node) ← node.applyEntries entries
      pure (report :: applied, node)
    else node.applyEntries entries

def pollReady (node : DemoNode L) :
    Except Fault (Option (ReadyBundle L) × DemoNode L) := do
  if !L.hasReady node.raw node.storage then
    return (none, node)
  let (ready, raw) := L.ready node.raw node.storage
  let storage ← L.persist node.storage ready
  let (allApplied, node) ← { node with raw, storage }.applyEntries ready.committedEntries
  let allMessages := if ready.persistedMessages = [] then ready.messages
    else ready.messages ++ ready.persistedMessages
  let (lightReady, raw) := L.advance node.raw node.storage ready.taken
  let storage := L.setCommitIndex node.storage lightReady.commitIndex
  let (allApplied', node) ←
    { node with raw, storage }.applyEntries lightReady.committedEntries
  return (some
      { messages := allMessages ++ lightReady.messages, applied := allApplied ++ allApplied' },
    { node with raw := L.advanceApply node.raw node.storage })

def handed (node : DemoNode L) : List Entry := L.handed node.raw node.storage

/-- The messages in the `Ready` and the `LightReady` of the next poll. -/
def emitted (node : DemoNode L) : List L.Message :=
  if L.hasReady node.raw node.storage then
    let (ready, raw) := L.ready node.raw node.storage
    match L.persist node.storage ready with
    | .ok storage =>
      ready.messages ++ ready.persistedMessages ++ (L.advance raw storage ready.taken).1.messages
    | .error _ => []
  else []

theorem propose_frame (node : DemoNode L) (cmd : CommandPayload) :
    ∃ raw, (node.propose cmd).2 = { node with raw } := by
  unfold propose
  split
  · exact ⟨node.raw, rfl⟩
  · exact ⟨_, rfl⟩

theorem step_id {node node' : DemoNode L} {msg : L.Message} {result : Except Fault Unit}
    (h : node.step msg = (result, node')) : node'.id = node.id := by
  cases h
  rfl

/-! ### What a poll applies -/

/-- The state machine with what a report says. -/
def record (values : AList fun _ : String => String) (report : ApplyReport) :
    AList fun _ : String => String :=
  values.insert report.key report.value

theorem applyEntries_eq_ok {entries : List Entry} : ∀ {node node' : DemoNode L}
    {applied : List ApplyReport}, node.applyEntries entries = .ok (applied, node') →
      List.Forall₂ (ApplyReport.Records L node.id) (entries.filter Entry.isCommand) applied ∧
        node' = { node with stateMachine := applied.foldl record node.stateMachine } := by
  induction entries with
  | nil =>
    intro node node' applied h
    cases h
    exact ⟨.nil, rfl⟩
  | cons entry entries ih =>
    intro node node' applied h
    simp only [applyEntries] at h
    split at h
    · rename_i hempty
      rw [List.filter_cons_of_neg (by simp [Entry.isCommand, hempty])]
      exact ih h
    · rename_i hdata
      split at h
      · rename_i hnormal
        obtain ⟨⟨key, value⟩, hdecode, h⟩ := bind_eq_ok.mp h
        obtain ⟨⟨applied', node''⟩, happly, h⟩ := bind_eq_ok.mp h
        cases h
        obtain ⟨hrecords, rfl⟩ := ih happly
        rw [List.filter_cons_of_pos (by simp [Entry.isCommand, hdata, hnormal])]
        exact ⟨.cons ⟨rfl, rfl, rfl, context_eq_ok.mp hdecode⟩ hrecords, rfl⟩
      · rename_i hnormal
        rw [List.filter_cons_of_neg (by simp [Entry.isCommand, hnormal])]
        exact ih h

theorem pollReady_of_not_hasReady {node : DemoNode L}
    (h : L.hasReady node.raw node.storage = false) : node.pollReady = .ok (none, node) := by
  simp [pollReady, h]
  rfl

/-- A poll that returns nothing has found nothing ready, and changes nothing. -/
theorem pollReady_eq_none {node node' : DemoNode L} (h : node.pollReady = .ok (none, node')) :
    L.hasReady node.raw node.storage = false ∧ node' = node := by
  cases hready : L.hasReady node.raw node.storage with
  | false =>
    rw [pollReady_of_not_hasReady hready] at h
    cases h
    exact ⟨rfl, rfl⟩
  | true =>
    rw [pollReady, hready] at h
    simp only [Bool.not_true, Bool.false_eq_true, if_false] at h
    obtain ⟨storage, -, h⟩ := bind_eq_ok.mp h
    obtain ⟨⟨applied, node₁⟩, -, h⟩ := bind_eq_ok.mp h
    obtain ⟨⟨applied', node₂⟩, -, h⟩ := bind_eq_ok.mp h
    cases h

theorem handed_eq_nil {node node' : DemoNode L} (h : node.pollReady = .ok (none, node')) :
    node.handed = [] := by
  simp [handed, Library.handed, (pollReady_eq_none h).1]

theorem emitted_eq_nil {node node' : DemoNode L} (h : node.pollReady = .ok (none, node')) :
    node.emitted = [] := by
  simp [emitted, (pollReady_eq_none h).1]

/-- A poll that returns a bundle has applied the commands that it was handed, in
their order; the bundle has their reports, and all messages of the poll. -/
theorem pollReady_eq_some {node node' : DemoNode L} {bundle : ReadyBundle L}
    (h : node.pollReady = .ok (some bundle, node')) :
    List.Forall₂ (ApplyReport.Records L node.id) (node.handed.filter Entry.isCommand)
        bundle.applied ∧
      bundle.messages = node.emitted ∧ node'.id = node.id ∧
      node'.stateMachine = bundle.applied.foldl record node.stateMachine := by
  by_cases hready : L.hasReady node.raw node.storage = true
  · rcases hraw : L.ready node.raw node.storage with ⟨ready, raw⟩
    rw [pollReady, hready, hraw] at h
    simp only [Bool.not_true, Bool.false_eq_true, if_false] at h
    obtain ⟨storage, hpersist, h⟩ := bind_eq_ok.mp h
    obtain ⟨⟨applied, node₁⟩, happly₁, h⟩ := bind_eq_ok.mp h
    obtain ⟨hrecords₁, rfl⟩ := applyEntries_eq_ok happly₁
    rcases hlight : L.advance raw storage ready.taken with ⟨lightReady, raw'⟩
    simp only [hlight] at h
    obtain ⟨⟨applied', node₂⟩, happly₂, h⟩ := bind_eq_ok.mp h
    obtain ⟨hrecords₂, rfl⟩ := applyEntries_eq_ok happly₂
    cases h
    have hhanded : node.handed = ready.committedEntries ++ lightReady.committedEntries := by
      simp [handed, Library.handed, hready, hraw, hpersist, hlight]
    refine ⟨?_, ?_, rfl, by simp⟩
    · rw [hhanded, List.filter_append]
      exact List.rel_append hrecords₁ hrecords₂
    · simp only [emitted, hready, hraw, hpersist, hlight, if_true]
      split
      · rename_i hnone
        rw [hnone, List.append_nil]
      · rfl
  · simp [pollReady_of_not_hasReady (by simpa using hready)] at h

theorem pollReady_id {node node' : DemoNode L} {outcome : Option (ReadyBundle L)}
    (h : node.pollReady = .ok (outcome, node')) : node'.id = node.id := by
  cases outcome with
  | none => rw [(pollReady_eq_none h).2]
  | some bundle => exact (pollReady_eq_some h).2.2.1

theorem nodeId_of_pollReady {node node' : DemoNode L} {bundle : ReadyBundle L}
    {report : ApplyReport} (h : node.pollReady = .ok (some bundle, node'))
    (hreport : report ∈ bundle.applied) : report.nodeId = node.id := by
  obtain ⟨hrecords, -⟩ := pollReady_eq_some h
  have hall : List.Forall₂ (fun report _ => report.nodeId = node.id ∧ True) bundle.applied
      (node.handed.filter Entry.isCommand) :=
    .flip (hrecords.imp fun _ _ hrecord => ⟨hrecord.nodeId, trivial⟩)
  exact ((List.forall₂_and_left _ _).mp hall).1 report hreport

/-! ### Agreement with `RaftNode` -/

/-- The demo node `d` and the node `n` differ in nothing but how they keep their
key-value pairs. -/
structure Matches (d : DemoNode L) (n : RaftNode L) : Prop where
  id : d.id = n.id
  raw : d.raw = n.raw
  storage : d.storage = n.storage
  valueFor : d.valueFor = n.valueFor

variable {d d' : DemoNode L} {n : RaftNode L}

/-- Every demo node has a matching `RaftNode`. -/
theorem exists_matches (d : DemoNode L) : ∃ n, Matches d n := by
  have hstore : ∀ entries : List (Sigma fun _ : String => String), ∃ store : KvStore,
      store.get = fun key => entries.dlookup key := by
    intro entries
    induction entries with
    | nil => exact ⟨.new, funext fun key => KvStore.get_new key⟩
    | cons entry entries ih =>
      obtain ⟨key, value⟩ := entry
      obtain ⟨store, hstore⟩ := ih
      refine ⟨store.put key value, funext fun key' => ?_⟩
      rw [KvStore.get_put, hstore]
      by_cases hkey : key' = key
      · subst hkey
        rw [Function.update_self, List.dlookup_cons_eq]
      · rw [Function.update_of_ne hkey]
        exact (List.dlookup_cons_ne entries ⟨key, value⟩ hkey).symm
  obtain ⟨store, hstore⟩ := hstore d.stateMachine.entries
  exact ⟨⟨d.id, d.raw, d.storage, store⟩, rfl, rfl, rfl, hstore.symm⟩

theorem Matches.with (h : Matches d n) (raw : L.Raw) (storage : L.Storage) :
    Matches { d with raw, storage } { n with raw, storage } :=
  ⟨h.id, rfl, rfl, h.valueFor⟩

theorem Matches.applyCommand (h : Matches d n) (index term : ℕ) (command : CommandPayload) :
    (d.applyCommand index term command).1 = (n.applyCommand index term command).1 ∧
      Matches (d.applyCommand index term command).2 (n.applyCommand index term command).2 := by
  cases command with
  | put key value =>
    refine ⟨by simp [DemoNode.applyCommand, RaftNode.applyCommand, h.id], h.id, h.raw,
      h.storage, ?_⟩
    funext key'
    have hvalue := congrFun h.valueFor key'
    simp only [DemoNode.valueFor, RaftNode.valueFor, DemoNode.applyCommand,
      RaftNode.applyCommand, KvStore.get_put] at hvalue ⊢
    by_cases hkey : key' = key
    · subst hkey
      rw [AList.lookup_insert, Function.update_self]
    · rw [AList.lookup_insert_ne hkey, Function.update_of_ne hkey, hvalue]

theorem Matches.applyEntries {entries : List Entry} : ∀ {d : DemoNode L} {n : RaftNode L},
    Matches d n →
      Alike (fun p q => p.1 = q.1 ∧ Matches p.2 q.2) (d.applyEntries entries)
        (n.applyEntries entries) := by
  induction entries with
  | nil =>
    intro d n h
    exact .ok ⟨rfl, h⟩
  | cons entry entries ih =>
    intro d n h
    simp only [DemoNode.applyEntries, RaftNode.applyEntries]
    by_cases hempty : entry.data = []
    · rw [if_pos hempty, if_pos hempty]
      exact ih h
    · rw [if_neg hempty, if_neg hempty]
      by_cases hnormal : entry.entryType = .entryNormal
      · rw [if_pos hnormal, if_pos hnormal]
        refine (Alike.refl _).bind fun command _ hcommand => ?_
        subst hcommand
        obtain ⟨hreport, hnext⟩ := h.applyCommand entry.index entry.term command
        refine (ih hnext).bind fun p q hpq => ?_
        exact .ok ⟨congrArg₂ List.cons hreport hpq.1, hpq.2⟩
      · rw [if_neg hnormal, if_neg hnormal]
        exact ih h

/-- **The two nodes agree.**  A poll of a demo node fails like a poll of a matching
`RaftNode`, or returns the same, and the nodes match after it. -/
theorem Matches.pollReady (h : Matches d n) :
    Alike (fun p q => p.1 = q.1 ∧ Matches p.2 q.2) d.pollReady n.pollReady := by
  rw [DemoNode.pollReady, RaftNode.pollReady, ← h.raw, ← h.storage]
  cases L.hasReady d.raw d.storage with
  | false => exact .ok ⟨rfl, h⟩
  | true =>
    simp only [Bool.not_true, Bool.false_eq_true, if_false]
    rcases hready : L.ready d.raw d.storage with ⟨ready, raw⟩
    simp only [hready]
    refine (Alike.refl _).bind fun storage _ hstorage => ?_
    subst hstorage
    refine (h.with raw storage).applyEntries.bind ?_
    rintro ⟨applied, d₁⟩ ⟨_, n₁⟩ ⟨rfl, (h₁ : Matches d₁ n₁)⟩
    simp only [← h₁.raw, ← h₁.storage]
    rcases hlight : L.advance d₁.raw d₁.storage ready.taken with ⟨lightReady, raw'⟩
    simp only [hlight]
    refine (h₁.with raw' _).applyEntries.bind ?_
    rintro ⟨applied', d₂⟩ ⟨_, n₂⟩ ⟨rfl, (h₂ : Matches d₂ n₂)⟩
    -- `extend` with nothing is no change
    have hmessages : (if ready.persistedMessages = [] then ready.messages
        else ready.messages ++ ready.persistedMessages) =
          ready.messages ++ ready.persistedMessages := by
      split <;> simp_all
    rw [hmessages]
    exact .ok ⟨rfl, h₂.id, by rw [h₂.raw, h₂.storage], h₂.storage, h₂.valueFor⟩

end DemoNode

end Raft
