/-
What `poll_ready` stores of a `Ready` with a snapshot.

`MemLog` is the log that a `MemStorage` keeps, and `StorageView` sees the storage of a
library as one, with what is relied on of its calls.  `StorageView.Returned` is what is
relied on of a `Ready`.

* `StorageView.map_persist` — phase 1 of `poll_ready`, on the log;
* `MemLog.persist_snapshot` — the entries are appended before the snapshot is applied,
  which clears the log: no entry is left, or the append panics;
* `persists_iff` — so a poll stores what its `Ready` brings iff there is no snapshot in
  it, or no entry and the store has seen every command before;
* `miniRestore` — a follower that is sent a snapshot and the entry after it.
-/
import AsyncRust.RaftConvergence

namespace Raft

variable {L : Library}

/-! ### The log of a `MemStorage` -/

/-- The index of the last snapshot, the entries after it, and the commit index of the
hard state. -/
structure MemLog where
  start : ℕ
  entries : List Entry
  commit : ℕ
  deriving DecidableEq, Repr

namespace MemLog

variable {log log' : MemLog} {commit : Option ℕ} {entries : List Entry} {snapshot : ℕ}

def firstIndex (log : MemLog) : ℕ := (log.entries.head?.map Entry.index).getD (log.start + 1)

def lastIndex (log : MemLog) : ℕ := (log.entries.getLast?.map Entry.index).getD log.start

/-- The entries overlap the log or directly continue it. -/
def Joins (log : MemLog) (entries : List Entry) : Prop :=
  ∀ entry ∈ entries.head?, log.firstIndex ≤ entry.index ∧ entry.index ≤ log.lastIndex + 1

instance (log : MemLog) (entries : List Entry) : Decidable (log.Joins entries) :=
  match h : entries.head? with
  | none => isTrue fun entry hentry => absurd (h.symm.trans hentry) (by simp)
  | some first =>
    decidable_of_iff (log.firstIndex ≤ first.index ∧ first.index ≤ log.lastIndex + 1)
      ⟨fun hjoins entry hentry => Option.some_inj.mp (h.symm.trans hentry) ▸ hjoins,
        fun hjoins => hjoins first h⟩

/-- The log's entries with `entries` written over them. -/
def overwritten (log : MemLog) : List Entry → List Entry
  | [] => log.entries
  | entry :: entries => log.entries.take (entry.index - log.firstIndex) ++ entry :: entries

def append (log : MemLog) (entries : List Entry) : Except Fault MemLog :=
  if log.Joins entries then .ok { log with entries := log.overwritten entries }
  else .error .panic

def applySnapshot (log : MemLog) (index : ℕ) : Except Fault MemLog :=
  if index < log.firstIndex then .error (.error ["snapshot out of date"])
  else .ok ⟨index, [], index⟩

/-- Phase 1 of `poll_ready`, with the commit index of the hard state and the index of the
snapshot, which is 0 for an empty one. -/
def persist (log : MemLog) (commit : Option ℕ) (entries : List Entry) (snapshot : ℕ) :
    Except Fault MemLog := do
  let log := { log with commit := commit.getD log.commit }
  let log ← context "append entries failed" (log.append entries)
  if snapshot = 0 then pure log
  else context "apply snapshot failed" (log.applySnapshot snapshot)

theorem joins_nil (log : MemLog) : log.Joins [] := fun _ h => absurd h (by simp)

theorem append_nil (log : MemLog) : log.append [] = .ok log := if_pos log.joins_nil

/-- Without a snapshot the entries are kept. -/
theorem persist_entries (hjoins : log.Joins entries) :
    log.persist commit entries 0 =
      .ok ⟨log.start, log.overwritten entries, commit.getD log.commit⟩ := by
  have happend : { log with commit := commit.getD log.commit }.append entries =
      .ok ⟨log.start, log.overwritten entries, commit.getD log.commit⟩ := if_pos hjoins
  rw [persist, happend]
  rfl

/-- **A snapshot clears the log**: what was appended before it is gone. -/
theorem persist_snapshot (hsnapshot : snapshot ≠ 0)
    (h : log.persist commit entries snapshot = .ok log') : log' = ⟨snapshot, [], snapshot⟩ := by
  obtain ⟨appended, -, h⟩ := bind_eq_ok.mp h
  rw [if_neg hsnapshot, context_eq_ok, applySnapshot] at h
  split at h
  · cases h
  · exact (Except.ok.inj h).symm

/-- A snapshot without entries is taken. -/
theorem persist_restored (hsnapshot : snapshot ≠ 0) (hnewer : log.firstIndex ≤ snapshot) :
    log.persist commit [] snapshot = .ok ⟨snapshot, [], snapshot⟩ := by
  have happly : { log with commit := commit.getD log.commit }.applySnapshot snapshot =
      .ok ⟨snapshot, [], snapshot⟩ := if_neg (Nat.not_lt.mpr hnewer)
  rw [persist, append_nil]
  refine bind_eq_ok.mpr ⟨_, rfl, ?_⟩
  rw [if_neg hsnapshot, happly]
  rfl

/-- What is appended behind the first index leaves the first index. -/
theorem firstIndex_append {entry : Entry} (hlt : log.firstIndex < entry.index)
    (h : log.append (entry :: entries) = .ok log') : log'.firstIndex = log.firstIndex := by
  rw [append] at h
  split at h
  · rename_i hjoins
    obtain rfl := Except.ok.inj h
    obtain ⟨-, hlast⟩ := hjoins entry rfl
    cases hlog : log.entries with
    | nil =>
      -- an entry behind an empty log does not continue it
      simp only [firstIndex, lastIndex, hlog, List.head?_nil, List.getLast?_nil, Option.map_none,
        Option.getD_none] at hlt hlast
      omega
    | cons first rest =>
      obtain ⟨k, hk⟩ : ∃ k, entry.index - log.firstIndex = k + 1 :=
        ⟨entry.index - log.firstIndex - 1, by omega⟩
      simp only [firstIndex, overwritten, hlog] at hk ⊢
      rw [hk]
      rfl
  · cases h

/-- Writing entries that follow a snapshot panics, if it fails. -/
theorem persist_error {fault : Fault} (hnewer : log.firstIndex ≤ snapshot)
    (hentries : ∀ entry ∈ entries.head?, entry.index = snapshot + 1)
    (h : log.persist commit entries snapshot = .error fault) : fault = .panic := by
  rcases bind_eq_error.mp h with happend | ⟨appended, happend, happly⟩
  · rw [append] at happend
    split at happend
    · cases happend
    · cases happend
      rfl
  · rw [context_eq_ok] at happend
    have hfirst : appended.firstIndex ≤ snapshot := by
      cases entries with
      | nil =>
        obtain rfl := Except.ok.inj ((append_nil _).symm.trans happend)
        exact hnewer
      | cons entry rest =>
        have hindex := hentries entry rfl
        have hlt : firstIndex { log with commit := commit.getD log.commit } < entry.index := by
          rw [hindex]
          exact Nat.lt_succ_of_le hnewer
        rw [firstIndex_append hlt happend]
        exact hnewer
    rw [applySnapshot, if_neg (Nat.not_lt.mpr hfirst)] at happly
    split at happly <;> cases happly

end MemLog

/-! ### The storage of a library -/

/-- The storage of a library as a `MemLog`, and what its calls do to it.  The index of a
snapshot and the commit index of a hard state are fields of theirs. -/
structure StorageView (L : Library) where
  log : L.Storage → MemLog
  snapshotIndex : L.Snapshot → ℕ
  hardCommit : L.HardState → ℕ
  setHardstate : ∀ storage hardState,
    log (L.setHardstate storage hardState) = { log storage with commit := hardCommit hardState }
  append : ∀ storage entries,
    (L.append storage entries).map log = (log storage).append entries
  snapshotIsEmpty : ∀ snapshot, L.snapshotIsEmpty snapshot = decide (snapshotIndex snapshot = 0)
  applySnapshot : ∀ storage snapshot,
    (L.applySnapshot storage snapshot).map log = (log storage).applySnapshot (snapshotIndex snapshot)
  setCommit : ∀ storage commit, log (L.setCommit storage commit) = { log storage with commit }

theorem map_context {α β : Type} (text : String) (result : Except Fault α) (f : α → β) :
    (context text result).map f = context text (result.map f) := by
  cases result <;> rfl

theorem map_bind {α β γ : Type} (result : Except Fault α) (f : α → Except Fault β) (g : β → γ) :
    (result >>= f).map g = result >>= fun a => (f a).map g := by
  cases result <;> rfl

theorem bind_map {α β γ : Type} (result : Except Fault α) (f : α → β) (g : β → Except Fault γ) :
    (result.map f) >>= g = result >>= fun a => g (f a) := by
  cases result <;> rfl

namespace StorageView

variable (V : StorageView L) {storage storage' : L.Storage}
  {ready : Ready L.HardState L.Snapshot L.Message}

/-- **Phase 1 of `poll_ready`** is `MemLog.persist`, seen on the log. -/
theorem map_persist :
    (L.persist storage ready).map V.log =
      (V.log storage).persist (ready.hs.map V.hardCommit) ready.entries
        (V.snapshotIndex ready.snapshot) := by
  -- the storage with the hard state
  obtain ⟨storage₁, hpersist, hlog⟩ : ∃ storage₁, L.persist storage ready = (do
      let storage ← if ready.entries = [] then pure storage₁
        else context "append entries failed" (L.append storage₁ ready.entries)
      if L.snapshotIsEmpty ready.snapshot then pure storage
      else context "apply snapshot failed" (L.applySnapshot storage ready.snapshot)) ∧
      V.log storage₁ = { V.log storage with
        commit := (ready.hs.map V.hardCommit).getD (V.log storage).commit } := by
    cases hhs : ready.hs with
    | none => exact ⟨storage, by rw [Library.persist, hhs], rfl⟩
    | some hardState =>
      exact ⟨L.setHardstate storage hardState, by rw [Library.persist, hhs],
        V.setHardstate storage hardState⟩
  have happly : ∀ storage₂, (if L.snapshotIsEmpty ready.snapshot then pure storage₂
      else context "apply snapshot failed" (L.applySnapshot storage₂ ready.snapshot)).map V.log =
        if V.snapshotIndex ready.snapshot = 0 then pure (V.log storage₂)
        else context "apply snapshot failed"
          ((V.log storage₂).applySnapshot (V.snapshotIndex ready.snapshot)) := by
    intro storage₂
    rw [V.snapshotIsEmpty]
    by_cases hempty : V.snapshotIndex ready.snapshot = 0
    · simp only [hempty, decide_true, if_true]
      rfl
    · simp only [hempty, decide_false, Bool.false_eq_true, if_false]
      rw [map_context, V.applySnapshot]
  rw [hpersist, MemLog.persist]
  by_cases hentries : ready.entries = []
  · rw [if_pos hentries, hentries, MemLog.append_nil]
    exact (happly storage₁).trans (by rw [hlog]; rfl)
  · have happend : context "append entries failed" ((V.log storage₁).append ready.entries) =
        (context "append entries failed" (L.append storage₁ ready.entries)).map V.log := by
      rw [map_context, V.append]
    simp only [if_neg hentries]
    rw [map_bind, ← hlog, happend, bind_map]
    simp only [happly]

theorem log_setCommitIndex (storage : L.Storage) (commit : Option ℕ) :
    V.log (L.setCommitIndex storage commit) =
      { V.log storage with commit := commit.getD (V.log storage).commit } := by
  cases commit with
  | none => rfl
  | some commit => exact V.setCommit storage commit

/-! ### What a `Ready` brings -/

/-- What is relied on of a `Ready` and of the `LightReady` after it, when `log` is stored. -/
structure Returned (log : MemLog) (raw : L.Raw)
    (ready : Ready L.HardState L.Snapshot L.Message) : Prop where
  /-- Entries overlap the log or continue it. -/
  joins : V.snapshotIndex ready.snapshot = 0 → log.Joins ready.entries
  /-- After a snapshot they begin behind it. -/
  follows : V.snapshotIndex ready.snapshot ≠ 0 →
    ∀ entry ∈ ready.entries.head?, entry.index = V.snapshotIndex ready.snapshot + 1
  /-- A snapshot is ahead of what is committed, so of the first index. -/
  newer : V.snapshotIndex ready.snapshot ≠ 0 → log.firstIndex ≤ V.snapshotIndex ready.snapshot
  /-- Nothing is committed that is neither in the snapshot nor in the entries. -/
  commit : V.snapshotIndex ready.snapshot ≠ 0 → ∀ hardState, ready.hs = some hardState →
    V.hardCommit hardState ≤ V.snapshotIndex ready.snapshot + ready.entries.length
  /-- With a snapshot no entry is handed out as committed. -/
  committed : V.snapshotIndex ready.snapshot ≠ 0 → ready.committedEntries = []
  /-- Later only stored entries are handed out. -/
  stored : ∀ storage light raw', L.advance raw storage ready.taken = (light, raw') →
    ∀ entry ∈ light.committedEntries, entry ∈ (V.log storage).entries
  /-- A new commit index is not below the one before. -/
  advanced : ∀ storage light raw', L.advance raw storage ready.taken = (light, raw') →
    ∀ commit ∈ light.commitIndex, ∀ hardState, ready.hs = some hardState →
      V.hardCommit hardState ≤ commit

end StorageView

/-! ### Polls -/

namespace RaftNode

variable {node node' : RaftNode L} {ready : Ready L.HardState L.Snapshot L.Message}
  {raw : L.Raw} {storage : L.Storage} {entries : List Entry} {bundle : ReadyBundle L}

/-- A command that cannot be decoded is an error, and no panic. -/
theorem applyEntries_ne_panic :
    ∀ {node : RaftNode L}, node.applyEntries entries ≠ .error .panic := by
  induction entries with
  | nil => intro node h; cases h
  | cons entry entries ih =>
    intro node h
    simp only [applyEntries] at h
    split at h
    · exact ih h
    · split at h
      · rcases bind_eq_error.mp h with hdecode | ⟨command, -, h⟩
        · cases hresult : L.deserialize entry.data <;>
            simp [CommandPayload.decode, hresult, context, Except.mapError, Fault.context]
              at hdecode
        · rcases bind_eq_error.mp h with hrest | ⟨rest, -, h⟩
          · exact ih hrest
          · cases h
      · exact ih h

/-- Only phase 1 panics. -/
theorem persist_of_pollReady_panic (hready : L.hasReady node.raw node.storage = true)
    (hraw : L.ready node.raw node.storage = (ready, raw)) (h : node.pollReady = .error .panic) :
    L.persist node.storage ready = .error .panic := by
  rw [pollReady, hready, hraw] at h
  simp only [Bool.not_true, Bool.false_eq_true, if_false] at h
  rcases bind_eq_error.mp h with hpersist | ⟨storage, -, h⟩
  · exact hpersist
  rcases bind_eq_error.mp h with happly | ⟨⟨applied, node₁⟩, -, h⟩
  · exact absurd happly applyEntries_ne_panic
  rcases bind_eq_error.mp h with happly | ⟨⟨applied', node₂⟩, -, h⟩
  · exact absurd happly applyEntries_ne_panic
  · cases h

theorem pollReady_of_persist_error {fault : Fault}
    (hready : L.hasReady node.raw node.storage = true)
    (hraw : L.ready node.raw node.storage = (ready, raw))
    (h : L.persist node.storage ready = .error fault) : node.pollReady = .error fault := by
  rw [pollReady, hready, hraw]
  exact bind_eq_error.mpr (.inl h)

/-- What is stored after a poll. -/
theorem storage_of_pollReady (hready : L.hasReady node.raw node.storage = true)
    (hraw : L.ready node.raw node.storage = (ready, raw))
    (h : node.pollReady = .ok (some bundle, node')) :
    ∃ storage light raw', L.persist node.storage ready = .ok storage ∧
      L.advance raw storage ready.taken = (light, raw') ∧
      node'.storage = L.setCommitIndex storage light.commitIndex := by
  rw [pollReady, hready, hraw] at h
  simp only [Bool.not_true, Bool.false_eq_true, if_false] at h
  obtain ⟨storage, hpersist, h⟩ := bind_eq_ok.mp h
  obtain ⟨⟨applied, node₁⟩, happly₁, h⟩ := bind_eq_ok.mp h
  obtain ⟨store₁, rfl⟩ := applyEntries_frame happly₁
  rcases hlight : L.advance raw storage ready.taken with ⟨light, raw'⟩
  simp only [hlight] at h
  obtain ⟨⟨applied', node₂⟩, happly₂, h⟩ := bind_eq_ok.mp h
  obtain ⟨store₂, rfl⟩ := applyEntries_frame happly₂
  cases h
  exact ⟨storage, light, raw', hpersist, hlight, rfl⟩

/-- A poll that is handed no entries leaves the store as it is. -/
theorem pollReady_of_no_entries {light : LightReady L.Message} {raw' : L.Raw}
    (hready : L.hasReady node.raw node.storage = true)
    (hraw : L.ready node.raw node.storage = (ready, raw))
    (hpersist : L.persist node.storage ready = .ok storage)
    (hlight : L.advance raw storage ready.taken = (light, raw'))
    (hcommitted : ready.committedEntries = []) (hlater : light.committedEntries = []) :
    ∃ bundle node', node.pollReady = .ok (some bundle, node') ∧ bundle.applied = [] ∧
      node'.storage = L.setCommitIndex storage light.commitIndex ∧ node'.store = node.store := by
  have happly : { node with raw, storage }.applyEntries ready.committedEntries =
      .ok ([], { node with raw, storage }) := by
    rw [hcommitted]
    rfl
  have happly' : RaftNode.applyEntries
      ⟨node.id, raw', L.setCommitIndex storage light.commitIndex, node.store⟩
        light.committedEntries =
      .ok ([], ⟨node.id, raw', L.setCommitIndex storage light.commitIndex, node.store⟩) := by
    rw [hlater]
    rfl
  have hpoll := pollReady_of_applyEntries hready hraw hpersist happly hlight rfl happly'
  exact ⟨_, _, hpoll, rfl, rfl, rfl⟩

end RaftNode

/-! ### What a poll has to store -/

def ApplyReport.apply (values : String → Option String) (report : ApplyReport) :
    String → Option String :=
  Function.update values report.key (some report.value)

namespace Replica

def raw : Replica L → L.Raw
  | raftNode node => node.raw
  | demoNode node => node.raw

def storage : Replica L → L.Storage
  | raftNode node => node.storage
  | demoNode node => node.storage

/-- What a replica holds after a poll with this `Ready`, when it held `before`; `slots` are
the positions of the log up to the snapshot. -/
structure Stored (V : StorageView L) (before : MemLog)
    (ready : Ready L.HardState L.Snapshot L.Message) (slots : List Slot)
    (bundle : ReadyBundle L) (r : Replica L) : Prop where
  /-- Without a snapshot the entries are written over the log. -/
  entries : V.snapshotIndex ready.snapshot = 0 → (V.log r.storage).start = before.start ∧
    (V.log r.storage).entries = before.overwritten ready.entries
  /-- With one the log is the snapshot point and then the entries. -/
  snapshot : V.snapshotIndex ready.snapshot ≠ 0 →
    (V.log r.storage).start = V.snapshotIndex ready.snapshot ∧
      (V.log r.storage).entries = ready.entries
  commit : ∀ hardState, ready.hs = some hardState →
    V.hardCommit hardState ≤ (V.log r.storage).commit
  /-- The store has seen every command up to the snapshot, and then what the poll has
  applied. -/
  store : V.snapshotIndex ready.snapshot ≠ 0 →
    r.valueFor = bundle.applied.foldl ApplyReport.apply (stateAfter slots)

/-- The poll does not panic, and if it returns then all is stored. -/
def Persists (V : StorageView L) (ready : Ready L.HardState L.Snapshot L.Message)
    (slots : List Slot) (r : Replica L) : Prop :=
  r.pollReady ≠ .error .panic ∧ ∀ bundle r', r.pollReady = .ok (some bundle, r') →
    Stored V (V.log r.storage) ready slots bundle r'

variable {V : StorageView L} {ready : Ready L.HardState L.Snapshot L.Message} {slots : List Slot}
  {raw : L.Raw}

/-- A demo node stores what the `RaftNode` that it matches stores. -/
theorem persists_of_matches {d : DemoNode L} {n : RaftNode L} (h : DemoNode.Matches d n) :
    (demoNode d).Persists V ready slots ↔ (raftNode n).Persists V ready slots := by
  have hstorage : (demoNode d).storage = (raftNode n).storage := h.storage
  have hstored : ∀ {bundle : ReadyBundle L} {d' : DemoNode L} {n' : RaftNode L},
      DemoNode.Matches d' n' →
        (Stored V (V.log (demoNode d).storage) ready slots bundle (demoNode d') ↔
          Stored V (V.log (raftNode n).storage) ready slots bundle (raftNode n')) := by
    intro bundle d' n' h'
    have hstorage' : (demoNode d').storage = (raftNode n').storage := h'.storage
    have hvalue : (demoNode d').valueFor = (raftNode n').valueFor := h'.valueFor
    constructor
    · rintro ⟨hentries, hsnapshot, hcommit, hstore⟩
      rw [hstorage'] at hentries hsnapshot hcommit
      rw [hstorage] at hentries
      exact ⟨hentries, hsnapshot, hcommit, fun hne => hvalue ▸ hstore hne⟩
    · rintro ⟨hentries, hsnapshot, hcommit, hstore⟩
      rw [← hstorage'] at hentries hsnapshot hcommit
      rw [← hstorage] at hentries
      exact ⟨hentries, hsnapshot, hcommit, fun hne => hvalue.trans (hstore hne)⟩
  simp only [Persists, pollReady, ne_eq, map_eq_error, map_eq_ok]
  have halike := h.pollReady
  generalize d.pollReady = x at halike ⊢
  generalize n.pollReady = y at halike ⊢
  cases halike with
  | error fault => simp
  | @ok p q hpq =>
    obtain ⟨bundle, d'⟩ := p
    obtain ⟨_, n'⟩ := q
    obtain ⟨rfl, h'⟩ := hpq
    simp [hstored h']

/-- What phase 1 leaves of a `Ready` with a snapshot, and the poll that goes on from it. -/
theorem poll_after_snapshot {node : RaftNode L} {storage : L.Storage}
    (hready : L.hasReady node.raw node.storage = true)
    (hraw : L.ready node.raw node.storage = (ready, raw))
    (hreturned : V.Returned (V.log node.storage) raw ready)
    (hsnapshot : V.snapshotIndex ready.snapshot ≠ 0)
    (hpersist : L.persist node.storage ready = .ok storage) :
    ∃ light raw' bundle node', L.advance raw storage ready.taken = (light, raw') ∧
      node.pollReady = .ok (some bundle, node') ∧ bundle.applied = [] ∧
      node'.valueFor = node.valueFor ∧
      V.log node'.storage = ⟨V.snapshotIndex ready.snapshot, [],
        light.commitIndex.getD (V.snapshotIndex ready.snapshot)⟩ := by
  have hlog : V.log storage =
      ⟨V.snapshotIndex ready.snapshot, [], V.snapshotIndex ready.snapshot⟩ := by
    have hmap : (L.persist node.storage ready).map V.log = _ := V.map_persist
    rw [hpersist] at hmap
    exact MemLog.persist_snapshot hsnapshot hmap.symm
  rcases hlight : L.advance raw storage ready.taken with ⟨light, raw'⟩
  -- the log is empty, so nothing is handed out
  have hlater : light.committedEntries = [] := by
    refine List.eq_nil_iff_forall_not_mem.mpr fun entry hentry => ?_
    have hmem := hreturned.stored storage light raw' hlight entry hentry
    rw [hlog] at hmem
    exact List.not_mem_nil hmem
  obtain ⟨bundle, node', hpoll, happlied, hstorage, hstore⟩ :=
    RaftNode.pollReady_of_no_entries hready hraw hpersist hlight (hreturned.committed hsnapshot)
      hlater
  refine ⟨light, raw', bundle, node', rfl, hpoll, happlied, ?_, ?_⟩
  · funext key
    rw [RaftNode.valueFor, RaftNode.valueFor, hstore]
  · rw [hstorage, V.log_setCommitIndex, hlog]

/-- Without a snapshot the append succeeds, and nothing clears the log. -/
theorem persists_of_no_snapshot {node : RaftNode L}
    (hready : L.hasReady node.raw node.storage = true)
    (hraw : L.ready node.raw node.storage = (ready, raw))
    (hreturned : V.Returned (V.log node.storage) raw ready)
    (hsnapshot : V.snapshotIndex ready.snapshot = 0) :
    (raftNode node).Persists V ready slots := by
  simp only [Persists, pollReady, ne_eq, map_eq_error, map_eq_ok]
  have hlog : (L.persist node.storage ready).map V.log = _ := V.map_persist
  rw [hsnapshot, MemLog.persist_entries (hreturned.joins hsnapshot)] at hlog
  constructor
  · intro hpanic
    rw [RaftNode.persist_of_pollReady_panic hready hraw hpanic] at hlog
    cases hlog
  · rintro bundle r' ⟨⟨bundle', node'⟩, hpoll, heq⟩
    cases heq
    obtain ⟨storage, light, raw', hpersist, hlight, hstorage⟩ :=
      RaftNode.storage_of_pollReady hready hraw hpoll
    rw [hpersist] at hlog
    have hstored : V.log node'.storage = ⟨(V.log node.storage).start,
        (V.log node.storage).overwritten ready.entries,
        light.commitIndex.getD
          ((ready.hs.map V.hardCommit).getD (V.log node.storage).commit)⟩ := by
      rw [hstorage, V.log_setCommitIndex, Except.ok.inj hlog]
    constructor
    case entries =>
      intro _
      change (V.log node'.storage).start = _ ∧ (V.log node'.storage).entries = _
      rw [hstored]
      exact ⟨rfl, rfl⟩
    case snapshot => exact fun hne => absurd hsnapshot hne
    case commit =>
      intro hardState hhs
      change _ ≤ (V.log node'.storage).commit
      rw [hstored, hhs]
      cases hcommit : light.commitIndex with
      | none => exact le_refl _
      | some commit => exact hreturned.advanced storage light raw' hlight commit hcommit _ hhs
    case store => exact fun hne => absurd hsnapshot hne

/-- The snapshot clears the log, and is not applied to the store. -/
theorem eq_of_persists_snapshot {node : RaftNode L}
    (hready : L.hasReady node.raw node.storage = true)
    (hraw : L.ready node.raw node.storage = (ready, raw))
    (hreturned : V.Returned (V.log node.storage) raw ready)
    (hsnapshot : V.snapshotIndex ready.snapshot ≠ 0)
    (h : (raftNode node).Persists V ready slots) :
    ready.entries = [] ∧ node.valueFor = stateAfter slots := by
  simp only [Persists, pollReady, ne_eq, map_eq_error, map_eq_ok] at h
  obtain ⟨hpanic, hall⟩ := h
  have hlog : (L.persist node.storage ready).map V.log = _ := V.map_persist
  cases hpersist : L.persist node.storage ready with
  | error fault =>
    -- the entries do not continue the log that they are appended to
    rw [hpersist] at hlog
    obtain rfl := MemLog.persist_error (hreturned.newer hsnapshot) (hreturned.follows hsnapshot)
      hlog.symm
    exact absurd (RaftNode.pollReady_of_persist_error hready hraw hpersist) hpanic
  | ok storage =>
    obtain ⟨light, raw', bundle, node', -, hpoll, happlied, hkept, hstored⟩ :=
      poll_after_snapshot hready hraw hreturned hsnapshot hpersist
    have hheld := hall bundle _ ⟨_, hpoll, rfl⟩
    have hentries : (V.log node'.storage).entries = ready.entries :=
      (hheld.snapshot hsnapshot).2
    have hvalue : node'.valueFor = bundle.applied.foldl ApplyReport.apply (stateAfter slots) :=
      hheld.store hsnapshot
    rw [hstored] at hentries
    rw [happlied] at hvalue
    exact ⟨hentries.symm, hkept.symm.trans hvalue⟩

theorem persists_of_snapshot {node : RaftNode L}
    (hready : L.hasReady node.raw node.storage = true)
    (hraw : L.ready node.raw node.storage = (ready, raw))
    (hreturned : V.Returned (V.log node.storage) raw ready)
    (hsnapshot : V.snapshotIndex ready.snapshot ≠ 0) (hentries : ready.entries = [])
    (hvalue : node.valueFor = stateAfter slots) : (raftNode node).Persists V ready slots := by
  simp only [Persists, pollReady, ne_eq, map_eq_error, map_eq_ok]
  have hlog : (L.persist node.storage ready).map V.log = _ := V.map_persist
  rw [hentries, MemLog.persist_restored hsnapshot (hreturned.newer hsnapshot)] at hlog
  obtain ⟨storage, hpersist, -⟩ := map_eq_ok.mp hlog
  obtain ⟨light, raw', bundle, node', hlight, hpoll, happlied, hkept, hstored⟩ :=
    poll_after_snapshot hready hraw hreturned hsnapshot hpersist
  refine ⟨fun hpanic => ?_, ?_⟩
  · rw [hpoll] at hpanic
    cases hpanic
  · rintro bundle' r' ⟨⟨bundle'', node''⟩, hpoll', heq⟩
    cases heq
    obtain ⟨heq, rfl⟩ := Prod.mk.inj (Except.ok.inj (hpoll.symm.trans hpoll'))
    obtain rfl := Option.some_inj.mp heq
    constructor
    case entries => exact fun hzero => absurd hzero hsnapshot
    case snapshot =>
      intro _
      change (V.log node'.storage).start = _ ∧ (V.log node'.storage).entries = _
      rw [hstored, hentries]
      exact ⟨rfl, rfl⟩
    case commit =>
      intro hardState hhs
      change _ ≤ (V.log node'.storage).commit
      rw [hstored]
      cases hcommit : light.commitIndex with
      | none =>
        have := hreturned.commit hsnapshot hardState hhs
        rwa [hentries] at this
      | some commit => exact hreturned.advanced storage light raw' hlight commit hcommit _ hhs
    case store =>
      intro _
      rw [happlied]
      exact hkept.trans hvalue

theorem persists_iff_of_raftNode {node : RaftNode L}
    (hready : L.hasReady node.raw node.storage = true)
    (hraw : L.ready node.raw node.storage = (ready, raw))
    (hreturned : V.Returned (V.log node.storage) raw ready) :
    (raftNode node).Persists V ready slots ↔
      V.snapshotIndex ready.snapshot = 0 ∨
        ready.entries = [] ∧ node.valueFor = stateAfter slots := by
  by_cases hsnapshot : V.snapshotIndex ready.snapshot = 0
  · exact ⟨fun _ => .inl hsnapshot,
      fun _ => persists_of_no_snapshot hready hraw hreturned hsnapshot⟩
  · constructor
    · exact fun h => .inr (eq_of_persists_snapshot hready hraw hreturned hsnapshot h)
    · rintro (hzero | ⟨hentries, hvalue⟩)
      · exact absurd hzero hsnapshot
      · exact persists_of_snapshot hready hraw hreturned hsnapshot hentries hvalue

/-- **When a poll stores its `Ready`**, for a node of either program: when there is no
snapshot, or no entry after it and the store has already seen every command up to it. -/
theorem persists_iff (V : StorageView L) {r : Replica L}
    (hready : L.hasReady r.raw r.storage = true)
    (hraw : L.ready r.raw r.storage = (ready, raw))
    (hreturned : V.Returned (V.log r.storage) raw ready) :
    r.Persists V ready slots ↔
      V.snapshotIndex ready.snapshot = 0 ∨ ready.entries = [] ∧ r.valueFor = stateAfter slots := by
  cases r with
  | raftNode node => exact persists_iff_of_raftNode hready hraw hreturned
  | demoNode d =>
    obtain ⟨n, hn⟩ := DemoNode.exists_matches d
    have hvalue : (demoNode d).valueFor = n.valueFor := hn.valueFor
    rw [persists_of_matches hn, hvalue]
    simp only [Replica.raw, Replica.storage, hn.raw, hn.storage] at hready hraw hreturned
    exact persists_iff_of_raftNode hready hraw hreturned

end Replica

/-! ### A follower that is sent a snapshot -/

namespace MiniRestore

open MiniRaft (Message HardState)

/-- A follower, with the snapshot (by its index, 0 for none) and the entries that are not
stored yet. -/
structure Follower where
  term : ℕ
  leaderId : ℕ
  snapshot : ℕ
  entries : List Entry
  committed : ℕ
  handedOut : ℕ
  prevCommit : ℕ
  deriving DecidableEq, Repr

namespace Follower

def lastIndex (raw : Follower) (log : MemLog) : ℕ :=
  (raw.entries.getLast?.map Entry.index).getD
    (if raw.snapshot = 0 then log.lastIndex else raw.snapshot)

/-- The `index` of a `MsgSnapshot` is that of its snapshot. -/
def step (raw : Follower) (log : MemLog) (msg : Message) : Follower :=
  match msg.msgType with
  | .msgSnapshot =>
    if msg.index ≤ raw.committed then raw
    else { raw with
      term := msg.term, leaderId := msg.sender
      snapshot := msg.index, entries := [], committed := msg.index }
  | .msgAppend =>
    if msg.index = raw.lastIndex log then { raw with
      term := msg.term, leaderId := msg.sender
      entries := raw.entries ++ msg.entries
      committed := max raw.committed (min msg.commit (msg.index + msg.entries.length)) }
    else raw
  | _ => raw

/-- Stored entries that are committed and were not handed out. -/
def committedEntries (raw : Follower) (log : MemLog) : List Entry :=
  log.entries.filter fun entry => raw.handedOut < entry.index ∧ entry.index ≤ raw.committed

def hasReady (raw : Follower) (log : MemLog) : Bool :=
  raw.snapshot ≠ 0 ∨ raw.entries ≠ [] ∨ raw.committed ≠ raw.prevCommit ∨
    raw.committedEntries log ≠ []

def ready (raw : Follower) (log : MemLog) : Ready HardState ℕ Message × Follower :=
  let committed := if raw.snapshot = 0 then raw.committedEntries log else []
  ({ hs := if raw.committed = raw.prevCommit then none
      else some ⟨raw.term, 0, raw.committed⟩
     entries := raw.entries
     snapshot := raw.snapshot
     committedEntries := committed
     messages := []
     persistedMessages := [] },
    { raw with
      handedOut := max raw.snapshot (raw.handedOut + committed.length)
      prevCommit := raw.committed })

/-- A follower does not move its commit index by itself. -/
def advance (raw : Follower) (log : MemLog) : LightReady Message × Follower :=
  let committed := raw.committedEntries log
  ({ commitIndex := none, committedEntries := committed, messages := [] },
    { raw with snapshot := 0, entries := [], handedOut := raw.handedOut + committed.length })

end Follower

/-- A library for nodes that only follow. -/
def miniRestore : Library where
  Raw := Follower
  Storage := MemLog
  HardState := HardState
  Snapshot := ℕ
  Message := Message
  newRaw config _ := if config.id = 0 then .error .panic else .ok ⟨0, 0, 0, [], 0, 0, 0⟩
  tick raw _ := raw
  campaign raw _ := (.ok (), raw)
  propose raw _ _ _ := (.error (.error ["raft: proposal dropped"]), raw)
  step raw log msg := (.ok (), raw.step log msg)
  hasReady raw log := raw.hasReady log
  ready raw log := raw.ready log
  advance raw log _ := raw.advance log
  advanceApply raw _ := raw
  role _ := .follower
  leaderId raw := raw.leaderId
  term raw := raw.term
  voters _ := []
  lastIndex raw log := raw.lastIndex log
  newWithConfState _ _ := ⟨0, [], 0⟩
  setHardstate log hardState := { log with commit := hardState.commit }
  append log entries := log.append entries
  snapshotIsEmpty snapshot := decide (snapshot = 0)
  applySnapshot log snapshot := log.applySnapshot snapshot
  setCommit log commit := { log with commit }
  msgType msg := msg.msgType
  msgTo msg := msg.receiver
  msgFrom msg := msg.sender
  msgEntries msg := msg.entries
  encodeToVec := MiniRaft.encodeToVec
  decode := MiniRaft.decode []
  serialize := Bincode.serialize
  deserialize := Bincode.deserialize

theorem map_id {α : Type} (result : Except Fault α) : result.map id = result := by
  cases result <;> rfl

def view : StorageView miniRestore where
  log := id
  snapshotIndex := id
  hardCommit := HardState.commit
  setHardstate _ _ := rfl
  append _ _ := map_id _
  snapshotIsEmpty _ := rfl
  applySnapshot _ _ := map_id _
  setCommit _ _ := rfl

/-- A `Ready` with a snapshot, as a follower makes it. -/
theorem returned_of_snapshot {raw : Follower} {log : MemLog} (hsnapshot : raw.snapshot ≠ 0)
    (hnewer : log.firstIndex ≤ raw.snapshot)
    (hfollows : ∀ entry ∈ raw.entries.head?, entry.index = raw.snapshot + 1)
    (hcommitted : raw.committed ≤ raw.snapshot + raw.entries.length) :
    view.Returned log (raw.ready log).2 (raw.ready log).1 where
  joins hzero := absurd hzero hsnapshot
  follows _ := hfollows
  newer _ := hnewer
  commit _ hardState hhs := by
    simp only [Follower.ready] at hhs
    split at hhs
    · cases hhs
    · obtain rfl := Option.some_inj.mp hhs
      exact hcommitted
  committed _ := if_neg hsnapshot
  stored storage light raw' hlight entry hentry := by
    obtain ⟨rfl, -⟩ := Prod.mk.inj hlight
    exact List.mem_of_mem_filter hentry
  advanced storage light raw' hlight commit hcommit := by
    obtain ⟨rfl, -⟩ := Prod.mk.inj hlight
    cases hcommit

def snapshotMessage (index : ℕ) : Message :=
  { Message.default with msgType := .msgSnapshot, sender := 2, term := 2, index }

def appendMessage (term index commit : ℕ) (entries : List Entry) : Message :=
  { Message.default with msgType := .msgAppend, sender := 2, term, index, commit, entries }

/-- An empty entry. -/
def blank (term index : ℕ) : Entry := ⟨.entryNormal, term, index, []⟩

/-- The replica is sent a snapshot at 5 and the entry after it, and then polled. -/
def restoring (r : Replica miniRestore) : Replica miniRestore :=
  (r.call (.step (snapshotMessage 5))).call (.step (appendMessage 2 5 6 [blank 2 6]))

/-- The `Ready` of the next poll brings a snapshot at 5 and the entry after it, and the poll
does not store them. -/
def Loses (r : Replica miniRestore) : Prop :=
  ∃ ready raw, miniRestore.hasReady r.raw r.storage = true ∧
    miniRestore.ready r.raw r.storage = (ready, raw) ∧
    view.Returned (view.log r.storage) raw ready ∧ view.snapshotIndex ready.snapshot = 5 ∧
    ready.entries = [blank 2 6] ∧ ∀ slots, ¬ r.Persists view ready slots

/-- A follower with an empty log panics; one with six entries, which the snapshot
replaces, ends with an empty log and the commit index 5 although 6 is committed. -/
theorem snapshot_before_entry :
    ∃ (fresh : RaftNode miniRestore) (bundle bundle' : ReadyBundle miniRestore)
      (six after : Replica miniRestore), RaftNode.new 1 [1, 2, 3] = .ok fresh ∧
      Loses (restoring (.raftNode fresh)) ∧
      (restoring (.raftNode fresh)).pollReady = .error .panic ∧
      ((Replica.raftNode fresh).call (.step (appendMessage 1 0 0
        [blank 1 1, blank 1 2, blank 1 3, blank 1 4, blank 1 5, blank 1 6]))).pollReady =
          .ok (some bundle, six) ∧
      Loses (restoring six) ∧ (restoring six).pollReady = .ok (some bundle', after) ∧
      view.log after.storage = ⟨5, [], 5⟩ := by
  refine ⟨⟨1, ⟨0, 0, 0, [], 0, 0, 0⟩, ⟨0, [], 0⟩, .new⟩, _, _, _, _, rfl, ?_, rfl, rfl, ?_, rfl,
    rfl⟩
  · refine ⟨_, _, rfl, rfl,
      returned_of_snapshot (by decide) (by decide) (fun _ h => Option.some_inj.mp h ▸ rfl)
        (by decide), rfl, rfl, fun slots hpersists => hpersists.1 rfl⟩
  · refine ⟨_, _, rfl, rfl,
      returned_of_snapshot (by decide) (by decide) (fun _ h => Option.some_inj.mp h ▸ rfl)
        (by decide), rfl, rfl, fun slots hpersists => ?_⟩
    have hstored := hpersists.2 _ _ rfl
    exact absurd (hstored.snapshot (by decide)).2 (by decide)

/-- A snapshot of nothing but the empty entry of an election leaves nothing to restore. -/
theorem persists_iff_election :
    ∃ (fresh : RaftNode miniRestore) (raw : Follower) (ready : Ready HardState ℕ Message),
      RaftNode.new 1 [1, 2, 3] = .ok fresh ∧
      miniRestore.ready ((Replica.raftNode fresh).call (.step (snapshotMessage 1))).raw
        fresh.storage = (ready, raw) ∧ view.snapshotIndex ready.snapshot = 1 ∧
      ((Replica.raftNode fresh).call (.step (snapshotMessage 1))).Persists view ready
        [⟨1, 1, none⟩] := by
  refine ⟨⟨1, ⟨0, 0, 0, [], 0, 0, 0⟩, ⟨0, [], 0⟩, .new⟩, _, _, rfl, rfl, rfl, ?_⟩
  refine (Replica.persists_iff view rfl rfl (returned_of_snapshot (by decide) (by decide)
    (fun _ h => absurd h (Option.not_mem_none _)) (by decide))).mpr (.inr ⟨rfl, ?_⟩)
  funext key
  exact KvStore.get_new key

end MiniRestore

end Raft
