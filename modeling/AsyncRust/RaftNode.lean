/-
A Raft node with its key-value store (`node.rs`, `command.rs`, `store.rs`).

`RaftNode` joins the library's `RawNode` and `MemStorage` with the store that
committed commands are applied to.  `pollReady` is the two-phase round of
`poll_ready`; `applyEntries` is its loop over committed entries.  When
`poll_ready` returns an error, its caller gives the node up, so the node after
an error is left out there.

* `applyEntries_append` — applying entries in two calls is applying them in one;
* `pollReady_eq_some` — what a poll does to the node: it applies the entries
  that the library hands out, those of the `Ready` before those of the
  `LightReady`, and nothing else of the program's state changes.
-/
import AsyncRust.RaftLibrary
import Std.Data.TreeMap.Lemmas

namespace Raft

variable {L : Library}

/-! ### The store -/

/-- The map in `KvStore`; the lock around it is never held across a call. -/
structure KvStore where
  data : Std.TreeMap String String

namespace KvStore

def new : KvStore := ⟨∅⟩

def put (store : KvStore) (key value : String) : KvStore := ⟨store.data.insert key value⟩

def get (store : KvStore) (key : String) : Option String := store.data[key]?

def snapshot (store : KvStore) : Std.TreeMap String String := store.data

@[simp] theorem get_new (key : String) : new.get key = none := by
  simp [new, get]

@[simp] theorem get_put (store : KvStore) (key value : String) :
    (store.put key value).get = Function.update store.get key (some value) := by
  funext key'
  by_cases hkey : key = key'
  · subst hkey
    simp [get, put]
  · rw [Function.update_of_ne (Ne.symm hkey)]
    simp [get, put, Std.TreeMap.getElem?_insert, hkey]

end KvStore

/-! ### The node -/

structure ApplyReport where
  nodeId : ℕ
  key : String
  value : String
  index : ℕ
  term : ℕ
  deriving DecidableEq, Repr

structure ReadyBundle (L : Library) where
  messages : List L.Message
  applied : List ApplyReport

structure RaftNode (L : Library) where
  id : ℕ
  raw : L.Raw
  storage : L.Storage
  store : KvStore

namespace RaftNode

def new (id : ℕ) (voters : List ℕ) : Except Fault (RaftNode L) := do
  let storage := L.newWithConfState voters []
  let raw ← context s!"failed to construct RawNode {id}" (L.newRaw (config id) storage)
  pure { id, raw, storage, store := .new }

def tick (node : RaftNode L) : RaftNode L :=
  { node with raw := L.tick node.raw node.storage }

def campaign (node : RaftNode L) : Except Fault Unit × RaftNode L :=
  let (result, raw) := L.campaign node.raw node.storage
  (context "campaign failed" result, { node with raw })

def role (node : RaftNode L) : StateRole := L.role node.raw

def leaderId (node : RaftNode L) : ℕ := L.leaderId node.raw

def term (node : RaftNode L) : ℕ := L.term node.raw

def propose (node : RaftNode L) (payload : CommandPayload) :
    Except Fault Unit × RaftNode L :=
  match context "encode command failed" (payload.encode L) with
  | .error fault => (.error fault, node)
  | .ok data =>
    let (result, raw) := L.propose node.raw node.storage [] data
    (context "propose failed" result, { node with raw })

def step (node : RaftNode L) (msg : L.Message) : Except Fault Unit × RaftNode L :=
  let (result, raw) := L.step node.raw node.storage msg
  (context "step failed" result, { node with raw })

def applyCommand (node : RaftNode L) (index term : ℕ) :
    CommandPayload → ApplyReport × RaftNode L
  | .put key value =>
    (⟨node.id, key, value, index, term⟩, { node with store := node.store.put key value })

/-- The loop of `apply_entries`, with the reports of the entries that are left. -/
def applyEntries (node : RaftNode L) :
    List Entry → Except Fault (List ApplyReport × RaftNode L)
  | [] => pure ([], node)
  | entry :: entries =>
    -- a new leader appends an empty entry
    if entry.data = [] then node.applyEntries entries
    else if entry.entryType = .entryNormal then do
      let command ← context "decode command failed" (CommandPayload.decode L entry.data)
      let (report, node) := node.applyCommand entry.index entry.term command
      let (applied, node) ← node.applyEntries entries
      pure (report :: applied, node)
    -- a configuration change is skipped
    else node.applyEntries entries

def pollReady (node : RaftNode L) :
    Except Fault (Option (ReadyBundle L) × RaftNode L) := do
  if !L.hasReady node.raw node.storage then
    return (none, node)
  let (ready, raw) := L.ready node.raw node.storage
  -- Phase 1: what has to be durable
  let storage ← L.persist node.storage ready
  let (applied, node) ← { node with raw, storage }.applyEntries ready.committedEntries
  let outbound := ready.messages ++ ready.persistedMessages
  -- Phase 2: what the library brings once that is acknowledged
  let (lightReady, raw) := L.advance node.raw node.storage ready.taken
  let storage := L.setCommitIndex node.storage lightReady.commitIndex
  let (applied', node) ← { node with raw, storage }.applyEntries lightReady.committedEntries
  return (some { messages := outbound ++ lightReady.messages, applied := applied ++ applied' },
    { node with raw := L.advanceApply node.raw node.storage })

def valueFor (node : RaftNode L) (key : String) : Option String := node.store.get key

def snapshot (node : RaftNode L) : Std.TreeMap String String := node.store.snapshot

/-- The committed entries that the next poll takes from the library. -/
def handed (node : RaftNode L) : List Entry := L.handed node.raw node.storage

/-- A proposal changes nothing but the library's part of the node. -/
theorem propose_frame (node : RaftNode L) (payload : CommandPayload) :
    ∃ raw, (node.propose payload).2 = { node with raw } := by
  unfold propose
  split
  · exact ⟨node.raw, rfl⟩
  · exact ⟨_, rfl⟩

/-! ### Applying entries -/

theorem applyEntries_append (entries entries' : List Entry) : ∀ node : RaftNode L,
    node.applyEntries (entries ++ entries') = (do
      let (applied, node) ← node.applyEntries entries
      let (applied', node) ← node.applyEntries entries'
      pure (applied ++ applied', node)) := by
  induction entries with
  | nil => intro node; simp [applyEntries]
  | cons entry entries ih =>
    intro node
    simp only [List.cons_append, applyEntries]
    by_cases hempty : entry.data = []
    · rw [if_pos hempty, if_pos hempty, ih]
    · rw [if_neg hempty, if_neg hempty]
      by_cases hnormal : entry.entryType = .entryNormal
      · simp [if_pos hnormal, ih]
      · rw [if_neg hnormal, if_neg hnormal, ih]

/-- What entries do depends on the store and the id only. -/
theorem applyEntries_with (raw : L.Raw) (storage : L.Storage) {entries : List Entry} :
    ∀ {node node' : RaftNode L} {applied : List ApplyReport},
      node.applyEntries entries = .ok (applied, node') →
      { node with raw, storage }.applyEntries entries =
        .ok (applied, { node' with raw, storage }) := by
  induction entries with
  | nil =>
    intro node node' applied h
    cases h
    rfl
  | cons entry entries ih =>
    intro node node' applied h
    simp only [applyEntries] at h ⊢
    by_cases hempty : entry.data = []
    · rw [if_pos hempty] at h ⊢
      exact ih h
    · rw [if_neg hempty] at h ⊢
      by_cases hnormal : entry.entryType = .entryNormal
      · rw [if_pos hnormal] at h ⊢
        obtain ⟨⟨key, value⟩, hdecode, h⟩ := bind_eq_ok.mp h
        obtain ⟨⟨applied', node''⟩, happly, h⟩ := bind_eq_ok.mp h
        cases h
        exact bind_eq_ok.mpr ⟨_, hdecode, bind_eq_ok.mpr ⟨_, ih happly, rfl⟩⟩
      · rw [if_neg hnormal] at h ⊢
        exact ih h

theorem applyEntries_frame {entries : List Entry} : ∀ {node node' : RaftNode L}
    {applied : List ApplyReport}, node.applyEntries entries = .ok (applied, node') →
      ∃ store, node' = { node with store } := by
  induction entries with
  | nil =>
    intro node node' applied h
    cases h
    exact ⟨node.store, rfl⟩
  | cons entry entries ih =>
    intro node node' applied h
    simp only [applyEntries] at h
    split at h
    · exact ih h
    · split at h
      · obtain ⟨⟨key, value⟩, -, h⟩ := bind_eq_ok.mp h
        obtain ⟨⟨applied', node''⟩, happly, h⟩ := bind_eq_ok.mp h
        cases h
        obtain ⟨store, hstore⟩ := ih happly
        exact ⟨store, hstore⟩
      · exact ih h

/-! ### One poll -/

theorem pollReady_of_not_hasReady {node : RaftNode L}
    (h : L.hasReady node.raw node.storage = false) : node.pollReady = .ok (none, node) := by
  simp [pollReady, h]
  rfl

/-- A poll succeeds when the storage takes what the `Ready` brings and all
entries that are handed out can be applied. -/
theorem pollReady_of_applyEntries {node : RaftNode L}
    {ready : Ready L.HardState L.Snapshot L.Message} {lightReady : LightReady L.Message}
    {raw raw' : L.Raw} {storage storage' : L.Storage} {applied applied' : List ApplyReport}
    {store store' : KvStore} (hready : L.hasReady node.raw node.storage = true)
    (hraw : L.ready node.raw node.storage = (ready, raw))
    (hpersist : L.persist node.storage ready = .ok storage)
    (happly : { node with raw, storage }.applyEntries ready.committedEntries =
      .ok (applied, { node with raw, storage, store }))
    (hlight : L.advance raw storage ready.taken = (lightReady, raw'))
    (hstorage : L.setCommitIndex storage lightReady.commitIndex = storage')
    (happly' : RaftNode.applyEntries ⟨node.id, raw', storage', store⟩
      lightReady.committedEntries = .ok (applied', ⟨node.id, raw', storage', store'⟩)) :
    node.pollReady = .ok
      (some ⟨ready.messages ++ ready.persistedMessages ++ lightReady.messages, applied ++ applied'⟩,
        ⟨node.id, L.advanceApply raw' storage', storage', store'⟩) := by
  rw [pollReady, hready, hraw]
  refine bind_eq_ok.mpr ⟨storage, hpersist, bind_eq_ok.mpr ⟨_, happly, ?_⟩⟩
  simp only [hlight, hstorage]
  exact bind_eq_ok.mpr ⟨_, happly', rfl⟩

/-- A poll that returns nothing has found nothing ready, and changes nothing. -/
theorem pollReady_eq_none {node node' : RaftNode L} (h : node.pollReady = .ok (none, node')) :
    L.hasReady node.raw node.storage = false ∧ node' = node := by
  cases hready : L.hasReady node.raw node.storage with
  | false =>
    rw [pollReady_of_not_hasReady hready] at h
    cases h
    exact ⟨rfl, rfl⟩
  | true =>
    rw [pollReady, hready] at h
    simp only [Bool.not_true, Bool.false_eq_true, if_false] at h
    obtain ⟨storage, -, h⟩ := bind_eq_ok.mp h
    obtain ⟨⟨applied, node₁⟩, -, h⟩ := bind_eq_ok.mp h
    obtain ⟨⟨applied', node₂⟩, -, h⟩ := bind_eq_ok.mp h
    cases h

theorem handed_of_persist {node : RaftNode L} {ready : Ready L.HardState L.Snapshot L.Message}
    {raw : L.Raw} {storage : L.Storage} (hready : L.hasReady node.raw node.storage = true)
    (hraw : L.ready node.raw node.storage = (ready, raw))
    (hpersist : L.persist node.storage ready = .ok storage) :
    node.handed =
      ready.committedEntries ++ (L.advance raw storage ready.taken).1.committedEntries := by
  simp [handed, Library.handed, hready, hraw, hpersist]

/-- A poll that returns a bundle has applied the entries it was handed, in
their order, and has changed nothing but the store and the library's part. -/
theorem pollReady_eq_some {node node' : RaftNode L} {bundle : ReadyBundle L}
    (h : node.pollReady = .ok (some bundle, node')) :
    ∃ store, node.applyEntries node.handed = .ok (bundle.applied, { node with store }) ∧
      node'.store = store ∧ node'.id = node.id := by
  by_cases hready : L.hasReady node.raw node.storage = true
  · rcases hraw : L.ready node.raw node.storage with ⟨ready, raw⟩
    rw [pollReady, hready, hraw] at h
    simp only [Bool.not_true, Bool.false_eq_true, if_false] at h
    obtain ⟨storage, hpersist, h⟩ := bind_eq_ok.mp h
    obtain ⟨⟨applied, node₁⟩, happly₁, h⟩ := bind_eq_ok.mp h
    obtain ⟨store₁, rfl⟩ := applyEntries_frame happly₁
    rcases hlight : L.advance raw storage ready.taken with ⟨lightReady, raw'⟩
    simp only [hlight] at h
    obtain ⟨⟨applied', node₂⟩, happly₂, h⟩ := bind_eq_ok.mp h
    obtain ⟨store₂, rfl⟩ := applyEntries_frame happly₂
    cases h
    -- both phases apply their entries to the same store, one after the other
    have h₁ := applyEntries_with node.raw node.storage happly₁
    have h₂ := applyEntries_with node.raw node.storage happly₂
    refine ⟨store₂, ?_, rfl, rfl⟩
    rw [handed_of_persist hready hraw hpersist, hlight, applyEntries_append]
    exact bind_eq_ok.mpr ⟨_, h₁, bind_eq_ok.mpr ⟨_, h₂, rfl⟩⟩
  · simp [pollReady_of_not_hasReady (by simpa using hready)] at h

end RaftNode

end Raft
