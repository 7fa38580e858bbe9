/-
What the Raft programs take from third-party packages.

`raft` (its `RawNode` and `MemStorage`), `bincode` and `prost` are not part of
the repository.  A `Library` stands for them: the calls that the programs make,
over state types of their own.  A `MemStorage` is a handle that the `RawNode`
and the program share, and only the program writes to it; so a call of the
`RawNode` reads the storage, and its result is the new `RawNode`.

* `Fault` — how a fallible call ends when it does not return;
* `Library` — the calls, as parameters;
* `Library.Refused` — the messages that `RawNode::step` gives an error for;
* `Library.persist` — the part of `poll_ready` that writes to the storage;
* `Library.handed` — the committed entries that one `poll_ready` is handed;
* `Library.BincodeLaws` — what is relied on of `bincode`.
-/
import Mathlib.Data.List.Basic

namespace Raft

/-! ### Failing calls -/

/-- How a call fails: with an `anyhow::Error`, given by its chain of texts with
the outermost context first, or by a panic of its thread. -/
inductive Fault where
  | error (chain : List String)
  | panic
  deriving DecidableEq, Repr

def Fault.context (text : String) : Fault → Fault
  | .error chain => .error (text :: chain)
  | .panic => .panic

/-- `Context::context`. -/
def context {α : Type} (text : String) (result : Except Fault α) : Except Fault α :=
  result.mapError (Fault.context text)

@[simp] theorem context_eq_ok {α : Type} {text : String} {result : Except Fault α} {a : α} :
    context text result = .ok a ↔ result = .ok a := by
  cases result <;> simp [context, Except.mapError]

@[simp] theorem context_ok {α : Type} (text : String) (a : α) :
    context text (.ok a) = .ok a := rfl

theorem bind_eq_ok {α β : Type} {result : Except Fault α} {f : α → Except Fault β} {b : β} :
    (result >>= f) = .ok b ↔ ∃ a, result = .ok a ∧ f a = .ok b := by
  cases result with
  | error fault => simp [bind, Except.bind]
  | ok a => simp [bind, Except.bind]

theorem bind_eq_error {α β : Type} {result : Except Fault α} {f : α → Except Fault β}
    {fault : Fault} :
    (result >>= f) = .error fault ↔
      result = .error fault ∨ ∃ a, result = .ok a ∧ f a = .error fault := by
  cases result with
  | error fault => simp [bind, Except.bind]
  | ok a => simp [bind, Except.bind]

theorem map_eq_ok {α β : Type} {result : Except Fault α} {f : α → β} {b : β} :
    result.map f = .ok b ↔ ∃ a, result = .ok a ∧ f a = b := by
  cases result with
  | error fault => simp [Except.map]
  | ok a => simp [Except.map]

theorem map_eq_error {α β : Type} {result : Except Fault α} {f : α → β} {fault : Fault} :
    result.map f = .error fault ↔ result = .error fault := by
  cases result <;> simp [Except.map]

/-- Two calls fail alike, or return values that are related by `R`. -/
inductive Alike {α β : Type} (R : α → β → Prop) : Except Fault α → Except Fault β → Prop
  | ok {a : α} {b : β} (h : R a b) : Alike R (.ok a) (.ok b)
  | error (fault : Fault) : Alike R (.error fault) (.error fault)

namespace Alike

variable {α β γ δ : Type} {R : α → β → Prop} {Q : γ → δ → Prop}

theorem refl (result : Except Fault α) : Alike Eq result result := by
  cases result with
  | error fault => exact .error fault
  | ok a => exact .ok rfl

theorem bind {x : Except Fault α} {y : Except Fault β} {f : α → Except Fault γ}
    {g : β → Except Fault δ} (h : Alike R x y) (hfg : ∀ a b, R a b → Alike Q (f a) (g b)) :
    Alike Q (x >>= f) (y >>= g) := by
  cases h with
  | ok hab => exact hfg _ _ hab
  | error fault => exact .error fault

theorem of_ok {x : Except Fault α} {y : Except Fault β} {a : α} (h : Alike R x y)
    (hx : x = .ok a) : ∃ b, y = .ok b ∧ R a b := by
  cases h with
  | ok hab =>
    cases hx
    exact ⟨_, rfl, hab⟩
  | error fault => cases hx

end Alike

/-! ### Commands and log entries -/

/-- `CommandPayload` of `command.rs`; the demo declares the same type. -/
inductive CommandPayload where
  | put (key value : String)
  deriving DecidableEq, Repr

inductive EntryType where
  | entryNormal
  | entryConfChange
  | entryConfChangeV2
  deriving DecidableEq, Repr

/-- A log entry, with the fields that the programs read. -/
structure Entry where
  entryType : EntryType
  term : ℕ
  index : ℕ
  data : List UInt8
  deriving DecidableEq, Repr

inductive StateRole where
  | follower
  | candidate
  | leader
  | preCandidate
  deriving DecidableEq, Repr

/-- `{:?}` of a role. -/
def StateRole.debug : StateRole → String
  | .follower => "Follower"
  | .candidate => "Candidate"
  | .leader => "Leader"
  | .preCandidate => "PreCandidate"

inductive MessageType where
  | msgHup
  | msgBeat
  | msgPropose
  | msgAppend
  | msgAppendResponse
  | msgRequestVote
  | msgRequestVoteResponse
  | msgSnapshot
  | msgHeartbeat
  | msgHeartbeatResponse
  | msgUnreachable
  | msgSnapStatus
  | msgCheckQuorum
  | msgTransferLeader
  | msgTimeoutNow
  | msgReadIndex
  | msgReadIndexResp
  | msgRequestPreVote
  | msgRequestPreVoteResponse
  deriving DecidableEq, Repr

/-- Types that a node sends to itself only. -/
def MessageType.isLocal : MessageType → Bool
  | .msgHup | .msgBeat | .msgUnreachable | .msgSnapStatus | .msgCheckQuorum => true
  | _ => false

def MessageType.isResponse : MessageType → Bool
  | .msgAppendResponse | .msgRequestVoteResponse | .msgHeartbeatResponse | .msgUnreachable
  | .msgRequestPreVoteResponse => true
  | _ => false

/-- The fields of `Config` that the programs set. -/
structure Config where
  id : ℕ
  electionTick : ℕ
  heartbeatTick : ℕ
  maxInflightMsgs : ℕ
  deriving DecidableEq, Repr

structure Ready (HardState Snapshot Message : Type) where
  hs : Option HardState
  entries : List Entry
  snapshot : Snapshot
  committedEntries : List Entry
  messages : List Message
  persistedMessages : List Message

/-- What is left of a `Ready` when `take_committed_entries`, `take_messages` and
`take_persisted_messages` have emptied it. -/
def Ready.taken {HardState Snapshot Message : Type} (ready : Ready HardState Snapshot Message) :
    Ready HardState Snapshot Message :=
  { ready with committedEntries := [], messages := [], persistedMessages := [] }

structure LightReady (Message : Type) where
  commitIndex : Option ℕ
  committedEntries : List Entry
  messages : List Message

/-! ### The library -/

/-- The calls of `raft`, `bincode` and `prost`.  A call of the `RawNode` that
returns a `Result` may also panic; the state after it is given in any case. -/
structure Library where
  Raw : Type
  Storage : Type
  HardState : Type
  Snapshot : Type
  Message : Type
  -- `RawNode`
  newRaw : Config → Storage → Except Fault Raw
  tick : Raw → Storage → Raw
  campaign : Raw → Storage → Except Fault Unit × Raw
  propose : Raw → Storage → (context data : List UInt8) → Except Fault Unit × Raw
  step : Raw → Storage → Message → Except Fault Unit × Raw
  hasReady : Raw → Storage → Bool
  ready : Raw → Storage → Ready HardState Snapshot Message × Raw
  advance : Raw → Storage → Ready HardState Snapshot Message → LightReady Message × Raw
  advanceApply : Raw → Storage → Raw
  role : Raw → StateRole
  leaderId : Raw → ℕ
  term : Raw → ℕ
  voters : Raw → List ℕ
  lastIndex : Raw → Storage → ℕ
  -- `MemStorage`
  newWithConfState : (voters learners : List ℕ) → Storage
  setHardstate : Storage → HardState → Storage
  append : Storage → List Entry → Except Fault Storage
  snapshotIsEmpty : Snapshot → Bool
  applySnapshot : Storage → Snapshot → Except Fault Storage
  setCommit : Storage → ℕ → Storage
  -- `Message`, with `prost`
  msgType : Message → MessageType
  msgTo : Message → ℕ
  msgFrom : Message → ℕ
  msgEntries : Message → List Entry
  encodeToVec : Message → List UInt8
  decode : List UInt8 → Except String Message
  -- `bincode`
  serialize : CommandPayload → Except String (List UInt8)
  deserialize : List UInt8 → Except String CommandPayload

variable (L : Library)

/-- The `Config` of both programs. -/
def config (id : ℕ) : Config := ⟨id, 10, 3, 256⟩

/-- `CommandPayload::encode`. -/
def CommandPayload.encode (payload : CommandPayload) : Except Fault (List UInt8) :=
  (L.serialize payload).mapError fun err => .error [err]

/-- `CommandPayload::decode`. -/
def CommandPayload.decode (bytes : List UInt8) : Except Fault CommandPayload :=
  (L.deserialize bytes).mapError fun err => .error [err]

namespace Library

/-- `step` gives an error for messages of a local type, for responses of nodes
that do not vote, and for proposals that come while no leader is known. -/
def Refused (raw : L.Raw) (msg : L.Message) : Prop :=
  (L.msgType msg).isLocal = true ∨
    (L.msgType msg).isResponse = true ∧ L.msgFrom msg ∉ L.voters raw ∨
    L.msgType msg = .msgPropose ∧ L.leaderId raw = 0

instance (raw : L.Raw) (msg : L.Message) : Decidable (L.Refused raw msg) :=
  inferInstanceAs (Decidable (_ ∨ _ ∧ _ ∨ _ ∧ _))

/-- Phase 1 of `poll_ready`: what a `Ready` brings is written to the storage. -/
def persist (storage : L.Storage) (ready : Ready L.HardState L.Snapshot L.Message) :
    Except Fault L.Storage := do
  let storage := match ready.hs with
    | some hardState => L.setHardstate storage hardState
    | none => storage
  let storage ← if ready.entries = [] then pure storage
    else context "append entries failed" (L.append storage ready.entries)
  if L.snapshotIsEmpty ready.snapshot then pure storage
  else context "apply snapshot failed" (L.applySnapshot storage ready.snapshot)

/-- Phase 2 of `poll_ready`: a commit index that the `LightReady` brings is
written to the storage. -/
def setCommitIndex (storage : L.Storage) : Option ℕ → L.Storage
  | some commit => L.setCommit storage commit
  | none => storage

/-- The committed entries in the `Ready` and the `LightReady` of the next
`poll_ready`, if it gets to take them. -/
def handed (raw : L.Raw) (storage : L.Storage) : List Entry :=
  if L.hasReady raw storage then
    let (ready, raw) := L.ready raw storage
    match L.persist storage ready with
    | .ok storage =>
      ready.committedEntries ++ (L.advance raw storage ready.taken).1.committedEntries
    | .error _ => []
  else []

/-- Of `bincode`: `deserialize` undoes `serialize`, and an encoded command is not
empty, as it begins with the tag of its variant. -/
structure BincodeLaws : Prop where
  deserialize_serialize : ∀ (payload : CommandPayload) (bytes : List UInt8),
    L.serialize payload = .ok bytes → L.deserialize bytes = .ok payload
  serialize_ne_nil : ∀ payload : CommandPayload, L.serialize payload ≠ .ok []

variable {L}

theorem BincodeLaws.decode_encode (hL : L.BincodeLaws) {payload : CommandPayload}
    {bytes : List UInt8} (h : L.serialize payload = .ok bytes) :
    CommandPayload.decode L bytes = .ok payload := by
  rw [CommandPayload.decode, hL.deserialize_serialize payload bytes h]
  rfl

end Library

end Raft
