/-
A small library to run the Raft programs with.

`miniRaft` gives the parameters of `Library` concrete functions, which do what
the packages do in the runs that are examined later: elections, the log of a
leader, an `MsgAppend` that overwrites a suffix, and the two phases of a
`Ready`.  Left out is what these runs do not use: timeouts, the progress of the
followers (a leader commits only if it is the only voter), snapshots.

* `encodeToVec` — the `prost` encoding; `decode` knows the messages that it is
  given, by their encodings;
* `Raw`, `Storage` — the `RawNode` and the `MemStorage`;
* `miniRaft` — the library.
-/
import AsyncRust.Bincode

namespace Raft.MiniRaft

/-! ### Messages -/

def MessageType.toNat : MessageType → ℕ
  | .msgHup => 0
  | .msgBeat => 1
  | .msgPropose => 2
  | .msgAppend => 3
  | .msgAppendResponse => 4
  | .msgRequestVote => 5
  | .msgRequestVoteResponse => 6
  | .msgSnapshot => 7
  | .msgHeartbeat => 8
  | .msgHeartbeatResponse => 9
  | .msgUnreachable => 10
  | .msgSnapStatus => 11
  | .msgCheckQuorum => 12
  | .msgTransferLeader => 13
  | .msgTimeoutNow => 14
  | .msgReadIndex => 15
  | .msgReadIndexResp => 16
  | .msgRequestPreVote => 17
  | .msgRequestPreVoteResponse => 18

structure Message where
  msgType : MessageType
  receiver : ℕ
  sender : ℕ
  term : ℕ
  logTerm : ℕ
  index : ℕ
  entries : List Entry
  commit : ℕ
  reject : Bool
  deriving DecidableEq, Repr

/-- `Message::default()`. -/
def Message.default : Message := ⟨.msgHup, 0, 0, 0, 0, 0, [], 0, false⟩

def EntryType.toNat : EntryType → ℕ
  | .entryNormal => 0
  | .entryConfChange => 1
  | .entryConfChangeV2 => 2

/-- A varint of at most `w` bytes. -/
def varint : ℕ → ℕ → List UInt8
  | 0, _ => []
  | w + 1, n =>
    if n < 128 then [UInt8.ofNat n] else UInt8.ofNat (n % 128 + 128) :: varint w (n / 128)

/-- A field that holds its default is not written. -/
def uintField (tag value : ℕ) : List UInt8 :=
  if value = 0 then [] else varint 10 (8 * tag) ++ varint 10 value

def bytesField (tag : ℕ) (bytes : List UInt8) : List UInt8 :=
  varint 10 (8 * tag + 2) ++ varint 10 bytes.length ++ bytes

def encodeEntry (entry : Entry) : List UInt8 :=
  uintField 1 (EntryType.toNat entry.entryType) ++ uintField 2 entry.term ++
    uintField 3 entry.index ++ if entry.data = [] then [] else bytesField 4 entry.data

/-- `Message::encode_to_vec`. -/
def encodeToVec (msg : Message) : List UInt8 :=
  uintField 1 (MessageType.toNat msg.msgType) ++ uintField 2 msg.receiver ++
    uintField 3 msg.sender ++ uintField 4 msg.term ++ uintField 5 msg.logTerm ++ uintField 6 msg.index ++
    (msg.entries.flatMap fun entry => bytesField 7 (encodeEntry entry)) ++
    uintField 8 msg.commit ++ uintField 10 (if msg.reject then 1 else 0)

/-- `Message::decode`, which knows the default message and those of `known`. -/
def decode (known : List Message) (bytes : List UInt8) : Except String Message :=
  match (Message.default :: known).find? fun msg => encodeToVec msg = bytes with
  | some msg => .ok msg
  | none => .error "failed to decode Protobuf message"

/-! ### State -/

structure HardState where
  term : ℕ
  vote : ℕ
  commit : ℕ
  deriving DecidableEq, Repr

structure Storage where
  voters : List ℕ
  hardState : HardState
  entries : List Entry
  deriving DecidableEq, Repr

/-- `persisted` entries of the log are known to be stored, and `handedOut` were
given to the program as committed. -/
structure Raw where
  id : ℕ
  voters : List ℕ
  term : ℕ
  vote : ℕ
  role : StateRole
  leaderId : ℕ
  votes : List ℕ
  log : List Entry
  persisted : ℕ
  committed : ℕ
  handedOut : ℕ
  msgs : List Message
  prevRole : StateRole
  prevLeaderId : ℕ
  prevHardState : HardState

namespace Raw

def hardState (raw : Raw) : HardState := ⟨raw.term, raw.vote, raw.committed⟩

def lastTerm (raw : Raw) : ℕ := (raw.log.getLast?.map Entry.term).getD 0

/-- The term of the entry at `index`; position 0 is before the log. -/
def termAt (raw : Raw) (index : ℕ) : Option ℕ :=
  if index = 0 then some 0 else raw.log[index - 1]?.map Entry.term

def others (raw : Raw) : List ℕ := raw.voters.filter (· ≠ raw.id)

/-- The same message to every other voter. -/
def broadcast (raw : Raw) (msg : Message) : Raw :=
  { raw with msgs := raw.msgs ++ raw.others.map fun receiver => { msg with receiver } }

def becomeFollower (raw : Raw) (term leaderId : ℕ) : Raw :=
  { raw with
    role := .follower, leaderId, term, votes := []
    vote := if term = raw.term then raw.vote else 0 }

def appendEntry (raw : Raw) (entryType : EntryType) (data : List UInt8) : Raw :=
  { raw with log := raw.log ++ [⟨entryType, raw.term, raw.log.length + 1, data⟩] }

def becomeLeader (raw : Raw) : Raw :=
  ({ raw with role := .leader, leaderId := raw.id }.appendEntry .entryNormal []).broadcast
    { Message.default with
      msgType := .msgAppend, sender := raw.id, term := raw.term, logTerm := raw.lastTerm
      index := raw.log.length, commit := raw.committed
      entries := [⟨.entryNormal, raw.term, raw.log.length + 1, []⟩] }

def hasQuorum (raw : Raw) : Bool := raw.voters.length < 2 * raw.votes.length

def campaign (raw : Raw) : Raw :=
  if raw.role = .leader then raw
  else
    let raw := { raw with
      role := .candidate, leaderId := 0, term := raw.term + 1, vote := raw.id
      votes := [raw.id] }
    if raw.hasQuorum then raw.becomeLeader
    else raw.broadcast { Message.default with
      msgType := .msgRequestVote, sender := raw.id, term := raw.term
      logTerm := raw.lastTerm, index := raw.log.length }

/-- A follower forwards a proposal to the leader that it knows. -/
def handlePropose (raw : Raw) (msg : Message) : Except Fault Unit × Raw :=
  if raw.role = .leader then
    (.ok (), msg.entries.foldl (fun raw entry =>
      raw.appendEntry entry.entryType entry.data) raw)
  else if raw.leaderId = 0 then (.error (.error ["raft: proposal dropped"]), raw)
  else (.ok (), { raw with msgs := raw.msgs ++ [{ msg with receiver := raw.leaderId }] })

def propose (raw : Raw) (data : List UInt8) : Except Fault Unit × Raw :=
  raw.handlePropose { Message.default with
    msgType := .msgPropose, sender := raw.id, entries := [⟨.entryNormal, 0, 0, data⟩] }

def respond (raw : Raw) (msg response : Message) : Raw :=
  { raw with msgs := raw.msgs ++
      [{ response with receiver := msg.sender, sender := raw.id, term := raw.term }] }

/-- Where `entries`, put after the first `i` entries, first differ from the log. -/
def conflictAt (log : List Entry) (i : ℕ) : List Entry → ℕ
  | [] => log.length
  | entry :: entries =>
    if log[i]?.map Entry.term = some entry.term then conflictAt log (i + 1) entries else i

/-- The log overwritten from the first difference on. -/
def overwrite (log : List Entry) (i : ℕ) : List Entry → List Entry
  | [] => log
  | entry :: entries =>
    if log[i]?.map Entry.term = some entry.term then overwrite log (i + 1) entries
    else log.take i ++ entry :: entries

def handleAppend (raw : Raw) (msg : Message) : Raw :=
  if raw.termAt msg.index = some msg.logTerm then
    let raw := { raw with
      log := overwrite raw.log msg.index msg.entries
      persisted := min raw.persisted (conflictAt raw.log msg.index msg.entries)
      committed := max raw.committed (min msg.commit (msg.index + msg.entries.length)) }
    raw.respond msg { Message.default with
      msgType := .msgAppendResponse, index := msg.index + msg.entries.length }
  else raw.respond msg { Message.default with
    msgType := .msgAppendResponse, index := msg.index, reject := true }

def handleVote (raw : Raw) (msg : Message) : Raw :=
  if raw.vote = 0 ∧ raw.lastTerm ≤ msg.logTerm ∧ raw.log.length ≤ msg.index then
    { raw with vote := msg.sender }.respond msg { Message.default with
      msgType := .msgRequestVoteResponse }
  else raw.respond msg { Message.default with
    msgType := .msgRequestVoteResponse, reject := true }

/-- A message of the current term. -/
def handle (raw : Raw) (msg : Message) : Except Fault Unit × Raw :=
  match msg.msgType with
  | .msgPropose => raw.handlePropose msg
  | .msgAppend => (.ok (), (raw.becomeFollower raw.term msg.sender).handleAppend msg)
  | .msgRequestVote => (.ok (), raw.handleVote msg)
  | .msgRequestVoteResponse =>
    if raw.role = .candidate ∧ msg.reject = false then
      let raw := { raw with votes := raw.votes.insert msg.sender }
      (.ok (), if raw.hasQuorum then raw.becomeLeader else raw)
    else (.ok (), raw)
  | .msgHeartbeat =>
    (.ok (), (raw.becomeFollower raw.term msg.sender).respond msg { Message.default with
      msgType := .msgHeartbeatResponse })
  | _ => (.ok (), raw)

def step (raw : Raw) (msg : Message) : Except Fault Unit × Raw :=
  if msg.msgType.isLocal then
    (.error (.error ["raft: cannot step raft local message"]), raw)
  else if msg.msgType.isResponse ∧ msg.sender ∉ raw.voters then
    (.error (.error ["raft: cannot step as peer not found"]), raw)
  else if msg.msgType = .msgPropose then raw.handle msg
  else if msg.term < raw.term then (.ok (), raw)
  else if raw.term < msg.term then (raw.becomeFollower msg.term 0).handle msg
  else raw.handle msg

/-! ### The two phases of a `Ready` -/

/-- Committed entries that are stored and were not given out yet. -/
def committedEntries (raw : Raw) : List Entry :=
  (raw.log.take (min raw.committed raw.persisted)).drop raw.handedOut

def handOut (raw : Raw) : Raw :=
  { raw with msgs := [], handedOut := max raw.handedOut (min raw.committed raw.persisted) }

def hasReady (raw : Raw) : Bool :=
  raw.msgs ≠ [] ∨ raw.role ≠ raw.prevRole ∨ raw.leaderId ≠ raw.prevLeaderId ∨
    raw.hardState ≠ raw.prevHardState ∨ raw.persisted < raw.log.length ∨
    raw.committedEntries ≠ []

def ready (raw : Raw) : Ready HardState Unit Message × Raw :=
  ({ hs := if raw.hardState = raw.prevHardState then none else some raw.hardState
     entries := raw.log.drop raw.persisted
     snapshot := ()
     committedEntries := raw.committedEntries
     messages := if raw.role = .leader then raw.msgs else []
     persistedMessages := if raw.role = .leader then [] else raw.msgs },
    { raw.handOut with
      prevRole := raw.role, prevLeaderId := raw.leaderId, prevHardState := raw.hardState })

def advance (raw : Raw) : LightReady Message × Raw :=
  let raw : Raw := { raw with
    persisted := raw.log.length
    committed := if raw.role = .leader ∧ raw.voters = [raw.id] then raw.log.length
      else raw.committed }
  ({ commitIndex := if raw.prevHardState.commit < raw.committed then some raw.committed else none
     committedEntries := raw.committedEntries
     messages := raw.msgs },
    { raw.handOut with prevHardState := raw.hardState })

end Raw

namespace Storage

def newWithConfState (voters : List ℕ) : Storage := ⟨voters, ⟨0, 0, 0⟩, []⟩

def append (storage : Storage) : List Entry → Storage
  | [] => storage
  | entry :: entries =>
    { storage with entries := storage.entries.take (entry.index - 1) ++ entry :: entries }

end Storage

/-- A new `RawNode` on a storage. -/
def Raw.start (id : ℕ) (storage : Storage) : Raw :=
  { id, voters := storage.voters, term := storage.hardState.term
    vote := storage.hardState.vote, role := .follower, leaderId := 0, votes := []
    log := storage.entries, persisted := storage.entries.length
    committed := storage.hardState.commit, handedOut := 0, msgs := []
    prevRole := .follower, prevLeaderId := 0, prevHardState := storage.hardState }

def newRaw (id : ℕ) (storage : Storage) : Except Fault Raw :=
  if id = 0 then .error .panic else .ok (.start id storage)

/-- The library, for a network that carries the messages `known`. -/
def miniRaft (known : List Message) : Library where
  Raw := Raw
  Storage := Storage
  HardState := HardState
  Snapshot := Unit
  Message := Message
  newRaw config storage := newRaw config.id storage
  tick raw _ := raw
  campaign raw _ := (.ok (), raw.campaign)
  propose raw _ _ data := raw.propose data
  step raw _ msg := raw.step msg
  hasReady raw _ := raw.hasReady
  ready raw _ := raw.ready
  advance raw _ _ := raw.advance
  advanceApply raw _ := raw
  role raw := raw.role
  leaderId raw := raw.leaderId
  term raw := raw.term
  voters raw := raw.voters
  lastIndex raw _ := raw.log.length
  newWithConfState voters _ := .newWithConfState voters
  setHardstate storage hardState := { storage with hardState }
  append storage entries := .ok (storage.append entries)
  snapshotIsEmpty _ := true
  applySnapshot storage _ := .ok storage
  setCommit storage commit :=
    { storage with hardState := { storage.hardState with commit } }
  msgType msg := msg.msgType
  msgTo msg := msg.receiver
  msgFrom msg := msg.sender
  msgEntries msg := msg.entries
  encodeToVec := encodeToVec
  decode := decode known
  serialize := Bincode.serialize
  deserialize := Bincode.deserialize

theorem bincodeLaws (known : List Message) : (miniRaft known).BincodeLaws :=
  ⟨Bincode.deserialize_serialize, Bincode.serialize_ne_nil⟩

end Raft.MiniRaft
