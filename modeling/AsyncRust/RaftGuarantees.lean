/-
What the Raft worker relies on of its library.

`Library.Guarantees` says what the library promises about the states that it
gets into by itself: `Valid` is an invariant of its states, under which messages
of peers are accepted unless they are `Refused`, and a `Ready` can be processed.

* `Entry.Harmless` — the entries that can be applied;
* `Library.Guarantees` — the promises;
* `MiniRaft.guarantees` — the small library keeps them.
-/
import AsyncRust.MiniRaft

namespace Raft

/-! ### What is relied on -/

/-- `apply_entries` skips the entry, or can decode it. -/
def Entry.Harmless (L : Library) (entry : Entry) : Prop :=
  entry.data = [] ∨ entry.entryType ≠ .entryNormal ∨ (L.deserialize entry.data).isOk = true

instance {L : Library} (entry : Entry) : Decidable (entry.Harmless L) :=
  inferInstanceAs (Decidable (_ ∨ _ ∨ _))

/-- What the library promises: `Valid` is an invariant of its states.  Messages
that come from a peer, as `FromPeer` has it for a state, are accepted and keep it,
unless they are refused or have harmful entries; what the library sends to its
own node, `Own`, it accepts; and what it hands out in a valid state can be
persisted and applied. -/
structure Library.Guarantees (L : Library) (id : ℕ) (Valid : L.Raw → L.Storage → Prop)
    (FromPeer : L.Raw → L.Storage → L.Message → Prop) (Own : L.Message → Prop) : Prop where
  newRaw : ∀ voters raw, id ∈ voters →
    L.newRaw (config id) (L.newWithConfState voters []) = .ok raw →
      Valid raw (L.newWithConfState voters [])
  tick : ∀ raw storage, Valid raw storage → Valid (L.tick raw storage) storage
  campaign : ∀ raw storage result raw', Valid raw storage →
    L.campaign raw storage = (result, raw') → result ≠ .error .panic ∧ Valid raw' storage
  propose : ∀ raw storage data result raw', Valid raw storage →
    (L.deserialize data).isOk = true → L.propose raw storage [] data = (result, raw') →
      result ≠ .error .panic ∧ Valid raw' storage
  step_peer : ∀ raw storage msg, Valid raw storage → FromPeer raw storage msg →
    (∀ entry ∈ L.msgEntries msg, entry.Harmless L) → ¬ L.Refused raw msg →
      ∃ raw', L.step raw storage msg = (.ok (), raw') ∧ Valid raw' storage
  step_own : ∀ raw storage msg, Valid raw storage → Own msg →
    ∃ raw', L.step raw storage msg = (.ok (), raw') ∧ Valid raw' storage
  ready : ∀ raw storage ready raw', Valid raw storage → L.hasReady raw storage = true →
    L.ready raw storage = (ready, raw') →
      (∀ msg ∈ ready.messages ++ ready.persistedMessages, L.msgTo msg = id → Own msg) ∧
      (∀ entry ∈ ready.committedEntries, entry.Harmless L) ∧
      ∃ storage', L.persist storage ready = .ok storage' ∧
        ∀ light raw'', L.advance raw' storage' ready.taken = (light, raw'') →
          (∀ msg ∈ light.messages, L.msgTo msg = id → Own msg) ∧
          (∀ entry ∈ light.committedEntries, entry.Harmless L) ∧
          Valid (L.advanceApply raw'' (L.setCommitIndex storage' light.commitIndex))
            (L.setCommitIndex storage' light.commitIndex)

/-! ### The small library keeps its promises -/

namespace MiniRaft

variable {known : List Message} {id : ℕ} {raw : Raw} {msg : Message}

/-- The log is harmless, nothing is addressed to the node itself, and it does not
follow itself. -/
structure Raw.Good (known : List Message) (id : ℕ) (raw : Raw) : Prop where
  id_ne : id ≠ 0
  id_eq : raw.id = id
  leader : raw.role ≠ .leader → raw.leaderId ≠ id
  log : ∀ entry ∈ raw.log, entry.Harmless (miniRaft known)
  msgs : ∀ msg ∈ raw.msgs, msg.receiver ≠ id

namespace Raw.Good

/-- Messages are added, of which none is addressed to the node itself. -/
theorem send (h : raw.Good known id) {msgs : List Message}
    (hmsgs : ∀ msg ∈ msgs, msg.receiver ≠ id) :
    Raw.Good known id { raw with msgs := raw.msgs ++ msgs } where
  id_ne := h.id_ne
  id_eq := h.id_eq
  leader := h.leader
  log := h.log
  msgs m hm := (List.mem_append.mp hm).elim (h.msgs m) (hmsgs m)

theorem broadcast (h : raw.Good known id) (msg : Message) :
    (raw.broadcast msg).Good known id := by
  refine h.send fun m hm => ?_
  obtain ⟨receiver, hreceiver, rfl⟩ := List.mem_map.mp hm
  have hne := (List.mem_filter.mp hreceiver).2
  rw [h.id_eq] at hne
  simpa using hne

theorem respond (h : raw.Good known id) (hsender : msg.sender ≠ id) (response : Message) :
    (raw.respond msg response).Good known id :=
  h.send fun m hm => by rw [List.mem_singleton.mp hm]; exact hsender

theorem appendEntry (h : raw.Good known id) {entryType : EntryType} {data : List UInt8}
    (hdata : ∀ term index, Entry.Harmless (miniRaft known) ⟨entryType, term, index, data⟩) :
    (raw.appendEntry entryType data).Good known id where
  id_ne := h.id_ne
  id_eq := h.id_eq
  leader := h.leader
  log := by
    intro entry hentry
    rcases List.mem_append.mp hentry with hentry | hentry
    · exact h.log entry hentry
    · rw [List.mem_singleton.mp hentry]
      exact hdata _ _
  msgs := h.msgs

theorem appendEntries (entries : List Entry) : ∀ {raw : Raw}, raw.Good known id →
    (∀ entry ∈ entries, entry.Harmless (miniRaft known)) →
      (entries.foldl (fun raw entry => raw.appendEntry entry.entryType entry.data) raw).Good
        known id := by
  induction entries with
  | nil => exact fun h _ => h
  | cons entry entries ih =>
    intro raw h hentries
    exact ih (h.appendEntry fun _ _ => hentries entry List.mem_cons_self)
      fun e he => hentries e (List.mem_cons_of_mem _ he)

theorem becomeFollower (h : raw.Good known id) (term : ℕ) {leaderId : ℕ} (hleader : leaderId ≠ id) :
    (raw.becomeFollower term leaderId).Good known id :=
  ⟨h.id_ne, h.id_eq, fun _ => hleader, h.log, h.msgs⟩

theorem becomeLeader (h : raw.Good known id) : raw.becomeLeader.Good known id := by
  refine broadcast (appendEntry ?_ fun _ _ => .inl rfl) _
  exact ⟨h.id_ne, h.id_eq, fun hrole => absurd rfl hrole, h.log, h.msgs⟩

theorem campaign (h : raw.Good known id) : raw.campaign.Good known id := by
  unfold Raw.campaign
  split
  · exact h
  · have hcandidate : Raw.Good known id { raw with
        role := .candidate, leaderId := 0, term := raw.term + 1, vote := raw.id
        votes := [raw.id] } := ⟨h.id_ne, h.id_eq, fun _ => h.id_ne.symm, h.log, h.msgs⟩
    show Raw.Good known id (if _ then _ else _)
    split
    · exact hcandidate.becomeLeader
    · exact hcandidate.broadcast _

theorem mem_overwrite (entries : List Entry) : ∀ (log : List Entry) (i : ℕ) {entry : Entry},
    entry ∈ overwrite log i entries → entry ∈ log ∨ entry ∈ entries := by
  induction entries with
  | nil => exact fun log i entry h => .inl h
  | cons e entries ih =>
    intro log i entry h
    rw [overwrite] at h
    split at h
    · exact (ih log (i + 1) h).imp_right (List.mem_cons_of_mem _)
    · exact (List.mem_append.mp h).imp_left List.mem_of_mem_take

theorem handleAppend (h : raw.Good known id) (hsender : msg.sender ≠ id)
    (hentries : ∀ entry ∈ msg.entries, entry.Harmless (miniRaft known)) :
    (raw.handleAppend msg).Good known id := by
  unfold Raw.handleAppend
  split
  · have hlog : Raw.Good known id { raw with
        log := overwrite raw.log msg.index msg.entries
        persisted := min raw.persisted (conflictAt raw.log msg.index msg.entries)
        committed := max raw.committed (min msg.commit (msg.index + msg.entries.length)) } :=
      ⟨h.id_ne, h.id_eq, h.leader,
        fun entry hentry => (mem_overwrite _ _ _ hentry).elim (h.log entry) (hentries entry),
        h.msgs⟩
    exact hlog.respond hsender _
  · exact h.respond hsender _

theorem handlePropose (h : raw.Good known id)
    (hentries : ∀ entry ∈ msg.entries, entry.Harmless (miniRaft known)) :
    (raw.handlePropose msg).2.Good known id := by
  unfold Raw.handlePropose
  split
  · exact h.appendEntries _ hentries
  · rename_i hrole
    split
    · exact h
    · exact h.send fun m hm => by rw [List.mem_singleton.mp hm]; exact h.leader hrole

theorem handle (h : raw.Good known id) (hsender : msg.sender ≠ id)
    (hentries : ∀ entry ∈ msg.entries, entry.Harmless (miniRaft known)) :
    (raw.handle msg).2.Good known id := by
  unfold Raw.handle
  split
  · exact h.handlePropose hentries
  · exact (h.becomeFollower _ hsender).handleAppend hsender hentries
  · show (raw.handleVote msg).Good known id
    unfold Raw.handleVote
    split
    · have hvote : Raw.Good known id { raw with vote := msg.sender } :=
        ⟨h.id_ne, h.id_eq, h.leader, h.log, h.msgs⟩
      exact hvote.respond hsender _
    · exact h.respond hsender _
  · split
    · have hvotes : Raw.Good known id { raw with votes := raw.votes.insert msg.sender } :=
        ⟨h.id_ne, h.id_eq, h.leader, h.log, h.msgs⟩
      show Raw.Good known id (if _ then _ else _)
      split
      · exact hvotes.becomeLeader
      · exact hvotes
    · exact h
  · exact (h.becomeFollower _ hsender).respond hsender _
  · exact h

theorem step (h : raw.Good known id) (hsender : msg.sender ≠ id)
    (hentries : ∀ entry ∈ msg.entries, entry.Harmless (miniRaft known)) :
    (raw.step msg).2.Good known id := by
  unfold Raw.step
  split
  · exact h
  · split
    · exact h
    · split
      · exact h.handle hsender hentries
      · split
        · exact h
        · split
          · -- a message of a later term
            exact (h.becomeFollower _ h.id_ne.symm).handle hsender hentries
          · exact h.handle hsender hentries

theorem harmless_committed (h : raw.Good known id) :
    ∀ entry ∈ raw.committedEntries, entry.Harmless (miniRaft known) := fun entry hentry =>
  h.log entry (List.mem_of_mem_take (List.mem_of_mem_drop hentry))

theorem ready (h : raw.Good known id) : raw.ready.2.Good known id :=
  ⟨h.id_ne, h.id_eq, h.leader, h.log, List.forall_mem_nil _⟩

/-- Another part of the log is stored and committed. -/
theorem stored (h : raw.Good known id) (persisted committed : ℕ) :
    Raw.Good known id { raw with persisted, committed } :=
  ⟨h.id_ne, h.id_eq, h.leader, h.log, h.msgs⟩

theorem advance (h : raw.Good known id) : raw.advance.2.Good known id :=
  ⟨h.id_ne, h.id_eq, h.leader, h.log, List.forall_mem_nil _⟩

/-- Nothing of a good node's messages is for the node itself. -/
theorem not_own (h : raw.Good known id) :
    ∀ msg ∈ raw.msgs, (miniRaft known).msgTo msg = id → False :=
  fun msg hmsg hto => h.msgs msg hmsg hto

end Raw.Good

theorem mem_ready (hmsg : msg ∈ raw.ready.1.messages ++ raw.ready.1.persistedMessages) :
    msg ∈ raw.msgs := by
  simp only [Raw.ready, List.mem_append] at hmsg
  split at hmsg <;> simpa using hmsg

theorem propose_fst_ne_panic {data : List UInt8} : (raw.propose data).1 ≠ .error .panic := by
  unfold Raw.propose Raw.handlePropose
  split
  · simp
  · split <;> simp

theorem persist_ok (storage : Storage) (ready : Ready HardState Unit Message) :
    ∃ storage', (miniRaft known).persist storage ready = .ok storage' := by
  rcases ready with ⟨_ | hardState, _ | ⟨entry, entries⟩, _, _, _, _⟩ <;> exact ⟨_, rfl⟩

/-- Once type and sender are checked, only a proposal can give an error. -/
theorem handle_fst (raw : Raw) (hpropose : msg.msgType ≠ .msgPropose) :
    (raw.handle msg).1 = .ok () := by
  unfold Raw.handle
  split
  · exact absurd ‹_› hpropose
  · rfl
  · rfl
  · split <;> rfl
  · rfl
  · rfl

theorem step_fst (hlocal : ¬ msg.msgType.isLocal = true)
    (hresponse : ¬ (msg.msgType.isResponse = true ∧ msg.sender ∉ raw.voters))
    (hdropped : ¬ (msg.msgType = .msgPropose ∧ raw.leaderId = 0)) :
    (raw.step msg).1 = .ok () := by
  unfold Raw.step
  rw [if_neg hlocal, if_neg hresponse]
  split
  · rename_i hpropose
    simp only [Raw.handle, hpropose, Raw.handlePropose]
    split
    · rfl
    · rw [if_neg fun hleader => hdropped ⟨hpropose, hleader⟩]
  · rename_i hpropose
    split
    · rfl
    · split <;> exact handle_fst _ hpropose

/-- The small library gives the guarantees for messages of other nodes, and
sends nothing to its own. -/
theorem guarantees (known : List Message) (id : ℕ) :
    (miniRaft known).Guarantees id (fun raw _ => Raw.Good known id raw)
      (fun _ _ msg => Message.sender msg ≠ id) (fun _ => False) where
  newRaw := by
    intro voters raw _ hraw
    simp only [miniRaft, newRaw] at hraw
    split at hraw <;> cases hraw
    rename_i hid
    exact ⟨hid, rfl, fun _ => Ne.symm hid, List.forall_mem_nil _, List.forall_mem_nil _⟩
  tick := fun _ _ h => h
  campaign := by
    intro raw storage result raw' h hcampaign
    cases hcampaign
    exact ⟨by simp, h.campaign⟩
  propose := by
    intro raw storage data result raw' h hdata hpropose
    obtain ⟨rfl, rfl⟩ := Prod.ext_iff.mp hpropose
    refine ⟨propose_fst_ne_panic, Raw.Good.handlePropose h fun entry hentry => ?_⟩
    rw [List.mem_singleton.mp hentry]
    exact .inr (.inr hdata)
  step_peer := by
    intro raw storage msg h hsender hentries hrefused
    obtain ⟨hlocal, hrefused⟩ := not_or.mp hrefused
    obtain ⟨hresponse, hdropped⟩ := not_or.mp hrefused
    exact ⟨(Raw.step raw msg).2, Prod.ext (step_fst hlocal hresponse hdropped) rfl,
      Raw.Good.step h hsender hentries⟩
  step_own := fun _ _ _ _ hown => hown.elim
  ready := by
    intro raw storage ready raw' h hready hraw
    cases hraw
    obtain ⟨storage', hpersist⟩ := persist_ok storage (Raw.ready raw).1
    refine ⟨fun msg hmsg => h.not_own msg (mem_ready hmsg), h.harmless_committed, storage',
      hpersist, fun light raw'' hlight => ?_⟩
    cases hlight
    exact ⟨List.forall_mem_nil _, (h.ready.stored _ _).harmless_committed, h.ready.advance⟩

end MiniRaft

end Raft
