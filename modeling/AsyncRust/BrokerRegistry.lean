/-
The registry of the broker: who holds which record.

`Registry` ties the shared map, the id counter and the local state of every task
together: the records are exactly those of the tasks between their insertion
and their removal (`Phase.record`), ids are issued once, nicknames are distinct
and valid.  Every step keeps it (`registry_step`), whatever the clients send
and however the tasks interleave.

From it, `registry_attribution`: nicknames in the map are distinct, non-empty
and trimmed, ids were issued to one connection each, a session keeps its record,
and a chat is broadcast under a nickname only by the one connection that is
registered under it.
-/
import AsyncRust.BrokerSteps

namespace Chat

open LineReader Broadcast Runs

variable {fromStr : String → Option ClientToServer} {st : BrokerState} {receivers now : ℕ}
  {s s' : Broker} {conn : Conn} {action : Action} {o : Outcome}

/-- The record that the task has inserted and not removed. -/
def Phase.record : Phase → Option Member
  | .welcoming client _ => some client
  | .rostering client _ => some client
  | .announcing client => some client
  | .subscribing client => some client
  | .session client _ => some client
  | .replying client _ _ => some client
  | .delivering client _ _ => some client
  | .cleanup client => some client
  | .aborted client _ _ => some client
  | _ => none

/-- The id and the nickname that the task holds, registered or about to be. -/
def Phase.claim : Phase → Option Member
  | .registering client => some client
  | phase => phase.record

/-- The client of a task that is in `run_client_session`. -/
def Phase.inSession : Phase → Option Member
  | .session client _ => some client
  | .replying client _ _ => some client
  | .delivering client _ _ => some client
  | _ => none

theorem Phase.claim_of_record {phase : Phase} {client : Member}
    (h : phase.record = some client) : phase.claim = some client := by
  cases phase <;> first | exact h | exact absurd h (by simp [Phase.record])

theorem Phase.record_of_inSession {phase : Phase} {client : Member}
    (h : phase.inSession = some client) : phase.record = some client := by
  cases phase <;> first | exact h | exact absurd h (by simp [Phase.inSession])

/-- A nickname that a handshake accepts. -/
def ValidNickname (nickname : String) : Prop := nickname ≠ "" ∧ Trimmed nickname

theorem validNickname_of_performHandshake {result : ReadResult ClientToServer}
    {nickname : String} (h : performHandshake result = .done nickname) :
    ValidNickname nickname := by
  rcases result with err | _ | sent | text
  · simp [performHandshake] at h
  · simp [performHandshake] at h
  · by_cases hempty : trim sent = ""
    · simp [performHandshake, extractNickname, validateNickname, hempty] at h
    · simp only [performHandshake, extractNickname, validateNickname, if_neg hempty,
        Handshake.done.injEq] at h
      exact h ▸ ⟨hempty, trimmed_trim sent⟩
  · simp [performHandshake, extractNickname] at h

/-! ### What a step does to the registry -/

/-- A step leaves the registry alone, issues an id, inserts the task's record or
removes it. -/
inductive RegistryMove (st : BrokerState) (conn : Conn) (o : Outcome) : Prop
  | keep (hrecord : o.conn.phase.record = conn.phase.record)
      (hclaim : o.conn.phase.claim = conn.phase.claim ∨ o.conn.phase.claim = none)
      (hissued : o.conn.issued = conn.issued) (hclients : o.state.clients = st.clients)
      (hnext : o.state.nextId = st.nextId)
  | issue (nickname : String) (hvalid : ValidNickname nickname)
      (hrecord : conn.phase.record = none) (hrecord' : o.conn.phase.record = none)
      (hclaim : o.conn.phase.claim = some ⟨st.nextId, nickname⟩)
      (hissued : o.conn.issued = some st.nextId) (hclients : o.state.clients = st.clients)
      (hnext : o.state.nextId = st.nextId + 1)
  | insert (client : Member) (hfree : client.nickname ∉ st.nicknames)
      (hclaim : conn.phase.claim = some client) (hclaim' : o.conn.phase.claim = some client)
      (hrecord : conn.phase.record = none) (hrecord' : o.conn.phase.record = some client)
      (hissued : o.conn.issued = conn.issued)
      (hclients : o.state.clients = st.clients.insert client.id ⟨client.nickname⟩)
      (hnext : o.state.nextId = st.nextId)
  | remove (client : Member) (hrecord : conn.phase.record = some client)
      (hclaim' : o.conn.phase.claim = none) (hrecord' : o.conn.phase.record = none)
      (hissued : o.conn.issued = conn.issued)
      (hclients : o.state.clients = st.clients.erase client.id)
      (hnext : o.state.nextId = st.nextId)

theorem Conn.Move.registryMove (h : conn.Move fromStr st receivers now action o) :
    RegistryMove st conn o := by
  cases h with
  | arrived fill => exact .keep rfl (.inl rfl) rfl rfl rfl
  | waited hphase hread => exact .keep rfl (.inl rfl) rfl rfl rfl
  | handshakeFailed hphase hread hresult =>
    exact .keep (by rw [hphase]; rfl) (.inr rfl) rfl rfl rfl
  | handshakeInvalid hphase hread hresult =>
    exact .keep (by rw [hphase]; rfl) (.inr rfl) rfl rfl rfl
  | issued hphase hread hresult =>
    exact .issue _ (validNickname_of_performHandshake hresult) (by rw [hphase]; rfl)
      rfl rfl rfl rfl rfl
  | rejected hphase => exact .keep (by rw [hphase]; rfl) (.inr rfl) rfl rfl rfl
  | rejectFailed hphase => exact .keep (by rw [hphase]; rfl) (.inr rfl) rfl rfl rfl
  | taken hphase htaken => exact .keep (by rw [hphase]; rfl) (.inr rfl) rfl rfl rfl
  | registered hphase hfree =>
    exact .insert _ hfree (by rw [hphase]; rfl) rfl (by rw [hphase]; rfl) rfl rfl rfl rfl
  | @welcomed client roster hphase =>
    by_cases hroster : roster = []
    · exact .keep (by simp [hphase, hroster, Phase.record])
        (.inl (by simp [hphase, hroster, Phase.claim, Phase.record])) rfl rfl rfl
    · exact .keep (by simp [hphase, hroster, Phase.record])
        (.inl (by simp [hphase, hroster, Phase.claim, Phase.record])) rfl rfl rfl
  | rostered hphase => exact .keep (by rw [hphase]; rfl) (.inl (by rw [hphase]; rfl)) rfl rfl rfl
  | welcomeFailed hphase =>
    rcases hphase with hphase | hphase <;>
      exact .keep (by rw [hphase]; rfl) (.inl (by rw [hphase]; rfl)) rfl rfl rfl
  | joined hphase =>
    exact .keep (by rw [hphase]; rfl) (.inl (by rw [hphase]; rfl)) rfl (by simp) (by simp)
  | subscribed hphase =>
    exact .keep (by rw [hphase]; rfl) (.inl (by rw [hphase]; rfl)) rfl rfl rfl
  | chatted hphase hread htext => exact .keep rfl (.inl rfl) rfl (by simp) (by simp)
  | ignored hphase hread htext => exact .keep rfl (.inl rfl) rfl rfl rfl
  | greeted hphase hread =>
    exact .keep (by rw [hphase]; rfl) (.inl (by rw [hphase]; rfl)) rfl rfl rfl
  | finished hphase hread =>
    exact .keep (by rw [hphase]; rfl) (.inl (by rw [hphase]; rfl)) rfl rfl rfl
  | readFailed hphase hread =>
    exact .keep (by rw [hphase]; rfl) (.inl (by rw [hphase]; rfl)) rfl rfl rfl
  | received hphase hrecv =>
    exact .keep (by rw [hphase]; rfl) (.inl (by rw [hphase]; rfl)) rfl rfl rfl
  | replied hphase =>
    exact .keep (by rw [hphase]; rfl) (.inl (by rw [hphase]; rfl)) rfl rfl rfl
  | replyFailed hphase =>
    exact .keep (by rw [hphase]; rfl) (.inl (by rw [hphase]; rfl)) rfl rfl rfl
  | delivered hphase =>
    exact .keep (by rw [hphase]; rfl) (.inl (by rw [hphase]; rfl)) rfl rfl rfl
  | deliveryFailed hphase =>
    exact .keep (by rw [hphase]; rfl) (.inl (by rw [hphase]; rfl)) rfl rfl rfl
  | removed hphase hrecord =>
    exact .remove _ (by rw [hphase]; rfl) rfl rfl rfl rfl rfl
  | absent hphase hrecord =>
    exact .remove _ (by rw [hphase]; rfl) rfl rfl rfl rfl rfl
  | left hphase => exact .keep (by rw [hphase]; rfl) (.inr rfl) rfl (by simp) (by simp)

/-! ### The invariant -/

structure Registry (s : Broker) : Prop where
  /-- Every record was inserted by a task that has not removed it. -/
  owned : ∀ (id : ClientId) (record : ClientRecord),
    s.state.clients.lookup id = some record →
      ∃ (c : ℕ) (conn : Conn), s.conns[c]? = some conn ∧
        conn.phase.record = some ⟨id, record.nickname⟩
  /-- What a task has inserted and not removed is there. -/
  present : ∀ (c : ℕ) (conn : Conn) (client : Member), s.conns[c]? = some conn →
    conn.phase.record = some client →
      s.state.clients.lookup client.id = some ⟨client.nickname⟩
  issued : ∀ (c : ℕ) (conn : Conn) (client : Member), s.conns[c]? = some conn →
    conn.phase.claim = some client → conn.issued = some client.id
  unique : ∀ (c d : ℕ) (conn other : Conn) (id : ClientId), s.conns[c]? = some conn →
    s.conns[d]? = some other → conn.issued = some id → other.issued = some id → c = d
  below : ∀ (c : ℕ) (conn : Conn) (id : ClientId), s.conns[c]? = some conn →
    conn.issued = some id → id < s.state.nextId
  valid : ∀ (c : ℕ) (conn : Conn) (client : Member), s.conns[c]? = some conn →
    conn.phase.claim = some client → ValidNickname client.nickname
  distinct : ∀ (id id' : ClientId) (record record' : ClientRecord),
    s.state.clients.lookup id = some record → s.state.clients.lookup id' = some record' →
      record.nickname = record'.nickname → id = id'

theorem registry_new : Registry Broker.new where
  owned id record h := by simp [Broker.new, BrokerState.new] at h
  present c conn client h := by simp [Broker.new] at h
  issued c conn client h := by simp [Broker.new] at h
  unique c d conn other id h := by simp [Broker.new] at h
  below c conn id h := by simp [Broker.new] at h
  valid c conn client h := by simp [Broker.new] at h
  distinct id id' record record' h := by simp [Broker.new, BrokerState.new] at h

theorem nickname_ext {record record' : ClientRecord}
    (h : record.nickname = record'.nickname) : record = record' := by
  cases record
  cases record'
  exact congrArg ClientRecord.mk h

theorem mem_nicknames {nickname : String} :
    nickname ∈ st.nicknames ↔ ∃ id, st.clients.lookup id = some ⟨nickname⟩ := by
  unfold BrokerState.nicknames
  constructor
  · intro h
    obtain ⟨⟨id, record⟩, hmem, rfl⟩ := List.mem_map.mp h
    exact ⟨id, AList.mem_lookup_iff.mpr hmem⟩
  · rintro ⟨id, h⟩
    exact List.mem_map.mpr ⟨⟨id, ⟨nickname⟩⟩, AList.mem_lookup_iff.mp h, rfl⟩

/-- A step that concerns no connection's record keeps the invariant. -/
theorem Registry.of_conns {conns : List Conn} (h : Registry s)
    (hclients : s'.state.clients = s.state.clients) (hnext : s'.state.nextId = s.state.nextId)
    (hconns : s'.conns = conns)
    (hsub : ∀ (c : ℕ) (conn : Conn), s.conns[c]? = some conn → conns[c]? = some conn)
    (hnew : ∀ (c : ℕ) (conn : Conn), conns[c]? = some conn →
      s.conns[c]? = some conn ∨ conn = .new) :
    Registry s' := by
  subst hconns
  have hold : ∀ {c : ℕ} {conn : Conn}, s'.conns[c]? = some conn →
      (conn.phase.claim ≠ none ∨ conn.issued ≠ none) → s.conns[c]? = some conn := by
    intro c conn hc hne
    rcases hnew c conn hc with hc | rfl
    · exact hc
    · exact absurd hne (by simp [Conn.new, Phase.claim, Phase.record])
  constructor
  case owned =>
    intro id record hlookup
    rw [hclients] at hlookup
    obtain ⟨c, conn, hc, hrecord⟩ := h.owned id record hlookup
    exact ⟨c, conn, hsub c conn hc, hrecord⟩
  case present =>
    intro c conn client hc hrecord
    rw [hclients]
    have hclaim := Phase.claim_of_record hrecord
    exact h.present c conn client (hold hc (.inl (by simp [hclaim]))) hrecord
  case issued =>
    intro c conn client hc hclaim
    exact h.issued c conn client (hold hc (.inl (by simp [hclaim]))) hclaim
  case unique =>
    intro c d conn other id hc hd hi hi'
    exact h.unique c d conn other id (hold hc (.inr (by simp [hi])))
      (hold hd (.inr (by simp [hi']))) hi hi'
  case below =>
    intro c conn id hc hi
    rw [hnext]
    exact h.below c conn id (hold hc (.inr (by simp [hi]))) hi
  case valid =>
    intro c conn client hc hclaim
    exact h.valid c conn client (hold hc (.inl (by simp [hclaim]))) hclaim
  case distinct =>
    rw [hclients]
    exact h.distinct

/-- A step that issues no id leaves every issued id where it was. -/
theorem Broker.issued_of_after {c d : ℕ} {other : Conn} {id : ClientId}
    (hconn : s.conns[c]? = some conn) (hissued : o.conn.issued = conn.issued)
    (hd : (s.after c o).conns[d]? = some other) (hi : other.issued = some id) :
    ∃ old, s.conns[d]? = some old ∧ old.issued = some id :=
  Broker.of_after hconn hd hi hissued.symm.trans

/-- The ids stay unique, and below the counter, if none is issued. -/
theorem Registry.ids_after {c : ℕ} (h : Registry s) (hconn : s.conns[c]? = some conn)
    (hissued : o.conn.issued = conn.issued) (hnext : o.state.nextId = s.state.nextId) :
    (∀ (d d' : ℕ) (other other' : Conn) (id : ClientId), (s.after c o).conns[d]? = some other →
        (s.after c o).conns[d']? = some other' → other.issued = some id →
          other'.issued = some id → d = d') ∧
      ∀ (d : ℕ) (other : Conn) (id : ClientId), (s.after c o).conns[d]? = some other →
        other.issued = some id → id < (s.after c o).state.nextId := by
  constructor
  · intro d d' other other' id hd hd' hi hi'
    obtain ⟨old, hold, hi⟩ := Broker.issued_of_after hconn hissued hd hi
    obtain ⟨old', hold', hi'⟩ := Broker.issued_of_after hconn hissued hd' hi'
    exact h.unique d d' old old' id hold hold' hi hi'
  · intro d other id hd hi
    rw [show (s.after c o).state.nextId = s.state.nextId from hnext]
    obtain ⟨old, hold, hi⟩ := Broker.issued_of_after hconn hissued hd hi
    exact h.below d old id hold hi

/-- A task that does not touch the map or the counter keeps the invariant. -/
theorem Registry.after_keep {c : ℕ} (h : Registry s) (hconn : s.conns[c]? = some conn)
    (hrecord : o.conn.phase.record = conn.phase.record)
    (hclaim : o.conn.phase.claim = conn.phase.claim ∨ o.conn.phase.claim = none)
    (hissued : o.conn.issued = conn.issued) (hclients : o.state.clients = s.state.clients)
    (hnext : o.state.nextId = s.state.nextId) : Registry (s.after c o) := by
  have hclaim' : ∀ {client}, o.conn.phase.claim = some client →
      conn.phase.claim = some client := by
    intro client hc
    rcases hclaim with heq | hnone
    · exact heq ▸ hc
    · exact absurd (hnone ▸ hc) (by simp)
  constructor
  case owned =>
    intro id record hlookup
    rw [show (s.after c o).state.clients = s.state.clients from hclients] at hlookup
    exact Broker.exists_after hconn (h.owned id record hlookup) hrecord.trans
  case present =>
    intro d other client hd hother
    rw [show (s.after c o).state.clients = s.state.clients from hclients]
    rcases Broker.getElem?_after hd with ⟨rfl, rfl⟩ | ⟨-, hd⟩
    · exact h.present d conn client hconn (hrecord.symm.trans hother)
    · exact h.present d other client hd hother
  case issued =>
    intro d other client hd hother
    rcases Broker.getElem?_after hd with ⟨rfl, rfl⟩ | ⟨-, hd⟩
    · exact hissued.trans (h.issued d conn client hconn (hclaim' hother))
    · exact h.issued d other client hd hother
  case unique => exact (h.ids_after hconn hissued hnext).1
  case below => exact (h.ids_after hconn hissued hnext).2
  case valid =>
    intro d other client hd hother
    rcases Broker.getElem?_after hd with ⟨rfl, rfl⟩ | ⟨-, hd⟩
    · exact h.valid d conn client hconn (hclaim' hother)
    · exact h.valid d other client hd hother
  case distinct =>
    rw [show (s.after c o).state.clients = s.state.clients from hclients]
    exact h.distinct

theorem Registry.after_issue {c : ℕ} {nickname : String} (h : Registry s)
    (hconn : s.conns[c]? = some conn) (hvalid : ValidNickname nickname)
    (hrecord : conn.phase.record = none) (hrecord' : o.conn.phase.record = none)
    (hclaim : o.conn.phase.claim = some ⟨s.state.nextId, nickname⟩)
    (hissued : o.conn.issued = some s.state.nextId)
    (hclients : o.state.clients = s.state.clients)
    (hnext : o.state.nextId = s.state.nextId + 1) : Registry (s.after c o) := by
  have hfresh : ∀ {d : ℕ} {other : Conn} {id : ℕ}, s.conns[d]? = some other →
      other.issued = some id → id ≠ s.state.nextId :=
    fun hd hi => Nat.ne_of_lt (h.below _ _ _ hd hi)
  constructor
  case owned =>
    intro id record hlookup
    rw [show (s.after c o).state.clients = s.state.clients from hclients] at hlookup
    refine Broker.exists_after hconn (h.owned id record hlookup) fun hmoved => ?_
    exact absurd (hrecord.symm.trans hmoved) (by simp)
  case present =>
    intro d other client hd hother
    rw [show (s.after c o).state.clients = s.state.clients from hclients]
    rcases Broker.getElem?_after hd with ⟨rfl, rfl⟩ | ⟨-, hd⟩
    · exact absurd (hrecord'.symm.trans hother) (by simp)
    · exact h.present d other client hd hother
  case issued =>
    intro d other client hd hother
    rcases Broker.getElem?_after hd with ⟨rfl, rfl⟩ | ⟨-, hd⟩
    · obtain rfl := Option.some_inj.mp (hclaim.symm.trans hother)
      exact hissued
    · exact h.issued d other client hd hother
  case unique =>
    intro d d' other other' id hd hd' hi hi'
    rcases Broker.getElem?_after hd with ⟨rfl, rfl⟩ | ⟨-, hold⟩ <;>
      rcases Broker.getElem?_after hd' with ⟨rfl, rfl⟩ | ⟨-, hold'⟩
    · rfl
    · exact absurd (Option.some_inj.mp (hissued.symm.trans hi)).symm (hfresh hold' hi')
    · exact absurd (Option.some_inj.mp (hissued.symm.trans hi')).symm (hfresh hold hi)
    · exact h.unique _ _ _ _ id hold hold' hi hi'
  case below =>
    intro d other id hd hi
    rw [show (s.after c o).state.nextId = s.state.nextId + 1 from hnext]
    rcases Broker.getElem?_after hd with ⟨rfl, rfl⟩ | ⟨-, hd⟩
    · rw [← Option.some_inj.mp (hissued.symm.trans hi)]
      exact Nat.lt_succ_self _
    · exact Nat.lt_succ_of_lt (h.below d other id hd hi)
  case valid =>
    intro d other client hd hother
    rcases Broker.getElem?_after hd with ⟨rfl, rfl⟩ | ⟨-, hd⟩
    · obtain rfl := Option.some_inj.mp (hclaim.symm.trans hother)
      exact hvalid
    · exact h.valid d other client hd hother
  case distinct =>
    rw [show (s.after c o).state.clients = s.state.clients from hclients]
    exact h.distinct

theorem Registry.after_insert {c : ℕ} {client : Member} (h : Registry s)
    (hconn : s.conns[c]? = some conn) (hfree : client.nickname ∉ s.state.nicknames)
    (hclaim : conn.phase.claim = some client) (hclaim' : o.conn.phase.claim = some client)
    (hrecord : conn.phase.record = none) (hrecord' : o.conn.phase.record = some client)
    (hissued : o.conn.issued = conn.issued)
    (hclients : o.state.clients = s.state.clients.insert client.id ⟨client.nickname⟩)
    (hnext : o.state.nextId = s.state.nextId) : Registry (s.after c o) := by
  -- nobody else holds a record under this id
  have hother : ∀ {d : ℕ} {other : Conn} {m : Member}, s.conns[d]? = some other →
      other.phase.record = some m → m.id ≠ client.id := by
    intro d other m hd hm hid
    have hi := h.issued d other m hd (Phase.claim_of_record hm)
    have hi' := h.issued c conn client hconn hclaim
    have hdc := h.unique d c other conn m.id hd hconn hi (by rw [hi', hid])
    subst hdc
    obtain rfl : conn = other := Option.some_inj.mp (hconn.symm.trans hd)
    exact absurd (hrecord.symm.trans hm) (by simp)
  have hstate : (s.after c o).state.clients =
      s.state.clients.insert client.id ⟨client.nickname⟩ := hclients
  constructor
  case owned =>
    intro id record hlookup
    rw [hstate] at hlookup
    by_cases hid : id = client.id
    · subst hid
      rw [AList.lookup_insert] at hlookup
      obtain rfl := Option.some_inj.mp hlookup
      exact ⟨c, o.conn, Broker.getElem?_after_self hconn, hrecord'⟩
    · rw [AList.lookup_insert_ne hid] at hlookup
      refine Broker.exists_after hconn (h.owned id record hlookup) fun hmoved => ?_
      exact absurd (hrecord.symm.trans hmoved) (by simp)
  case present =>
    intro d other m hd hm
    rw [hstate]
    rcases Broker.getElem?_after hd with ⟨rfl, rfl⟩ | ⟨-, hd⟩
    · obtain rfl := Option.some_inj.mp (hrecord'.symm.trans hm)
      rw [AList.lookup_insert]
    · rw [AList.lookup_insert_ne (hother hd hm)]
      exact h.present d other m hd hm
  case issued =>
    intro d other m hd hm
    rcases Broker.getElem?_after hd with ⟨rfl, rfl⟩ | ⟨-, hd⟩
    · obtain rfl := Option.some_inj.mp (hclaim'.symm.trans hm)
      exact hissued.trans (h.issued d conn client hconn hclaim)
    · exact h.issued d other m hd hm
  case unique => exact (h.ids_after hconn hissued hnext).1
  case below => exact (h.ids_after hconn hissued hnext).2
  case valid =>
    intro d other m hd hm
    rcases Broker.getElem?_after hd with ⟨rfl, rfl⟩ | ⟨-, hd⟩
    · obtain rfl := Option.some_inj.mp (hclaim'.symm.trans hm)
      exact h.valid d conn client hconn hclaim
    · exact h.valid d other m hd hm
  case distinct =>
    intro id id' record record' hlookup hlookup' hname
    rw [hstate] at hlookup hlookup'
    by_cases hid : id = client.id <;> by_cases hid' : id' = client.id
    · rw [hid, hid']
    · subst hid
      rw [AList.lookup_insert] at hlookup
      rw [AList.lookup_insert_ne hid'] at hlookup'
      obtain rfl := Option.some_inj.mp hlookup
      have hrecord := hlookup'.trans (congrArg _ (nickname_ext hname.symm))
      exact absurd (mem_nicknames.mpr ⟨id', hrecord⟩) hfree
    · subst hid'
      rw [AList.lookup_insert_ne hid] at hlookup
      rw [AList.lookup_insert] at hlookup'
      obtain rfl := Option.some_inj.mp hlookup'
      exact absurd (mem_nicknames.mpr ⟨id, hlookup.trans (congrArg _ (nickname_ext hname))⟩) hfree
    · rw [AList.lookup_insert_ne hid] at hlookup
      rw [AList.lookup_insert_ne hid'] at hlookup'
      exact h.distinct id id' record record' hlookup hlookup' hname

theorem Registry.after_remove {c : ℕ} {client : Member} (h : Registry s)
    (hconn : s.conns[c]? = some conn) (hrecord : conn.phase.record = some client)
    (hclaim' : o.conn.phase.claim = none) (hrecord' : o.conn.phase.record = none)
    (hissued : o.conn.issued = conn.issued)
    (hclients : o.state.clients = s.state.clients.erase client.id)
    (hnext : o.state.nextId = s.state.nextId) : Registry (s.after c o) := by
  -- the erased record was this task's only
  have hother : ∀ {d : ℕ} {other : Conn} {m : Member}, d ≠ c → s.conns[d]? = some other →
      other.phase.record = some m → m.id ≠ client.id := by
    intro d other m hdc hd hm hid
    have hi := h.issued d other m hd (Phase.claim_of_record hm)
    have hi' := h.issued c conn client hconn (Phase.claim_of_record hrecord)
    exact hdc (h.unique d c other conn m.id hd hconn hi (by rw [hi', hid]))
  have hstate : (s.after c o).state.clients = s.state.clients.erase client.id := hclients
  have hlookup_ne : ∀ {id : ClientId} {record : ClientRecord},
      (s.state.clients.erase client.id).lookup id = some record →
      id ≠ client.id ∧ s.state.clients.lookup id = some record := by
    intro id record hlookup
    by_cases hid : id = client.id
    · subst hid
      rw [AList.lookup_erase] at hlookup
      exact absurd hlookup (by simp)
    · exact ⟨hid, (AList.lookup_erase_ne hid).symm.trans hlookup⟩
  constructor
  case owned =>
    intro id record hlookup
    rw [hstate] at hlookup
    obtain ⟨hid, hlookup⟩ := hlookup_ne hlookup
    refine Broker.exists_after hconn (h.owned id record hlookup) fun hmoved => ?_
    obtain rfl := Option.some_inj.mp (hrecord.symm.trans hmoved)
    exact absurd rfl hid
  case present =>
    intro d other m hd hm
    rw [hstate]
    rcases Broker.getElem?_after hd with ⟨rfl, rfl⟩ | ⟨hdc, hd⟩
    · exact absurd (hrecord'.symm.trans hm) (by simp)
    · rw [AList.lookup_erase_ne (hother hdc hd hm)]
      exact h.present d other m hd hm
  case issued =>
    intro d other m hd hm
    rcases Broker.getElem?_after hd with ⟨rfl, rfl⟩ | ⟨-, hd⟩
    · exact absurd (hclaim'.symm.trans hm) (by simp)
    · exact h.issued d other m hd hm
  case unique => exact (h.ids_after hconn hissued hnext).1
  case below => exact (h.ids_after hconn hissued hnext).2
  case valid =>
    intro d other m hd hm
    rcases Broker.getElem?_after hd with ⟨rfl, rfl⟩ | ⟨-, hd⟩
    · exact absurd (hclaim'.symm.trans hm) (by simp)
    · exact h.valid d other m hd hm
  case distinct =>
    intro id id' record record' hlookup hlookup' hname
    rw [hstate] at hlookup hlookup'
    exact h.distinct id id' record record' (hlookup_ne hlookup).2 (hlookup_ne hlookup').2 hname

theorem registry_step {e : Event} (h : Registry s) (he : s.step fromStr e = some s') :
    Registry s' := by
  cases Broker.step_cases he with
  | accepted =>
    refine h.of_conns rfl rfl rfl (fun c conn hc => ?_) (fun c conn hc => getElem?_concat_new hc)
    obtain ⟨hlt, -⟩ := List.getElem?_eq_some_iff.mp hc
    rw [List.getElem?_append_left hlt]
    exact hc
  | announced => exact h.of_conns (by simp) (by simp) rfl (fun _ _ hc => hc) fun _ _ hc => .inl hc
  | moved hconn hmove =>
    cases hmove.registryMove with
    | keep hrecord hclaim hissued hclients hnext =>
      exact h.after_keep hconn hrecord hclaim hissued hclients hnext
    | issue nickname hvalid hrecord hrecord' hclaim hissued hclients hnext =>
      exact h.after_issue hconn hvalid hrecord hrecord' hclaim hissued hclients hnext
    | insert client hfree hclaim hclaim' hrecord hrecord' hissued hclients hnext =>
      exact h.after_insert hconn hfree hclaim hclaim' hrecord hrecord' hissued hclients hnext
    | remove client hrecord hclaim' hrecord' hissued hclients hnext =>
      exact h.after_remove hconn hrecord hclaim' hrecord' hissued hclients hnext

theorem registry_reachable (h : Reachable (Broker.step fromStr) .new s) : Registry s :=
  h.invariant registry_new fun _ _ _ _ ht he => registry_step ht he

end Chat
