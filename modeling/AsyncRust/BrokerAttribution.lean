/-
Nicknames, ids and the attribution of chats.

`registry_attribution` reads off the invariant of the registry what a user of the
broker may rely on: nicknames in the map are distinct, non-empty and trimmed, ids
are issued to one connection each, a session keeps the record it was welcomed
with, and a chat is broadcast under a nickname only for the one connection that is
registered under it, with the text that connection sent.
-/
import AsyncRust.BrokerTasks

namespace Chat

open LineReader Broadcast Runs

variable {fromStr : String → Option ClientToServer} {s s' : Broker} {c d : ℕ}
  {conn other : Conn} {client member : Member}

theorem Registry.nodup_nicknames (h : Registry s) : s.state.nicknames.Nodup := by
  unfold BrokerState.nicknames
  refine List.Nodup.map_on ?_ (List.nodupKeys_iff_pairwise.mp s.state.clients.nodupKeys
    |>.imp fun hne heq => hne (congrArg Sigma.fst heq))
  rintro ⟨id, record⟩ hmem ⟨id', record'⟩ hmem' hname
  obtain rfl : id = id' := h.distinct id id' record record' (AList.mem_lookup_iff.mpr hmem)
    (AList.mem_lookup_iff.mpr hmem') hname
  obtain rfl := nickname_ext hname
  rfl

/-- The nickname in the map belongs to one task. -/
theorem Registry.eq_of_nickname (h : Registry s) (hc : s.conns[c]? = some conn)
    (hd : s.conns[d]? = some other) (hclient : conn.phase.record = some client)
    (hmember : other.phase.record = some member) (hname : client.nickname = member.nickname) :
    c = d := by
  have hid : client.id = member.id :=
    h.distinct _ _ _ _ (h.present c conn client hc hclient) (h.present d other member hd hmember)
      hname
  exact h.unique c d conn other client.id hc hd
    (h.issued c conn client hc (Phase.claim_of_record hclient))
    (hid ▸ h.issued d other member hd (Phase.claim_of_record hmember))

theorem welcomed_of_inSession (h : Reachable (Broker.step fromStr) .new s)
    (hc : s.conns[c]? = some conn) (hclient : conn.phase.inSession = some client) :
    Welcomed client conn.written := by
  have hwrote := wrote_of_reachable h hc
  cases hphase : conn.phase <;> rw [hphase] at hclient hwrote <;>
    simp only [Phase.inSession, Option.some_inj, reduceCtorEq] at hclient <;> subst hclient
  case session => exact hwrote
  case replying => exact hwrote.2
  case delivering => exact hwrote

/-- A chat is broadcast when its sender's session has read it. -/
theorem chat_of_step {e : Event} {who : Option ℕ} {nickname text : String}
    (he : s.step fromStr e = some s')
    (hsaid : s'.order = s.order ++ [(who, .chat nickname text)]) :
    ∃ c conn client, who = some c ∧ e = .conn c .poll ∧ s.conns[c]? = some conn ∧
      conn.phase.inSession = some client ∧ client.nickname = nickname ∧
      (conn.polled fromStr).1 = some (.ok (some (.chat text))) ∧ trim text ≠ "" := by
  cases Broker.step_cases he with
  | accepted => exact absurd hsaid (by simp)
  | announced => exact absurd hsaid (by simp [shutdownNotice])
  | @moved c action conn o hconn hmove =>
    have hentry : o.said.toList.map (fun message => (some c, message)) =
        [(who, .chat nickname text)] := List.append_cancel_left hsaid
    cases hmove with
    | chatted hphase hread htext =>
      obtain ⟨hwho, hchat⟩ := Prod.mk.inj (List.singleton_inj.mp hentry)
      obtain ⟨hnickname, rfl⟩ := ServerToClient.chat.inj hchat
      exact ⟨c, conn, _, hwho.symm, rfl, hconn, by rw [hphase]; rfl, hnickname, hread, htext⟩
    | _ => exact absurd hentry (by simp)

/-- Connection `c` holds the record with this nickname. -/
def Broker.Registered (s : Broker) (c : ℕ) (nickname : String) : Prop :=
  ∃ conn id, s.conns[c]? = some conn ∧ conn.phase.record = some ⟨id, nickname⟩ ∧
    conn.issued = some id ∧ s.state.clients.lookup id = some ⟨nickname⟩

/-- What the users of the broker may rely on in a state and in the steps from it. -/
structure Attribution (fromStr : String → Option ClientToServer) (s : Broker) : Prop where
  distinct : s.state.nicknames.Nodup
  valid : ∀ nickname ∈ s.state.nicknames, ValidNickname nickname
  issuedOnce : ∀ id ∈ s.state.clients, id < s.state.nextId ∧
    ∃! c : ℕ, ∃ conn : Conn, s.conns[c]? = some conn ∧ conn.issued = some id
  /-- A session keeps its record and the nickname it was welcomed with. -/
  session : ∀ (c : ℕ) (conn : Conn) (client : Member), s.conns[c]? = some conn →
    conn.phase.inSession = some client →
      s.state.clients.lookup client.id = some ⟨client.nickname⟩ ∧
        conn.issued = some client.id ∧
        conn.written.head? = some (.own (.welcome client.nickname))
  /-- A chat comes from the one connection registered under its nickname, and
  with the text that it has sent. -/
  chat : ∀ (e : Event) (s' : Broker) (who : Option ℕ) (nickname text : String),
    s.step fromStr e = some s' → s'.order = s.order ++ [(who, .chat nickname text)] →
      trim text ≠ "" ∧ ∃ (c : ℕ) (conn : Conn), who = some c ∧ e = .conn c .poll ∧
        s.conns[c]? = some conn ∧ (conn.polled fromStr).1 = some (.ok (some (.chat text))) ∧
        s.Registered c nickname ∧ ∀ d, s.Registered d nickname → d = c

/-- **Nicknames cannot be taken over**, whatever the clients send and however
their tasks interleave. -/
theorem registry_attribution (h : Reachable (Broker.step fromStr) .new s) :
    Attribution fromStr s := by
  have hreg := registry_reachable h
  constructor
  case distinct => exact hreg.nodup_nicknames
  case valid =>
    intro nickname hmem
    obtain ⟨id, hlookup⟩ := mem_nicknames.mp hmem
    obtain ⟨c, conn, hc, hrecord⟩ := hreg.owned id _ hlookup
    exact hreg.valid c conn _ hc (Phase.claim_of_record hrecord)
  case issuedOnce =>
    intro id hmem
    obtain ⟨record, hlookup⟩ := Option.isSome_iff_exists.mp (AList.lookup_isSome.mpr hmem)
    obtain ⟨c, conn, hc, hrecord⟩ := hreg.owned id record hlookup
    have hissued := hreg.issued c conn _ hc (Phase.claim_of_record hrecord)
    refine ⟨hreg.below c conn id hc hissued, c, ⟨conn, hc, hissued⟩, ?_⟩
    rintro d ⟨other, hd, hother⟩
    exact hreg.unique d c other conn id hd hc hother hissued
  case session =>
    intro c conn client hc hclient
    have hrecord := Phase.record_of_inSession hclient
    exact ⟨hreg.present c conn client hc hrecord,
      hreg.issued c conn client hc (Phase.claim_of_record hrecord),
      (welcomed_of_inSession h hc hclient).head?_eq⟩
  case chat =>
    intro e s' who nickname text he hsaid
    obtain ⟨c, conn, client, hwho, hevent, hc, hclient, rfl, hread, htext⟩ := chat_of_step he hsaid
    have hrecord := Phase.record_of_inSession hclient
    have hissued := hreg.issued c conn client hc (Phase.claim_of_record hrecord)
    refine ⟨htext, c, conn, hwho, hevent, hc, hread,
      ⟨conn, client.id, hc, hrecord, hissued, hreg.present c conn client hc hrecord⟩, ?_⟩
    rintro d ⟨other, id, hd, hmember, -, -⟩
    exact (hreg.eq_of_nickname hc hd hrecord hmember rfl).symm

/-- Alice and Bob join, and Alice says "hi". -/
def chatScript : List Event :=
  joinScript 0 "alice" 1 ++ joinScript 1 "bob" 2 ++ sendLine 0 (chatLine "hi")

set_option maxRecDepth 10000 in
/-- Two clients are online, and the first one has said "hi". -/
theorem registry_attribution_alice_bob :
    ∃ s, run (Broker.step scriptFromStr) .new chatScript = some s ∧
      s.order.getLast? = some (some 0, .chat "alice" "hi") ∧
      s.state.nicknames.Perm ["alice", "bob"] ∧ Attribution scriptFromStr s := by
  have hrun : ((run (Broker.step scriptFromStr) .new chatScript).map fun s =>
      (s.order.getLast?, s.state.nicknames)) =
        some (some (some 0, .chat "alice" "hi"), ["bob", "alice"]) := by decide
  obtain ⟨s, hs, hfacts⟩ := Option.map_eq_some_iff.mp hrun
  obtain ⟨hlast, hnames⟩ := Prod.mk.inj hfacts
  exact ⟨s, hs, hlast, hnames ▸ List.Perm.swap _ _ _, registry_attribution ⟨_, hs⟩⟩

end Chat
