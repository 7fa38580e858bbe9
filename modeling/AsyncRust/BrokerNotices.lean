/-
Join and leave notices of one nickname.

The registry changes under its lock, but the notice of the change is broadcast
after the lock is released.  `Agree` says that the notices of each nickname alternate
all the same, beginning with a `UserJoined`, and that the last one of a nickname
that is online is a `UserJoined`:

* `agree_along_iff` — a run keeps `Agree` iff nobody announces a nickname while
  another task has removed its record but not yet broadcast its `UserLeft`;
* `reused_nickname_joins_twice` — a nickname that is reused too soon joins twice.
-/
import AsyncRust.BrokerAttribution

namespace Chat

open LineReader Broadcast Runs

/-! ### Alternation -/

/-- The values alternate, beginning with `b`. -/
def Alternates : Bool → List Bool → Prop
  | _, [] => True
  | b, x :: xs => x = b ∧ Alternates (!b) xs

/-- The value that comes next when the values so far alternate from `true` on. -/
def nextNotice (l : List Bool) : Bool := !(l.getLast?.getD false)

theorem alternates_concat {x : Bool} : ∀ {l : List Bool} {b : Bool},
    Alternates b (l ++ [x]) ↔ Alternates b l ∧ x = (l.getLast?.map not).getD b := by
  intro l
  induction l with
  | nil => intro b; simp [Alternates]
  | cons y l ih =>
    intro b
    rw [List.cons_append, Alternates, Alternates, ih, and_assoc]
    refine and_congr_right fun hy => and_congr_right fun _ => ?_
    subst hy
    rw [List.getLast?_cons]
    cases l.getLast? <;> simp

theorem alternates_concat_true {x : Bool} {l : List Bool} :
    Alternates true (l ++ [x]) ↔ Alternates true l ∧ x = nextNotice l := by
  rw [alternates_concat]
  cases h : l.getLast? <;> simp [nextNotice, h]

@[simp] theorem nextNotice_concat (l : List Bool) (x : Bool) : nextNotice (l ++ [x]) = !x := by
  simp [nextNotice]

/-! ### Notices -/

variable {fromStr : String → Option ClientToServer} {st : BrokerState} {receivers now : ℕ}
  {s s' : Broker} {c d : ℕ} {conn other : Conn} {action : Action} {o : Outcome}
  {nickname : String}

/-- A notice of the nickname: `true` when it joins, `false` when it leaves. -/
def ServerToClient.noticeOf (nickname : String) : ServerToClient → Option Bool
  | .userJoined name => if name = nickname then some true else none
  | .userLeft name => if name = nickname then some false else none
  | _ => none

/-- The notices of the nickname, in the order of their broadcasts. -/
def Broker.noticesOf (s : Broker) (nickname : String) : List Bool :=
  s.order.filterMap fun entry => entry.2.noticeOf nickname

/-- The nickname under which a task has broadcast its `UserJoined` but not its
`UserLeft`. -/
def Phase.owes : Phase → Option String
  | .subscribing client => some client.nickname
  | .session client _ => some client.nickname
  | .replying client _ _ => some client.nickname
  | .delivering client _ _ => some client.nickname
  | .cleanup client => some client.nickname
  | .leaving nickname => some nickname
  | .aborted client true _ => some client.nickname
  | _ => none

/-- The notices alternate, and what they say last is right for every nickname
under which a client is announced and registered. -/
structure Agree (s : Broker) : Prop where
  alternate : ∀ nickname, Alternates true (s.noticesOf nickname)
  online : ∀ (c : ℕ) (conn : Conn) (client : Member), s.conns[c]? = some conn →
    conn.phase.record = some client → conn.phase.owes = some client.nickname →
      (s.noticesOf client.nickname).getLast? = some true

/-- Nobody broadcasts the `UserJoined` of a nickname whose former owner has been
removed and has still to broadcast its `UserLeft`. -/
def Broker.InTurn (s : Broker) (e : Event) : Prop :=
  ∀ (c : ℕ) (conn : Conn) (client : Member), e = .conn c .proceed → s.conns[c]? = some conn →
    conn.phase = .announcing client →
      ∀ (d : ℕ) (other : Conn), s.conns[d]? = some other →
        other.phase ≠ .leaving client.nickname

/-! ### Steps -/

/-- A step broadcasts no notice, or the task's `UserJoined`, or its `UserLeft`. -/
inductive NoticeMove (conn : Conn) (action : Action) (o : Outcome) : Prop
  | keep (howes : o.conn.phase.owes = conn.phase.owes)
      (hquiet : ∀ message ∈ o.said, ∀ nickname, message.noticeOf nickname = none)
  | join (client : Member) (haction : action = .proceed) (hphase : conn.phase = .announcing client)
      (howes : o.conn.phase.owes = some client.nickname)
      (hsaid : o.said = some (.userJoined client.nickname))
  | leave (nickname : String) (hphase : conn.phase = .leaving nickname)
      (howes : o.conn.phase.owes = none) (hsaid : o.said = some (.userLeft nickname))

theorem Conn.Move.noticeMove (h : conn.Move fromStr st receivers now action o)
    (hpresent : ∀ client, conn.phase.record = some client →
      st.clients.lookup client.id = some ⟨client.nickname⟩) : NoticeMove conn action o := by
  cases h with
  | arrived fill => exact .keep rfl (by simp)
  | waited hphase hread => exact .keep rfl (by simp)
  | welcomed hphase => exact .keep (by rw [hphase]; split <;> rfl) (by simp)
  | welcomeFailed hphase =>
    exact .keep (by rcases hphase with hphase | hphase <;> rw [hphase] <;> rfl) (by simp)
  | joined hphase => exact .join _ rfl hphase rfl rfl
  | chatted hphase hread htext => exact .keep rfl (by simp [ServerToClient.noticeOf])
  | ignored hphase hread htext => exact .keep rfl (by simp)
  | removed hphase hrecord =>
    -- the record is the one the task inserted
    obtain rfl := Option.some_inj.mp (hrecord.symm.trans (hpresent _ (by rw [hphase]; rfl)))
    exact .keep (by rw [hphase]; rfl) (by simp)
  | absent hphase hrecord =>
    exact absurd (hrecord.symm.trans (hpresent _ (by rw [hphase]; rfl))) (by simp)
  | left hphase => exact .leave _ hphase rfl rfl
  | handshakeFailed hphase | handshakeInvalid hphase | issued hphase | rejected hphase
  | rejectFailed hphase | taken hphase | registered hphase | rostered hphase
  | subscribed hphase | greeted hphase | finished hphase | readFailed hphase
  | received hphase | replied hphase | replyFailed hphase | delivered hphase
  | deliveryFailed hphase => exact .keep (by rw [hphase]; rfl) (by simp)

theorem noticesOf_append (order : List (Option ℕ × ServerToClient)) (state : BrokerState)
    (conns : List Conn) (accepting : Bool) (who : Option ℕ) (said : Option ServerToClient) :
    (Broker.mk state conns accepting
        (order ++ said.toList.map fun message => (who, message))).noticesOf nickname =
      (Broker.mk state conns accepting order).noticesOf nickname ++
        (said.bind (·.noticeOf nickname)).toList := by
  unfold Broker.noticesOf
  rw [List.filterMap_append]
  congr 1
  cases said with
  | none => rfl
  | some message => cases h : message.noticeOf nickname <;> simp [h]

theorem noticesOf_after : (s.after c o).noticesOf nickname =
    s.noticesOf nickname ++ (o.said.bind (·.noticeOf nickname)).toList :=
  noticesOf_append s.order o.state (s.conns.set c o.conn) s.accepting (some c) o.said

/-- What the notices say last is that somebody owes a `UserLeft`, and one task
at most owes it. -/
structure Tracked (s : Broker) : Prop where
  alternate : ∀ nickname, Alternates true (s.noticesOf nickname)
  last : ∀ nickname, nextNotice (s.noticesOf nickname) = false ↔
    ∃ (c : ℕ) (conn : Conn), s.conns[c]? = some conn ∧ conn.phase.owes = some nickname
  once : ∀ (c d : ℕ) (conn other : Conn) (nickname : String), s.conns[c]? = some conn →
    s.conns[d]? = some other → conn.phase.owes = some nickname →
      other.phase.owes = some nickname → c = d

theorem tracked_new : Tracked .new where
  alternate nickname := trivial
  last nickname := by simp [Broker.noticesOf, Broker.new, nextNotice]
  once c d conn other nickname h := by simp [Broker.new] at h

theorem Tracked.agree (h : Tracked s) : Agree s where
  alternate := h.alternate
  online c conn client hc _ howes := by
    have hlast := (h.last client.nickname).mpr ⟨c, conn, hc, howes⟩
    cases hget : (s.noticesOf client.nickname).getLast? with
    | none => simp [nextNotice, hget] at hlast
    | some b => simpa [nextNotice, hget] using hlast

/-- An owner of the nickname has announced itself, or has been removed. -/
theorem Phase.record_or_leaving_of_owes {phase : Phase} (h : phase.owes = some nickname) :
    (∃ id, phase.record = some ⟨id, nickname⟩) ∨ phase = .leaving nickname := by
  cases phase <;> simp only [Phase.owes, Option.some_inj, reduceCtorEq] at h
  case leaving => exact .inr (congrArg _ h)
  case aborted client joined failure =>
    cases joined <;> simp only [Option.some_inj, reduceCtorEq] at h
    subst h
    exact .inl ⟨client.id, rfl⟩
  all_goals
    subst h
    exact .inl ⟨_, rfl⟩

theorem Tracked.after_keep (h : Tracked s) (hconn : s.conns[c]? = some conn)
    (howes : o.conn.phase.owes = conn.phase.owes)
    (hquiet : ∀ message ∈ o.said, ∀ nickname, message.noticeOf nickname = none) :
    Tracked (s.after c o) := by
  have hnotices : ∀ nickname, (s.after c o).noticesOf nickname = s.noticesOf nickname := by
    intro nickname
    rw [noticesOf_after]
    cases hsaid : o.said with
    | none => exact List.append_nil _
    | some message =>
      rw [Option.bind_some, hquiet message hsaid nickname]
      exact List.append_nil _
  have hold : ∀ {d : ℕ} {other : Conn} {nickname : String}, (s.after c o).conns[d]? = some other →
      other.phase.owes = some nickname →
        ∃ old, s.conns[d]? = some old ∧ old.phase.owes = some nickname := by
    intro d other nickname hd hother
    exact Broker.of_after hconn hd hother howes.symm.trans
  constructor
  case alternate => exact fun nickname => (hnotices nickname).symm ▸ h.alternate nickname
  case last =>
    intro nickname
    rw [hnotices, h.last]
    constructor
    · exact fun howner => Broker.exists_after hconn howner howes.trans
    · rintro ⟨d, other, hd, hother⟩
      obtain ⟨old, hold, hother⟩ := hold hd hother
      exact ⟨d, old, hold, hother⟩
  case once =>
    intro d d' other other' nickname hd hd' hother hother'
    obtain ⟨old, hd, hother⟩ := hold hd hother
    obtain ⟨old', hd', hother'⟩ := hold hd' hother'
    exact h.once d d' old old' nickname hd hd' hother hother'

/-- Nobody owed a `UserLeft` of the nickname, so its `UserJoined` is in turn. -/
theorem Tracked.after_join {client : Member} (h : Tracked s) (hconn : s.conns[c]? = some conn)
    (hbefore : conn.phase.owes = none)
    (hnobody : ∀ (d : ℕ) (other : Conn), s.conns[d]? = some other →
      other.phase.owes ≠ some client.nickname)
    (howes : o.conn.phase.owes = some client.nickname)
    (hsaid : o.said = some (.userJoined client.nickname)) : Tracked (s.after c o) := by
  have hsame : (s.after c o).noticesOf client.nickname =
      s.noticesOf client.nickname ++ [true] := by
    rw [noticesOf_after, hsaid]
    simp [ServerToClient.noticeOf]
  have hother : ∀ nickname, nickname ≠ client.nickname →
      (s.after c o).noticesOf nickname = s.noticesOf nickname := by
    intro nickname hne
    rw [noticesOf_after, hsaid]
    simp [ServerToClient.noticeOf, hne.symm]
  constructor
  case alternate =>
    intro nickname
    by_cases hne : nickname = client.nickname
    · subst hne
      rw [hsame, alternates_concat_true]
      refine ⟨h.alternate _, ?_⟩
      -- else somebody has still to leave under the nickname
      by_contra hnext
      have hlast := Bool.eq_false_iff.mpr (Ne.symm hnext)
      obtain ⟨d, other, hd, howner⟩ := (h.last client.nickname).mp hlast
      exact hnobody d other hd howner
    · rw [hother nickname hne]
      exact h.alternate nickname
  case last =>
    intro nickname
    by_cases hne : nickname = client.nickname
    · subst hne
      rw [hsame, nextNotice_concat]
      exact ⟨fun _ => ⟨c, o.conn, Broker.getElem?_after_self hconn, howes⟩, fun _ => rfl⟩
    · rw [hother nickname hne, h.last]
      constructor
      · refine fun howner => Broker.exists_after hconn howner fun hmoved => ?_
        exact absurd (hbefore.symm.trans hmoved) (by simp)
      · rintro ⟨d, other, hd, howner⟩
        rcases Broker.getElem?_after hd with ⟨rfl, rfl⟩ | ⟨-, hd⟩
        · exact absurd (Option.some_inj.mp (howes.symm.trans howner)).symm hne
        · exact ⟨d, other, hd, howner⟩
  case once =>
    intro d d' other other' nickname hd hd' howner howner'
    rcases Broker.getElem?_after hd with ⟨rfl, rfl⟩ | ⟨-, hold⟩ <;>
      rcases Broker.getElem?_after hd' with ⟨rfl, rfl⟩ | ⟨-, hold'⟩
    · rfl
    · obtain rfl := Option.some_inj.mp (howes.symm.trans howner)
      exact absurd howner' (hnobody d' other' hold')
    · obtain rfl := Option.some_inj.mp (howes.symm.trans howner')
      exact absurd howner (hnobody d other hold)
    · exact h.once d d' other other' nickname hold hold' howner howner'

theorem Tracked.after_leave (h : Tracked s) (hconn : s.conns[c]? = some conn)
    (hbefore : conn.phase.owes = some nickname) (howes : o.conn.phase.owes = none)
    (hsaid : o.said = some (.userLeft nickname)) : Tracked (s.after c o) := by
  have hsame : (s.after c o).noticesOf nickname = s.noticesOf nickname ++ [false] := by
    rw [noticesOf_after, hsaid]
    simp [ServerToClient.noticeOf]
  have hother : ∀ name, name ≠ nickname → (s.after c o).noticesOf name = s.noticesOf name := by
    intro name hne
    rw [noticesOf_after, hsaid]
    simp [ServerToClient.noticeOf, hne.symm]
  -- the task was the only one that owed this `UserLeft`
  have hold : ∀ {d : ℕ} {other : Conn} {name : String}, (s.after c o).conns[d]? = some other →
      other.phase.owes = some name →
        name ≠ nickname ∧ s.conns[d]? = some other := by
    intro d other name hd howner
    rcases Broker.getElem?_after hd with ⟨rfl, rfl⟩ | ⟨hdc, hd⟩
    · exact absurd (howes.symm.trans howner) (by simp)
    · refine ⟨?_, hd⟩
      rintro rfl
      exact hdc (h.once d c other conn name hd hconn howner hbefore)
  constructor
  case alternate =>
    intro name
    by_cases hne : name = nickname
    · subst hne
      rw [hsame, alternates_concat_true]
      exact ⟨h.alternate _, ((h.last name).mpr ⟨c, conn, hconn, hbefore⟩).symm⟩
    · rw [hother name hne]
      exact h.alternate name
  case last =>
    intro name
    by_cases hne : name = nickname
    · subst hne
      rw [hsame, nextNotice_concat]
      refine ⟨fun hfalse => absurd hfalse (by simp), ?_⟩
      rintro ⟨d, other, hd, howner⟩
      exact absurd rfl (hold hd howner).1
    · rw [hother name hne, h.last]
      constructor
      · refine fun howner => Broker.exists_after hconn howner fun hmoved => ?_
        exact absurd (Option.some_inj.mp (hmoved.symm.trans hbefore)) hne
      · rintro ⟨d, other, hd, howner⟩
        exact ⟨d, other, (hold hd howner).2, howner⟩
  case once =>
    intro d d' other other' name hd hd' howner howner'
    exact h.once d d' other other' name (hold hd howner).2 (hold hd' howner').2 howner howner'

theorem tracked_step {e : Event} (hreg : Registry s) (h : Tracked s) (hok : s.InTurn e)
    (he : s.step fromStr e = some s') : Tracked s' := by
  cases Broker.step_cases he with
  | accepted =>
    -- a new connection owes nothing
    have hconns : ∀ {d : ℕ} {other : Conn} {nickname : String},
        (s.conns ++ [Conn.new])[d]? = some other → other.phase.owes = some nickname →
          s.conns[d]? = some other := by
      intro d other nickname hd howner
      rcases getElem?_concat_new hd with hd | rfl
      · exact hd
      · exact absurd howner (by simp [Conn.new, Phase.owes])
    constructor
    case alternate => exact h.alternate
    case last =>
      intro nickname
      refine (h.last nickname).trans ⟨?_, ?_⟩
      · rintro ⟨d, other, hd, howner⟩
        obtain ⟨hlt, -⟩ := List.getElem?_eq_some_iff.mp hd
        exact ⟨d, other, (List.getElem?_append_left hlt).trans hd, howner⟩
      · rintro ⟨d, other, hd, howner⟩
        exact ⟨d, other, hconns hd howner, howner⟩
    case once =>
      intro d d' other other' nickname hd hd' howner howner'
      exact h.once d d' other other' nickname (hconns hd howner) (hconns hd' howner') howner howner'
  | announced =>
    have hnotices : ∀ nickname, Broker.noticesOf { s with
        accepting := false
        state := s.state.broadcast s.receivers shutdownNotice
        order := s.order ++ [(none, shutdownNotice)] } nickname = s.noticesOf nickname := by
      intro nickname
      simp [Broker.noticesOf, shutdownNotice, ServerToClient.noticeOf]
    exact ⟨fun nickname => (hnotices nickname).symm ▸ h.alternate nickname,
      fun nickname => (hnotices nickname).symm ▸ h.last nickname, h.once⟩
  | @moved c action conn o hconn hmove =>
    cases hmove.noticeMove fun client hrecord => hreg.present c conn client hconn hrecord with
    | keep howes hquiet => exact h.after_keep hconn howes hquiet
    | join client haction hphase howes hsaid =>
      subst haction
      refine h.after_join hconn (by rw [hphase]; rfl) (fun d other hd howner => ?_) howes hsaid
      -- an owner with a record is the task itself, one without would break the turn
      rcases Phase.record_or_leaving_of_owes howner with ⟨id, hrecord⟩ | hleaving
      · have hcd := hreg.eq_of_nickname hconn hd (by rw [hphase]; rfl : conn.phase.record =
          some client) hrecord rfl
        subst hcd
        obtain rfl : conn = other := Option.some_inj.mp (hconn.symm.trans hd)
        rw [hphase] at howner
        exact absurd howner (by simp [Phase.owes])
      · exact hok c conn client rfl hconn hphase d other hd hleaving
    | leave nickname hphase howes hsaid =>
      exact h.after_leave hconn (by rw [hphase]; rfl) howes hsaid

/-- A nickname that is announced before its former owner's `UserLeft` has two
`UserJoined` in a row. -/
theorem not_agree_of_not_inTurn {e : Event} (h : Tracked s) (hbad : ¬ s.InTurn e)
    (he : s.step fromStr e = some s') : ¬ Agree s' := by
  simp only [Broker.InTurn, not_forall, Decidable.not_not] at hbad
  obtain ⟨c, conn, client, rfl, hconn, hphase, d, other, hd, hleaving⟩ := hbad
  intro hagree
  cases Broker.step_cases he with
  | @moved _ _ conn' o hconn' hmove =>
    obtain rfl : conn' = conn := Option.some_inj.mp (hconn'.symm.trans hconn)
    have hsaid : o.said = some (.userJoined client.nickname) := by
      cases hmove with
      | joined hphase' =>
        obtain rfl := Phase.announcing.inj (hphase'.symm.trans hphase)
        rfl
      | taken hphase' | registered hphase' | subscribed hphase' | removed hphase'
      | absent hphase' | left hphase' => exact absurd (hphase'.symm.trans hphase) (by simp)
    have halt := hagree.alternate client.nickname
    rw [noticesOf_after, hsaid] at halt
    simp only [Option.bind_some, ServerToClient.noticeOf, if_true, Option.toList_some,
      alternates_concat_true] at halt
    have hlast := (h.last client.nickname).mpr ⟨d, other, hd, by rw [hleaving]; rfl⟩
    exact absurd (halt.2.trans hlast) (by simp)

/-! ### Runs -/

/-- **Notices alternate, exactly** in the runs in which no nickname is announced
between the removal of its former owner's record and that owner's `UserLeft`. -/
theorem agree_along_iff (es : List Event) :
    Along (Broker.step fromStr) Agree .new es ↔
      Meets (Broker.step fromStr) Broker.InTurn .new es := by
  refine along_iff_meets
    (I := fun t => Reachable (Broker.step fromStr) .new t ∧ Tracked t) ?_ ?_ ?_
    ⟨.refl _, tracked_new⟩
  · exact fun t ht => ht.2.agree
  · exact fun t e t' ht hok he =>
      ⟨ht.1.tail he, tracked_step (registry_reachable ht.1) ht.2 hok he⟩
  · exact fun t e t' ht hbad he => not_agree_of_not_inTurn ht.2 hbad he

/-- Alice's connection ends and its record is removed; before it broadcasts its
`UserLeft`, she is back on a second connection. -/
def reuseScript : List Event :=
  joinScript 0 "alice" 1 ++ [.conn 0 (.arrive .eof), .conn 0 .poll, .conn 0 .proceed] ++
    registerScript 1 "alice" ++ announceScript 1 1

set_option maxRecDepth 10000 in
theorem reused_nickname_joins_twice :
    ¬ Along (Broker.step scriptFromStr) Agree .new reuseScript := by
  intro hall
  have hrun : ((run (Broker.step scriptFromStr) .new reuseScript).map fun s =>
      s.noticesOf "alice") = some [true, true] := by decide
  obtain ⟨s, hs, hnotices⟩ := Option.map_eq_some_iff.mp hrun
  have halt := (hall.final hs).alternate "alice"
  rw [hnotices] at halt
  exact absurd halt.2.1 (by decide)

end Chat
