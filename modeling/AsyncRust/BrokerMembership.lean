/-
When a client's view of the others is right.

* `membership_along` — `MembershipRight` holds all along every run in which connection
  `c` is left undisturbed: nobody broadcasts a notice between its roster and its
  subscription, no `UserLeft` arrives for a nickname that has joined again, and no
  greeting of another client fails;
* `join_missed_before_subscription` — a client that joins while another one is being
  welcomed is never seen by it.

A step of another task changes the view as it changes the registry
(`Viewing.after_other`); a step of `c` itself changes neither (`viewing_self`).
-/
import AsyncRust.BrokerViews

namespace Chat

open LineReader Broadcast Runs

variable {fromStr : String → Option ClientToServer} {st : BrokerState} {receivers now : ℕ}
  {s s' : Broker} {c d : ℕ} {conn other : Conn} {action : Action} {o : Outcome}
  {client member : Member} {roster : List String}

/-! ### Steps -/

/-- What a step of a task changes for the views of the clients. -/
inductive RosterMove (st : BrokerState) (conn : Conn) (action : Action) (o : Outcome) : Prop
  | keep (htold : o.conn.phase.told = conn.phase.told)
      (hdeparting : o.conn.phase.departing = conn.phase.departing)
      (hclients : o.state.clients = st.clients)
      (hquiet : ∀ message ∈ o.said, message.isNotice = false ∧ ∀ view, message.update view = view)
  | register (client : Member) (hphase : conn.phase = .registering client)
      (htold : o.conn.phase.told = none) (hdeparting : o.conn.phase.departing = none)
      (hclients : o.state.clients = st.clients.insert client.id ⟨client.nickname⟩)
      (hsaid : o.said = none)
  | giveUp (haction : action = .write false)
      (hphase : ∃ client roster,
        conn.phase = .welcoming client roster ∨ conn.phase = .rostering client roster)
  | join (client : Member) (haction : action = .proceed) (hphase : conn.phase = .announcing client)
      (htold : o.conn.phase.told = some client) (hdeparting : o.conn.phase.departing = none)
      (hclients : o.state.clients = st.clients)
      (hsaid : o.said = some (.userJoined client.nickname))
  | remove (client : Member) (hphase : conn.phase = .cleanup client)
      (htold : o.conn.phase.told = none)
      (hdeparting : o.conn.phase.departing = some client.nickname)
      (hclients : o.state.clients = st.clients.erase client.id) (hsaid : o.said = none)
  | leave (nickname : String) (haction : action = .proceed)
    (hphase : conn.phase = .leaving nickname)
      (htold : o.conn.phase.told = none) (hdeparting : o.conn.phase.departing = none)
      (hclients : o.state.clients = st.clients) (hsaid : o.said = some (.userLeft nickname))

theorem Conn.Move.rosterMove (h : conn.Move fromStr st receivers now action o)
    (hpresent : ∀ client, conn.phase.record = some client →
      st.clients.lookup client.id = some ⟨client.nickname⟩) : RosterMove st conn action o := by
  cases h with
  | arrived fill => exact .keep rfl rfl rfl (by simp)
  | waited hphase hread => exact .keep rfl rfl rfl (by simp)
  | registered hphase hfree => exact .register _ hphase rfl rfl rfl rfl
  | welcomed hphase =>
    exact .keep (by rw [hphase]; split <;> rfl) (by rw [hphase]; split <;> rfl) rfl (by simp)
  | welcomeFailed hphase => exact .giveUp rfl ⟨_, _, hphase⟩
  | joined hphase => exact .join _ rfl hphase rfl rfl (by simp) rfl
  | chatted hphase hread htext =>
    exact .keep rfl rfl (by simp) (by simp [ServerToClient.isNotice, ServerToClient.update])
  | ignored hphase hread htext => exact .keep rfl rfl rfl (by simp)
  | removed hphase hrecord =>
    -- the record is the one the task inserted
    obtain rfl := Option.some_inj.mp (hrecord.symm.trans (hpresent _ (by rw [hphase]; rfl)))
    exact .remove _ hphase rfl rfl rfl rfl
  | absent hphase hrecord =>
    exact absurd (hrecord.symm.trans (hpresent _ (by rw [hphase]; rfl))) (by simp)
  | left hphase => exact .leave _ rfl hphase rfl rfl (by simp) rfl
  | handshakeFailed hphase | handshakeInvalid hphase | issued hphase | rejected hphase
  | rejectFailed hphase | taken hphase | rostered hphase | subscribed hphase | greeted hphase
  | finished hphase | readFailed hphase | received hphase | replied hphase
  | replyFailed hphase | delivered hphase | deliveryFailed hphase =>
    exact .keep (by rw [hphase]; rfl) (by rw [hphase]; rfl) rfl (by simp)

theorem viewFrom_after (hstart : ∀ start, conn.subscribedAt = some start →
      start ≤ s.messages.length) :
    (s.after d o).viewFrom conn client roster = viewAfter (s.viewFrom conn client roster)
      (if conn.subscribedAt.isSome then o.said.toList else []) := by
  unfold Broker.viewFrom
  cases hsub : conn.subscribedAt with
  | none =>
    rw [viewSince_none, viewSince_none]
    rfl
  | some start =>
    rw [messages_after, viewSince_append (hstart start hsub)]
    rfl

/-- Messages that are no notices change no view. -/
theorem viewFrom_after_quiet (hstart : ∀ start, conn.subscribedAt = some start →
      start ≤ s.messages.length)
    (hquiet : conn.subscribedAt.isSome = true → ∀ message ∈ o.said,
      message.isNotice = false ∧ ∀ view, message.update view = view) :
    (s.after d o).viewFrom conn client roster = s.viewFrom conn client roster := by
  rw [viewFrom_after hstart]
  split
  next hsome =>
    cases hsaid : o.said with
    | none => rfl
    | some message => exact (hquiet hsome message hsaid).2 _
  next => rfl

theorem Viewing.noMiss_after {conn' : Conn} (h : Viewing s c conn client roster)
    (hstart : ∀ start, conn.subscribedAt = some start → start ≤ s.messages.length)
    (hsub : conn'.subscribedAt = conn.subscribedAt)
    (hregistered : conn'.registeredAt = conn.registeredAt)
    (hbalance : noticesOfOthers c (o.said.toList.map fun message => (some d, message)) =
      if conn.subscribedAt.isSome then o.said.toList.filter ServerToClient.isNotice else []) :
    ∃ taken, conn'.registeredAt = some taken ∧ taken ≤ (s.after d o).order.length ∧
      noticesOfOthers c ((s.after d o).order.drop taken) =
        noticesSince (s.after d o).messages conn'.subscribedAt := by
  obtain ⟨taken, htaken, hle, hnotices⟩ := h.noMiss
  refine ⟨taken, hregistered.trans htaken, ?_, ?_⟩
  · simp only [Broker.after, List.length_append]
    omega
  · rw [show (s.after d o).order = s.order ++ o.said.toList.map fun message => (some d, message)
      from rfl, noticesOfOthers_append hle, hnotices, hbalance, hsub, messages_after]
    cases hsome : conn.subscribedAt with
    | none =>
      rw [noticesSince_none, noticesSince_none]
      rfl
    | some start =>
      rw [noticesSince_append (hstart start hsome)]
      rfl

theorem noticesOfOthers_said (hdc : d ≠ c) (said : List ServerToClient) :
    noticesOfOthers c (said.map fun message => (some d, message)) =
      said.filter ServerToClient.isNotice := by
  have hall : (said.map fun message => (some d, message)).filter
      (fun entry => entry.1 ≠ some c) = said.map fun message => (some d, message) := by
    refine List.filter_eq_self.mpr fun entry hentry => ?_
    obtain ⟨message, -, rfl⟩ := List.mem_map.mp hentry
    simpa using hdc
  rw [noticesOfOthers, hall, List.map_map]
  simp [Function.comp_def]

theorem noticesOfOthers_own (said : List ServerToClient) :
    noticesOfOthers c (said.map fun message => (some c, message)) = [] := by
  have hnone : (said.map fun message => (some c, message)).filter
      (fun entry => entry.1 ≠ some c) = [] := by
    refine List.filter_eq_nil_iff.mpr fun entry hentry => ?_
    obtain ⟨message, -, rfl⟩ := List.mem_map.mp hentry
    simp
  rw [noticesOfOthers, hnone]
  rfl

theorem mem_nicknames_insert {nickname : String} {id : ClientId} {st' : BrokerState}
    (hnew : st.clients.lookup id = none) (hclients : st'.clients = st.clients.insert id ⟨nickname⟩)
    {name : String} : name ∈ st'.nicknames ↔ name = nickname ∨ name ∈ st.nicknames := by
  rw [mem_nicknames, mem_nicknames, hclients]
  constructor
  · rintro ⟨id', hlookup⟩
    by_cases hid : id' = id
    · subst hid
      rw [AList.lookup_insert, Option.some_inj] at hlookup
      exact .inl (congrArg ClientRecord.nickname hlookup).symm
    · rw [AList.lookup_insert_ne hid] at hlookup
      exact .inr ⟨id', hlookup⟩
  · rintro (rfl | ⟨id', hlookup⟩)
    · exact ⟨id, AList.lookup_insert _⟩
    · have hid : id' ≠ id := by
        rintro rfl
        exact absurd (hnew.symm.trans hlookup) (by simp)
      exact ⟨id', (AList.lookup_insert_ne hid).trans hlookup⟩

theorem mem_nicknames_erase {nickname : String} {id : ClientId} {st' : BrokerState}
    (hold : st.clients.lookup id = some ⟨nickname⟩) (hclients : st'.clients = st.clients.erase id)
    {name : String} (hname : name ∈ st.nicknames) : name = nickname ∨ name ∈ st'.nicknames := by
  rw [mem_nicknames] at hname ⊢
  rw [hclients]
  obtain ⟨id', hlookup⟩ := hname
  by_cases hid : id' = id
  · subst hid
    exact .inl (congrArg ClientRecord.nickname (Option.some_inj.mp (hlookup.symm.trans hold)))
  · exact .inr ⟨id', (AList.lookup_erase_ne hid).trans hlookup⟩

theorem nicknames_congr {st' : BrokerState} (h : st'.clients = st.clients) :
    st'.nicknames = st.nicknames := by
  unfold BrokerState.nicknames
  rw [h]

/-- The id of a client that is about to be registered is not in the map. -/
theorem Registry.lookup_of_registering (h : Registry s) (hc : s.conns[c]? = some conn)
    (hphase : conn.phase = .registering client) : s.state.clients.lookup client.id = none := by
  by_contra hne
  obtain ⟨record, hlookup⟩ := Option.ne_none_iff_exists'.mp hne
  obtain ⟨d, other, hd, hrecord⟩ := h.owned client.id record hlookup
  have hcd := h.unique c d conn other client.id hc hd
    (h.issued c conn client hc (by rw [hphase]; rfl))
    (h.issued d other ⟨client.id, record.nickname⟩ hd (Phase.claim_of_record hrecord))
  subst hcd
  obtain rfl : conn = other := Option.some_inj.mp (hc.symm.trans hd)
  rw [hphase] at hrecord
  exact absurd hrecord (by simp [Phase.record])

theorem Phase.told_of_greeted {phase : Phase} (h : phase.greeted = some client)
    (hsub : phase.unsubscribed = false) : phase.told = some client := by
  cases phase <;> simp_all [Phase.greeted, Phase.unsubscribed, Phase.told]

theorem Phase.record_of_told {phase : Phase} (h : phase.told = some client) :
    phase.record = some client := by
  cases phase <;> first | exact h | exact absurd h (by simp [Phase.told])

/-- A name in the view stays right after a step that removes nobody, unless the task was
about to take the leave of that name. -/
theorem Viewing.right_after (h : Viewing s c conn client roster) (hd : s.conns[d]? = some other)
    (hnames : o.state.nicknames = s.state.nicknames) {name : String}
    (hname : name ∈ s.viewFrom conn client roster) (hstays : other.phase.departing ≠ some name) :
    name ∈ (s.after d o).state.nicknames ∨ ∃ (d' : ℕ) (other' : Conn),
      (s.after d o).conns[d']? = some other' ∧ other'.phase.departing = some name := by
  rcases h.right name hname with hin | hgone
  · exact .inl (hnames.symm ▸ hin)
  · exact .inr (Broker.exists_after hd hgone fun hdeparting => absurd hdeparting hstays)

/-- A step of another task that announces nobody and takes nobody's leave. -/
theorem Viewing.after_quiet (h : Viewing s c conn client roster)
    (hstart : ∀ start, conn.subscribedAt = some start → start ≤ s.messages.length)
    (hdc : d ≠ c) (hd : s.conns[d]? = some other)
    (hquiet : ∀ message ∈ o.said, message.isNotice = false ∧ ∀ view, message.update view = view)
    (htold : ∀ member, o.conn.phase.told = some member → other.phase.told = some member)
    (hin : ∀ name ∈ s.state.nicknames,
      name ∈ o.state.nicknames ∨ o.conn.phase.departing = some name)
    (hdep : ∀ name, other.phase.departing = some name → o.conn.phase.departing = some name) :
    Viewing (s.after d o) c conn client roster := by
  have hsame : (s.after d o).viewFrom conn client roster = s.viewFrom conn client roster :=
    viewFrom_after_quiet hstart fun _ => hquiet
  refine ⟨h.greeted, hsame ▸ h.own, ?_, ?_, h.noMiss_after hstart rfl rfl ?_⟩
  · intro d' other' member hd' htold'
    rw [hsame]
    rcases Broker.getElem?_after hd' with ⟨-, rfl⟩ | ⟨-, hd'⟩
    · exact h.told d other member hd (htold member htold')
    · exact h.told d' other' member hd' htold'
  · intro name hname
    rw [hsame] at hname
    rcases h.right name hname with hname | hgone
    · exact (hin name hname).imp_right fun hdeparting =>
        ⟨d, o.conn, Broker.getElem?_after_self hd, hdeparting⟩
    · exact .inr (Broker.exists_after hd hgone (hdep name))
  · rw [noticesOfOthers_said hdc]
    cases hsaid : o.said with
    | none => split <;> rfl
    | some message => simp [(hquiet message hsaid).1]

/-- A step of another task, when it does not disturb `c`. -/
theorem Viewing.after_other (h : Viewing s c conn client roster) (hreg : Registry s)
    {sent : List ServerToClient} (hfed : Fed s.messages sent conn) (hc : s.conns[c]? = some conn)
    (hdc : d ≠ c) (hd : s.conns[d]? = some other) (hmove : RosterMove s.state other action o)
    (hok : s.undisturbed c (.conn d action) = true) :
    Viewing (s.after d o) c conn client roster := by
  have hstart : ∀ start, conn.subscribedAt = some start → start ≤ s.messages.length :=
    fun start hsub => (hfed.served start hsub).1
  have hgreeted := h.greeted.greeted_eq
  have hview : (s.after d o).viewFrom conn client roster = viewAfter
      (s.viewFrom conn client roster) (if conn.subscribedAt.isSome then o.said.toList else []) :=
    viewFrom_after hstart
  simp only [Broker.undisturbed, hc, hd, hdc, hgreeted] at hok
  cases hmove with
  | keep htold hdep hclients hquiet =>
    have hnames : o.state.nicknames = s.state.nicknames := nicknames_congr hclients
    exact h.after_quiet hstart hdc hd hquiet (fun member => htold.symm.trans)
      (fun name hname => .inl (hnames ▸ hname)) fun name => hdep.trans
  | register newcomer hphase htold hdep hclients hsaid =>
    refine h.after_quiet hstart hdc hd (by simp [hsaid]) (by simp [htold])
      (fun name hname => .inl ?_) (by simp [hphase, Phase.departing])
    exact (mem_nicknames_insert (hreg.lookup_of_registering hd hphase) hclients).mpr (.inr hname)
  | giveUp haction hphase =>
    subst haction
    obtain ⟨newcomer, roster', hphase | hphase⟩ := hphase <;> simp [hphase] at hok
  | join newcomer haction hphase htold hdep hclients hsaid =>
    subst haction
    have hsub : conn.subscribedAt.isSome = true := by simpa [hphase] using hok
    have hinsert : (s.after d o).viewFrom conn client roster =
        insert newcomer.nickname (s.viewFrom conn client roster) := by
      rw [hview, if_pos hsub, hsaid]
      rfl
    refine ⟨h.greeted, hinsert ▸ Finset.mem_insert_of_mem h.own, ?_, ?_,
      h.noMiss_after hstart rfl rfl ?_⟩
    · intro d' other' member hd' htold'
      rw [hinsert]
      rcases Broker.getElem?_after hd' with ⟨-, rfl⟩ | ⟨-, hd'⟩
      · obtain rfl := Option.some_inj.mp (htold.symm.trans htold')
        exact Finset.mem_insert_self _ _
      · exact Finset.mem_insert_of_mem (h.told d' other' member hd' htold')
    · intro name hname
      rw [hinsert] at hname
      have hnames : (s.after d o).state.nicknames = s.state.nicknames := nicknames_congr hclients
      rcases Finset.mem_insert.mp hname with rfl | hname
      · rw [hnames]
        exact .inl (mem_nicknames.mpr
          ⟨_, hreg.present d other newcomer hd (by rw [hphase]; rfl)⟩)
      · exact h.right_after hd hnames hname (by simp [hphase, Phase.departing])
    · rw [noticesOfOthers_said hdc, if_pos hsub]
  | remove leaver hphase htold hdep hclients hsaid =>
    refine h.after_quiet hstart hdc hd (by simp [hsaid]) (by simp [htold])
      (fun name hname => ?_) (by simp [hphase, Phase.departing])
    have hown := hreg.present d other leaver hd (by rw [hphase]; rfl)
    rcases mem_nicknames_erase hown hclients hname with rfl | hname
    · exact .inr hdep
    · exact .inl hname
  | leave nickname haction hphase htold hdep hclients hsaid =>
    subst haction
    simp only [hphase, Option.isNone_some, decide_false, Bool.false_or, Bool.and_eq_true,
      List.all_eq_true] at hok
    obtain ⟨hsub, hnobody⟩ := hok
    have herase : (s.after d o).viewFrom conn client roster =
        (s.viewFrom conn client roster).erase nickname := by
      rw [hview, if_pos hsub, hsaid]
      rfl
    -- nobody who has joined holds the nickname
    have hfree : ∀ {d' : ℕ} {other' : Conn} {member : Member}, s.conns[d']? = some other' →
        other'.phase.told = some member → member.nickname ≠ nickname := by
      intro d' other' member hd' htold'
      simpa [htold'] using hnobody other' (List.mem_of_getElem? hd')
    have hctold : conn.phase.told = some client := by
      refine Phase.told_of_greeted hgreeted (Bool.eq_false_iff.mpr fun hun => ?_)
      rw [(hfed.fresh hun).1] at hsub
      exact absurd hsub (by simp)
    refine ⟨h.greeted, herase ▸ Finset.mem_erase.mpr ⟨hfree hc hctold, h.own⟩, ?_, ?_,
      h.noMiss_after hstart rfl rfl ?_⟩
    · intro d' other' member hd' htold'
      rw [herase]
      rcases Broker.getElem?_after hd' with ⟨-, rfl⟩ | ⟨-, hd'⟩
      · exact absurd (htold.symm.trans htold') (by simp)
      · exact Finset.mem_erase.mpr ⟨hfree hd' htold', h.told d' other' member hd' htold'⟩
    · intro name hname
      rw [herase] at hname
      obtain ⟨hne, hname⟩ := Finset.mem_erase.mp hname
      refine h.right_after hd (nicknames_congr hclients) hname ?_
      rw [hphase]
      exact fun hdeparting => hne (Option.some_inj.mp hdeparting).symm
    · rw [noticesOfOthers_said hdc, if_pos hsub]

/-- A step of `c` itself that keeps its greeting. -/
theorem Viewing.after_self (h : Viewing s c conn client roster)
    (hstart : ∀ start, conn.subscribedAt = some start → start ≤ s.messages.length)
    (hconn : s.conns[c]? = some conn) (hgreeted : Greeted o.conn client roster)
    (hsub : o.conn.subscribedAt = conn.subscribedAt)
    (hregistered : o.conn.registeredAt = conn.registeredAt)
    (hclients : o.state.clients = s.state.clients)
    (hquiet : conn.subscribedAt.isSome = true → ∀ message ∈ o.said,
      message.isNotice = false ∧ ∀ view, message.update view = view) :
    Viewing (s.after c o) c o.conn client roster := by
  have hsame : (s.after c o).viewFrom o.conn client roster = s.viewFrom conn client roster := by
    have hcongr : (s.after c o).viewFrom o.conn client roster =
        (s.after c o).viewFrom conn client roster := by rw [Broker.viewFrom, hsub]; rfl
    rw [hcongr, viewFrom_after_quiet hstart hquiet]
  refine ⟨hgreeted, hsame ▸ h.own, ?_, ?_, h.noMiss_after hstart hsub hregistered ?_⟩
  · intro d other member hd htold
    rw [hsame]
    rcases Broker.getElem?_after hd with ⟨rfl, rfl⟩ | ⟨-, hd⟩
    · -- only its own nickname is told of `c`
      obtain rfl : member = client := by
        have hwelcomed := hgreeted.greeted_eq
        cases hphase : o.conn.phase <;> rw [hphase] at htold hwelcomed <;>
          simp_all [Phase.told, Phase.greeted]
      exact h.own
    · exact h.told d other member hd htold
  · intro name hname
    rw [hsame] at hname
    refine h.right_after hconn (nicknames_congr hclients) hname fun hdeparting => ?_
    have hwelcomed := h.greeted.greeted_eq
    cases hphase : conn.phase <;> rw [hphase] at hdeparting hwelcomed <;>
      simp_all [Phase.departing, Phase.greeted]
  · rw [noticesOfOthers_own]
    split
    · rename_i hsome
      cases hsaid : o.said with
      | none => rfl
      | some message => simp [(hquiet hsome message hsaid).1]
    · rfl

/-- The roster is taken from the registry itself. -/
theorem viewing_registered (hreg : Registry s) {sent : List ServerToClient}
    (hfed : Fed s.messages sent conn) (hconn : s.conns[c]? = some conn)
    (hphase : conn.phase = .registering client)
    (ho : o = ⟨{ conn with
        phase := .welcoming client s.state.nicknames, registeredAt := some s.order.length },
      { s.state with clients := s.state.clients.insert client.id ⟨client.nickname⟩ }, none⟩) :
    Viewing (s.after c o) c o.conn client s.state.nicknames := by
  have hsub : conn.subscribedAt = none := (hfed.fresh (by rw [hphase]; rfl)).1
  have hview : (s.after c o).viewFrom o.conn client s.state.nicknames =
      insert client.nickname s.state.nicknames.toFinset := by
    rw [Broker.viewFrom, ho]
    exact hsub.symm ▸ viewSince_none _
  have hnew := hreg.lookup_of_registering hconn hphase
  have hmem : ∀ name, name ∈ (s.after c o).state.nicknames ↔
      name = client.nickname ∨ name ∈ s.state.nicknames :=
    fun name => mem_nicknames_insert hnew (by rw [ho]; rfl)
  constructor
  case greeted => exact .welcoming (by rw [ho])
  case own => exact hview ▸ Finset.mem_insert_self _ _
  case told =>
    intro d other member hd htold
    rw [hview]
    rcases Broker.getElem?_after hd with ⟨rfl, rfl⟩ | ⟨-, hd⟩
    · rw [ho] at htold
      exact absurd htold (by simp [Phase.told])
    · have hpresent := hreg.present d other member hd (Phase.record_of_told htold)
      exact Finset.mem_insert_of_mem
        (List.mem_toFinset.mpr (mem_nicknames.mpr ⟨_, hpresent⟩))
  case right =>
    intro name hname
    rw [hview, Finset.mem_insert, List.mem_toFinset] at hname
    exact .inl ((hmem name).mpr hname)
  case noMiss =>
    refine ⟨s.order.length, by rw [ho], by simp [Broker.after], ?_⟩
    have hnothing : (s.after c o).order = s.order := by simp [Broker.after, ho]
    rw [hnothing, List.drop_length, ho]
    exact hsub.symm ▸ noticesSince_none.symm

/-- Subscribing is the end of the gap in which `c` hears nothing. -/
theorem Viewing.subscribed {inbox : ℕ} (h : Viewing s c conn client roster)
    {sent : List ServerToClient} (hfed : Fed s.messages sent conn)
    (hconn : s.conns[c]? = some conn) (hphase : conn.phase = .subscribing client)
    (ho : o = ⟨{ conn with
      phase := .session client inbox, subscribedAt := some s.order.length }, s.state, none⟩) :
    Viewing (s.after c o) c o.conn client roster := by
  have hsub : conn.subscribedAt = none := (hfed.fresh (by rw [hphase]; rfl)).1
  have hnothing : (s.after c o).order = s.order := by simp [Broker.after, ho]
  have messages_announced : (s.after c o).messages = s.messages := by rw [messages_after, ho]; simp
  have hlen : s.messages.length = s.order.length := by simp [Broker.messages]
  have hsame : (s.after c o).viewFrom o.conn client roster = s.viewFrom conn client roster := by
    rw [Broker.viewFrom, Broker.viewFrom, messages_announced, hsub, viewSince_none, ho]
    simp [viewSince, viewAfter, ← hlen]
  constructor
  case greeted =>
    exact h.greeted.of_written (by rw [hphase]; rfl) (by rw [ho]; rfl) (by rw [ho])
  case own => exact hsame ▸ h.own
  case told =>
    intro d other member hd htold
    rw [hsame]
    rcases Broker.getElem?_after hd with ⟨rfl, rfl⟩ | ⟨-, hd⟩
    · rw [ho] at htold
      obtain rfl := Option.some_inj.mp htold
      exact h.own
    · exact h.told d other member hd htold
  case right =>
    intro name hname
    rw [hsame] at hname
    exact h.right_after hconn (by rw [ho]) hname (by simp [hphase, Phase.departing])
  case noMiss =>
    obtain ⟨taken, htaken, hle, hnotices⟩ := h.noMiss
    refine ⟨taken, by rw [ho]; exact htaken, hnothing.symm ▸ hle, ?_⟩
    rw [hnothing, hnotices, hsub, noticesSince_none, messages_announced, ho]
    simp [noticesSince, ← hlen]

/-- A step of `c` itself. -/
theorem viewing_self (hview : ∀ client, conn.phase.greeted = some client →
      ∃ roster, Viewing s c conn client roster) (hreg : Registry s)
    (hfed : Fed s.messages s.state.broadcaster.sent conn)
    (hwrote : conn.phase.Wrote conn.written) (hconn : s.conns[c]? = some conn)
    (hmove : conn.Move fromStr s.state s.receivers s.order.length action o) :
    ∀ client, o.conn.phase.greeted = some client →
      ∃ roster, Viewing (s.after c o) c o.conn client roster := by
  intro client hclient
  have hstart : ∀ start, conn.subscribedAt = some start → start ≤ s.messages.length :=
    fun start hsub => (hfed.served start hsub).1
  -- a step that keeps the phase
  have hkeep : o.conn.phase = conn.phase → o.conn.written = conn.written →
      o.conn.subscribedAt = conn.subscribedAt → o.conn.registeredAt = conn.registeredAt →
      o.state.clients = s.state.clients → (∀ message ∈ o.said,
        message.isNotice = false ∧ ∀ view, message.update view = view) →
      ∃ roster, Viewing (s.after c o) c o.conn client roster := by
    intro hphase hwritten hsub hregistered hclients hquiet
    obtain ⟨roster, h⟩ := hview client (hphase ▸ hclient)
    exact ⟨roster, h.after_self hstart hconn (h.greeted.of_phase hphase hwritten) hsub
      hregistered hclients fun _ => hquiet⟩
  cases hmove with
  | arrived fill => exact hkeep rfl rfl rfl rfl rfl (by simp)
  | waited hphase hread => exact hkeep rfl rfl rfl rfl rfl (by simp)
  | chatted hphase hread htext =>
    exact hkeep rfl rfl rfl rfl (by simp)
      (by simp [ServerToClient.isNotice, ServerToClient.update])
  | ignored hphase hread htext => exact hkeep rfl rfl rfl rfl rfl (by simp)
  | registered hphase hfree =>
    obtain rfl := Option.some_inj.mp hclient
    exact ⟨_, viewing_registered hreg hfed hconn hphase rfl⟩
  | @welcomed newcomer roster hphase =>
    rw [hphase] at hwrote
    have hnil : conn.written = [] := hwrote
    obtain ⟨roster', h⟩ := hview newcomer (by rw [hphase]; rfl)
    -- nothing is written yet, so it is the roster of the phase
    obtain rfl : roster = roster' := by
      rcases h.greeted with hw | hr | ⟨later, -, hwritten, -⟩
      · exact (Phase.welcoming.inj (hphase.symm.trans hw)).2
      · exact absurd (hphase.symm.trans hr) (by simp)
      · exact absurd (hnil.symm.trans hwritten) (by simp [greeting])
    by_cases hroster : roster = []
    · have hgreeted : Greeted { conn with
          phase := if roster = [] then .announcing newcomer else .rostering newcomer roster
          written := conn.written ++ [.own (.welcome newcomer.nickname)] } newcomer roster := by
        refine .sent [] (by simp [hroster, Phase.welcomed]) ?_ (by simp)
        simp [hnil, greeting, hroster]
      obtain rfl : newcomer = client := by simpa [hroster, Phase.greeted] using hclient
      exact ⟨roster, h.after_self hstart hconn hgreeted rfl rfl rfl (by simp)⟩
    · obtain rfl : newcomer = client := by simpa [hroster, Phase.greeted] using hclient
      exact ⟨roster, h.after_self hstart hconn (.rostering (by simp [hroster])) rfl rfl rfl
        (by simp)⟩
  | @rostered newcomer roster hphase =>
    rw [hphase] at hwrote
    obtain ⟨hroster, hone⟩ := hwrote
    obtain ⟨roster', h⟩ := hview newcomer (by rw [hphase]; rfl)
    obtain rfl : roster = roster' := by
      rcases h.greeted with hw | hr | ⟨later, hwelcomed, -, -⟩
      · exact absurd (hphase.symm.trans hw) (by simp)
      · exact (Phase.rostering.inj (hphase.symm.trans hr)).2
      · rw [hphase] at hwelcomed
        exact absurd hwelcomed (by simp [Phase.welcomed])
    obtain rfl := Option.some_inj.mp hclient
    refine ⟨roster, h.after_self hstart hconn (.sent [] rfl ?_ (by simp)) rfl rfl rfl (by simp)⟩
    simp [hone, greeting, hroster]
  | @joined newcomer hphase =>
    obtain rfl := Option.some_inj.mp hclient
    obtain ⟨roster, h⟩ := hview newcomer (by rw [hphase]; rfl)
    have hsub : conn.subscribedAt = none := (hfed.fresh (by rw [hphase]; rfl)).1
    exact ⟨roster, h.after_self hstart hconn (h.greeted.of_written (by rw [hphase]; rfl) rfl rfl)
      rfl rfl (by simp) fun hsome => absurd hsome (by simp [hsub])⟩
  | @subscribed newcomer hphase =>
    obtain rfl := Option.some_inj.mp hclient
    obtain ⟨roster, h⟩ := hview newcomer (by rw [hphase]; rfl)
    exact ⟨roster, h.subscribed hfed hconn hphase rfl⟩
  | @greeted newcomer inbox nickname hphase hread =>
    obtain rfl := Option.some_inj.mp hclient
    obtain ⟨roster, h⟩ := hview newcomer (by rw [hphase]; rfl)
    exact ⟨roster, h.after_self hstart hconn (h.greeted.of_written (by rw [hphase]; rfl) rfl rfl)
      rfl rfl rfl (by simp)⟩
  | @received newcomer inbox inbox' item hphase hrecv =>
    obtain rfl := Option.some_inj.mp hclient
    obtain ⟨roster, h⟩ := hview newcomer (by rw [hphase]; rfl)
    exact ⟨roster, h.after_self hstart hconn (h.greeted.of_written (by rw [hphase]; rfl) rfl rfl)
      rfl rfl rfl (by simp)⟩
  | @replied newcomer inbox message hphase =>
    obtain rfl := Option.some_inj.mp hclient
    obtain ⟨roster, h⟩ := hview newcomer (by rw [hphase]; rfl)
    rw [hphase] at hwrote
    exact ⟨roster, h.after_self hstart hconn
      (h.greeted.append (by rw [hphase]; rfl) rfl rfl (hwrote.1 ▸ .reply)) rfl rfl rfl (by simp)⟩
  | @delivered newcomer inbox item hphase =>
    obtain rfl := Option.some_inj.mp hclient
    obtain ⟨roster, h⟩ := hview newcomer (by rw [hphase]; rfl)
    exact ⟨roster, h.after_self hstart hconn
      (h.greeted.append (by rw [hphase]; rfl) rfl rfl (.relayed item)) rfl rfl rfl (by simp)⟩
  | handshakeFailed | handshakeInvalid | issued | rejected | rejectFailed | taken
  | welcomeFailed | finished | readFailed | replyFailed | deliveryFailed | removed | absent
  | left => exact absurd hclient (by simp [Phase.greeted])

/-- Once its roster is taken, `c` is up to date. -/
def Broker.Viewed (c : ℕ) (s : Broker) : Prop :=
  ∀ (conn : Conn) (client : Member), s.conns[c]? = some conn →
    conn.phase.greeted = some client → ∃ roster, Viewing s c conn client roster

theorem viewed_step {e : Event} (hr : Reachable (Broker.step fromStr) .new s)
    (h : s.Viewed c) (hok : s.undisturbed c e = true) (he : s.step fromStr e = some s') :
    s'.Viewed c := by
  intro conn' client hc' hclient
  have hreg := registry_reachable hr
  have hfed := allFed_of_reachable hr
  cases Broker.step_cases he with
  | accepted =>
    rcases getElem?_concat_new hc' with hc | rfl
    · obtain ⟨roster, hview⟩ := h conn' client hc hclient
      refine ⟨roster, hview.greeted, hview.own, ?_, ?_, hview.noMiss⟩
      · intro d other member hd htold
        rcases getElem?_concat_new hd with hd | rfl
        · exact hview.told d other member hd htold
        · exact absurd htold (by simp [Conn.new, Phase.told])
      · intro name hname
        rcases hview.right name hname with hin | ⟨d, other, hd, hdeparting⟩
        · exact .inl hin
        · obtain ⟨hlt, -⟩ := List.getElem?_eq_some_iff.mp hd
          exact .inr ⟨d, other, (List.getElem?_append_left hlt).trans hd, hdeparting⟩
    · exact absurd hclient (by simp [Conn.new, Phase.greeted])
  | announced =>
    -- the shutdown error is not a notice
    obtain ⟨roster, hview⟩ := h conn' client hc' hclient
    have hstart : ∀ start, conn'.subscribedAt = some start → start ≤ s.messages.length :=
      fun start hsub => ((hfed c conn' hc').served start hsub).1
    have hsame : Broker.viewFrom { s with
        accepting := false
        state := s.state.broadcast s.receivers shutdownNotice
        order := s.order ++ [(none, shutdownNotice)] } conn' client roster =
          s.viewFrom conn' client roster := by
      rw [Broker.viewFrom, messages_announced]
      cases hsub : conn'.subscribedAt with
      | none => rw [Broker.viewFrom, hsub, viewSince_none, viewSince_none]
      | some start =>
        rw [viewSince_append (hstart start hsub), Broker.viewFrom, hsub]
        rfl
    refine ⟨roster, hview.greeted, hsame ▸ hview.own, fun d other member hd htold =>
      hsame ▸ hview.told d other member hd htold, fun name hname => ?_, ?_⟩
    · rw [hsame] at hname
      have hnames := nicknames_congr
        (BrokerState.clients_broadcast s.state s.receivers shutdownNotice)
      exact hnames.symm ▸ hview.right name hname
    · obtain ⟨taken, htaken, hle, hnotices⟩ := hview.noMiss
      refine ⟨taken, htaken, hle.trans (by simp), ?_⟩
      rw [noticesOfOthers_append hle, hnotices, messages_announced]
      cases hsub : conn'.subscribedAt with
      | none =>
        rw [noticesSince_none, noticesSince_none]
        rfl
      | some start =>
        rw [noticesSince_append (hstart start hsub)]
        rfl
  | @moved d action other o hd hmove =>
    rcases Broker.getElem?_after hc' with ⟨rfl, rfl⟩ | ⟨hcd, hc⟩
    · exact viewing_self (fun client hgreeted => h other client hd hgreeted) hreg
        (hfed c other hd) (wrote_of_reachable hr hd) hd hmove client hclient
    · obtain ⟨roster, hview⟩ := h conn' client hc hclient
      exact ⟨roster, hview.after_other hreg (hfed c conn' hc) hc hcd.symm hd
        (hmove.rosterMove fun member hrecord => hreg.present d other member hd hrecord) hok⟩

/-! ### Runs -/

/-- **Membership.**  Along every run in which `c` is left undisturbed, its view is
right. -/
theorem membership_along {es : List Event}
    (h : Meets (Broker.step fromStr) (fun s e => s.undisturbed c e = true) .new es) :
    Along (Broker.step fromStr) (MembershipRight c) .new es := by
  refine along_of_meets
    (I := fun t => Reachable (Broker.step fromStr) .new t ∧ t.Viewed c) ?_ ?_
    ⟨.refl _, fun conn client hc => by simp [Broker.new] at hc⟩ h
  · exact fun t ht => Viewing.membershipRight ht.2 (registry_reachable ht.1)
      (allFed_of_reachable ht.1)
  · exact fun t e t' ht hok he => ⟨ht.1.tail he, viewed_step ht.1 ht.2 hok he⟩

/-- Bob joins while Alice is in her session, and she is told of it. -/
def joinedScript : List Event :=
  joinScript 0 "alice" 1 ++ joinScript 1 "bob" 2 ++ [.conn 0 .recv, .conn 0 (.write true)]

set_option maxRecDepth 10000 in
theorem membership_along_alice :
    ∃ s, run (Broker.step scriptFromStr) .new joinedScript = some s ∧
      s.conns.map Conn.view = [{"alice", "bob"}, {"alice", "bob"}] ∧
      Along (Broker.step scriptFromStr) (MembershipRight 0) .new joinedScript := by
  have hrun : ((run (Broker.step scriptFromStr) .new joinedScript).map fun s =>
      s.conns.map Conn.view) = some [{"alice", "bob"}, {"alice", "bob"}] := by decide
  obtain ⟨s, hs, hviews⟩ := Option.map_eq_some_iff.mp hrun
  exact ⟨s, hs, hviews, membership_along (by decide)⟩

/-- Bob registers and is announced while Alice, already registered, is still being
welcomed. -/
def missedScript : List Event :=
  registerScript 0 "alice" ++ registerScript 1 "bob" ++ announceScript 1 2 ++
    announceScript 0 1 ++ [.conn 0 .proceed]

set_option maxRecDepth 10000 in
/-- Alice is in her session with an empty inbox, and does not know of Bob. -/
theorem join_missed_before_subscription :
    ¬ Along (Broker.step scriptFromStr) (MembershipRight 0) .new missedScript := by
  intro hall
  have hrun : ((run (Broker.step scriptFromStr) .new missedScript).map fun s =>
      (s.conns.map fun conn => (conn.phase, conn.view), s.conns.map Conn.deliveries,
        (s.state.broadcaster.recv 0).isNone, s.state.nicknames.contains "bob")) =
      some ([(.session ⟨1, "alice"⟩ 0, {"alice"}), (.subscribing ⟨2, "bob"⟩, {"alice", "bob"})],
        [[], []], true, true) := by decide
  obtain ⟨s, hs, hfacts⟩ := Option.map_eq_some_iff.mp hrun
  simp only [Prod.mk.injEq] at hfacts
  obtain ⟨hphases, hdeliveries, hrecv, hbob⟩ := hfacts
  obtain ⟨alice, bob, hconns⟩ : ∃ alice bob, s.conns = [alice, bob] :=
    List.length_eq_two.mp (by simpa using congrArg List.length hphases)
  simp only [hconns, List.map_cons, List.map_nil, List.cons.injEq, Prod.mk.injEq, and_true]
    at hphases hdeliveries
  obtain ⟨⟨halice, hview⟩, hphase, -⟩ := hphases
  have hright := (hall.final hs alice ⟨1, "alice"⟩ 0 (by rw [hconns]; rfl) halice
    (Option.isNone_iff_eq_none.mp hrecv) (by simp [hdeliveries.1])).1
  have hall : alice.view = s.state.nicknames.toFinset := by
    refine hright fun d other hd hother => ?_
    have hmem := List.mem_of_getElem? hother
    rw [hconns] at hmem hother
    rcases List.mem_pair.mp hmem with rfl | rfl
    · rw [halice]
      rfl
    · rw [hphase]
      rfl
  have hmissing : "bob" ∈ alice.view := by
    rw [hall, List.mem_toFinset]
    simpa using hbob
  rw [hview] at hmissing
  exact absurd hmissing (by decide)

end Chat
