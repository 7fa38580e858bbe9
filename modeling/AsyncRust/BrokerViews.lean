/-
Who is online, as a client sees it.

A client knows its own nickname and the roster that it was sent, and follows the
notices after that (`Conn.view`).  `MembershipRight` says that a client with an empty
inbox sees exactly the nicknames of the registry, when no other connection stands
between a change of the registry and its notice, and that it has missed no notice
since its roster was taken.

`Viewing` is the invariant behind it: what a client will see once it has been told
everything that was broadcast, compared with the registry and with the notices
that are still owed.  An up-to-date client with an empty inbox sees the registry
(`Viewing.membershipRight`).
-/
import AsyncRust.BrokerFanout
import Mathlib.Data.Finset.Basic

namespace Chat

open LineReader Broadcast Runs

variable {fromStr : String → Option ClientToServer} {st : BrokerState} {receivers now : ℕ}
  {s s' : Broker} {c d : ℕ} {conn other : Conn} {action : Action} {o : Outcome}
  {client member : Member} {roster : List String} {all : List ServerToClient}

/-! ### Views -/

/-- What a message tells its reader about who is online. -/
def ServerToClient.update (view : Finset String) : ServerToClient → Finset String
  | .welcome nickname => insert nickname view
  | .roster participants => view ∪ participants.toFinset
  | .userJoined nickname => insert nickname view
  | .userLeft nickname => view.erase nickname
  | _ => view

def viewAfter (view : Finset String) (messages : List ServerToClient) : Finset String :=
  messages.foldl ServerToClient.update view

/-- Who is online, as far as the client has been told. -/
def Conn.view (conn : Conn) : Finset String := viewAfter ∅ (conn.written.map Written.message)

/-- Between a change of the registry and the notice of it. -/
def Phase.unsettled : Phase → Bool
  | .welcoming .. => true
  | .rostering .. => true
  | .announcing _ => true
  | .leaving _ => true
  | _ => false

/-- The notices that others than `c` have broadcast. -/
def noticesOfOthers (c : ℕ) (order : List (Option ℕ × ServerToClient)) : List ServerToClient :=
  ((order.filter fun entry => entry.1 ≠ some c).map Prod.snd).filter ServerToClient.isNotice

/-- In a session with an empty inbox that has never lagged, client `c` sees who is
online, and has been sent every notice of another client since its roster was taken. -/
def MembershipRight (c : ℕ) (s : Broker) : Prop :=
  ∀ (conn : Conn) (client : Member) (inbox : ℕ), s.conns[c]? = some conn →
    conn.phase = .session client inbox → s.state.broadcaster.recv inbox = none →
    (∀ k, .lagged k ∉ conn.deliveries) →
      ((∀ (d : ℕ) (other : Conn), d ≠ c → s.conns[d]? = some other →
        other.phase.unsettled = false) → conn.view = s.state.nicknames.toFinset) ∧
      ∃ taken, conn.registeredAt = some taken ∧
        noticesOfOthers c (s.order.drop taken) =
          (values conn.deliveries).filter ServerToClient.isNotice

/-! ### The condition -/

/-- The client of a task whose roster is taken and that has not ended its session. -/
def Phase.greeted : Phase → Option Member
  | .welcoming client _ => some client
  | .rostering client _ => some client
  | .announcing client => some client
  | .subscribing client => some client
  | .session client _ => some client
  | .replying client _ _ => some client
  | .delivering client _ _ => some client
  | _ => none

/-- The registered client of a task that has broadcast its `UserJoined`, or has ended
without. -/
def Phase.told : Phase → Option Member
  | .subscribing client => some client
  | .session client _ => some client
  | .replying client _ _ => some client
  | .delivering client _ _ => some client
  | .cleanup client => some client
  | .aborted client _ _ => some client
  | _ => none

/-- From its roster on, `c` is not disturbed: no notice of another task falls between
its roster and its subscription, no `UserLeft` is broadcast for a nickname that
is online again, and no write of another task's greeting fails. -/
def Broker.undisturbed (c : ℕ) (s : Broker) : Event → Bool
  | .conn d action =>
    match s.conns[c]?, s.conns[d]? with
    | some conn, some other =>
      d = c || conn.phase.greeted.isNone ||
        match other.phase, action with
        | .announcing _, .proceed => conn.subscribedAt.isSome
        | .leaving nickname, .proceed => conn.subscribedAt.isSome &&
          s.conns.all fun third => third.phase.told.all fun client => client.nickname ≠ nickname
        | .welcoming .., .write false => false
        | .rostering .., .write false => false
        | _, _ => true
    | _, _ => true
  | _ => true

/-! ### Folding views -/

theorem viewAfter_append (view : Finset String) (messages messages' : List ServerToClient) :
    viewAfter view (messages ++ messages') = viewAfter (viewAfter view messages) messages' :=
  List.foldl_append

theorem viewAfter_greeting (client : Member) (roster : List String) :
    viewAfter ∅ ((greeting client roster).map Written.message) =
      insert client.nickname roster.toFinset := by
  by_cases hroster : roster = []
  · simp [viewAfter, greeting, hroster, Written.message, ServerToClient.update]
  · ext nickname
    simp [viewAfter, greeting, hroster, Written.message, ServerToClient.update]

/-- After the greeting only relayed values count. -/
theorem viewAfter_later : ∀ {later : List Written} {view : Finset String},
    (∀ w ∈ later, w.Later) →
      viewAfter view (later.map Written.message) =
        viewAfter view (values (later.filterMap Written.delivery?)) := by
  intro later
  induction later with
  | nil => intro view _; rfl
  | cons w later ih =>
    intro view hlater
    have htail := fun x hx => hlater x (List.mem_cons_of_mem w hx)
    cases hlater w List.mem_cons_self with
    | reply => exact ih htail
    | relayed item =>
      cases item with
      | value message => exact ih htail
      | lagged k => exact ih htail

/-- What a client that has been told everything since its subscription sees. -/
def viewSince (all : List ServerToClient) (start : Option ℕ) (view : Finset String) :
    Finset String :=
  viewAfter view (all.drop (start.getD all.length))

def noticesSince (all : List ServerToClient) (start : Option ℕ) : List ServerToClient :=
  (all.drop (start.getD all.length)).filter ServerToClient.isNotice

@[simp] theorem viewSince_none (view : Finset String) : viewSince all none view = view := by
  simp [viewSince, viewAfter]

@[simp] theorem noticesSince_none : noticesSince all none = [] := by
  simp [noticesSince]

theorem viewSince_append {start : ℕ} (hle : start ≤ all.length) (more : List ServerToClient)
    (view : Finset String) :
    viewSince (all ++ more) (some start) view =
      viewAfter (viewSince all (some start) view) more := by
  simp only [viewSince, Option.getD_some]
  rw [List.drop_append_of_le_length hle, viewAfter_append]

theorem noticesSince_append {start : ℕ} (hle : start ≤ all.length)
    (more : List ServerToClient) :
    noticesSince (all ++ more) (some start) =
      noticesSince all (some start) ++ more.filter ServerToClient.isNotice := by
  simp only [noticesSince, Option.getD_some]
  rw [List.drop_append_of_le_length hle, List.filter_append]

theorem noticesOfOthers_append {order more : List (Option ℕ × ServerToClient)} {taken : ℕ}
    (hle : taken ≤ order.length) :
    noticesOfOthers c ((order ++ more).drop taken) =
      noticesOfOthers c (order.drop taken) ++ noticesOfOthers c more := by
  unfold noticesOfOthers
  rw [List.drop_append_of_le_length hle, List.filter_append, List.map_append, List.filter_append]

/-! ### The invariant -/

/-- The client of a task that has written the greeting and not ended its session. -/
def Phase.welcomed : Phase → Option Member
  | .announcing client => some client
  | .subscribing client => some client
  | .session client _ => some client
  | .replying client _ _ => some client
  | .delivering client _ _ => some client
  | _ => none

/-- The client has been sent the roster, or is about to be. -/
inductive Greeted (conn : Conn) (client : Member) (roster : List String) : Prop
  | welcoming (hphase : conn.phase = .welcoming client roster)
  | rostering (hphase : conn.phase = .rostering client roster)
  | sent (later : List Written) (hphase : conn.phase.welcomed = some client)
      (hwritten : conn.written = greeting client roster ++ later)
      (hlater : ∀ w ∈ later, w.Later)

theorem Phase.greeted_of_welcomed {phase : Phase} (h : phase.welcomed = some client) :
    phase.greeted = some client := by
  cases phase <;> first | exact h | exact absurd h (by simp [Phase.welcomed])

theorem Greeted.greeted_eq (h : Greeted conn client roster) :
    conn.phase.greeted = some client := by
  cases h with
  | welcoming hphase => rw [hphase]; rfl
  | rostering hphase => rw [hphase]; rfl
  | sent later hphase _ _ => exact Phase.greeted_of_welcomed hphase

theorem Greeted.eq_greeting (h : Greeted conn client roster)
    (hphase : conn.phase.welcomed = some client) :
    ∃ later, conn.written = greeting client roster ++ later ∧ ∀ w ∈ later, w.Later := by
  rcases h with hw | hr | ⟨later, -, hwritten, hlater⟩
  · rw [hw] at hphase
    exact absurd hphase (by simp [Phase.welcomed])
  · rw [hr] at hphase
    exact absurd hphase (by simp [Phase.welcomed])
  · exact ⟨later, hwritten, hlater⟩

/-- A later write keeps the greeting. -/
theorem Greeted.append {conn' : Conn} {w : Written} (h : Greeted conn client roster)
    (hphase : conn.phase.welcomed = some client) (hphase' : conn'.phase.welcomed = some client)
    (hwritten : conn'.written = conn.written ++ [w]) (hw : w.Later) :
    Greeted conn' client roster := by
  obtain ⟨later, hold, hlater⟩ := h.eq_greeting hphase
  refine .sent (later ++ [w]) hphase' (by rw [hwritten, hold, List.append_assoc]) ?_
  intro x hx
  rcases List.mem_append.mp hx with hx | hx
  · exact hlater x hx
  · exact List.mem_singleton.mp hx ▸ hw

theorem Greeted.of_written {conn' : Conn} (h : Greeted conn client roster)
    (hphase : conn.phase.welcomed = some client) (hphase' : conn'.phase.welcomed = some client)
    (hwritten : conn'.written = conn.written) : Greeted conn' client roster := by
  obtain ⟨later, hold, hlater⟩ := h.eq_greeting hphase
  exact .sent later hphase' (hwritten.trans hold) hlater

theorem Greeted.of_phase {conn' : Conn} (h : Greeted conn client roster)
    (hphase : conn'.phase = conn.phase) (hwritten : conn'.written = conn.written) :
    Greeted conn' client roster := by
  rcases h with hw | hr | ⟨later, hwelcomed, hold, hlater⟩
  · exact .welcoming (hphase.trans hw)
  · exact .rostering (hphase.trans hr)
  · exact .sent later (hphase ▸ hwelcomed) (hwritten.trans hold) hlater

/-- The nickname whose `UserLeft` the task broadcasts next. -/
def Phase.departing : Phase → Option String
  | .leaving nickname => some nickname
  | _ => none

/-- What `conn` sees once it has been told everything that was broadcast. -/
def Broker.viewFrom (s : Broker) (conn : Conn) (client : Member) (roster : List String) :
    Finset String :=
  viewSince s.messages conn.subscribedAt (insert client.nickname roster.toFinset)

/-- Connection `c` is up to date, but for the notices that are still owed. -/
structure Viewing (s : Broker) (c : ℕ) (conn : Conn) (client : Member) (roster : List String) :
    Prop where
  greeted : Greeted conn client roster
  own : client.nickname ∈ s.viewFrom conn client roster
  told : ∀ (d : ℕ) (other : Conn) (member : Member), s.conns[d]? = some other →
    other.phase.told = some member → member.nickname ∈ s.viewFrom conn client roster
  right : ∀ nickname ∈ s.viewFrom conn client roster, nickname ∈ s.state.nicknames ∨
    ∃ (d : ℕ) (other : Conn), s.conns[d]? = some other ∧ other.phase.departing = some nickname
  noMiss : ∃ taken, conn.registeredAt = some taken ∧ taken ≤ s.order.length ∧
    noticesOfOthers c (s.order.drop taken) = noticesSince s.messages conn.subscribedAt

/-- An up-to-date client with an empty inbox sees the registry. -/
theorem Viewing.membershipRight (h : ∀ (conn : Conn) (client : Member),
      s.conns[c]? = some conn → conn.phase.greeted = some client →
        ∃ roster, Viewing s c conn client roster)
    (hreg : Registry s) (hfed : s.AllFed) : MembershipRight c s := by
  intro conn client inbox hc hphase hrecv hgap
  obtain ⟨roster, hview⟩ := h conn client hc (by rw [hphase]; rfl)
  obtain ⟨start, hstart, hacc⟩ := (hfed c conn hc).accounts_of_drained hphase (recv_eq_none hrecv)
  have hvalues := hacc.values_eq hgap
  refine ⟨fun hsettled => ?_, ?_⟩
  · have hconn : conn.view = s.viewFrom conn client roster := by
      rcases hview.greeted with hw | hr | ⟨later, -, hwritten, hlater⟩
      · exact absurd (hphase.symm.trans hw) (by simp)
      · exact absurd (hphase.symm.trans hr) (by simp)
      · have hdel : later.filterMap Written.delivery? = conn.deliveries := by
          rw [Conn.deliveries, hwritten, List.filterMap_append, deliveries_greeting,
            List.nil_append]
        rw [Conn.view, hwritten, List.map_append, viewAfter_append, viewAfter_greeting,
          viewAfter_later hlater, hdel, hvalues, Broker.viewFrom, hstart]
        rfl
    rw [hconn]
    ext nickname
    rw [List.mem_toFinset]
    constructor
    · intro hmem
      rcases hview.right nickname hmem with hin | ⟨d, other, hd, hdeparting⟩
      · exact hin
      · -- nobody is leaving, and `c` is in its session
        have hdc : d ≠ c := by
          rintro rfl
          obtain rfl : conn = other := Option.some_inj.mp (hc.symm.trans hd)
          rw [hphase] at hdeparting
          exact absurd hdeparting (by simp [Phase.departing])
        have := hsettled d other hdc hd
        cases hother : other.phase <;> rw [hother] at hdeparting this <;>
          simp_all [Phase.departing, Phase.unsettled]
    · intro hmem
      obtain ⟨id, hlookup⟩ := mem_nicknames.mp hmem
      obtain ⟨d, other, hd, hrecord⟩ := hreg.owned id _ hlookup
      refine hview.told d other _ hd (?_ : other.phase.told = some ⟨id, nickname⟩)
      by_cases hdc : d = c
      · subst hdc
        obtain rfl : conn = other := Option.some_inj.mp (hc.symm.trans hd)
        rw [hphase] at hrecord ⊢
        exact hrecord
      · have := hsettled d other hdc hd
        cases hother : other.phase <;> rw [hother] at hrecord this <;>
          simp_all [Phase.record, Phase.told, Phase.unsettled]
  · obtain ⟨taken, htaken, -, hnotices⟩ := hview.noMiss
    refine ⟨taken, htaken, hnotices.trans ?_⟩
    rw [hvalues, hstart]
    rfl

end Chat
