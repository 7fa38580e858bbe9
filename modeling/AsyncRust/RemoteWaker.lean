/-
A future that another task wakes (`13-waking-futures-remotely/src/main.rs`).

The executor polls a future whose state is shared, behind a mutex, with a trigger task;
the trigger stores the data and spins until it finds the waker of a poll.  It does so with
the mutex locked, and a poll needs the mutex to leave its waker.  A step is what one
thread does between two points at which the other may come in.

* `State.step` — the polls of the executor and the steps of the trigger;
* `Sound` — nothing is stuck, and nothing is lost;
* `waker_sound_iff` — a run is sound iff a poll has left its waker when the trigger locks the
  state;
* `spins_forever` — otherwise, the trigger spins for ever and the future never completes.
-/
import AsyncRust.ByteFormat
import AsyncRust.Runs

namespace RemoteWaker

open ByteFormat Runs

/-! ### The program -/

/-- Who holds the mutex. -/
inductive Party where
  | future
  | trigger
  deriving DecidableEq, Repr

/-- Where a poll is: none is running, it waits for the mutex, or it holds it. -/
inductive Polling where
  | idle
  | locking
  | locked
  deriving DecidableEq, Repr

/-- Where the trigger is: it waits for the message, or for the mutex; it has stored the
data and is in its loop; it has left the loop; it has unlocked the mutex. -/
inductive Trigger where
  | receiving
  | locking
  | spinning
  | woke
  | done
  deriving DecidableEq, Repr

/-- The waker of the task that awaits the future. -/
inductive Waker where
  | task
  deriving DecidableEq, Repr

/-- `data` and `waker` are `MyFutureState`; `woken` is a wake-up that no poll has answered
yet, and `results` are those of the polls that returned `Ready` (`none`: a panic). -/
structure State where
  lock : Option Party
  data : Option (List UInt8)
  waker : Option Waker
  polling : Polling
  trigger : Trigger
  polled : Bool
  woken : Bool
  results : List (Option String)
  deriving DecidableEq, Repr

def State.new : State where
  lock := none
  data := none
  waker := none
  polling := .idle
  trigger := .receiving
  polled := false
  woken := false
  results := []

/-- What the trigger stores. -/
def message : List UInt8 := utf8 "Hello from the outside"

/-- A spurious poll is one that nobody has asked for. -/
inductive Event where
  | poll
  | spuriousPoll
  | pollLock
  | pollBody
  | receive
  | triggerLock
  | spin
  | triggerUnlock
  deriving DecidableEq, Repr

namespace State

/-- The executor makes one poll at a time, and none after `Ready`. -/
def canPoll (s : State) : Bool := s.polling = .idle && s.results.isEmpty

/-- The body of `poll`, which unlocks the mutex at its end. -/
def pollBody (s : State) : State :=
  match s.data with
  | some data =>
    { s with
      lock := none, polling := .idle, data := none, results := s.results ++ [ofUtf8 data] }
  | none => { s with lock := none, polling := .idle, waker := some .task }

/-- One round of the loop of the trigger. -/
def spin (s : State) : State :=
  match s.waker with
  | some _ => { s with waker := none, woken := true, trigger := .woke }
  | none => s

def step (s : State) : Event → Option State
  | .poll =>
    if s.canPoll ∧ (s.woken ∨ !s.polled) then
      some { s with polling := .locking, polled := true, woken := false }
    else none
  | .spuriousPoll =>
    if s.canPoll then some { s with polling := .locking, polled := true } else none
  | .pollLock =>
    if s.polling = .locking ∧ s.lock = none then
      some { s with lock := some .future, polling := .locked }
    else none
  | .pollBody => if s.polling = .locked then some s.pollBody else none
  | .receive => if s.trigger = .receiving then some { s with trigger := .locking } else none
  | .triggerLock =>
    if s.trigger = .locking ∧ s.lock = none then
      some { s with lock := some .trigger, data := some message, trigger := .spinning }
    else none
  | .spin => if s.trigger = .spinning then some s.spin else none
  | .triggerUnlock =>
    if s.trigger = .woke then some { s with lock := none, trigger := .done } else none

end State

/-! ### What is claimed of it -/

/-- The trigger never spins in vain; the data that is stored will be noticed, by a wake-up
that is outstanding or about to be sent, or by a poll that is running or the first one;
no two polls return the data; and until one has, somebody can go on, whom no spurious poll
has to help, and the run can be completed so that one does. -/
structure Sound (s : State) : Prop where
  waker : s.trigger = .spinning → s.waker ≠ none
  outstanding : s.data ≠ none → s.results = [] →
    s.woken = true ∨ s.trigger = .spinning ∨ s.polling ≠ .idle ∨ s.polled = false
  once : s.results = [] ∨ s.results = [some "Hello from the outside"]
  progress : s.results = [] → ∃ e s', e ≠ .spuriousPoll ∧ s.step e = some s' ∧ s' ≠ s
  completes : ∃ es s', .spuriousPoll ∉ es ∧ run State.step s es = some s' ∧
    s'.results = [some "Hello from the outside"]

/-- When the trigger locks the state, a poll has left its waker there. -/
def wakerFirst (s : State) (e : Event) : Bool := e ≠ .triggerLock || s.waker.isSome

/-! ### A poll comes first -/

/-- The invariant of the runs in which a poll comes first. -/
structure Inv (s : State) : Prop where
  future_lock : s.lock = some .future ↔ s.polling = .locked
  trigger_lock : s.lock = some .trigger ↔ s.trigger = .spinning ∨ s.trigger = .woke
  before : s.trigger = .receiving ∨ s.trigger = .locking →
    s.data = none ∧ s.results = [] ∧ (s.polled = false ∨ s.polling ≠ .idle ∨ s.waker ≠ none)
  spinning : s.trigger = .spinning → s.waker ≠ none ∧ s.data = some message ∧ s.results = []
  woke : s.trigger = .woke → s.data = some message ∧ s.results = [] ∧
    (s.woken = true ∨ s.polling = .locking)
  done : s.trigger = .done →
    s.data = some message ∧ s.results = [] ∧ (s.woken = true ∨ s.polling ≠ .idle) ∨
      s.data = none ∧ s.results = [some "Hello from the outside"] ∧ s.polling = .idle

@[simp] theorem ofUtf8_message : ofUtf8 message = some "Hello from the outside" :=
  ofUtf8_utf8 _

theorem Inv.new : Inv .new where
  future_lock := by simp [State.new]
  trigger_lock := by simp [State.new]
  before _ := by simp [State.new]
  spinning h := by simp [State.new] at h
  woke h := by simp [State.new] at h
  done h := by simp [State.new] at h

/-- A poll without data leaves its waker, and one with data takes it. -/
theorem pollBody_eq {s : State} (h : Inv s) (hs : s.polling = .locked) :
    (s.trigger = .receiving ∨ s.trigger = .locking) ∧
        s.pollBody = { s with lock := none, polling := .idle, waker := some .task } ∨
      s.trigger = .done ∧ s.results = [] ∧ s.pollBody =
        { s with
          lock := none, polling := .idle, data := none
          results := [some "Hello from the outside"] } := by
  have hlock : s.lock = some .future := h.future_lock.mpr hs
  have htrigger : ¬ (s.trigger = .spinning ∨ s.trigger = .woke) := by
    rw [← h.trigger_lock, hlock]
    simp
  cases ht : s.trigger with
  | receiving =>
    left
    simp [State.pollBody, (h.before (.inl ht)).1, ht]
  | locking =>
    left
    simp [State.pollBody, (h.before (.inr ht)).1, ht]
  | spinning => exact absurd (.inl ht) htrigger
  | woke => exact absurd (.inr ht) htrigger
  | done =>
    right
    obtain ⟨hdata, hresults, -⟩ | ⟨-, -, hidle⟩ := h.done ht
    · simp [State.pollBody, hdata, hresults, ht]
    · simp [hs] at hidle

/-- A poll that starts waits for the mutex. -/
theorem Inv.poll {s : State} (h : Inv s) (hs : s.canPoll = true) (woken : Bool) :
    Inv { s with polling := .locking, polled := true, woken } := by
  simp only [State.canPoll, Bool.and_eq_true, decide_eq_true_eq, List.isEmpty_iff] at hs
  obtain ⟨hidle, hresults⟩ := hs
  refine ⟨by simp [h.future_lock, hidle], h.trigger_lock, fun ht => ?_, h.spinning, fun ht => ?_,
    fun ht => ?_⟩
  · exact ⟨(h.before ht).1, hresults, by simp⟩
  · exact ⟨(h.woke ht).1, hresults, by simp⟩
  · obtain ⟨hdata, -, -⟩ | ⟨-, hdone, -⟩ := h.done ht
    · exact .inl ⟨hdata, hresults, by simp⟩
    · simp [hresults] at hdone

theorem Inv.pollBody {s : State} (h : Inv s) (hs : s.polling = .locked) : Inv s.pollBody := by
  have hlock : s.lock = some .future := h.future_lock.mpr hs
  have htrigger := h.trigger_lock
  rw [hlock] at htrigger
  obtain ⟨ht, heq⟩ | ⟨ht, -, heq⟩ := pollBody_eq h hs <;> rw [heq]
  · refine ⟨by simp, by simpa using htrigger, fun _ => ?_, ?_, ?_, ?_⟩
    · exact ⟨(h.before ht).1, (h.before ht).2.1, by simp⟩
    all_goals rcases ht with ht | ht <;> simp [ht]
  · refine ⟨by simp, by simpa using htrigger, ?_, ?_, ?_, fun _ => .inr ⟨rfl, rfl, rfl⟩⟩
    all_goals simp [ht]

theorem Inv.step {s s' : State} {e : Event} (h : Inv s) (hok : wakerFirst s e = true)
    (hs : s.step e = some s') : Inv s' := by
  cases e <;> simp only [State.step, Option.ite_none_right_eq_some, Option.some_inj] at hs <;>
    obtain ⟨hc, rfl⟩ := hs
  case poll => exact h.poll hc.1 false
  case spuriousPoll => exact h.poll hc s.woken
  case pollLock =>
    obtain ⟨hpolling, hlock⟩ := hc
    have htrigger := h.trigger_lock
    rw [hlock] at htrigger
    refine ⟨by simp, by simpa using htrigger, fun ht => ?_, h.spinning, fun ht => ?_, fun ht => ?_⟩
    · exact ⟨(h.before ht).1, (h.before ht).2.1, by simp⟩
    · exact absurd ht (not_or.mp (by simpa using htrigger)).2
    · obtain ⟨hdata, hresults, -⟩ | ⟨-, -, hidle⟩ := h.done ht
      · exact .inl ⟨hdata, hresults, by simp⟩
      · simp [hpolling] at hidle
  case pollBody => exact h.pollBody hc
  case receive =>
    have htrigger := h.trigger_lock
    exact ⟨h.future_lock, by simpa [hc] using htrigger, fun _ => h.before (.inl hc), by simp,
      by simp, by simp⟩
  case triggerLock =>
    obtain ⟨ht, hlock⟩ := hc
    have hfuture := h.future_lock
    rw [hlock] at hfuture
    have hwaker : s.waker ≠ none := by simpa [wakerFirst, Option.isSome_iff_ne_none] using hok
    exact ⟨by simpa using hfuture, by simp, by simp,
      fun _ => ⟨hwaker, rfl, (h.before (.inr ht)).2.1⟩, by simp, by simp⟩
  case spin =>
    obtain ⟨hwaker, hdata, hresults⟩ := h.spinning hc
    have hlock := h.trigger_lock.mpr (.inl hc)
    obtain ⟨w, hw⟩ := Option.ne_none_iff_exists'.mp hwaker
    have heq : s.spin = { s with waker := none, woken := true, trigger := .woke } := by
      simp [State.spin, hw]
    rw [heq]
    exact ⟨h.future_lock, by simpa using hlock, by simp, by simp,
      fun _ => ⟨hdata, hresults, .inl rfl⟩, by simp⟩
  case triggerUnlock =>
    obtain ⟨hdata, hresults, hnoticed⟩ := h.woke hc
    have hlock := h.trigger_lock.mpr (.inr hc)
    have hfuture := h.future_lock
    rw [hlock] at hfuture
    refine ⟨by simpa using hfuture, by simp, by simp, by simp, by simp, fun _ => .inl ?_⟩
    exact ⟨hdata, hresults, hnoticed.imp_right fun hp => by simp [hp]⟩

/-! ### The run goes on -/

/-- The steps of the first poll that are left before the trigger may lock the state. -/
def pollsBefore (s : State) : Nat :=
  match s.waker, s.polling with
  | none, .idle => 4
  | none, .locking => 3
  | none, .locked => 2
  | some _, .locked => 1
  | some _, _ => 0

/-- The steps of the last poll that are left after the trigger has unlocked the state. -/
def pollsAfter (s : State) : Nat :=
  match s.results, s.polling with
  | [], .idle => 3
  | [], .locking => 2
  | [], .locked => 1
  | _ :: _, _ => 0

/-- A bound on the steps that are left; those of the trigger count for five. -/
def rank (s : State) : Nat :=
  match s.trigger with
  | .receiving => 20 + pollsBefore s
  | .locking => 15 + pollsBefore s
  | .spinning => 10
  | .woke => 5
  | .done => pollsAfter s

theorem pollsAfter_le (s : State) : pollsAfter s ≤ 3 := by
  simp only [pollsAfter]
  split <;> decide

/-- Nobody holds the mutex, a poll does, or the trigger does. -/
theorem Inv.lock_cases {s : State} (h : Inv s) :
    s.lock = none ∧ s.polling ≠ .locked ∨ s.polling = .locked ∨
      s.trigger = .spinning ∨ s.trigger = .woke := by
  cases hlock : s.lock with
  | none =>
    have hfuture := h.future_lock
    rw [hlock] at hfuture
    exact .inl ⟨rfl, by simpa using hfuture⟩
  | some p =>
    cases p with
    | future => exact .inr (.inl (h.future_lock.mp hlock))
    | trigger => exact .inr (.inr (h.trigger_lock.mp hlock))

/-- A poll that waits for the mutex gets it, unless the trigger holds it. -/
theorem Inv.lock_eq_none {s : State} (h : Inv s) (hp : s.polling = .locking)
    (ht : ¬ (s.trigger = .spinning ∨ s.trigger = .woke)) : s.lock = none := by
  rcases h.lock_cases with ⟨hlock, -⟩ | hl | hl
  · exact hlock
  · simp [hp] at hl
  · exact absurd hl ht

/-- A poll that holds the mutex goes on. -/
theorem Inv.rank_pollBody {s : State} (h : Inv s) (hs : s.polling = .locked) :
    rank s.pollBody < rank s := by
  obtain ⟨ht, heq⟩ | ⟨ht, hresults, heq⟩ := pollBody_eq h hs <;> rw [heq]
  · rcases ht with ht | ht <;> cases hw : s.waker <;> simp [rank, pollsBefore, ht, hs, hw]
  · simp [rank, pollsAfter, ht, hresults, hs]

/-- Before the trigger locks the state, the first poll goes on. -/
theorem Inv.first_progress {s : State} (h : Inv s)
    (ht : s.trigger = .receiving ∨ s.trigger = .locking) (hw : s.waker = none) :
    ∃ e s', e ≠ .spuriousPoll ∧ wakerFirst s e = true ∧ s.step e = some s' ∧
      rank s' < rank s := by
  obtain ⟨-, hresults, hpolled⟩ := h.before ht
  cases hp : s.polling with
  | idle =>
    have hpolled : s.polled = false := by simpa [hp, hw] using hpolled
    refine ⟨.poll, { s with polling := .locking, polled := true, woken := false }, by simp,
      by simp [wakerFirst], by simp [State.step, State.canPoll, hp, hresults, hpolled], ?_⟩
    rcases ht with ht | ht <;> simp [rank, pollsBefore, ht, hp, hw]
  | locking =>
    have hlock : s.lock = none :=
      h.lock_eq_none hp (by rcases ht with ht | ht <;> simp [ht])
    refine ⟨.pollLock, { s with lock := some .future, polling := .locked }, by simp,
      by simp [wakerFirst], by simp [State.step, hp, hlock], ?_⟩
    rcases ht with ht | ht <;> simp [rank, pollsBefore, ht, hp, hw]
  | locked =>
    exact ⟨.pollBody, s.pollBody, by simp, by simp [wakerFirst], by simp [State.step, hp],
      h.rank_pollBody hp⟩

/-- After the trigger has unlocked the state, the poll that was woken goes on. -/
theorem Inv.last_progress {s : State} (h : Inv s) (ht : s.trigger = .done)
    (hr : s.results = []) :
    ∃ e s', e ≠ .spuriousPoll ∧ wakerFirst s e = true ∧ s.step e = some s' ∧
      rank s' < rank s := by
  have hwoken : s.woken = true ∨ s.polling ≠ .idle := by
    obtain ⟨-, -, hwoken⟩ | ⟨-, hresults, -⟩ := h.done ht
    · exact hwoken
    · simp [hr] at hresults
  cases hp : s.polling with
  | idle =>
    have hwoken : s.woken = true := by simpa [hp] using hwoken
    refine ⟨.poll, { s with polling := .locking, polled := true, woken := false }, by simp,
      by simp [wakerFirst], by simp [State.step, State.canPoll, hp, hr, hwoken], ?_⟩
    simp [rank, pollsAfter, ht, hp, hr]
  | locking =>
    have hlock : s.lock = none := h.lock_eq_none hp (by simp [ht])
    refine ⟨.pollLock, { s with lock := some .future, polling := .locked }, by simp,
      by simp [wakerFirst], by simp [State.step, hp, hlock], ?_⟩
    simp [rank, pollsAfter, ht, hp, hr]
  | locked =>
    exact ⟨.pollBody, s.pollBody, by simp, by simp [wakerFirst], by simp [State.step, hp],
      h.rank_pollBody hp⟩

/-- Somebody can go on, and comes closer to the end. -/
theorem Inv.progress {s : State} (h : Inv s) (hr : s.results = []) :
    ∃ e s', e ≠ .spuriousPoll ∧ wakerFirst s e = true ∧ s.step e = some s' ∧
      rank s' < rank s := by
  cases ht : s.trigger with
  | receiving =>
    cases hw : s.waker with
    | none => exact h.first_progress (.inl ht) hw
    | some w =>
      refine ⟨.receive, { s with trigger := .locking }, by simp, by simp [wakerFirst],
        by simp [State.step, ht], ?_⟩
      simp [rank, pollsBefore, ht]
  | locking =>
    cases hw : s.waker with
    | none => exact h.first_progress (.inr ht) hw
    | some w =>
      rcases h.lock_cases with ⟨hlock, -⟩ | hp | hl
      · refine ⟨.triggerLock,
          { s with lock := some .trigger, data := some message, trigger := .spinning }, by simp,
          by simp [wakerFirst, hw], by simp [State.step, ht, hlock], ?_⟩
        simp only [rank, ht]
        omega
      · exact ⟨.pollBody, s.pollBody, by simp, by simp [wakerFirst], by simp [State.step, hp],
          h.rank_pollBody hp⟩
      · simp [ht] at hl
  | spinning =>
    obtain ⟨w, hw⟩ := Option.ne_none_iff_exists'.mp (h.spinning ht).1
    refine ⟨.spin, s.spin, by simp, by simp [wakerFirst], by simp [State.step, ht], ?_⟩
    simp [State.spin, hw, rank, ht]
  | woke =>
    refine ⟨.triggerUnlock, { s with lock := none, trigger := .done }, by simp,
      by simp [wakerFirst], by simp [State.step, ht], ?_⟩
    simp only [rank, ht]
    have hle := pollsAfter_le { s with lock := none, trigger := .done }
    omega
  | done => exact h.last_progress ht hr

theorem Inv.results {s : State} (h : Inv s) :
    s.results = [] ∨ s.results = [some "Hello from the outside"] := by
  cases ht : s.trigger with
  | receiving => exact .inl (h.before (.inl ht)).2.1
  | locking => exact .inl (h.before (.inr ht)).2.1
  | spinning => exact .inl (h.spinning ht).2.2
  | woke => exact .inl (h.woke ht).2.1
  | done =>
    obtain ⟨-, hresults, -⟩ | ⟨-, hresults, -⟩ := h.done ht
    · exact .inl hresults
    · exact .inr hresults

/-- As long as no poll has returned the data, the steps of `Inv.progress` lead to one that
does. -/
theorem Inv.completes {s : State} (h : Inv s) :
    ∃ es s', .spuriousPoll ∉ es ∧ run State.step s es = some s' ∧
      s'.results = [some "Hello from the outside"] := by
  generalize hn : rank s = n
  induction n using Nat.strong_induction_on generalizing s with
  | _ n ih =>
    rcases h.results with hr | hr
    · obtain ⟨e, t, he, hok, ht, hlt⟩ := h.progress hr
      obtain ⟨es, s', hes, hrun, hs'⟩ := ih (rank t) (hn ▸ hlt) (h.step hok ht) rfl
      refine ⟨e :: es, s', ?_, run_cons_eq_some.mpr ⟨t, ht, hrun⟩, hs'⟩
      rw [List.mem_cons, not_or]
      exact ⟨he.symm, hes⟩
    · exact ⟨[], s, List.not_mem_nil, rfl, hr⟩

theorem Inv.sound {s : State} (h : Inv s) : Sound s where
  waker ht := (h.spinning ht).1
  outstanding hdata hr := by
    cases ht : s.trigger with
    | receiving => exact absurd (h.before (.inl ht)).1 hdata
    | locking => exact absurd (h.before (.inr ht)).1 hdata
    | spinning => simp
    | woke =>
      obtain ⟨-, -, hnoticed⟩ := h.woke ht
      exact hnoticed.imp_right fun hp => .inr (.inl (by simp [hp]))
    | done =>
      obtain ⟨-, -, hnoticed⟩ | ⟨hnone, -, -⟩ := h.done ht
      · exact hnoticed.imp_right fun hp => .inr (.inl hp)
      · exact absurd hnone hdata
  once := h.results
  progress hr := by
    obtain ⟨e, s', he, -, hs', hlt⟩ := h.progress hr
    exact ⟨e, s', he, hs', fun heq => by simp [heq] at hlt⟩
  completes := h.completes

/-! ### The trigger comes first -/

/-- The trigger holds the mutex and spins for a waker that no poll can leave there. -/
structure Stuck (s : State) : Prop where
  lock : s.lock = some .trigger
  trigger : s.trigger = .spinning
  waker : s.waker = none
  polling : s.polling ≠ .locked
  results : s.results = []

theorem Stuck.step {s s' : State} {e : Event} (h : Stuck s) (hs : s.step e = some s') :
    Stuck s' := by
  obtain ⟨hlock, ht, hw, hp, hr⟩ := h
  cases e <;> simp only [State.step, Option.ite_none_right_eq_some, Option.some_inj] at hs <;>
    obtain ⟨hc, rfl⟩ := hs
  case poll => exact ⟨hlock, ht, hw, by simp, hr⟩
  case spuriousPoll => exact ⟨hlock, ht, hw, by simp, hr⟩
  case pollLock => simp [hlock] at hc
  case pollBody => exact absurd hc hp
  case receive => simp [ht] at hc
  case triggerLock => simp [ht] at hc
  case spin =>
    have heq : s.spin = s := by simp [State.spin, hw]
    rw [heq]
    exact ⟨hlock, ht, hw, hp, hr⟩
  case triggerUnlock => simp [ht] at hc

/-- **The deadlock.**  A trigger that locks the state before a poll has left its waker
spins for ever, and no poll completes. -/
theorem spins_forever {s t s' : State} (h : Inv s) (hw : wakerFirst s .triggerLock = false)
    (ht : s.step .triggerLock = some t) (hs : Reachable State.step t s') : Stuck s' := by
  refine hs.invariant ?_ fun _ _ _ _ hu he => hu.step he
  simp only [State.step, Option.ite_none_right_eq_some, Option.some_inj] at ht
  obtain ⟨⟨htrigger, hlock⟩, rfl⟩ := ht
  have hfuture := h.future_lock
  rw [hlock] at hfuture
  exact ⟨rfl, rfl, by simpa [wakerFirst] using hw, by simpa using hfuture,
    (h.before (.inr htrigger)).2.1⟩

/-- **The condition is exact.**  A run is sound in all its states iff a poll has left its
waker when the trigger locks the state. -/
theorem waker_sound_iff (es : List Event) :
    Along State.step Sound .new es ↔
      Meets State.step (fun s e => wakerFirst s e = true) .new es := by
  refine along_iff_meets (fun _ h => h.sound) (fun _ _ _ h hok hs => h.step hok hs) ?_ Inv.new
  intro s e t h hbad hs hsound
  rw [Bool.not_eq_true] at hbad
  have he : e = .triggerLock := by
    by_contra hne
    simp [wakerFirst, hne] at hbad
  subst he
  have hstuck := spins_forever h hbad hs (.refl t)
  exact hsound.waker hstuck.trigger hstuck.waker

/-- The trigger gets the message and the mutex before the first poll: from then on it
spins, and the first poll waits for the mutex. -/
theorem trigger_first : ¬ ∀ es, Along State.step Sound .new es := by
  intro hall
  have hrun : (run State.step .new [.receive, .triggerLock, .poll]).map
      (fun s => (s.trigger, s.waker)) = some (.spinning, none) := by decide
  obtain ⟨s, hs, hfacts⟩ := Option.map_eq_some_iff.mp hrun
  rw [Prod.mk.injEq] at hfacts
  exact ((hall [.receive, .triggerLock, .poll]).final hs).waker hfacts.1 hfacts.2

end RemoteWaker
