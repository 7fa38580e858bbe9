/-
Futures that share a counter (`14-sharing-data-between-futures/src/main.rs`).

A `CounterFuture` tries to lock the data each time it is polled and performs at most one
operation in a poll; `count` waits for the lock in each round of its loop.  A step is what
one party does between two points at which another may come in: the counter is read in one
step and written in another.  Who of those that wait is handed the lock is left open.

* `State.step` — any number of parties of both kinds;
* `Tally` — what the parties do, an operation at a time;
* `State.Inv` — the lock keeps the parties apart, and nobody sleeps without a wake-up; every
  run of the parties is one of the tally.
-/
import AsyncRust.Lists
import AsyncRust.Runs
import Mathlib.Algebra.BigOperators.Group.List.Basic
import Mathlib.Algebra.Order.BigOperators.Group.List
import Mathlib.Algebra.Order.Ring.Abs
import Mathlib.Data.List.Nodup
import Mathlib.Tactic.Ring

namespace SharedCounter

open Runs Lists

/-! ### The program -/

inductive CounterType where
  | increment
  | decrement
  deriving DecidableEq, Repr

/-- `SharedData::increment` and `SharedData::decrement`, on the counter that was read; an
overflow, which panics in a debug build, wraps. -/
def CounterType.apply (counter : Int32) : CounterType → Int32
  | increment => counter + 1
  | decrement => counter - 1

/-- A `CounterFuture`, or a task of `count` with its number of rounds. -/
inductive Body where
  | counterFuture
  | count (rounds : ℕ)
  deriving DecidableEq, Repr

inductive Phase where
  /-- No poll has been made, or the last one has returned `Pending`. -/
  | suspended
  /-- At the head of the `for` loop. -/
  | looping
  /-- `lock().await` has returned `Pending`. -/
  | waiting
  | locked
  | loaded (counter : Int32)
  | stored
  /-- The guard is dropped. -/
  | released
  | returned (value : ℕ)
  deriving DecidableEq, Repr

/-- `count` is the field of that name, or the rounds of the loop that are over; `woken`
is a wake-up that no poll has answered yet.  Nothing reads `completed`, the number of
operations that the party has performed. -/
structure Party where
  body : Body
  counterType : CounterType
  count : ℕ
  phase : Phase
  woken : Bool
  completed : ℕ
  deriving DecidableEq, Repr

/-- A party that has been spawned and not yet polled. -/
def Party.new (body : Body) (counterType : CounterType) : Party :=
  ⟨body, counterType, 0, .suspended, true, 0⟩

/-- The counter with its mutex: `holder` has the lock or is handed it, `waiters` are the
tasks that have left their wakers. -/
structure State where
  counter : Int32
  holder : Option ℕ
  waiters : List ℕ
  parties : List Party
  deriving DecidableEq, Repr

/-- A party goes on; or it drops its guard, and `next` is handed the lock. -/
inductive Event where
  | turn (i : ℕ)
  | drop (i : ℕ) (next : Option ℕ)
  deriving DecidableEq, Repr

namespace State

def new (parties : List Party) : State := ⟨0, none, [], parties⟩

def update (s : State) (i : ℕ) (p : Party) : State := { s with parties := s.parties.set i p }

/-- A poll of a `CounterFuture` as far as `try_lock`. -/
def tryLock (s : State) (i : ℕ) (p : Party) : State :=
  if s.holder = none then
    { s with holder := some i }.update i { p with phase := .locked, woken := false }
  else s.update i { p with woken := true }

/-- A poll of `lock()`. -/
def lock (s : State) (i : ℕ) (p : Party) : State :=
  if s.holder = none ∨ s.holder = some i then
    { s with holder := some i }.update i { p with phase := .locked, woken := false }
  else
    { s with waiters := if i ∈ s.waiters then s.waiters else s.waiters ++ [i] }.update i
      { p with phase := .waiting, woken := false }

def turn (s : State) (i : ℕ) (p : Party) : Option State :=
  match p.phase with
  | .suspended =>
    match p.body with
    | .counterFuture => some (s.tryLock i p)
    | .count _ => some (s.update i { p with phase := .looping, woken := false })
  | .looping =>
    match p.body with
    | .counterFuture => none
    | .count rounds =>
      if p.count < rounds then some (s.lock i p)
      else some (s.update i { p with phase := .returned rounds })
  | .waiting =>
    match p.body with
    | .counterFuture => none
    | .count _ => some (s.lock i p)
  | .locked => some (s.update i { p with phase := .loaded s.counter })
  | .loaded counter =>
    some ({ s with counter := p.counterType.apply counter }.update i
      { p with phase := .stored, completed := p.completed + 1 })
  | .stored => none
  | .released =>
    match p.body with
    | .counterFuture =>
      if p.count + 1 < 3 then
        some (s.update i { p with count := p.count + 1, phase := .suspended, woken := true })
      else some (s.update i { p with count := p.count + 1, phase := .returned (p.count + 1) })
    | .count _ => some (s.update i { p with count := p.count + 1, phase := .looping })
  | .returned _ => none

/-- `drop(guard)`: a waiting task is handed the lock and woken, if there is one. -/
def drop (s : State) (i : ℕ) (p : Party) (next : Option ℕ) : Option State :=
  let s' := s.update i { p with phase := .released }
  match next with
  | none => if s.waiters = [] then some { s' with holder := none } else none
  | some j =>
    if j ∈ s.waiters then
      s'.parties[j]?.map fun q =>
        { s' with holder := some j, waiters := s.waiters.erase j }.update j { q with woken := true }
    else none

def step (s : State) : Event → Option State
  | .turn i => s.parties[i]?.bind fun p => s.turn i p
  | .drop i next =>
    s.parties[i]?.bind fun p => if p.phase = .stored then s.drop i p next else none

end State

/-! ### What the parties do -/

/-- The effect of an operation on the counter. -/
def CounterType.sign : CounterType → ℤ
  | increment => 1
  | decrement => -1

/-- A counter and, for each party, what it does and how often it has. -/
structure Tally where
  value : ℤ
  done : List (CounterType × ℕ)

namespace Tally

def new (types : List CounterType) : Tally := ⟨0, types.map fun type => (type, 0)⟩

/-- Party `i` performs one of its three operations. -/
def step (t : Tally) (i : ℕ) : Option Tally :=
  t.done[i]?.bind fun (type, n) =>
    if n < 3 then some ⟨t.value + type.sign, t.done.set i (type, n + 1)⟩ else none

/-- The increments minus the decrements. -/
def total (done : List (CounterType × ℕ)) : ℤ := (done.map fun d => d.1.sign * (d.2 : ℤ)).sum

structure Inv (parties : ℕ) (t : Tally) : Prop where
  length : t.done.length = parties
  value : t.value = total t.done
  three : ∀ d ∈ t.done, d.2 ≤ 3

variable {t t' : Tally} {parties : ℕ}

theorem inv_new (types : List CounterType) : (new types).Inv types.length where
  length := List.length_map ..
  value := by
    simp [new, total, Function.comp_def]
  three d hd := by
    obtain ⟨type, -, rfl⟩ := List.mem_map.mp hd
    exact Nat.zero_le _

theorem total_set {done : List (CounterType × ℕ)} {i : ℕ} {d d' : CounterType × ℕ}
    (hd : done[i]? = some d) :
    total (done.set i d') = total done + (d'.1.sign * (d'.2 : ℤ) - d.1.sign * (d.2 : ℤ)) := by
  obtain ⟨hi, rfl⟩ := List.getElem?_eq_some_iff.mp hd
  rw [total, total, List.map_set, List.sum_set', dif_pos (by simpa using hi), List.getElem_map]
  ring

theorem Inv.step (h : t.Inv parties) {i : ℕ} (hstep : t.step i = some t') : t'.Inv parties := by
  obtain ⟨⟨type, n⟩, hd, hn⟩ := Option.bind_eq_some_iff.mp hstep
  simp only at hn
  split at hn
  case isFalse => cases hn
  case isTrue hlt =>
    cases hn
    refine ⟨(List.length_set ..).trans h.length, ?_, fun d hd' => ?_⟩
    · rw [total_set hd, h.value]
      push_cast
      ring
    · rcases List.mem_or_eq_of_mem_set hd' with hmem | rfl
      · exact h.three d hmem
      · exact hlt

theorem abs_total_le {done : List (CounterType × ℕ)} (h : ∀ d ∈ done, d.2 ≤ 3) :
    |total done| ≤ 3 * done.length := by
  induction done with
  | nil => rfl
  | cons d done ih =>
    obtain ⟨hd, hdone⟩ := List.forall_mem_cons.mp h
    have hone : |d.1.sign * (d.2 : ℤ)| ≤ 3 := by
      rw [abs_mul, Nat.abs_cast]
      cases d.1 <;> simpa [CounterType.sign] using hd
    have hsum : total (d :: done) = d.1.sign * (d.2 : ℤ) + total done := List.sum_cons
    calc |total (d :: done)| ≤ |d.1.sign * (d.2 : ℤ)| + |total done| := hsum ▸ abs_add_le _ _
      _ ≤ 3 + 3 * done.length := add_le_add hone (ih hdone)
      _ = 3 * (d :: done).length := by push_cast [List.length_cons]; ring

/-- Three operations a party keep the counter in these bounds. -/
theorem Inv.bounded (h : t.Inv parties) : |t.value| ≤ 3 * parties := by
  rw [h.value, ← h.length]
  exact abs_total_le h.three

end Tally

/-! ### Moves -/

namespace State

variable {s s' : State} {i j : ℕ} {p q : Party} {e : Event}

/-- What a step of party `i` can do. -/
inductive Move (s : State) (i : ℕ) (p : Party) : State → Prop
  | started {rounds : ℕ} (hbody : p.body = .count rounds) (hphase : p.phase = .suspended) :
      Move s i p (s.update i { p with phase := .looping, woken := false })
  | refused (hphase : p.phase = .suspended) (hheld : s.holder ≠ none) :
      Move s i p (s.update i { p with woken := true })
  | acquired (hphase : p.phase = .suspended ∧ s.holder = none ∨
        ((∃ rounds, p.body = .count rounds ∧ p.count < rounds) ∧ p.phase = .looping ∨
          p.phase = .waiting) ∧ (s.holder = none ∨ s.holder = some i)) :
      Move s i p
        ({ s with holder := some i }.update i { p with phase := .locked, woken := false })
  | queued (hphase : (∃ rounds, p.body = .count rounds ∧ p.count < rounds) ∧
        p.phase = .looping ∨ p.phase = .waiting) (hheld : s.holder ≠ none)
      (hother : s.holder ≠ some i) :
      Move s i p
        ({ s with waiters := if i ∈ s.waiters then s.waiters else s.waiters ++ [i] }.update i
          { p with phase := .waiting, woken := false })
  | loaded (hphase : p.phase = .locked) :
      Move s i p (s.update i { p with phase := .loaded s.counter })
  | stored {counter : Int32} (hphase : p.phase = .loaded counter) :
      Move s i p ({ s with counter := p.counterType.apply counter }.update i
        { p with phase := .stored, completed := p.completed + 1 })
  | freed (hphase : p.phase = .stored) (hnobody : s.waiters = []) :
      Move s i p ({ s with holder := none }.update i { p with phase := .released })
  | handed {j : ℕ} {q : Party} (hphase : p.phase = .stored) (hj : j ∈ s.waiters)
      (hq : (s.update i { p with phase := .released }).parties[j]? = some q) :
      Move s i p ({ s.update i { p with phase := .released } with
        holder := some j, waiters := s.waiters.erase j }.update j { q with woken := true })
  | yielded (hbody : p.body = .counterFuture) (hphase : p.phase = .released)
      (hcount : p.count + 1 < 3) :
      Move s i p
        (s.update i { p with count := p.count + 1, phase := .suspended, woken := true })
  | ready (hbody : p.body = .counterFuture) (hphase : p.phase = .released)
      (hcount : ¬ p.count + 1 < 3) :
      Move s i p (s.update i { p with count := p.count + 1, phase := .returned (p.count + 1) })
  | looped {rounds : ℕ} (hbody : p.body = .count rounds) (hphase : p.phase = .released) :
      Move s i p (s.update i { p with count := p.count + 1, phase := .looping })
  | finished {rounds : ℕ} (hbody : p.body = .count rounds) (hphase : p.phase = .looping)
      (hcount : ¬ p.count < rounds) :
      Move s i p (s.update i { p with phase := .returned rounds })

theorem move_lock (hphase : (∃ rounds, p.body = .count rounds ∧ p.count < rounds) ∧
    p.phase = .looping ∨ p.phase = .waiting) : Move s i p (s.lock i p) := by
  rw [lock]
  split
  case isTrue hholder => exact .acquired (.inr ⟨hphase, hholder⟩)
  case isFalse hholder =>
    obtain ⟨hheld, hother⟩ := not_or.mp hholder
    exact .queued hphase hheld hother

theorem move_tryLock (hphase : p.phase = .suspended) : Move s i p (s.tryLock i p) := by
  rw [tryLock]
  split
  case isTrue hfree => exact .acquired (.inl ⟨hphase, hfree⟩)
  case isFalse hheld => exact .refused hphase hheld

theorem move_of_turn (h : s.turn i p = some s') : Move s i p s' := by
  unfold turn at h
  split at h
  case h_1 hphase =>
    split at h
    case h_1 hbody => exact Option.some_inj.mp h ▸ move_tryLock hphase
    case h_2 hbody => exact Option.some_inj.mp h ▸ .started hbody hphase
  case h_2 hphase =>
    split at h
    case h_1 => cases h
    case h_2 rounds hbody =>
      split at h
      case isTrue hcount =>
        exact Option.some_inj.mp h ▸ move_lock (.inl ⟨⟨rounds, hbody, hcount⟩, hphase⟩)
      case isFalse hcount => exact Option.some_inj.mp h ▸ .finished hbody hphase hcount
  case h_3 hphase =>
    split at h
    case h_1 => cases h
    case h_2 => exact Option.some_inj.mp h ▸ move_lock (.inr hphase)
  case h_4 hphase => exact Option.some_inj.mp h ▸ .loaded hphase
  case h_5 hphase => exact Option.some_inj.mp h ▸ .stored hphase
  case h_6 => cases h
  case h_7 hphase =>
    split at h
    case h_1 hbody =>
      split at h
      case isTrue hcount => exact Option.some_inj.mp h ▸ .yielded hbody hphase hcount
      case isFalse hcount => exact Option.some_inj.mp h ▸ .ready hbody hphase hcount
    case h_2 hbody => exact Option.some_inj.mp h ▸ .looped hbody hphase
  case h_8 => cases h

theorem step_cases (h : s.step e = some s') :
    ∃ i p, s.parties[i]? = some p ∧ Move s i p s' := by
  cases e with
  | turn i =>
    obtain ⟨p, hp, hturn⟩ := Option.bind_eq_some_iff.mp h
    exact ⟨i, p, hp, move_of_turn hturn⟩
  | drop i next =>
    obtain ⟨p, hp, hdrop⟩ := Option.bind_eq_some_iff.mp h
    refine ⟨i, p, hp, ?_⟩
    split at hdrop
    case isFalse => cases hdrop
    case isTrue hphase =>
      cases next with
      | none =>
        simp only [drop] at hdrop
        split at hdrop
        case isFalse => cases hdrop
        case isTrue hnobody =>
          cases hdrop
          exact .freed hphase hnobody
      | some j =>
        simp only [drop] at hdrop
        split at hdrop
        case isFalse => cases hdrop
        case isTrue hj =>
          obtain ⟨q, hq, rfl⟩ := Option.map_eq_some_iff.mp hdrop
          exact .handed hphase hj hq

end State

/-! ### The invariant -/

/-- The party has the guard. -/
def Phase.inSection : Phase → Bool
  | .locked => true
  | .loaded _ => true
  | .stored => true
  | .suspended => false
  | .looping => false
  | .waiting => false
  | .released => false
  | .returned _ => false

/-- Neither with the guard nor in line for it. -/
def Phase.isAside : Phase → Bool
  | .suspended => true
  | .looping => true
  | .released => true
  | .returned _ => true
  | _ => false

theorem Phase.outside_of_isAside {phase : Phase} (h : phase.isAside = true) :
    phase.inSection = false ∧ phase ≠ .waiting := by
  cases phase <;> simp_all [isAside, inSection]

/-- What the lock says of party `i`. -/
structure Party.Fits (holder : Option ℕ) (waiters : List ℕ) (counter : Int32) (i : ℕ)
    (p : Party) : Prop where
  holder_iff : holder = some i ↔ p.phase.inSection = true ∨ p.phase = .waiting ∧ i ∉ waiters
  queued : i ∈ waiters → p.phase = .waiting
  woken : p.phase = .suspended ∨ p.phase = .waiting ∧ i ∉ waiters → p.woken = true
  loaded : ∀ value, p.phase = .loaded value → counter = value

/-- How far a party can be in a phase. -/
def Phase.Bounds (count : ℕ) : Phase → Prop
  | .looping => count ≤ 3
  | .returned value => value = 3 ∧ count = 3
  | _ => count < 3

/-- The party counts its operations. -/
structure Party.Counts (p : Party) : Prop where
  body : p.body = .counterFuture ∨ p.body = .count 3
  completed : p.completed =
    p.count + if p.phase = .stored ∨ p.phase = .released then 1 else 0
  bounds : p.phase.Bounds p.count

/-- What a party may leave out of sight: the others' part of the state is as it was. -/
theorem Party.Fits.other {holder holder' : Option ℕ} {waiters waiters' : List ℕ}
    {counter counter' : Int32} {k : ℕ} {q : Party} (h : q.Fits holder waiters counter k)
    (hholder : holder' = some k ↔ holder = some k) (hwaiters : k ∈ waiters' ↔ k ∈ waiters)
    (hcounter : holder = some k → counter' = counter) : q.Fits holder' waiters' counter' k where
  holder_iff := by rw [hholder, hwaiters, h.holder_iff]
  queued hk := h.queued (hwaiters.mp hk)
  woken := by
    rw [hwaiters]
    exact h.woken
  loaded value hphase := by
    have hsection : q.phase.inSection = true := by rw [hphase]; rfl
    rw [hcounter (h.holder_iff.mpr (.inl hsection)), h.loaded value hphase]

namespace Party.Fits

variable {holder : Option ℕ} {waiters : List ℕ} {counter : Int32} {i : ℕ} {p : Party}

theorem holds (h : p.Fits holder waiters counter i) (hphase : p.phase.inSection = true) :
    holder = some i :=
  h.holder_iff.mpr (.inl hphase)

theorem not_queued (h : p.Fits holder waiters counter i) (hphase : p.phase ≠ .waiting) :
    i ∉ waiters :=
  fun hi => hphase (h.queued hi)

theorem not_holds (h : p.Fits holder waiters counter i) (hphase : p.phase.inSection = false)
    (hwaiting : p.phase ≠ .waiting) : holder ≠ some i := by
  rw [Ne, h.holder_iff, hphase]
  rintro (hsection | ⟨hphase, -⟩)
  · cases hsection
  · exact hwaiting hphase

theorem inside (hholder : holder = some i) (hwaiters : i ∉ waiters)
    (hphase : p.phase.inSection = true)
    (hloaded : ∀ value, p.phase = .loaded value → counter = value) :
    p.Fits holder waiters counter i where
  holder_iff := iff_of_true hholder (.inl hphase)
  queued hi := absurd hi hwaiters
  woken := by
    rintro (hp | ⟨hp, -⟩) <;> rw [hp] at hphase <;> cases hphase
  loaded := hloaded

theorem outside (hholder : holder ≠ some i) (hwaiters : i ∉ waiters)
    (hphase : p.phase.inSection = false) (hwaiting : p.phase ≠ .waiting)
    (hwoken : p.phase = .suspended → p.woken = true) : p.Fits holder waiters counter i where
  holder_iff := iff_of_false hholder (by simp [hphase, hwaiting])
  queued hi := absurd hi hwaiters
  woken := by
    rintro (hp | ⟨hp, -⟩)
    · exact hwoken hp
    · exact absurd hp hwaiting
  loaded value hp := by
    rw [hp] at hphase
    cases hphase

/-- A party that goes on without the guard. -/
theorem aside {p' : Party} (h : p.Fits holder waiters counter i)
    (hphase : p.phase.isAside = true) (hphase' : p'.phase.isAside = true)
    (hwoken : p'.phase = .suspended → p'.woken = true) : p'.Fits holder waiters counter i := by
  obtain ⟨hsection, hwaiting⟩ := Phase.outside_of_isAside hphase
  obtain ⟨hsection', hwaiting'⟩ := Phase.outside_of_isAside hphase'
  exact outside (h.not_holds hsection hwaiting) (h.not_queued hwaiting) hsection' hwaiting' hwoken

end Party.Fits

namespace State

variable {s s' : State} {i j : ℕ} {p p' q : Party} {e : Event} {types : List CounterType}

/-- The counter, and what each party has done. -/
def tally (s : State) : Tally :=
  ⟨s.counter.toInt, s.parties.map fun p => (p.counterType, p.completed)⟩

structure Inv (types : List CounterType) (s : State) : Prop where
  fits : ∀ (k : ℕ) (q : Party), s.parties[k]? = some q →
    q.Fits s.holder s.waiters s.counter k
  counts : ∀ (k : ℕ) (q : Party), s.parties[k]? = some q → q.Counts
  free : s.holder = none → s.waiters = []
  nodup : s.waiters.Nodup
  refines : Reachable Tally.step (.new types) s.tally

/-- A party that goes on, with what it changes of the shared state. -/
theorem Inv.update {holder : Option ℕ} {waiters : List ℕ} {counter : Int32} (h : s.Inv types)
    (hfits : p'.Fits holder waiters counter i) (hcounts : p'.Counts)
    (hholder : ∀ k ≠ i, holder = some k ↔ s.holder = some k)
    (hwaiters : ∀ k ≠ i, k ∈ waiters ↔ k ∈ s.waiters)
    (hcounter : ∀ k ≠ i, s.holder = some k → counter = s.counter)
    (hfree : holder = none → waiters = []) (hnodup : waiters.Nodup)
    (hrefines : Reachable Tally.step (.new types)
      (State.mk counter holder waiters (s.parties.set i p')).tally) :
    (State.mk counter holder waiters (s.parties.set i p')).Inv types where
  fits k q hq := by
    rcases getElem?_set_cases hq with ⟨rfl, rfl⟩ | ⟨hk, hq⟩
    · exact hfits
    · exact (h.fits k q hq).other (hholder k hk) (hwaiters k hk) (hcounter k hk)
  counts k q hq := by
    rcases getElem?_set_cases hq with ⟨rfl, rfl⟩ | ⟨hk, hq⟩
    · exact hcounts
    · exact h.counts k q hq
  free := hfree
  nodup := hnodup
  refines := hrefines

/-- A step that performs no operation. -/
theorem Inv.quiet {holder : Option ℕ} {waiters : List ℕ} (h : s.Inv types)
    (hp : s.parties[i]? = some p) (hfits : p'.Fits holder waiters s.counter i)
    (hcounts : p'.Counts) (htype : p'.counterType = p.counterType)
    (hcompleted : p'.completed = p.completed)
    (hholder : ∀ k ≠ i, holder = some k ↔ s.holder = some k)
    (hwaiters : ∀ k ≠ i, k ∈ waiters ↔ k ∈ s.waiters)
    (hfree : holder = none → waiters = []) (hnodup : waiters.Nodup) :
    (State.mk s.counter holder waiters (s.parties.set i p')).Inv types := by
  refine h.update hfits hcounts hholder hwaiters (fun _ _ _ => rfl) hfree hnodup ?_
  rw [tally, map_set_eq hp (by rw [htype, hcompleted])]
  exact h.refines

theorem apply_toInt {counter : Int32} {type : CounterType}
    (h : |counter.toInt + type.sign| < 2 ^ 31) :
    (type.apply counter).toInt = counter.toInt + type.sign := by
  obtain ⟨hlow, hhigh⟩ := abs_lt.mp h
  have hone : (1 : Int32).toInt = 1 := rfl
  cases type with
  | increment =>
    rw [CounterType.sign] at hlow hhigh ⊢
    rw [CounterType.apply, Int32.toInt_add, hone]
    exact Int.bmod_eq_of_le (by omega) (by omega)
  | decrement =>
    rw [CounterType.sign] at hlow hhigh ⊢
    rw [CounterType.apply, Int32.toInt_sub, hone]
    exact Int.bmod_eq_of_le (by omega) (by omega)

/-- A step that changes nothing of the shared state. -/
theorem Inv.alone (h : s.Inv types) (hp : s.parties[i]? = some p)
    (hfits : p'.Fits s.holder s.waiters s.counter i) (hcounts : p'.Counts)
    (htype : p'.counterType = p.counterType) (hcompleted : p'.completed = p.completed) :
    (s.update i p').Inv types :=
  h.quiet hp hfits hcounts htype hcompleted (fun _ _ => Iff.rfl) (fun _ _ => Iff.rfl) h.free
    h.nodup

theorem Inv.tally (h : s.Inv types) : s.tally.Inv types.length :=
  h.refines.invariant (Tally.inv_new types) fun _ _ _ _ hinv hstep => hinv.step hstep

/-- The operation of a party is one of the tally. -/
theorem Inv.performed {counter : Int32} (h : s.Inv types) (hfew : 3 * types.length < 2 ^ 31)
    (hp : s.parties[i]? = some p) (hphase : p.phase = .loaded counter) :
    Reachable Tally.step (.new types) (State.mk (p.counterType.apply counter) s.holder s.waiters
      (s.parties.set i { p with phase := .stored, completed := p.completed + 1 })).tally := by
  obtain rfl : s.counter = counter := (h.fits i p hp).loaded counter hphase
  have hcounts := h.counts i p hp
  have hlt : p.completed < 3 := by
    have hbounds := hcounts.bounds
    have hcompleted := hcounts.completed
    rw [hphase] at hbounds hcompleted
    simp only [reduceCtorEq, or_self, if_false, Nat.add_zero] at hcompleted
    exact hcompleted ▸ hbounds
  have hstep : Tally.step s.tally i = some ⟨s.counter.toInt + p.counterType.sign,
      s.tally.done.set i (p.counterType, p.completed + 1)⟩ := by
    have hdone : s.tally.done[i]? = some (p.counterType, p.completed) := by
      rw [State.tally, List.getElem?_map, hp, Option.map_some]
    rw [Tally.step, hdone, Option.bind_some]
    exact if_pos hlt
  have hbounded := (h.tally.step hstep).bounded
  have hvalue := apply_toInt (hbounded.trans_lt (by exact_mod_cast hfew))
  have htally : (State.mk (p.counterType.apply s.counter) s.holder s.waiters
      (s.parties.set i { p with phase := .stored, completed := p.completed + 1 })).tally =
      ⟨s.counter.toInt + p.counterType.sign,
        s.tally.done.set i (p.counterType, p.completed + 1)⟩ := by
    rw [State.tally, hvalue, List.map_set]
    rfl
  rw [htally]
  exact h.refines.tail hstep

theorem rounds_eq {rounds : ℕ} (h : p.Counts) (hbody : p.body = .count rounds) : rounds = 3 := by
  rcases h.body with hfuture | hcount
  · cases hfuture.symm.trans hbody
  · exact (Body.count.inj (hcount.symm.trans hbody)).symm

/-- A party that may lock the data has an operation left. -/
theorem lt_of_locking (h : p.Counts) (hphase : p.phase = .suspended ∨
    (∃ rounds, p.body = .count rounds ∧ p.count < rounds) ∧ p.phase = .looping ∨
      p.phase = .waiting) : p.count < 3 ∧ p.completed = p.count := by
  have hbounds := h.bounds
  have hcompleted := h.completed
  rcases hphase with hphase | ⟨⟨rounds, hbody, hlt⟩, hphase⟩ | hphase
  · rw [hphase] at hbounds hcompleted
    exact ⟨hbounds, hcompleted⟩
  · rw [hphase] at hcompleted
    exact ⟨rounds_eq h hbody ▸ hlt, hcompleted⟩
  · rw [hphase] at hbounds hcompleted
    exact ⟨hbounds, hcompleted⟩

theorem Inv.acquired (h : s.Inv types) (hp : s.parties[i]? = some p)
    (hphase : p.phase = .suspended ∧ s.holder = none ∨
        ((∃ rounds, p.body = .count rounds ∧ p.count < rounds) ∧ p.phase = .looping ∨
          p.phase = .waiting) ∧ (s.holder = none ∨ s.holder = some i)) :
    ({ s with holder := some i }.update i { p with phase := .locked, woken := false }).Inv
      types := by
  have hfits := h.fits i p hp
  have hcounts := h.counts i p hp
  have hholder : s.holder = none ∨ s.holder = some i := by
    rcases hphase with ⟨-, hfree⟩ | ⟨-, hholder⟩
    · exact .inl hfree
    · exact hholder
  have hsection : p.phase.inSection = false := by
    rcases hphase with ⟨hphase, -⟩ | ⟨⟨-, hphase⟩ | hphase, -⟩ <;> rw [hphase] <;> rfl
  have hwaiters : i ∉ s.waiters := by
    rcases hholder with hfree | hmine
    · rw [h.free hfree]
      exact List.not_mem_nil
    · rcases hfits.holder_iff.mp hmine with hin | ⟨-, hwaiters⟩
      · cases hsection.symm.trans hin
      · exact hwaiters
  obtain ⟨hlt, hcompleted⟩ := lt_of_locking hcounts (hphase.imp And.left And.left)
  refine h.quiet hp (.inside rfl hwaiters rfl (by simp)) ⟨hcounts.body, hcompleted, hlt⟩ rfl rfl
    (fun k hk => ?_) (fun _ _ => Iff.rfl) (by simp) h.nodup
  rcases hholder with hholder | hholder <;> simp [hholder, Ne.symm hk]

theorem Inv.queued (h : s.Inv types) (hp : s.parties[i]? = some p)
    (hphase : (∃ rounds, p.body = .count rounds ∧ p.count < rounds) ∧ p.phase = .looping ∨
      p.phase = .waiting) (hheld : s.holder ≠ none) (hother : s.holder ≠ some i) :
    ({ s with waiters := if i ∈ s.waiters then s.waiters else s.waiters ++ [i] }.update i
      { p with phase := .waiting, woken := false }).Inv types := by
  have hcounts := h.counts i p hp
  obtain ⟨hlt, hcompleted⟩ := lt_of_locking hcounts (.inr hphase)
  set waiters := if i ∈ s.waiters then s.waiters else s.waiters ++ [i] with hwaiters
  have hmem : i ∈ waiters := by
    rw [hwaiters]
    split
    · assumption
    · exact List.mem_append_right _ List.mem_cons_self
  refine h.quiet hp ⟨iff_of_false hother (by simp [Phase.inSection, hmem]), fun _ => rfl,
    by simp [hmem], by simp⟩ ⟨hcounts.body, hcompleted, hlt⟩ rfl rfl (fun _ _ => Iff.rfl)
    (fun k hk => ?_) (fun hfree => absurd hfree hheld) ?_
  · rw [hwaiters]
    split
    · exact Iff.rfl
    · simp [hk]
  · rw [hwaiters]
    split
    · exact h.nodup
    case isFalse hnew =>
      refine List.nodup_append.mpr ⟨h.nodup, List.nodup_singleton i, fun a ha b hb => ?_⟩
      rw [List.mem_singleton.mp hb]
      exact fun heq => hnew (heq ▸ ha)

theorem Inv.handed (h : s.Inv types) (hp : s.parties[i]? = some p) (hphase : p.phase = .stored)
    (hj : j ∈ s.waiters)
    (hq : (s.update i { p with phase := .released }).parties[j]? = some q) :
    ({ s.update i { p with phase := .released } with
      holder := some j, waiters := s.waiters.erase j }.update j { q with woken := true }).Inv
        types := by
  have hfits := h.fits i p hp
  have hcounts := h.counts i p hp
  have hholds := hfits.holds (by rw [hphase]; rfl)
  have hwaiters := hfits.not_queued (by simp [hphase])
  have hne : j ≠ i := fun heq => hwaiters (heq ▸ hj)
  have hqs : s.parties[j]? = some q := by
    rcases getElem?_set_cases hq with ⟨heq, -⟩ | ⟨-, hq⟩
    · exact absurd heq hne
    · exact hq
  have hgone : j ∉ s.waiters.erase j := fun hmem => (h.nodup.mem_erase_iff.mp hmem).1 rfl
  have hwaiting := (h.fits j q hqs).queued hj
  have hcountsq := h.counts j q hqs
  show (State.mk s.counter (some j) (s.waiters.erase j)
    ((s.parties.set i { p with phase := .released }).set j { q with woken := true })).Inv types
  -- who has the lock next, who had it, and the others
  have hcases : ∀ {k : ℕ} {r : Party}, ((s.parties.set i { p with phase := .released }).set j
      { q with woken := true })[k]? = some r →
        k = j ∧ r = { q with woken := true } ∨ k = i ∧ r = { p with phase := .released } ∨
          k ≠ j ∧ k ≠ i ∧ s.parties[k]? = some r := by
    intro k r hr
    rcases getElem?_set_cases hr with hj | ⟨hkj, hr⟩
    · exact .inl hj
    · rcases getElem?_set_cases hr with hi | ⟨hki, hr⟩
      · exact .inr (.inl hi)
      · exact .inr (.inr ⟨hkj, hki, hr⟩)
  refine ⟨fun k r hr => ?_, fun k r hr => ?_, by simp, h.nodup.erase j, ?_⟩
  · rcases hcases hr with ⟨rfl, rfl⟩ | ⟨rfl, rfl⟩ | ⟨hkj, hki, hr⟩
    · exact ⟨iff_of_true rfl (.inr ⟨hwaiting, hgone⟩), fun _ => hwaiting, fun _ => rfl,
        fun value hvalue => by cases hwaiting.symm.trans hvalue⟩
    · exact .outside (by simpa using hne) (fun hmem => hwaiters (List.mem_of_mem_erase hmem)) rfl
        (by simp) (by simp)
    · refine (h.fits k r hr).other ?_ (List.mem_erase_of_ne hkj) fun _ => rfl
      simp [hholds, Ne.symm hkj, Ne.symm hki]
  · rcases hcases hr with ⟨rfl, rfl⟩ | ⟨rfl, rfl⟩ | ⟨-, -, hr⟩
    · exact ⟨hcountsq.body, hcountsq.completed, hcountsq.bounds⟩
    · have hcompleted := hcounts.completed
      have hbounds := hcounts.bounds
      rw [hphase] at hcompleted hbounds
      exact ⟨hcounts.body, hcompleted, hbounds⟩
    · exact h.counts k r hr
  · have hdone : (((s.parties.set i { p with phase := .released }).set j
        { q with woken := true }).map fun p => (p.counterType, p.completed)) =
          s.parties.map fun p => (p.counterType, p.completed) :=
      (map_set_eq hq (by rfl)).trans (map_set_eq hp (by rfl))
    rw [State.tally, hdone]
    exact h.refines

theorem Inv.move (h : s.Inv types) (hfew : 3 * types.length < 2 ^ 31)
    (hp : s.parties[i]? = some p) (hmove : Move s i p s') : s'.Inv types := by
  have hfits := h.fits i p hp
  have hcounts := h.counts i p hp
  have hcompleted := hcounts.completed
  have hbounds := hcounts.bounds
  cases hmove with
  | acquired hphase => exact h.acquired hp hphase
  | queued hphase hheld hother => exact h.queued hp hphase hheld hother
  | handed hphase hj hq => exact h.handed hp hphase hj hq
  | started hbody hphase =>
    rw [hphase] at hbounds hcompleted
    exact h.alone hp (hfits.aside (by rw [hphase]; rfl) rfl (by simp))
      ⟨hcounts.body, hcompleted, Nat.le_of_lt hbounds⟩ rfl rfl
  | refused hphase hheld =>
    exact h.alone hp (hfits.aside (by rw [hphase]; rfl) (by rw [hphase]; rfl) fun _ => rfl)
      ⟨hcounts.body, hcompleted, hbounds⟩ rfl rfl
  | loaded hphase =>
    rw [hphase] at hbounds hcompleted
    exact h.alone hp (.inside (hfits.holds (by rw [hphase]; rfl))
      (hfits.not_queued (by simp [hphase])) rfl fun value hvalue => Phase.loaded.inj hvalue)
      ⟨hcounts.body, hcompleted, hbounds⟩ rfl rfl
  | stored hphase =>
    have hholds := hfits.holds (by rw [hphase]; rfl)
    rw [hphase] at hbounds hcompleted
    refine h.update (.inside hholds (hfits.not_queued (by simp [hphase])) rfl (by simp))
      ⟨hcounts.body, congrArg (· + 1) hcompleted, hbounds⟩ (fun _ _ => Iff.rfl)
      (fun _ _ => Iff.rfl) (fun k hk hholder => ?_) h.free h.nodup (h.performed hfew hp hphase)
    exact absurd (Option.some_inj.mp (hholder.symm.trans hholds)) hk
  | freed hphase hnobody =>
    have hholds := hfits.holds (by rw [hphase]; rfl)
    rw [hphase] at hbounds hcompleted
    exact h.quiet hp (.outside (by simp) (hfits.not_queued (by simp [hphase])) rfl (by simp)
      (by simp)) ⟨hcounts.body, hcompleted, hbounds⟩ rfl rfl
      (fun k hk => by simp [hholds, Ne.symm hk]) (fun _ _ => Iff.rfl) (fun _ => hnobody) h.nodup
  | yielded hbody hphase hcount =>
    rw [hphase] at hbounds hcompleted
    exact h.alone hp (hfits.aside (by rw [hphase]; rfl) rfl fun _ => rfl)
      ⟨hcounts.body, hcompleted, hcount⟩ rfl rfl
  | ready hbody hphase hcount =>
    rw [hphase] at hbounds hcompleted
    have hthree : p.count + 1 = 3 := Nat.le_antisymm hbounds (Nat.le_of_not_lt hcount)
    exact h.alone hp (hfits.aside (by rw [hphase]; rfl) rfl (by simp))
      ⟨hcounts.body, hcompleted, hthree, hthree⟩ rfl rfl
  | looped hbody hphase =>
    rw [hphase] at hbounds hcompleted
    exact h.alone hp (hfits.aside (by rw [hphase]; rfl) rfl (by simp))
      ⟨hcounts.body, hcompleted, hbounds⟩ rfl rfl
  | finished hbody hphase hcount =>
    rw [hphase] at hbounds hcompleted
    obtain rfl := rounds_eq hcounts hbody
    have hthree : p.count = 3 := Nat.le_antisymm hbounds (Nat.le_of_not_lt hcount)
    exact h.alone hp (hfits.aside (by rw [hphase]; rfl) rfl (by simp))
      ⟨hcounts.body, hcompleted, rfl, hthree⟩ rfl rfl

/-! ### Runs -/

/-- A `CounterFuture` with count 0, or a task of `count(3, ..)`. -/
def Spawned (p : Party) : Prop :=
  p = .new .counterFuture p.counterType ∨ p = .new (.count 3) p.counterType

theorem inv_new {parties : List Party} (h : ∀ p ∈ parties, Spawned p) :
    (new parties).Inv (parties.map Party.counterType) where
  fits k q hq := by
    have hphase : q.phase = .suspended ∧ q.woken = true := by
      rcases h q (List.mem_of_getElem? hq) with hq | hq <;> rw [hq] <;> exact ⟨rfl, rfl⟩
    exact .outside (by simp [new]) List.not_mem_nil (by rw [hphase.1]; rfl) (by simp [hphase.1])
      fun _ => hphase.2
  counts k q hq := by
    rcases h q (List.mem_of_getElem? hq) with hq | hq <;> rw [hq]
    · exact ⟨.inl rfl, rfl, Nat.zero_lt_succ 2⟩
    · exact ⟨.inr rfl, rfl, Nat.zero_lt_succ 2⟩
  free _ := rfl
  nodup := List.nodup_nil
  refines := by
    have hstart : (new parties).tally = .new (parties.map Party.counterType) := by
      rw [tally, Tally.new, List.map_map]
      refine congrArg (Tally.mk 0) (List.map_congr_left fun p hp => ?_)
      rcases h p hp with hp | hp <;> rw [hp] <;> rfl
    rw [hstart]
    exact .refl _

theorem inv_of_reachable {parties : List Party} (h : ∀ p ∈ parties, Spawned p)
    (hfew : 3 * parties.length < 2 ^ 31) (hs : Reachable step (new parties) s) :
    s.Inv (parties.map Party.counterType) := by
  refine hs.invariant (inv_new h) fun _ _ _ _ hinv hstep => ?_
  obtain ⟨i, p, hp, hmove⟩ := step_cases hstep
  exact hinv.move (by simpa using hfew) hp hmove

/-- A poll that finds the lock taken leaves the counter and everybody's progress alone. -/
theorem turn_of_taken (hp : s.parties[i]? = some p)
    (hphase : p.phase = .suspended ∨ p.phase = .looping ∨ p.phase = .waiting)
    (hheld : s.holder ≠ none) (hother : s.holder ≠ some i) (hturn : s.turn i p = some s') :
    s'.counter = s.counter ∧ s'.holder = s.holder ∧
      (s'.parties.map fun p => (p.count, p.completed)) =
        s.parties.map fun p => (p.count, p.completed) := by
  cases move_of_turn hturn with
  | started => exact ⟨rfl, rfl, map_set_eq hp rfl⟩
  | refused => exact ⟨rfl, rfl, map_set_eq hp rfl⟩
  | queued => exact ⟨rfl, rfl, map_set_eq hp rfl⟩
  | finished => exact ⟨rfl, rfl, map_set_eq hp rfl⟩
  | acquired hacquired =>
    rcases hacquired with ⟨-, hfree⟩ | ⟨-, hfree | hmine⟩
    · exact absurd hfree hheld
    · exact absurd hfree hheld
    · exact absurd hmine hother
  | loaded hp' | stored hp' | freed hp' | handed hp' | yielded _ hp' | ready _ hp'
  | looped _ hp' => simp [hp'] at hphase

end State

end SharedCounter
