/-
The counting future (`8-basic-counting-future`).

It counts to its target, no faster than once in 50 ms, and wakes its own task at each poll
that does not complete it.  Times are nanoseconds; each poll says when it reads the clock.

* `counts_to_target` — the counts are 50 ms apart, the task is never left asleep, and the
  result is the target, which takes its time;
* `State.completes` — polls that come late enough complete it.
-/
import Mathlib.Algebra.Order.Ring.Int
import Mathlib.Tactic.Linarith
import AsyncRust.Runs

/-! ### The program -/

structure CountingFuture where
  target : ℕ
  current : ℕ
  lastWake : ℤ
  deriving DecidableEq, Repr

namespace CountingFuture

open Runs

def delay : ℤ := 50000000

def new (target : ℕ) (now : ℤ) : CountingFuture := ⟨target, 0, now - 2000000000⟩

/-- The lines that are printed. -/
inductive Line where
  | starting
  | polled (current : ℕ)
  | reached (target : ℕ)
  | finished (result : ℕ)
  deriving DecidableEq, Repr

/-- What a poll returns, whether it wakes the task, and what it prints. -/
structure Polled where
  future : CountingFuture
  ready : Option ℕ
  wakes : Bool
  lines : List Line
  deriving DecidableEq, Repr

/-- `poll`, which first reads the clock at `now`, and at `later` if it counts. -/
def poll (f : CountingFuture) (now later : ℤ) : Polled :=
  if now - f.lastWake < delay then ⟨f, none, true, []⟩
  else if f.current < f.target then
    ⟨{ f with current := f.current + 1, lastWake := later }, none, true, [.polled (f.current + 1)]⟩
  else ⟨f, some f.current, false, [.reached f.target]⟩

/-- The task of `main`. -/
structure State where
  future : CountingFuture
  scheduled : Bool
  result : Option ℕ
  printed : List Line
  clock : ℤ
  /-- When the future has counted. -/
  counted : List ℤ
  deriving DecidableEq, Repr

/-- The runtime polls the task. -/
structure Event where
  now : ℤ
  later : ℤ
  deriving DecidableEq, Repr

namespace State

def start (target : ℕ) (now : ℤ) : State := ⟨.new target now, true, none, [.starting], now, []⟩

/-- A task is polled if it has been woken; the clock does not go back. -/
def step (s : State) (e : Event) : Option State :=
  if s.scheduled = true ∧ s.result = none ∧ s.clock ≤ e.now ∧ e.now ≤ e.later then
    let polled := s.future.poll e.now e.later
    some
      { future := polled.future
        scheduled := polled.wakes
        result := polled.ready
        printed := s.printed ++ polled.lines ++ polled.ready.toList.map .finished
        clock := e.later
        counted :=
          if s.future.current < polled.future.current then s.counted ++ [e.later] else s.counted }
  else none

/-! ### What every run keeps -/

/-- What is printed when the future has counted to `current`. -/
def lines (current : ℕ) (result : Option ℕ) : List Line :=
  .starting :: (List.range current).map (fun n => .polled (n + 1)) ++
    result.toList.flatMap fun n => [.reached n, .finished n]

structure Sound (target : ℕ) (now : ℤ) (s : State) : Prop where
  target_eq : s.future.target = target
  current_le : s.future.current ≤ target
  current_eq : s.future.current = s.counted.length
  printed : s.printed = lines s.future.current s.result
  apart : s.counted.Pairwise fun t t' => t + delay ≤ t'
  counted_le : ∀ t ∈ s.counted, t ≤ s.future.lastWake
  lastWake_le : s.future.lastWake ≤ s.clock
  started : now ≤ s.clock
  takes : s.counted ≠ [] → now + delay * s.counted.length ≤ s.future.lastWake + delay
  awake : s.result = none → s.scheduled = true
  result : ∀ n, s.result = some n → n = target ∧ s.future.current = target ∧
    now + delay * target ≤ s.clock

variable {target : ℕ} {now : ℤ} {s s' : State} {e : Event}

theorem sound_start (target : ℕ) (now : ℤ) : Sound target now (start target now) where
  target_eq := rfl
  current_le := Nat.zero_le _
  current_eq := rfl
  printed := rfl
  apart := .nil
  counted_le := List.forall_mem_nil _
  lastWake_le := sub_le_self now (by decide)
  started := le_refl _
  takes h := absurd rfl h
  awake _ := rfl
  result _ h := by cases h

/-- What a poll does: it comes too early, it counts, or it completes the future. -/
inductive StepCase (s : State) (e : Event) (s' : State) : Prop
  | early (hlt : e.now < s.future.lastWake + delay)
    (hs : s' = { s with scheduled := true, clock := e.later })
  | counts (hle : s.future.lastWake + delay ≤ e.now) (hcurrent : s.future.current < s.future.target)
    (hs : s' = { s with
      future := { s.future with current := s.future.current + 1, lastWake := e.later }
      scheduled := true, printed := s.printed ++ [.polled (s.future.current + 1)]
      clock := e.later, counted := s.counted ++ [e.later] })
  | completes (hle : s.future.lastWake + delay ≤ e.now)
    (hcurrent : s.future.target ≤ s.future.current)
    (hs : s' = { s with
      scheduled := false, result := some s.future.current
      printed := s.printed ++ [.reached s.future.target, .finished s.future.current]
      clock := e.later })

theorem step_cases (h : s.step e = some s') :
    s.result = none ∧ s.clock ≤ e.now ∧ e.now ≤ e.later ∧ StepCase s e s' := by
  unfold step at h
  split at h
  · rename_i henabled
    obtain ⟨-, hresult, hclock, hlater⟩ := henabled
    refine ⟨hresult, hclock, hlater, ?_⟩
    cases h
    obtain ⟨future, scheduled, result, printed, clock, counted⟩ := s
    obtain rfl : result = none := hresult
    by_cases hearly : e.now - future.lastWake < delay
    · exact .early (by linarith) (by simp [poll, hearly])
    · by_cases hcurrent : future.current < future.target
      · exact .counts (by linarith) hcurrent (by simp [poll, hearly, hcurrent])
      · exact .completes (by linarith) (Nat.le_of_not_lt hcurrent)
          (by simp [poll, hearly, hcurrent])
  · cases h

/-- The next count, or the end, does not come before its time. -/
theorem Sound.due (hs : s.Sound target now) :
    now + delay * s.counted.length ≤ max s.clock (s.future.lastWake + delay) := by
  by_cases hnil : s.counted = []
  · rw [hnil]
    simpa using .inl hs.started
  · exact le_max_of_le_right (hs.takes hnil)

theorem Sound.step (hs : s.Sound target now) (h : s.step e = some s') : s'.Sound target now := by
  obtain ⟨hresult, hclock, hlater, hcase⟩ := step_cases h
  have hnow : s.clock ≤ e.later := hclock.trans hlater
  cases hcase with
  | early hlt hs' =>
    subst hs'
    exact
      { hs with
        lastWake_le := hs.lastWake_le.trans hnow
        started := hs.started.trans hnow
        awake := fun _ => rfl
        result := fun n hn => by
          obtain ⟨htarget, hcurrent, htime⟩ := hs.result n hn
          exact ⟨htarget, hcurrent, htime.trans hnow⟩ }
  | counts hle hcurrent hs' =>
    subst hs'
    have hlast : ∀ t ∈ s.counted, t + delay ≤ e.later := fun t ht => by
      have hwake := hs.counted_le t ht
      linarith
    refine ⟨hs.target_eq, hs.target_eq ▸ hcurrent, ?_, ?_, ?_, ?_, le_refl _,
      hs.started.trans hnow, fun _ => ?_, fun _ => rfl, fun n hn => ?_⟩
    · rw [List.length_append, hs.current_eq, List.length_singleton]
    · show s.printed ++ [.polled (s.future.current + 1)] = lines (s.future.current + 1) s.result
      rw [hs.printed, hresult]
      simp [lines, List.range_succ]
    · refine List.pairwise_append.mpr ⟨hs.apart, List.pairwise_singleton _ _, fun t ht t' ht' => ?_⟩
      rw [List.mem_singleton.mp ht']
      exact hlast t ht
    · intro t ht
      rcases List.mem_append.mp ht with ht | ht
      · have hpos : 0 ≤ delay := by decide
        have := hlast t ht
        show t ≤ e.later
        linarith
      · exact le_of_eq (List.mem_singleton.mp ht)
    · have hdue := hs.due.trans (max_le hclock hle)
      show now + delay * (s.counted ++ [e.later]).length ≤ e.later + delay
      rw [List.length_append, List.length_singleton]
      push_cast
      linarith
    · rw [hresult] at hn
      cases hn
  | completes hle hcurrent hs' =>
    subst hs'
    have hreached : s.future.current = target :=
      Nat.le_antisymm hs.current_le (hs.target_eq ▸ hcurrent)
    refine ⟨hs.target_eq, hs.current_le, hs.current_eq, ?_, hs.apart, hs.counted_le,
      hs.lastWake_le.trans hnow, hs.started.trans hnow, hs.takes, fun h => (by cases h), ?_⟩
    · show s.printed ++ _ = lines s.future.current (some s.future.current)
      rw [hs.printed, hresult, hs.target_eq, hreached]
      simp [lines]
    · intro n hn
      cases hn
      refine ⟨hreached, hreached, ?_⟩
      have hdue := hs.due.trans (max_le hclock hle)
      rw [← hs.current_eq, hreached] at hdue
      exact hdue.trans hlater

theorem sound_of_reachable (h : Reachable State.step (start target now) s) : s.Sound target now :=
  h.invariant (sound_start target now) fun _ _ _ _ hs he => hs.step he

/-- A poll that is late enough makes progress. -/
theorem exists_step (hawake : s.scheduled = true) (hresult : s.result = none) :
    ∃ s', s.step ⟨max s.clock (s.future.lastWake + delay),
      max s.clock (s.future.lastWake + delay)⟩ = some s' ∧
      (s.future.current < s.future.target → s'.future.target = s.future.target ∧
        s'.future.current = s.future.current + 1 ∧ s'.result = none) ∧
      (s.future.target ≤ s.future.current → s'.result.isSome = true) := by
  have henabled : ∃ s', s.step ⟨max s.clock (s.future.lastWake + delay),
      max s.clock (s.future.lastWake + delay)⟩ = some s' :=
    ⟨_, if_pos ⟨hawake, hresult, le_max_left _ _, le_refl _⟩⟩
  obtain ⟨s', hs'⟩ := henabled
  refine ⟨s', hs', ?_⟩
  obtain ⟨-, -, -, hcase⟩ := step_cases hs'
  cases hcase with
  | early hlt => exact absurd (le_max_right _ _) (not_le_of_gt hlt)
  | counts hle hcurrent hs' =>
    subst hs'
    exact ⟨fun _ => ⟨rfl, rfl, hresult⟩, fun h => absurd hcurrent (Nat.not_lt_of_le h)⟩
  | completes hle hcurrent hs' =>
    subst hs'
    exact ⟨fun h => absurd h (Nat.not_lt_of_le hcurrent), fun _ => rfl⟩

/-- However far it has got, the future can still be completed. -/
theorem Sound.completes {k : ℕ} : ∀ {s : State}, s.Sound target now →
    target = s.future.current + k →
      ∃ s', Reachable State.step s s' ∧ s'.result = some target := by
  induction k with
  | zero =>
    intro s hs hk
    cases hresult : s.result with
    | some n => exact ⟨s, .refl s, by rw [hresult, (hs.result n hresult).1]⟩
    | none =>
      obtain ⟨s', hs', -, hdone⟩ := exists_step (hs.awake hresult) hresult
      obtain ⟨n, hn⟩ := Option.isSome_iff_exists.mp (hdone (by rw [hs.target_eq]; omega))
      exact ⟨s', (Reachable.refl s).tail hs', by rw [hn, ((hs.step hs').result n hn).1]⟩
  | succ k ih =>
    intro s hs hk
    cases hresult : s.result with
    | some n => exact ⟨s, .refl s, by rw [hresult, (hs.result n hresult).1]⟩
    | none =>
      obtain ⟨s', hs', hcounts, -⟩ := exists_step (hs.awake hresult) hresult
      obtain ⟨-, hcurrent, -⟩ := hcounts (by rw [hs.target_eq]; omega)
      obtain ⟨s'', hreach, hdone⟩ := ih (hs.step hs') (by omega)
      exact ⟨s'', ((Reachable.refl s).tail hs').trans hreach, hdone⟩

end State

open State in
/-- **It counts to its target.**  At whatever times the runtime polls the task: it has been woken
as long as it has no result, its counts are 50 ms apart and are what it prints, and it can
always still be completed.  Its result is the target, after as many counts, and not before
50 ms have passed for each. -/
theorem counts_to_target {target : ℕ} {now : ℤ} {s : State}
    (h : Reachable State.step (start target now) s) :
    (s.result = none → s.scheduled = true) ∧ s.counted.length ≤ target ∧
    (s.counted.Pairwise fun t t' => t + delay ≤ t') ∧
    s.printed = lines s.counted.length s.result ∧
    (∃ s', Reachable State.step s s' ∧ s'.result = some target) ∧
    ∀ n, s.result = some n →
      n = target ∧ s.counted.length = target ∧ now + delay * target ≤ s.clock := by
  have hs := sound_of_reachable h
  have hcurrent := hs.current_eq
  refine ⟨hs.awake, hcurrent ▸ hs.current_le, hs.apart, hcurrent ▸ hs.printed, ?_,
    fun n hn => hcurrent ▸ hs.result n hn⟩
  exact hs.completes (Nat.add_sub_cancel' hs.current_le).symm

/-- The polls of a future with the target 1, of which the second comes too early. -/
def oneCount : List Event := [⟨0, 5⟩, ⟨10, 10⟩, ⟨50000005, 50000006⟩]

theorem counts_to_target_one : ∃ s, run State.step (State.start 1 0) oneCount = some s ∧
    s.result = some 1 ∧ s.counted = [5] ∧ delay ≤ s.clock := by
  have hrun : (run State.step (State.start 1 0) oneCount).map (fun s => (s.result, s.counted)) =
      some (some 1, [5]) := by decide
  obtain ⟨s, hs, hfacts⟩ := Option.map_eq_some_iff.mp hrun
  obtain ⟨hresult, hcounted⟩ := Prod.mk.inj hfacts
  obtain ⟨-, -, -, -, -, hend⟩ := counts_to_target ⟨_, hs⟩
  obtain ⟨-, -, htime⟩ := hend 1 hresult
  exact ⟨s, hs, hresult, hcounted, by simpa using htime⟩

end CountingFuture
