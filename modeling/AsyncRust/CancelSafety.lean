/-
A lock future that nobody polls any more (`12-cancel-safety/src/main.rs`).

Task A and the future of task B lock the same mutex.  `main` polls the future of B until it
has finished or a timeout has passed, and then locks the mutex itself, with the future of B
not dropped.  The sleeps may end in any order.

* `State.step` — the polls of task A, of the future of B and of `main`;
* `lock_reachable_iff` — after `select!`, `main` can get the lock iff the future of B was
  never polled or has finished.
-/
import AsyncRust.FairMutex
import AsyncRust.Runs

namespace CancelSafety

open Runs

/-! ### The program -/

inductive Party where
  | taskA
  | taskB
  | main
  deriving DecidableEq, Repr

/-- A task has not been polled, waits for the lock, sleeps with it, or has finished. -/
inductive Task where
  | new
  | waiting
  | sleeping
  | finished
  deriving DecidableEq, Repr

/-- `main` is in `select!`, waits for the lock, or has it. -/
inductive Main where
  | selecting
  | locking
  | locked
  deriving DecidableEq, Repr

structure State where
  mutex : FairMutex Party
  value : ℕ
  taskA : Task
  taskB : Task
  main : Main
  out : List String

def State.new : State := ⟨.new, 0, .new, .new, .selecting, []⟩

/-- `slept` says that the sleep of a polled task is over. -/
inductive Event where
  | pollA (slept : Bool)
  | pollB (slept : Bool)
  | timeout
  | pollMain
  deriving DecidableEq, Repr

namespace State

def println (s : State) (line : String) : State := { s with out := s.out ++ [line] }

def pollA (s : State) (slept : Bool) : State :=
  match s.taskA with
  | .new | .waiting =>
    match s.mutex.poll .taskA with
    | (true, mutex) =>
      { s with mutex, taskA := .sleeping, value := 42 }.println
        "Task A: acquired lock, setting value = 42"
    | (false, mutex) => { s with mutex, taskA := .waiting }
  | .sleeping =>
    if slept then
      { s with mutex := s.mutex.leave .taskA, taskA := .finished }.println "Task A: releasing lock"
    else s
  | .finished => s

/-- `select!` has ended. -/
def afterSelect (s : State) (line : String) : State :=
  { (s.println line).println "Main: trying to acquire the lock after B..." with main := .locking }

/-- The future of B is polled by `select!`. -/
def pollB (s : State) (slept : Bool) : State :=
  match s.taskB with
  | .new | .waiting =>
    match s.mutex.poll .taskB with
    | (true, mutex) =>
      { s with mutex, taskB := .sleeping, value := s.value + 1 }.println
        "Task B: acquired lock, starting long work"
    | (false, mutex) => { s with mutex, taskB := .waiting }
  | .sleeping =>
    if slept then
      ({ s with mutex := s.mutex.leave .taskB, taskB := .finished }.println
        "Task B: finished work, releasing lock").afterSelect "Task B: finished early"
    else s
  | .finished => s

def pollMain (s : State) : State :=
  match s.mutex.poll .main with
  | (true, mutex) =>
    let value := s.value
    { s with mutex, main := .locked }.println s!"Main: got the lock! value = {value}"
  | (false, mutex) => { s with mutex }

/-- When `main` has the lock, it returns, and the runtime is gone. -/
def step (s : State) : Event → Option State
  | .pollA slept =>
    if s.main ≠ .locked ∧ s.taskA ≠ .finished then some (s.pollA slept) else none
  | .pollB slept =>
    if s.main = .selecting then some (s.pollB slept) else none
  | .timeout =>
    if s.main = .selecting then
      some (s.afterSelect "Main: timeout — abandoning Task B mid-lock")
    else none
  | .pollMain => if s.main = .locking then some s.pollMain else none

end State

/-! ### The line -/

/-- The task has a lock future or a guard. -/
def Task.inLine : Task → Bool
  | .waiting | .sleeping => true
  | _ => false

/-- Who is in line, and that nobody overtakes a future of B that was polled. -/
structure Sound (s : State) : Prop where
  taskA : .taskA ∈ s.mutex.line ↔ s.taskA.inLine = true
  taskB : .taskB ∈ s.mutex.line ↔ s.taskB.inLine = true
  main : .main ∈ s.mutex.line → s.main ≠ .selecting
  sleepsA : s.taskA = .sleeping → s.mutex.line.head? = some .taskA
  sleepsB : s.taskB = .sleeping → s.mutex.line.head? = some .taskB
  ahead : s.taskB.inLine = true → s.mutex.Ahead .taskB .main
  notLocked : s.main = .locked → s.taskB.inLine = false

theorem sound_new : Sound .new := by
  constructor <;> simp [State.new, FairMutex.new, Task.inLine]

variable {s s' : State} {e : Event}

/-- The future of A is polled. -/
theorem Sound.of_pollA (hs : Sound s) {served : Bool} {mutex : FairMutex Party}
    (hpoll : s.mutex.poll .taskA = (served, mutex)) {task : Task} (htask : task.inLine = true)
    (hserved : task = .sleeping → served = true) (value : ℕ) (out : List String) :
    Sound { s with mutex, taskA := task, value, out } := by
  obtain rfl : (s.mutex.poll .taskA).2 = mutex := by rw [hpoll]
  refine ⟨?_, ?_, ?_, fun hsleep => FairMutex.poll_fst.mp ?_,
    fun hsleep => FairMutex.head_poll (hs.sleepsB hsleep), fun hline => (hs.ahead hline).poll _,
    hs.notLocked⟩
  · simp [htask]
  · simpa using hs.taskB
  · simpa using hs.main
  · rw [hpoll]
    exact hserved hsleep

theorem Sound.pollA (hs : Sound s) (slept : Bool) : Sound (s.pollA slept) := by
  unfold State.pollA
  split
  · split
    · rename_i hpoll
      exact hs.of_pollA hpoll rfl (fun _ => rfl) _ _
    · rename_i hpoll
      exact hs.of_pollA hpoll rfl (fun h => by cases h) _ _
  · split
    · rename_i hpoll
      exact hs.of_pollA hpoll rfl (fun _ => rfl) _ _
    · rename_i hpoll
      exact hs.of_pollA hpoll rfl (fun h => by cases h) _ _
  · rename_i hsleep
    split
    · refine ⟨?_, ?_, ?_, fun h => (by cases h), fun h => ?_,
        fun hline => (hs.ahead hline).leave ?_, hs.notLocked⟩
      · simp [State.println, Task.inLine]
      · simpa [State.println] using hs.taskB
      · simpa [State.println] using hs.main
      · exact FairMutex.head_leave (hs.sleepsB h) (by simp)
      · simp
    · exact hs
  · exact hs

/-- The future of B is polled, before `main` is in line. -/
theorem Sound.of_pollB (hs : Sound s) (hmain : s.main = .selecting) {served : Bool}
    {mutex : FairMutex Party} (hpoll : s.mutex.poll .taskB = (served, mutex)) {task : Task}
    (htask : task.inLine = true) (hserved : task = .sleeping → served = true) (value : ℕ)
    (out : List String) : Sound { s with mutex, taskB := task, value, out } := by
  obtain rfl : (s.mutex.poll .taskB).2 = mutex := by rw [hpoll]
  have hnot : .main ∉ (s.mutex.poll .taskB).2.line := by
    simp only [FairMutex.mem_poll, not_or]
    exact ⟨by simp, fun hmem => hs.main hmem hmain⟩
  refine ⟨?_, ?_, fun hmem => absurd hmem hnot,
    fun hsleep => FairMutex.head_poll (hs.sleepsA hsleep), fun hsleep => FairMutex.poll_fst.mp ?_,
    fun _ => FairMutex.ahead_of_not_mem (by simp) hnot, fun h => ?_⟩
  · simpa using hs.taskA
  · simp [htask]
  · rw [hpoll]
    exact hserved hsleep
  · rw [hmain] at h
    cases h

theorem Sound.afterSelect (hs : Sound s) (line : String) : Sound (s.afterSelect line) :=
  ⟨hs.taskA, hs.taskB, fun _ h => (by cases h), hs.sleepsA, hs.sleepsB, hs.ahead,
    fun h => (by cases h)⟩

theorem Sound.pollB (hs : Sound s) (hmain : s.main = .selecting) (slept : Bool) :
    Sound (s.pollB slept) := by
  unfold State.pollB
  split
  · split
    · rename_i hpoll
      exact hs.of_pollB hmain hpoll rfl (fun _ => rfl) _ _
    · rename_i hpoll
      exact hs.of_pollB hmain hpoll rfl (fun h => by cases h) _ _
  · split
    · rename_i hpoll
      exact hs.of_pollB hmain hpoll rfl (fun _ => rfl) _ _
    · rename_i hpoll
      exact hs.of_pollB hmain hpoll rfl (fun h => by cases h) _ _
  · rename_i hsleep
    split
    · -- the guard is dropped
      refine Sound.afterSelect ⟨?_, ?_, ?_, fun h => ?_, fun h => (by cases h),
        fun h => (by cases h), fun h => ?_⟩ _
      · simpa [State.println] using hs.taskA
      · simp [State.println, Task.inLine]
      · simpa [State.println] using hs.main
      · exact FairMutex.head_leave (hs.sleepsA h) (by simp)
      · exact absurd (hmain.symm.trans h) (by simp)
    · exact hs
  · exact hs

theorem Sound.pollMain (hs : Sound s) (hmain : s.main = .locking) : Sound s.pollMain := by
  have hline : ∀ {served : Bool} {mutex : FairMutex Party}, s.mutex.poll .main = (served, mutex) →
      (.taskA ∈ mutex.line ↔ s.taskA.inLine = true) ∧
      (.taskB ∈ mutex.line ↔ s.taskB.inLine = true) ∧
      (s.taskA = .sleeping → mutex.line.head? = some .taskA) ∧
      (s.taskB = .sleeping → mutex.line.head? = some .taskB) ∧
      (s.taskB.inLine = true → mutex.Ahead .taskB .main) := by
    intro served mutex hpoll
    obtain rfl : (s.mutex.poll .main).2 = mutex := by rw [hpoll]
    refine ⟨by simpa using hs.taskA, by simpa using hs.taskB,
      fun h => FairMutex.head_poll (hs.sleepsA h), fun h => FairMutex.head_poll (hs.sleepsB h),
      fun h => (hs.ahead h).poll _⟩
  unfold State.pollMain
  split
  · rename_i hpoll
    obtain ⟨hA, hB, hsleepA, hsleepB, hahead⟩ := hline hpoll
    refine ⟨hA, hB, fun _ h => (by cases h), hsleepA, hsleepB, hahead, fun _ => ?_⟩
    refine Bool.eq_false_iff.mpr fun hin => ?_
    have hnot := (hs.ahead hin).not_served (by simp)
    rw [hpoll] at hnot
    cases hnot
  · rename_i hpoll
    obtain ⟨hA, hB, hsleepA, hsleepB, hahead⟩ := hline hpoll
    refine ⟨hA, hB, fun _ h => ?_, hsleepA, hsleepB, hahead, fun h => ?_⟩
    · exact absurd (hmain.symm.trans h) (by simp)
    · exact absurd (hmain.symm.trans h) (by simp)

theorem Sound.step (hs : Sound s) (h : s.step e = some s') : Sound s' := by
  cases e with
  | pollA slept =>
    simp only [State.step] at h
    split at h <;> cases h
    exact hs.pollA slept
  | pollB slept =>
    simp only [State.step] at h
    split at h <;> cases h
    exact hs.pollB ‹_› slept
  | timeout =>
    simp only [State.step] at h
    split at h <;> cases h
    exact hs.afterSelect _
  | pollMain =>
    simp only [State.step] at h
    split at h <;> cases h
    exact hs.pollMain ‹_›

theorem sound_of_reachable (h : Reachable State.step .new s) : Sound s :=
  h.invariant sound_new fun _ _ _ _ hs he => hs.step he

/-! ### After `select!` -/

/-- The future of B is not polled any more. -/
theorem abandoned_of_step (hmain : s.main ≠ .selecting) (h : s.step e = some s') :
    s'.taskB = s.taskB ∧ s'.main ≠ .selecting := by
  cases e with
  | pollA slept =>
    simp only [State.step] at h
    split at h <;> cases h
    unfold State.pollA
    split
    · split <;> exact ⟨rfl, hmain⟩
    · split <;> exact ⟨rfl, hmain⟩
    · split <;> exact ⟨rfl, hmain⟩
    · exact ⟨rfl, hmain⟩
  | pollB slept | timeout =>
    simp only [State.step, if_neg hmain] at h
    cases h
  | pollMain =>
    simp only [State.step] at h
    split at h <;> cases h
    unfold State.pollMain
    split
    · exact ⟨rfl, by simp [State.println]⟩
    · exact ⟨rfl, hmain⟩

theorem abandoned_of_reachable (hmain : s.main ≠ .selecting) (h : Reachable State.step s s') :
    s'.taskB = s.taskB := by
  refine (h.invariant (I := fun t => t.taskB = s.taskB ∧ t.main ≠ .selecting) ⟨rfl, hmain⟩ ?_).1
  rintro t e t' - ⟨htask, ht⟩ he
  obtain ⟨htask', ht'⟩ := abandoned_of_step ht he
  exact ⟨htask'.trans htask, ht'⟩

/-- The poll of `main` is served when it is first in line. -/
theorem reaches_locked (hmain : s.main = .locking) (hserved : (s.mutex.poll .main).1 = true) :
    ∃ s', Reachable State.step s s' ∧ s'.main = .locked := by
  refine ⟨s.pollMain, ⟨[.pollMain], by simp [run, State.step, hmain]⟩, ?_⟩
  unfold State.pollMain
  split
  · rfl
  · rename_i hpoll
    rw [hpoll] at hserved
    cases hserved

/-- Task A gives the lock up. -/
theorem reaches_of_sleepingA (hs : Sound s) (hmain : s.main = .locking)
    (hB : s.taskB.inLine = false) (hA : s.taskA = .sleeping) :
    ∃ s', Reachable State.step s s' ∧ s'.main = .locked := by
  have hstep : s.step (.pollA true) = some (s.pollA true) := by
    simp [State.step, hmain, hA]
  have hafter : s.pollA true = State.println
      { s with mutex := s.mutex.leave .taskA, taskA := .finished } "Task A: releasing lock" := by
    simp [State.pollA, hA]
  obtain ⟨s', hreach, hlocked⟩ := reaches_locked (s := s.pollA true)
    (by rw [hafter]; exact hmain) (by
      rw [hafter]
      refine FairMutex.poll_of_alone fun j hj => ?_
      obtain ⟨hne, hmem⟩ := FairMutex.mem_leave.mp hj
      cases j with
      | taskA => exact absurd rfl hne
      | taskB => exact absurd (hs.taskB.mp hmem) (by simp [hB])
      | main => rfl)
  exact ⟨s', (Reachable.refl s).tail hstep |>.trans hreach, hlocked⟩

theorem served_of_waitingA (hmain : s.main = .locking) (hA : s.taskA = .waiting)
    (hmem : .taskA ∈ s.mutex.line) (hhead : (s.mutex.poll .main).2.line.head? = some .taskA) :
    s.step (.pollA false) = some (s.pollA false) ∧ (s.pollA false).taskA = .sleeping ∧
      (s.pollA false).taskB = s.taskB ∧ (s.pollA false).main = .locking := by
  have hfirst : s.mutex.line.head? = some .taskA := by
    cases hline : s.mutex.line.head? with
    | none =>
      rw [List.head?_eq_none_iff.mp hline] at hmem
      cases hmem
    | some first => exact (FairMutex.head_poll hline).symm.trans hhead
  have hserved : (s.mutex.poll .taskA).1 = true :=
    FairMutex.poll_fst.mpr (FairMutex.head_poll hfirst)
  have hpoll : s.mutex.poll .taskA = (true, (s.mutex.poll .taskA).2) := Prod.ext hserved rfl
  have hafter : s.pollA false = State.println
      { s with mutex := (s.mutex.poll .taskA).2, taskA := .sleeping, value := 42 }
      "Task A: acquired lock, setting value = 42" := by
    rw [State.pollA, hA, hpoll]
  rw [hafter]
  exact ⟨by simp [State.step, hmain, hA, hafter], rfl, rfl, hmain⟩

/-- **An abandoned lock future keeps the lock.**  Whenever `main` has left `select!` and waits
for the lock, some way of going on gives it the lock iff the future of B was never polled or
has finished.  Otherwise the mutex is passed on to that future, or it has it already, and
nobody polls it: `main` waits for ever. -/
theorem lock_reachable_iff (h : Reachable State.step .new s) (hmain : s.main = .locking) :
    (∃ s', Reachable State.step s s' ∧ s'.main = .locked) ↔
      s.taskB = .new ∨ s.taskB = .finished := by
  have hs := sound_of_reachable h
  have hline : s.taskB.inLine = false ↔ s.taskB = .new ∨ s.taskB = .finished := by
    cases s.taskB <;> simp [Task.inLine]
  rw [← hline]
  constructor
  · rintro ⟨s', hreach, hlocked⟩
    rw [← abandoned_of_reachable (by simp [hmain]) hreach]
    exact (sound_of_reachable (h.trans hreach)).notLocked hlocked
  · intro hB
    cases hhead : (s.mutex.poll .main).2.line.head? with
    | none =>
      have hmem : .main ∈ (s.mutex.poll .main).2.line := FairMutex.mem_poll.mpr (.inl rfl)
      rw [List.head?_eq_none_iff.mp hhead] at hmem
      cases hmem
    | some first =>
      have hfirst := List.mem_of_head? hhead
      cases first with
      | main => exact reaches_locked hmain (FairMutex.poll_fst.mpr hhead)
      | taskB =>
        have hmem : .taskB ∈ s.mutex.line := by simpa using hfirst
        exact absurd (hs.taskB.mp hmem) (by simp [hB])
      | taskA =>
        have hmem : .taskA ∈ s.mutex.line := by simpa using hfirst
        cases hA : s.taskA with
        | new | finished => exact absurd (hs.taskA.mp hmem) (by simp [hA, Task.inLine])
        | sleeping => exact reaches_of_sleepingA hs hmain hB hA
        | waiting =>
          -- its next poll is served
          obtain ⟨hstep, hsleep, hB', hmain'⟩ := served_of_waitingA hmain hA hmem hhead
          obtain ⟨s', hreach, hlocked⟩ :=
            reaches_of_sleepingA (hs.step hstep) hmain' (hB' ▸ hB) hsleep
          exact ⟨s', ((Reachable.refl s).tail hstep).trans hreach, hlocked⟩

/-- Task A has the lock, the future of B gets in line, and the timeout passes. -/
theorem lock_reachable_iff_timeout : ∃ s,
    run State.step .new [.pollA false, .pollB false, .timeout, .pollMain] = some s ∧
    s.main = .locking ∧ ¬ ∃ s', Reachable State.step s s' ∧ s'.main = .locked := by
  refine ⟨_, rfl, rfl, fun hlocked => ?_⟩
  have hB := (lock_reachable_iff ⟨[.pollA false, .pollB false, .timeout, .pollMain], rfl⟩ rfl).mp
    hlocked
  exact absurd hB (by decide)

end CancelSafety
