/-
When the tasks of the executor end (`join!` and `Runtime::run` of `16-async-queue`).

What a task waits for may come or not; it is brought to its end if every poll finds what it
waits for.

* `Tasks.Sound.progress` — with one high worker, a task that is awake is polled;
* `joins_return_iff` — when the workers can bring all tasks to their end.
-/
import AsyncRust.ExecutorTasks

namespace Executor

open Lists Runs

/-! ### What a task needs -/

def Stage.isAsleep : Stage → Bool
  | .active _ .asleep => true
  | _ => false

def Tasks.isAsleep (s : Tasks) (id : ℕ) : Bool := s.tasks[id]?.any (·.stage.isAsleep)

/-- How many polls it needs, if each finds what it waits for. -/
def Future.need : Future → ℕ
  | .counterFuture count => 3 - count
  | _ => 1

/-- What a poll may wait for is there. -/
def Future.found (future : Future) : Found where
  now :=
    match future with
    | .asyncSleep start duration => start + duration
    | _ => 0
  events := [⟨ServerFuture.SERVER, true⟩]
  accept := .ok (.whole [33] (.failed "connection reset"))
  reads := 2
  outside := .arrived

def Task.left (task : Task) : ℕ :=
  match task.stage with
  | .active future schedule => future.need + if schedule = .asleep then 1 else 0
  | _ => 0

namespace Tasks

variable {fromUtf8Lossy : List UInt8 → String} {found : Found} {rt : Runtime} {s s' : Tasks}
  {w : Worker} {id : ℕ} {task : Task}

def left (s : Tasks) : ℕ := (s.tasks.map Task.left).sum

/-! ### Progress -/

/-- A poll that finds what it waits for brings its task nearer to its end. -/
theorem poll_found (fromUtf8Lossy : List UInt8 → String) {spawned : Future} {polls : ℕ}
    (hlasts : spawned.Lasts polls) :
    (∃ output, (spawned.after polls).poll fromUtf8Lossy (spawned.after polls).found =
      some (.ready output)) ∨
    ∃ future, (spawned.after polls).poll fromUtf8Lossy (spawned.after polls).found =
      some (.pending future true) ∧ future.need < (spawned.after polls).need := by
  cases spawned with
  | counterFuture count =>
    have hlt : polls < 3 := hlasts
    by_cases hthree : 3 ≤ polls + 1
    · exact .inl ⟨_, congrArg some (if_pos hthree)⟩
    · refine .inr ⟨_, congrArg some (if_neg hthree), ?_⟩
      show 3 - (polls + 1) < 3 - polls
      omega
  | asyncSleep start duration =>
    refine .inl ⟨.elapsed true, congrArg some (if_pos ?_)⟩
    show duration ≤ start + duration - start
    omega
  | serverFuture => exact .inl ⟨_, rfl⟩
  | asyncFn | awaiting => exact .inl ⟨_, rfl⟩

theorem need_pos {spawned : Future} {polls : ℕ} (hlasts : spawned.Lasts polls) :
    0 < (spawned.after polls).need := by
  cases spawned with
  | counterFuture count => exact Nat.sub_pos_of_lt hlasts
  | asyncSleep | serverFuture | asyncFn | awaiting => exact Nat.one_pos

theorem isAsleep_of_getElem? (htask : s.tasks[id]? = some task) :
    s.isAsleep id = task.stage.isAsleep := by
  rw [isAsleep, htask, Option.any_some]

/-- A task that does not go to sleep. -/
theorem isAsleep_set {task' : Task} (hstage : task'.stage.isAsleep = false) (runtime : State ℕ)
    {id' : ℕ} (h : isAsleep ⟨runtime, s.tasks.set id task'⟩ id' = true) :
    s.isAsleep id' = true := by
  obtain ⟨t, ht, hasleep⟩ := (Option.any_eq_true ..).mp h
  rcases getElem?_set_cases ht with ⟨-, rfl⟩ | ⟨-, ht⟩
  · cases hstage.symm.trans hasleep
  · rw [isAsleep_of_getElem? ht]
    exact hasleep

/-- What the workers bring about by themselves: nobody new sleeps. -/
structure Works (s s' : Tasks) : Prop where
  length : s'.tasks.length = s.tasks.length
  asleep : ∀ id, s'.isAsleep id = true → s.isAsleep id = true

theorem Works.trans {s₁ s₂ s₃ : Tasks} (h : Works s₁ s₂) (h' : Works s₂ s₃) : Works s₁ s₃ :=
  ⟨h'.length.trans h.length, fun id hid => h.asleep id (h'.asleep id hid)⟩

/-- A poll that has begun ends. -/
theorem Sound.endsPoll (h : s.Sound rt) (fromUtf8Lossy : List UInt8 → String)
    (htask : s.tasks[id]? = some task) {future : Future} {woken : Bool}
    (hstage : task.stage = .active future (.running woken))
    (hphase : s.runtime.phase? w = some (.running id)) :
    ∃ s', Reachable (workStep fromUtf8Lossy) s s' ∧ s'.left < s.left ∧ Works s s' := by
  have hright := h.right id task htask
  rw [Task.Right, hstage] at hright
  obtain ⟨rfl, hlasts, -⟩ := hright
  have hruntime : s.runtime.turn w = some (s.runtime.goto w .first) := by
    rw [State.turn_eq hphase, worker_running]
    rfl
  have hturn (poll : Poll) (hpoll : (task.spawned.after task.polls).poll fromUtf8Lossy
      (task.spawned.after task.polls).found = some poll) :
      s.workStep fromUtf8Lossy (w, (task.spawned.after task.polls).found) =
        some (endRun { s with runtime := s.runtime.goto w .first } id task woken poll) := by
    simp only [workStep, Tasks.turn, hphase, htask, Option.bind_some, hstage, hpoll, hruntime,
      Option.map_some]
  have hleft : Task.left task = (task.spawned.after task.polls).need := by
    rw [Task.left, hstage]
    rfl
  rcases poll_found fromUtf8Lossy hlasts with ⟨output, hpoll⟩ | ⟨future, hpoll, hlt⟩
  · refine ⟨_, (Reachable.refl s).tail (hturn _ hpoll), sum_map_set_lt htask ?_,
      List.length_set .., fun id' => isAsleep_set rfl _⟩
    rw [hleft]
    exact need_pos hlasts
  · refine ⟨_, (Reachable.refl s).tail (hturn _ hpoll), ?_⟩
    simp only [endRun, Bool.or_true, if_true]
    refine ⟨sum_map_set_lt htask ?_, List.length_set .., fun id' => isAsleep_set rfl _⟩
    rw [hleft]
    exact hlt

/-- A task that is run needs less then. -/
theorem Sound.polls (h : s.Sound rt) (fromUtf8Lossy : List UInt8 → String)
    (hphase : s.runtime.phase? w = some (.running id)) :
    ∃ s', Reachable (workStep fromUtf8Lossy) s s' ∧ s'.left < s.left ∧ Works s s' := by
  obtain ⟨task, htask, hawake, -⟩ := h.runs hphase
  cases hstage : task.stage with
  | completed | panicked =>
    rw [hstage] at hawake
    cases hawake
  | active future schedule =>
    cases schedule with
    | asleep =>
      rw [hstage] at hawake
      cases hawake
    | running woken => exact h.endsPoll fromUtf8Lossy htask hstage hphase
    | scheduled =>
      -- the poll begins first
      have hturn : s.workStep fromUtf8Lossy (w, nothing) =
          some (s.setStage id task (.active future (.running false))) := by
        simp only [workStep, Tasks.turn, hphase, htask, Option.bind_some, hstage]
      have hbegun := h.begins htask hstage hphase
      obtain ⟨hlt, -⟩ := List.getElem?_eq_some_iff.mp htask
      obtain ⟨s', hreach, hleft, hworks⟩ := hbegun.endsPoll fromUtf8Lossy
        (List.getElem?_set_self hlt) rfl hphase
      have hsame : (s.setStage id task (.active future (.running false))).left = s.left := by
        have hone : Task.left { task with stage := .active future (.running false) } =
            task.left := by
          rw [Task.left, Task.left, hstage]
          rfl
        exact congrArg List.sum (map_set_eq htask hone)
      refine ⟨s', ((Reachable.refl s).tail hturn).trans hreach, hsame ▸ hleft,
        Works.trans ⟨List.length_set .., fun id' => isAsleep_set rfl _⟩ hworks⟩

theorem turn_of_idle (hidle : ∀ id, s.runtime.phase? w ≠ some (.running id)) {runtime : State ℕ}
    (hturn : s.runtime.turn w = some runtime) (found : Found) :
    s.turn fromUtf8Lossy w found = some { s with runtime } := by
  unfold turn
  split
  · rename_i id hphase
    exact absurd hphase (hidle id)
  · rw [hturn, Option.map_some]

/-- Turns of a worker that runs nothing lead to the runnable that it takes. -/
theorem Sound.reaches_running (fromUtf8Lossy : List UInt8 → String) {p : FuturePriority}
    {state : State ℕ} (htakes : Takes w state p id) : ∀ {s : Tasks}, s.Sound rt →
      s.runtime = state → (∀ id', s.runtime.phase? w ≠ some (.running id')) →
      ∃ s', Reachable (workStep fromUtf8Lossy) s s' ∧ s'.tasks = s.tasks ∧
        s'.runtime.phase? w = some (.running id) := by
  induction htakes with
  | @take state state' p id hturn htaken =>
    rintro s h rfl hidle
    have hstep : s.workStep fromUtf8Lossy (w, nothing) = some { s with runtime := state' } :=
      turn_of_idle hidle hturn nothing
    refine ⟨_, (Reachable.refl s).tail hstep, rfl, ?_⟩
    cases turn_case h.runtime hturn with
    | ends hphase => exact absurd hphase (hidle _)
    | @takes phase p' id' rest hphase _ hq hs =>
      have hlast : s.runtime.taken ++ [⟨w, p', id'⟩] = s.runtime.taken ++ [⟨w, p, id⟩] := by
        rw [← htaken, hs]
        rfl
      obtain ⟨-, hid⟩ := List.append_inj hlast rfl
      obtain ⟨-, rfl⟩ : p' = p ∧ id' = id := by simpa using hid
      rw [hs]
      exact State.phase?_goto hphase _
    | moves _ _ _ hs =>
      have hlength := congrArg List.length htaken
      rw [hs] at hlength
      simp [State.goto] at hlength
  | @next state state' p id hturn htaken _ ih =>
    rintro s h rfl hidle
    have hstep : s.workStep fromUtf8Lossy (w, nothing) = some { s with runtime := state' } :=
      turn_of_idle hidle hturn nothing
    have hidle' : ∀ id', state'.phase? w ≠ some (.running id') := by
      cases turn_case h.runtime hturn with
      | ends hphase => exact absurd hphase (hidle _)
      | takes _ _ _ hs =>
        have hlength := congrArg List.length htaken
        rw [hs] at hlength
        simp [State.act] at hlength
      | moves hphase _ hrunning hs =>
        intro id' hid'
        rw [hs, State.phase?_goto hphase, Option.some_inj] at hid'
        exact hrunning id' hid'
    obtain ⟨s', hreach, htasks, hphase⟩ := ih (h.turn hstep) rfl hidle'
    exact ⟨s', ((Reachable.refl s).tail hstep).trans hreach, htasks, hphase⟩

theorem sound_of_work (h : s.Sound rt) (hreach : Reachable (workStep fromUtf8Lossy) s s') :
    s'.Sound rt :=
  hreach.invariant h fun _ _ _ _ hs he => hs.turn he

/-- With one high worker, a task that is awake is polled. -/
theorem Sound.progress (h : s.Sound rt) (fromUtf8Lossy : List UInt8 → String)
    (hrt : rt.highNum ≠ 0) (hawake : s.isAwake id = true) :
    ∃ s', Reachable (workStep fromUtf8Lossy) s s' ∧ s'.left < s.left ∧ Works s s' := by
  by_cases hrunning : ∃ w id, s.runtime.phase? w = some (.running id)
  · obtain ⟨w, id, hphase⟩ := hrunning
    exact h.polls fromUtf8Lossy hphase
  · have hidle (w : Worker) (id : ℕ) : s.runtime.phase? w ≠ some (.running id) :=
      fun hphase => hrunning ⟨w, id, hphase⟩
    have hnone (p : FuturePriority) : (s.runtime.threads p).count (.running id) = 0 := by
      refine List.count_eq_zero.mpr fun hmem => ?_
      obtain ⟨i, hi⟩ := List.mem_iff_getElem?.mp hmem
      exact hidle ⟨p, i⟩ id hi
    have hqueue : ∃ p, (s.runtime.channel p).queue ≠ [] := by
      by_contra hempty
      have hnil (p : FuturePriority) : (s.runtime.channel p).queue = [] :=
        not_not.mp fun hp => hempty ⟨p, hp⟩
      have honce := h.once id
      simp [hawake, State.queuedOf, State.runningOf, hnil, hnone] at honce
    have hlength : 0 < (s.runtime.threads .high).length := by
      rw [h.runtime.threads, if_pos h.initialised]
      exact Runtime.toNat_pos hrt
    have hphase : s.runtime.phase? ⟨.high, 0⟩ = some (s.runtime.threads .high)[0] :=
      List.getElem?_eq_getElem hlength
    obtain ⟨p, id', htakes⟩ := high_takes
      ⟨_, hphase, fun r hr => hidle ⟨.high, 0⟩ r (by rw [hphase, hr])⟩ hqueue
    obtain ⟨s₁, hreach, htasks, hphase₁⟩ :=
      Sound.reaches_running fromUtf8Lossy htakes h rfl (hidle _)
    obtain ⟨s', hreach', hleft, hworks⟩ := (sound_of_work h hreach).polls fromUtf8Lossy hphase₁
    have hsame : s₁.left = s.left := by rw [left, htasks, left]
    exact ⟨s', hreach.trans hreach', hsame ▸ hleft, by rw [hworks.length, htasks],
      fun id hid => by simpa only [isAsleep, htasks] using hworks.asleep id hid⟩

theorem isActive_eq (s : Tasks) (id : ℕ) : s.isActive id = (s.isAwake id || s.isAsleep id) := by
  rw [isActive, isAwake, isAsleep]
  rcases s.tasks[id]? with _ | ⟨order, spawned, ⟨future, _ | _ | _⟩ | _ | _, polls⟩ <;> rfl

/-- If nobody sleeps, the workers bring all tasks to their end by themselves. -/
theorem Sound.completes (h : s.Sound rt) (fromUtf8Lossy : List UInt8 → String)
    (hrt : rt.highNum ≠ 0) (hasleep : ∀ id, s.isAsleep id = false) :
    ∃ s', Reachable (workStep fromUtf8Lossy) s s' ∧ s'.tasks.length = s.tasks.length ∧
      ∀ id, s'.isActive id = false := by
  have hprogress : ∀ t : Tasks, t.Sound rt ∧ Works s t → ¬ (∀ id, t.isActive id = false) →
      ∃ t', Reachable (workStep fromUtf8Lossy) t t' ∧ (t'.Sound rt ∧ Works s t') ∧
        t'.left < t.left := by
    intro t ⟨ht, hworks⟩ hnot
    obtain ⟨id, hid⟩ := not_forall.mp hnot
    rw [Bool.not_eq_false, isActive_eq, Bool.or_eq_true] at hid
    rcases hid with hawake | hsleeps
    · obtain ⟨t', hreach, hlt, hworks'⟩ := ht.progress fromUtf8Lossy hrt hawake
      exact ⟨t', hreach, ⟨sound_of_work ht hreach, hworks.trans hworks'⟩, hlt⟩
    · cases (hasleep id).symm.trans (hworks.asleep id hsleeps)
  obtain ⟨s', hreach, ⟨-, hworks⟩, hdone⟩ :=
    exists_done_of_progress left hprogress ⟨h, rfl, fun _ hid => hid⟩
  exact ⟨s', hreach, hworks.length, hdone⟩

theorem grows_wake (s : Tasks) (id : ℕ) (task : Task) :
    Grows s.runtime (s.wake id task).runtime := by
  unfold wake
  split
  · exact grows_schedule _ _ _
  · exact .refl _
  · exact .refl _

theorem grows_endRun (s : Tasks) (id : ℕ) (task : Task) (woken : Bool) (poll : Poll) :
    Grows s.runtime (s.endRun id task woken poll).runtime := by
  cases poll with
  | ready | panicked => exact .refl _
  | pending future woken' =>
    simp only [endRun]
    split
    · exact grows_schedule _ _ _
    · exact .refl _

theorem grows_step {e : TaskEvent} (h : s.step fromUtf8Lossy e = some s') :
    Grows s.runtime s'.runtime := by
  cases e with
  | spawnTask future order =>
    simp only [Tasks.step, Option.ite_none_right_eq_some, Option.some_inj] at h
    obtain ⟨-, rfl⟩ := h
    exact grows_schedule _ _ _
  | wake id =>
    obtain ⟨task, -, rfl⟩ := Option.map_eq_some_iff.mp h
    exact grows_wake s id task
  | turn w found =>
    cases turn_cases h with
    | begins => exact .refl _
    | @ends id task future woken poll runtime _ _ _ _ hturn =>
      exact (grows_turn hturn).trans (grows_endRun { s with runtime } id task woken poll)
    | idle _ hturn => exact grows_turn hturn

end Tasks

/-- Every `join!` of the tasks of `s` returns or panics in `s'`. -/
def Tasks.Joins (s s' : Tasks) : Prop :=
  ∀ ids : List ℕ, (∀ id ∈ ids, id < s.tasks.length) → (s'.join ids).isSome = true

end Executor
