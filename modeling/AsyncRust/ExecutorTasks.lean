/-
The tasks of the executor (`16-async-queue/src/main.rs`).

`spawn_task` makes a task of a future, and its runnable goes to the channel of its priority.
Whoever takes the runnable polls the future once.  The futures that are written by hand wake
their task whenever they are not ready; what waits for a request or a connection of `hyper`
is woken from outside.  A task that is woken is scheduled, unless it is already; if it is
being polled, it is scheduled at the end of the poll.  A runnable is the number of its task
here.  No task is cancelled.

* `Tasks.step` — tasks are spawned and woken, and the workers take their turns;
* `runs_once_at_a_time` — no task is queued twice, polled by two workers, or polled after its
  end, no wake-up is lost, and each task ends with what its future counts to.
-/
import AsyncRust.Lists
import AsyncRust.PriorityExecutor
import AsyncRust.ServerFuture

namespace Executor

open ByteStream Lists Runs

/-! ### The program -/

/-- What the futures return. -/
inductive Output where
  | count (n : ℕ)
  | elapsed (value : Bool)
  | received (text : String)
  | unit
  deriving DecidableEq, Repr

inductive Future where
  | counterFuture (count : ℕ)
  | asyncSleep (start duration : ℕ)
  | serverFuture
  /-- An `async` block or function that waits for nothing. -/
  | asyncFn
  /-- What `demo_two` spawns, and what `hyper` spawns by `CustomExecutor`. -/
  | awaiting
  deriving DecidableEq, Repr

/-- What `awaiting` finds of what it waits for. -/
inductive Outside where
  | arrived
  | missing (woken : Bool)
  | failed
  deriving DecidableEq, Repr

/-- What a poll finds: the time, the events of `mio` and the connection for the server, in which
it makes so many reads, and what `hyper` does. -/
structure Found where
  now : ℕ
  events : List ServerFuture.Event
  accept : Except String Source
  reads : ℕ
  outside : Outside

/-- `woken`: the task has been woken in the poll. -/
inductive Poll where
  | ready (output : Output)
  | pending (future : Future) (woken : Bool)
  | panicked
  deriving DecidableEq, Repr

/-- A poll; `none` when it has not ended. -/
def Future.poll (fromUtf8Lossy : List UInt8 → String) (found : Found) : Future → Option Poll
  | .counterFuture count =>
    some (if 3 ≤ count + 1 then .ready (.count (count + 1))
      else .pending (.counterFuture (count + 1)) true)
  | .asyncSleep start duration =>
    some (if duration ≤ found.now - start then .ready (.elapsed true)
      else .pending (.asyncSleep start duration) true)
  | .serverFuture =>
    (ServerFuture.poll fromUtf8Lossy found.accept found.reads found.events).map fun
      | .ready text => .ready (.received text)
      | .pending woken => .pending .serverFuture woken
      | .panicked => .panicked
  | .asyncFn => some (.ready .unit)
  | .awaiting =>
    some (match found.outside with
      | .arrived => .ready .unit
      | .missing woken => .pending .awaiting woken
      | .failed => .panicked)

/-- It has not been polled. -/
def Future.isNew : Future → Bool
  | .counterFuture count => count = 0
  | _ => true

/-- The state of a task that has not ended; `woken`: it was woken since its poll began. -/
inductive Schedule where
  | scheduled
  | running (woken : Bool)
  | asleep
  deriving DecidableEq, Repr

inductive Stage where
  | active (future : Future) (schedule : Schedule)
  | completed (output : Output)
  | panicked
  deriving DecidableEq, Repr

/-- Nothing reads `spawned`, the future of the task as it was spawned, and `polls`, how often it
was polled. -/
structure Task where
  order : FuturePriority
  spawned : Future
  stage : Stage
  polls : ℕ
  deriving DecidableEq, Repr

/-- The runnables are the numbers of the tasks. -/
structure Tasks where
  runtime : State ℕ
  tasks : List Task

inductive TaskEvent where
  | spawnTask (future : Future) (order : FuturePriority)
  | wake (id : ℕ)
  | turn (w : Worker) (found : Found)

/-- What `join!` does. -/
inductive Joined where
  | returned (outputs : List Output)
  | panicked
  deriving DecidableEq, Repr

namespace Tasks

def spawnTask (s : Tasks) (future : Future) (order : FuturePriority) : Tasks where
  runtime := s.runtime.schedule order s.tasks.length
  tasks := s.tasks ++ [⟨order, future, .active future .scheduled, 0⟩]

def setStage (s : Tasks) (id : ℕ) (task : Task) (stage : Stage) : Tasks :=
  { s with tasks := s.tasks.set id { task with stage } }

/-- A task is woken by what it waits for. -/
def wake (s : Tasks) (id : ℕ) (task : Task) : Tasks :=
  match task.stage with
  | .active .awaiting .asleep =>
    { s with runtime := s.runtime.schedule task.order id }.setStage id task
      (.active .awaiting .scheduled)
  | .active .awaiting (.running _) => s.setStage id task (.active .awaiting (.running true))
  | _ => s

/-- The end of `Runnable::run`. -/
def endRun (s : Tasks) (id : ℕ) (task : Task) (woken : Bool) (poll : Poll) : Tasks :=
  let task := { task with polls := task.polls + 1 }
  match poll with
  | .ready output => s.setStage id task (.completed output)
  | .panicked => s.setStage id task .panicked
  | .pending future woken' =>
    if woken || woken' then
      { s with runtime := s.runtime.schedule task.order id }.setStage id task
        (.active future .scheduled)
    else s.setStage id task (.active future .asleep)

/-- A turn of a worker.  A runnable that it has taken is run: the poll begins, and ends. -/
def turn (fromUtf8Lossy : List UInt8 → String) (s : Tasks) (w : Worker) (found : Found) :
    Option Tasks :=
  match s.runtime.phase? w with
  | some (.running id) =>
    (s.tasks[id]?).bind fun task =>
      match task.stage with
      | .active future .scheduled => some (s.setStage id task (.active future (.running false)))
      | .active future (.running woken) =>
        (future.poll fromUtf8Lossy found).bind fun poll =>
          (s.runtime.turn w).map fun runtime => { s with runtime }.endRun id task woken poll
      -- a runnable is that of an active task
      | _ => none
  | _ => (s.runtime.turn w).map fun runtime => { s with runtime }

def step (fromUtf8Lossy : List UInt8 → String) (s : Tasks) : TaskEvent → Option Tasks
  | .spawnTask future order => if future.isNew then some (s.spawnTask future order) else none
  | .wake id => (s.tasks[id]?).map fun task => s.wake id task
  | .turn w found => s.turn fromUtf8Lossy w found

/-- Nothing but turns of the workers. -/
def workStep (fromUtf8Lossy : List UInt8 → String) (s : Tasks) (event : Worker × Found) :
    Option Tasks :=
  s.turn fromUtf8Lossy event.1 event.2

/-- `Runtime::run` has spawned its first task. -/
def start (rt : Runtime) : Tasks := spawnTask ⟨rt.setVars, []⟩ .asyncFn .high

/-- `block_on` of each task in turn; `none` while it blocks. -/
def join (s : Tasks) : List ℕ → Option Joined
  | [] => some (.returned [])
  | id :: ids =>
    match s.tasks[id]?.map Task.stage with
    | some (.completed output) =>
      (s.join ids).map fun
        | .returned outputs => .returned (output :: outputs)
        | .panicked => .panicked
    | some .panicked => some .panicked
    | _ => none

end Tasks

/-! ### What is claimed of it -/

variable {R : Type} [DecidableEq R]

/-- How often a runnable is queued. -/
def State.queuedOf (s : State R) (r : R) : ℕ :=
  (s.channel .high).queue.count r + (s.channel .low).queue.count r

/-- How many workers run it. -/
def State.runningOf (s : State R) (r : R) : ℕ :=
  (s.threads .high).count (.running r) + (s.threads .low).count (.running r)

/-- How often it was taken. -/
def State.takenOf (s : State R) (r : R) : ℕ := s.taken.countP (·.runnable = r)

def Stage.isActive : Stage → Bool
  | .active _ _ => true
  | _ => false

/-- The task has a runnable. -/
def Stage.isAwake : Stage → Bool
  | .active _ .asleep => false
  | .active _ _ => true
  | _ => false

namespace Future

/-- What a future is after so many polls. -/
def after (polls : ℕ) : Future → Future
  | .counterFuture _ => .counterFuture polls
  | future => future

/-- It can be active after so many polls. -/
def Lasts (polls : ℕ) : Future → Prop
  | .counterFuture _ => polls < 3
  | .asyncFn => polls = 0
  | _ => True

/-- What it returns in the last of so many polls. -/
def Returns (polls : ℕ) : Future → Output → Prop
  | .counterFuture _, output => output = .count 3 ∧ polls = 3
  | .asyncSleep _ _, output => output = .elapsed true ∧ 0 < polls
  | .serverFuture, output => (∃ text, output = .received text) ∧ 0 < polls
  | .asyncFn, output => output = .unit ∧ polls = 1
  | .awaiting, output => output = .unit ∧ 0 < polls

/-- It can fail. -/
def MayPanic : Future → Prop
  | .serverFuture => True
  | .awaiting => True
  | _ => False

end Future

/-- What the last of so many polls can make of a future. -/
def Poll.Fits (spawned : Future) (polls : ℕ) : Poll → Prop
  | .ready output => spawned.Returns polls output
  | .pending future woken => future = spawned.after polls ∧ spawned.Lasts polls ∧
      (woken = false → spawned = .awaiting)
  | .panicked => spawned.MayPanic

/-- A task is where its polls have brought it; only one that waits for something outside sleeps. -/
def Task.Right (task : Task) : Prop :=
  match task.stage with
  | .active future schedule =>
    future = task.spawned.after task.polls ∧ task.spawned.Lasts task.polls ∧
      (schedule = .asleep → task.spawned = .awaiting)
  | .completed output => task.spawned.Returns task.polls output
  | .panicked => task.spawned.MayPanic ∧ 0 < task.polls

/-- How many of its polls have begun. -/
def Task.begun (task : Task) : ℕ :=
  match task.stage with
  | .active _ (.running _) => task.polls + 1
  | _ => task.polls

/-- The task was woken when `n` of its polls had begun; it does not sleep before another one
has. -/
def Task.Owes (n : ℕ) (task : Task) : Prop :=
  match task.stage with
  | .active _ .scheduled => n ≤ task.polls
  | .active _ (.running woken) => n ≤ task.polls + woken.toNat
  | .active _ .asleep => n < task.polls
  | _ => True

/-! ### Turns -/

/-- A worker ends what it runs, takes the oldest runnable of a channel, or takes none. -/
inductive TurnCase (s : State R) (w : Worker) (s' : State R) : Prop
  | ends {r : R} (hphase : s.phase? w = some (.running r)) (hs : s' = s.goto w .first)
  | takes {phase : Phase R} {p : FuturePriority} {r : R} {rest : List R}
    (hphase : s.phase? w = some phase) (hidle : ∀ r, phase ≠ .running r)
    (hq : (s.channel p).queue = r :: rest)
    (hs : s' = s.act w (.take p r { s.channel p with queue := rest }))
  | moves {phase phase' : Phase R} (hphase : s.phase? w = some phase)
    (hidle : ∀ r, phase ≠ .running r) (hidle' : ∀ r, phase' ≠ .running r)
    (hs : s' = s.goto w phase')

omit [DecidableEq R] in
theorem worker_running (kind : FuturePriority) (channel : FuturePriority → Channel R) (r : R) :
    worker kind channel (.running r) = some (.goto .first) := by
  cases kind <;> rfl

omit [DecidableEq R] in
/-- Only a runnable that was taken is run. -/
theorem ne_running_of_worker {kind : FuturePriority} {channel : FuturePriority → Channel R}
    {phase phase' : Phase R} (h : worker kind channel phase = some (.goto phase')) (r : R) :
    phase' ≠ .running r := by
  rintro rfl
  cases kind with
  | high => cases phase <;> simp only [worker, highWorker] at h <;> (try split at h) <;> simp at h
  | low => cases phase <;> simp only [worker, lowWorker] at h <;> (try split at h) <;> simp at h

omit [DecidableEq R] in
theorem turn_case {rt : Runtime} {s s' : State R} {w : Worker} (h : Inv rt s)
    (hs : s.turn w = some s') : TurnCase s w s' := by
  obtain ⟨phase, hphase, hs⟩ := Option.bind_eq_some_iff.mp hs
  obtain ⟨a, ha, rfl⟩ := Option.map_eq_some_iff.mp hs
  by_cases hrunning : ∃ r, phase = .running r
  · obtain ⟨r, rfl⟩ := hrunning
    rw [worker_running, Option.some_inj] at ha
    exact .ends hphase (ha ▸ rfl)
  · have hidle (r : R) : phase ≠ .running r := fun hr => hrunning ⟨r, hr⟩
    have hsecond : w.kind = .low → phase ≠ .second := by
      rintro hw rfl
      rw [State.phase?_eq, hw] at hphase
      rcases h.low _ (List.mem_of_getElem? hphase) with hlow | ⟨r, hlow⟩ <;> cases hlow
    rcases worker_cases (h.senders .low) hsecond ha with ⟨p, r, rest, hq, -, rfl⟩ | ⟨phase', -, rfl⟩
    · exact .takes hphase hidle hq rfl
    · exact .moves hphase hidle (ne_running_of_worker ha) rfl

/-! ### Where a runnable is -/

variable {s s' : State R} {w : Worker}

theorem runningOf_goto {phase : Phase R} (hphase : s.phase? w = some phase) (phase' : Phase R)
    (r : R) :
    (s.goto w phase').runningOf r + (if phase = .running r then 1 else 0) =
      s.runningOf r + if phase' = .running r then 1 else 0 := by
  have hcount := (set_perm hphase phase').count_eq (.running r)
  simp only [List.count_cons, beq_iff_eq] at hcount
  cases hkind : w.kind with
  | high =>
    rw [hkind] at hcount
    simp only [State.runningOf, State.goto, hkind, Function.update_self,
      Function.update_of_ne (show FuturePriority.low ≠ .high by decide)]
    omega
  | low =>
    rw [hkind] at hcount
    simp only [State.runningOf, State.goto, hkind, Function.update_self,
      Function.update_of_ne (show FuturePriority.high ≠ .low by decide)]
    omega

/-- The runnable that a worker takes is no longer queued. -/
theorem queuedOf_take {p : FuturePriority} {r : R} {rest : List R}
    (hq : (s.channel p).queue = r :: rest) (r' : R) :
    (s.act w (.take p r { s.channel p with queue := rest })).queuedOf r' +
      (if r = r' then 1 else 0) = s.queuedOf r' := by
  cases p with
  | high =>
    simp only [State.queuedOf, State.act, Function.update_self, hq, List.count_cons, beq_iff_eq,
      Function.update_of_ne (show FuturePriority.low ≠ .high by decide)]
    exact Nat.add_right_comm _ _ _
  | low =>
    simp only [State.queuedOf, State.act, Function.update_self, hq, List.count_cons, beq_iff_eq,
      Function.update_of_ne (show FuturePriority.high ≠ .low by decide)]
    exact Nat.add_assoc _ _ _

omit [DecidableEq R] in
theorem queue_initialise (s : State R) (p q : FuturePriority) :
    ((s.initialise p).channel q).queue = (s.channel q).queue := by
  rw [State.initialise]
  split <;> rfl

theorem queuedOf_schedule (s : State R) (p : FuturePriority) (r r' : R) :
    (s.schedule p r).queuedOf r' = s.queuedOf r' + if r = r' then 1 else 0 := by
  cases p with
  | high =>
    simp only [State.queuedOf, State.schedule, State.send, Channel.send, queue_initialise,
      Function.update_self, List.count_append, List.count_singleton, beq_iff_eq,
      Function.update_of_ne (show FuturePriority.low ≠ .high by decide)]
    exact Nat.add_right_comm _ _ _
  | low =>
    simp only [State.queuedOf, State.schedule, State.send, Channel.send, queue_initialise,
      Function.update_self, List.count_append, List.count_singleton, beq_iff_eq,
      Function.update_of_ne (show FuturePriority.high ≠ .low by decide)]
    exact (Nat.add_assoc _ _ _).symm

/-- Workers that are started run nothing. -/
theorem runningOf_schedule {rt : Runtime} (h : Inv rt s) (p : FuturePriority) (r r' : R) :
    (s.schedule p r).runningOf r' = s.runningOf r' := by
  show (s.initialise p).runningOf r' = _
  by_cases hp : s.initialised p = true
  · rw [State.initialise, if_pos hp]
  · have hlength : (s.threads p).length = 0 := by simp [h.threads, hp]
    have hnil := List.length_eq_zero_iff.mp hlength
    cases p <;> simp [State.runningOf, State.initialise, hp, hnil, List.count_replicate]

omit [DecidableEq R] in
theorem taken_schedule (s : State R) (p : FuturePriority) (r : R) :
    (s.schedule p r).taken = s.taken := by
  show (s.initialise p).taken = _
  rw [State.initialise]
  split <;> rfl

omit [DecidableEq R] in
theorem sent_schedule (s : State R) (p q : FuturePriority) (r : R) :
    (s.schedule p r).sent q = s.sent q ++ if q = p then [r] else [] := by
  have hsent : (s.initialise p).sent = s.sent := by
    rw [State.initialise]
    split <;> rfl
  by_cases hq : q = p
  · subst hq
    simp [State.schedule, State.send, hsent]
  · simp [State.schedule, State.send, hsent, hq]

/-! ### The invariant -/

def Tasks.isActive (s : Tasks) (id : ℕ) : Bool := s.tasks[id]?.any (·.stage.isActive)

def Tasks.isAwake (s : Tasks) (id : ℕ) : Bool := s.tasks[id]?.any (·.stage.isAwake)

structure Tasks.Sound (rt : Runtime) (s : Tasks) : Prop where
  runtime : Inv rt s.runtime
  initialised : s.runtime.initialised .high = true
  once : ∀ id, s.runtime.queuedOf id + s.runtime.runningOf id = if s.isAwake id then 1 else 0
  begun : ∀ (id : ℕ) (task : Task) future woken, s.tasks[id]? = some task →
    task.stage = .active future (.running woken) → s.runtime.queuedOf id = 0
  polled : ∀ (id : ℕ) (task : Task), s.tasks[id]? = some task →
    s.runtime.takenOf id = task.polls + s.runtime.runningOf id
  right : ∀ (id : ℕ) (task : Task), s.tasks[id]? = some task → task.Right
  sent : ∀ p, ∀ id ∈ s.runtime.sent p, ∃ task, s.tasks[id]? = some task ∧ task.order = p

namespace Tasks

variable {fromUtf8Lossy : List UInt8 → String} {found : Found} {rt : Runtime} {s s' : Tasks}
  {w : Worker} {id : ℕ} {task : Task}

theorem Sound.lt_length (h : s.Sound rt) {p : FuturePriority} (hsent : id ∈ s.runtime.sent p) :
    id < s.tasks.length := by
  obtain ⟨task, htask, -⟩ := h.sent p id hsent
  exact (List.getElem?_eq_some_iff.mp htask).1

/-- A task that does not exist was never taken. -/
theorem Sound.takenOf_length (h : s.Sound rt) : s.runtime.takenOf s.tasks.length = 0 := by
  refine List.countP_eq_zero.mpr fun t ht hr => ?_
  have hr : t.runnable = s.tasks.length := by simpa using hr
  have hmem : t.runnable ∈ s.runtime.takenFrom t.source :=
    List.mem_map.mpr ⟨t, List.mem_filter.mpr ⟨ht, by simp⟩, rfl⟩
  have hsent : t.runnable ∈ s.runtime.sent t.source := by
    rw [← h.runtime.once]
    exact List.mem_append_left _ hmem
  exact absurd (h.lt_length hsent) (by rw [hr]; exact Nat.lt_irrefl _)

theorem isAwake_of_getElem? (htask : s.tasks[id]? = some task) :
    s.isAwake id = task.stage.isAwake := by
  rw [isAwake, htask, Option.any_some]

theorem isAwake_set (htask : s.tasks[id]? = some task) (runtime : State ℕ) (task' : Task)
    (id' : ℕ) : isAwake ⟨runtime, s.tasks.set id task'⟩ id' =
      if id = id' then task'.stage.isAwake else s.isAwake id' := by
  obtain ⟨hlt, -⟩ := List.getElem?_eq_some_iff.mp htask
  rw [isAwake, List.getElem?_set]
  split
  · simp
  · rfl

theorem isAwake_length (s : Tasks) : s.isAwake s.tasks.length = false := by
  simp [isAwake]

/-- A new task, with its runnable. -/
theorem Sound.spawnTask (h : s.Sound rt) {future : Future} (hnew : future.isNew = true)
    (order : FuturePriority) : (s.spawnTask future order).Sound rt := by
  have hqueued (id : ℕ) : (s.spawnTask future order).runtime.queuedOf id =
      s.runtime.queuedOf id + if s.tasks.length = id then 1 else 0 := queuedOf_schedule ..
  have hrunning (id : ℕ) : (s.spawnTask future order).runtime.runningOf id =
      s.runtime.runningOf id := runningOf_schedule h.runtime ..
  have hnone := h.once s.tasks.length
  rw [isAwake_length] at hnone
  simp only [Bool.false_eq_true, if_false] at hnone
  refine ⟨h.runtime.schedule order _,
    (grows_schedule s.runtime order _).initialised .high h.initialised, fun id => ?_,
    fun id task future' woken htask hstage => ?_, fun id task htask => ?_, fun id task htask => ?_,
    fun p id hid => ?_⟩
  · have honce := h.once id
    rw [hqueued, hrunning]
    rcases Nat.lt_trichotomy id s.tasks.length with hlt | rfl | hlt
    · have hsame : (s.spawnTask future order).isAwake id = s.isAwake id := by
        rw [isAwake, Tasks.spawnTask, List.getElem?_append_left hlt, isAwake]
      rw [hsame, if_neg (Nat.ne_of_gt hlt)]
      exact honce
    · have hawake : (s.spawnTask future order).isAwake s.tasks.length = true := by
        simp [isAwake, Tasks.spawnTask, Stage.isAwake]
      rw [hawake, if_pos rfl, if_pos rfl]
      omega
    · have hgone : (s.spawnTask future order).isAwake id = s.isAwake id := by
        have hlength : s.tasks.length + 1 ≤ id := hlt
        rw [isAwake, isAwake, Tasks.spawnTask, List.getElem?_eq_none (by simpa using hlength),
          List.getElem?_eq_none (Nat.le_of_lt hlt)]
      rw [hgone, if_neg (Nat.ne_of_lt hlt)]
      exact honce
  · rw [hqueued]
    rcases getElem?_concat_cases htask with ⟨hlt, htask⟩ | ⟨-, rfl⟩
    · rw [h.begun id task future' woken htask hstage, if_neg (Nat.ne_of_gt hlt)]
    · cases hstage
  · have htaken : (s.spawnTask future order).runtime.takenOf id = s.runtime.takenOf id := by
      rw [State.takenOf, Tasks.spawnTask, taken_schedule, State.takenOf]
    rw [htaken, hrunning]
    rcases getElem?_concat_cases htask with ⟨-, htask⟩ | ⟨rfl, rfl⟩
    · exact h.polled id task htask
    · rw [h.takenOf_length, (Nat.add_eq_zero_iff.mp hnone).2]
  · rcases getElem?_concat_cases htask with ⟨-, htask⟩ | ⟨-, rfl⟩
    · exact h.right id task htask
    · cases future with
      | counterFuture count =>
        obtain rfl : count = 0 := by simpa [Future.isNew] using hnew
        exact ⟨rfl, Nat.zero_lt_succ 2, by simp⟩
      | asyncSleep | serverFuture | asyncFn | awaiting =>
        exact ⟨rfl, by simp [Future.Lasts], by simp⟩
  · have hid : id ∈ (s.runtime.schedule order s.tasks.length).sent p := hid
    rw [sent_schedule, List.mem_append] at hid
    rcases hid with hid | hid
    · obtain ⟨task, htask, horder⟩ := h.sent p id hid
      exact ⟨task, List.getElem?_append_left (h.lt_length hid) ▸ htask, horder⟩
    · split at hid
      · rename_i hp
        obtain rfl := List.mem_singleton.mp hid
        exact ⟨_, by simp [Tasks.spawnTask]; rfl, hp.symm⟩
      · cases hid

theorem start_sound (rt : Runtime) : (start rt).Sound rt where
  runtime := (Inv.setVars rt).schedule .high 0
  initialised := initialised_schedule _ .high 0
  once id := by
    show (rt.setVars.schedule .high 0).queuedOf id + (rt.setVars.schedule .high 0).runningOf id = _
    rw [queuedOf_schedule, runningOf_schedule (.setVars rt)]
    cases id with
    | zero => rfl
    | succ id => simp [start, spawnTask, isAwake, State.queuedOf, State.runningOf,
        Runtime.setVars, Channel.unbounded]
  begun id task future woken htask hstage := by
    obtain rfl := List.mem_singleton.mp (List.mem_of_getElem? htask)
    cases hstage
  polled id task htask := by
    show (rt.setVars.schedule .high 0).takenOf id =
      task.polls + (rt.setVars.schedule .high 0).runningOf id
    rw [runningOf_schedule (.setVars rt), State.takenOf, taken_schedule]
    obtain rfl := List.mem_singleton.mp (List.mem_of_getElem? htask)
    simp [State.runningOf, Runtime.setVars]
  right id task htask := by
    obtain rfl := List.mem_singleton.mp (List.mem_of_getElem? htask)
    exact ⟨rfl, rfl, by simp⟩
  sent p id hid := by
    have hid : id ∈ (rt.setVars.schedule .high 0).sent p := hid
    rw [sent_schedule] at hid
    split at hid
    · rename_i hp
      obtain rfl : id = 0 := by simpa [Runtime.setVars] using hid
      exact ⟨_, rfl, hp.symm⟩
    · simp [Runtime.setVars] at hid

/-! ### Turns of the workers -/

/-- A worker takes a runnable. -/
theorem Sound.takes (h : s.Sound rt) {phase : Phase ℕ} {p : FuturePriority} {rest : List ℕ}
    (hphase : s.runtime.phase? w = some phase) (hidle : ∀ r, phase ≠ .running r)
    (hq : (s.runtime.channel p).queue = id :: rest) {runtime : State ℕ}
    (hturn : s.runtime.turn w = some runtime)
    (hs : runtime = s.runtime.act w (.take p id { s.runtime.channel p with queue := rest })) :
    Sound rt { s with runtime } := by
  have hrunning (id' : ℕ) : runtime.runningOf id' =
      s.runtime.runningOf id' + if id = id' then 1 else 0 := by
    have hgoto := runningOf_goto hphase (.running id) id'
    rw [if_neg (hidle id')] at hgoto
    simp only [Phase.running.injEq] at hgoto
    exact hs ▸ hgoto
  have hqueued := queuedOf_take (w := w) hq
  rw [← hs] at hqueued
  refine
    { h with
      runtime := h.runtime.turn hturn
      initialised := (grows_turn hturn).initialised .high h.initialised
      once := fun id' => ?_
      begun := fun id' task future woken htask hstage => ?_
      polled := fun id' task htask => ?_
      sent := fun p' id' hid' => h.sent p' id' (by rwa [hs] at hid') }
  · have honce := h.once id'
    have htake := hqueued id'
    show runtime.queuedOf id' + runtime.runningOf id' = if s.isAwake id' then 1 else 0
    rw [hrunning]
    omega
  · have hnone := h.begun id' task future woken htask hstage
    have htake := hqueued id'
    show runtime.queuedOf id' = 0
    omega
  · have hpolled := h.polled id' task htask
    show runtime.takenOf id' = task.polls + runtime.runningOf id'
    rw [hrunning, ← Nat.add_assoc, ← hpolled, hs]
    simp [State.takenOf, State.act, State.goto, List.countP_cons]

/-- A worker takes none. -/
theorem Sound.moves (h : s.Sound rt) {phase phase' : Phase ℕ}
    (hphase : s.runtime.phase? w = some phase) (hidle : ∀ r, phase ≠ .running r)
    (hidle' : ∀ r, phase' ≠ .running r) {runtime : State ℕ}
    (hturn : s.runtime.turn w = some runtime) (hs : runtime = s.runtime.goto w phase') :
    Sound rt { s with runtime } := by
  have hrunning (id' : ℕ) : runtime.runningOf id' = s.runtime.runningOf id' := by
    have hgoto := runningOf_goto hphase phase' id'
    rwa [if_neg (hidle id'), if_neg (hidle' id'), ← hs] at hgoto
  refine
    { h with
      runtime := h.runtime.turn hturn
      initialised := (grows_turn hturn).initialised .high h.initialised
      once := fun id' => ?_
      begun := fun id' task future woken htask hstage => ?_
      polled := fun id' task htask => ?_
      sent := fun p' id' hid' => h.sent p' id' (by rwa [hs] at hid') }
  · show runtime.queuedOf id' + runtime.runningOf id' = if s.isAwake id' then 1 else 0
    rw [hrunning, hs]
    exact h.once id'
  · show runtime.queuedOf id' = 0
    rw [hs]
    exact h.begun id' task future woken htask hstage
  · show runtime.takenOf id' = task.polls + runtime.runningOf id'
    rw [hrunning, hs]
    exact h.polled id' task htask

/-- What a worker runs is the only runnable of its task, which is active. -/
theorem Sound.runs (h : s.Sound rt) (hphase : s.runtime.phase? w = some (.running id)) :
    ∃ task, s.tasks[id]? = some task ∧ task.stage.isAwake = true ∧
      s.runtime.queuedOf id = 0 ∧ s.runtime.runningOf id = 1 := by
  have hgoto := runningOf_goto hphase .first id
  rw [if_pos rfl, if_neg (by simp)] at hgoto
  have honce := h.once id
  have hawake : s.isAwake id = true := by
    by_contra hnot
    rw [if_neg hnot] at honce
    omega
  rw [if_pos hawake] at honce
  obtain ⟨task, htask, hstage⟩ := (Option.any_eq_true ..).mp hawake
  exact ⟨task, htask, hstage, by omega, by omega⟩

/-- One task changes, and the others keep their runnables. -/
theorem Sound.change (h : s.Sound rt) (htask : s.tasks[id]? = some task) {task' : Task}
    {runtime : State ℕ} (hinv : Inv rt runtime) (hinit : runtime.initialised .high = true)
    (horder : task'.order = task.order) (hright : task'.Right)
    (honce : runtime.queuedOf id + runtime.runningOf id = if task'.stage.isAwake then 1 else 0)
    (hbegun : ∀ future woken, task'.stage = .active future (.running woken) →
      runtime.queuedOf id = 0)
    (hpolled : runtime.takenOf id = task'.polls + runtime.runningOf id)
    (hothers : ∀ id' ≠ id, runtime.queuedOf id' = s.runtime.queuedOf id' ∧
      runtime.runningOf id' = s.runtime.runningOf id' ∧
      runtime.takenOf id' = s.runtime.takenOf id')
    (hsent : ∀ p, ∀ id' ∈ runtime.sent p, id' ∈ s.runtime.sent p ∨ id' = id ∧ p = task.order) :
    Sound rt ⟨runtime, s.tasks.set id task'⟩ := by
  obtain ⟨hlt, -⟩ := List.getElem?_eq_some_iff.mp htask
  refine ⟨hinv, hinit, fun id' => ?_, fun id' t future woken ht hstage => ?_, fun id' t ht => ?_,
    fun id' t ht => ?_, fun p id' hid' => ?_⟩
  · rw [isAwake_set htask]
    by_cases hid : id = id'
    · subst hid
      rw [if_pos rfl]
      exact honce
    · obtain ⟨hqueued, hrunning, -⟩ := hothers id' (Ne.symm hid)
      rw [if_neg hid]
      show runtime.queuedOf id' + runtime.runningOf id' = _
      rw [hqueued, hrunning]
      exact h.once id'
  · rcases getElem?_set_cases ht with ⟨rfl, rfl⟩ | ⟨hid, ht⟩
    · exact hbegun future woken hstage
    · exact (hothers id' hid).1.trans (h.begun id' t future woken ht hstage)
  · rcases getElem?_set_cases ht with ⟨rfl, rfl⟩ | ⟨hid, ht⟩
    · exact hpolled
    · obtain ⟨-, hrunning, htaken⟩ := hothers id' hid
      exact (htaken.trans (h.polled id' t ht)).trans (congrArg (t.polls + ·) hrunning.symm)
  · rcases getElem?_set_cases ht with ⟨-, rfl⟩ | ⟨-, ht⟩
    · exact hright
    · exact h.right id' t ht
  · have hold : ∀ t, s.tasks[id']? = some t → t.order = p →
        ∃ t', (s.tasks.set id task')[id']? = some t' ∧ t'.order = p := by
      intro t ht hp
      by_cases hid : id = id'
      · subst hid
        obtain rfl := Option.some_inj.mp (htask.symm.trans ht)
        exact ⟨task', List.getElem?_set_self hlt, horder.trans hp⟩
      · exact ⟨t, (List.getElem?_set_ne hid).trans ht, hp⟩
    rcases hsent p id' hid' with hid' | ⟨rfl, rfl⟩
    · obtain ⟨t, ht, hp⟩ := h.sent p id' hid'
      exact hold t ht hp
    · exact hold task htask rfl

/-- A change that leaves the channels and the workers alone. -/
theorem Sound.setStage (h : s.Sound rt) (htask : s.tasks[id]? = some task) {stage : Stage}
    (hright : Task.Right { task with stage }) (hawake : stage.isAwake = task.stage.isAwake)
    (hbegun : s.runtime.queuedOf id = 0) : (s.setStage id task stage).Sound rt := by
  have honce := h.once id
  rw [isAwake_of_getElem? htask, ← hawake] at honce
  exact h.change htask h.runtime h.initialised rfl hright honce (fun _ _ _ => hbegun)
    (h.polled id task htask) (fun _ _ => ⟨rfl, rfl, rfl⟩) fun _ _ hid' => .inl hid'

/-- A task that slept is scheduled. -/
theorem Sound.wake (h : s.Sound rt) (htask : s.tasks[id]? = some task) :
    (s.wake id task).Sound rt := by
  have hright := h.right id task htask
  obtain ⟨order, spawned, stage, polls⟩ := task
  unfold Tasks.wake
  split
  · rename_i hstage
    simp only at hstage
    subst hstage
    obtain ⟨hafter, hlasts, -⟩ := hright
    have honce := h.once id
    rw [isAwake_of_getElem? htask] at honce
    simp only [Stage.isAwake, Bool.false_eq_true, if_false] at honce
    have hqueued := queuedOf_schedule s.runtime order id
    have hrunning := runningOf_schedule h.runtime order id
    have htaken (id' : ℕ) : (s.runtime.schedule order id).takenOf id' = s.runtime.takenOf id' := by
      rw [State.takenOf, taken_schedule, State.takenOf]
    refine h.change htask (h.runtime.schedule order id)
      ((grows_schedule s.runtime order id).initialised .high h.initialised) rfl
      ⟨hafter, hlasts, by simp⟩ ?_ (fun _ _ hrun => by cases hrun) ?_ (fun id' hid => ?_)
      fun p id' hid' => ?_
    · rw [hqueued, hrunning, if_pos rfl]
      show _ = 1
      omega
    · have hpolled := h.polled id _ htask
      rw [htaken, hrunning]
      exact hpolled
    · rw [hqueued, hrunning, htaken, if_neg (Ne.symm hid)]
      exact ⟨rfl, rfl, rfl⟩
    · rw [sent_schedule, List.mem_append] at hid'
      rcases hid' with hid' | hid'
      · exact .inl hid'
      · split at hid'
        · rename_i hp
          exact .inr ⟨List.mem_singleton.mp hid', hp⟩
        · cases hid'
  · rename_i hstage
    simp only at hstage
    subst hstage
    obtain ⟨hafter, hlasts, -⟩ := hright
    exact h.setStage htask ⟨hafter, hlasts, by simp⟩ rfl (h.begun id _ _ _ htask rfl)
  · exact h

/-- A poll begins. -/
theorem Sound.begins (h : s.Sound rt) (htask : s.tasks[id]? = some task) {future : Future}
    (hstage : task.stage = .active future .scheduled)
    (hphase : s.runtime.phase? w = some (.running id)) :
    (s.setStage id task (.active future (.running false))).Sound rt := by
  obtain ⟨-, -, -, hnone, -⟩ := h.runs hphase
  have hright := h.right id task htask
  rw [Task.Right, hstage] at hright
  exact h.setStage htask ⟨hright.1, hright.2.1, by simp⟩ (by rw [hstage]; rfl) hnone

theorem fits_of_poll {spawned : Future} {polls : ℕ} {poll : Poll} (hlasts : spawned.Lasts polls)
    (hpoll : (spawned.after polls).poll fromUtf8Lossy found = some poll) :
    poll.Fits spawned (polls + 1) := by
  cases spawned with
  | counterFuture count =>
    have hlt : polls < 3 := hlasts
    obtain rfl := Option.some_inj.mp hpoll
    by_cases hthree : 3 ≤ polls + 1
    · obtain rfl : polls = 2 := by omega
      exact ⟨rfl, rfl⟩
    · rw [if_neg hthree]
      exact ⟨rfl, Nat.lt_of_not_le hthree, fun hwoken => (by cases hwoken)⟩
  | asyncSleep start duration =>
    obtain rfl := Option.some_inj.mp hpoll
    split
    · exact ⟨rfl, Nat.succ_pos _⟩
    · exact ⟨rfl, trivial, fun hwoken => (by cases hwoken)⟩
  | serverFuture =>
    obtain ⟨result, hresult, rfl⟩ := Option.map_eq_some_iff.mp hpoll
    cases result with
    | ready text => exact ⟨⟨text, rfl⟩, Nat.succ_pos _⟩
    | pending woken =>
      obtain rfl := ServerFuture.woken_of_poll hresult
      exact ⟨rfl, trivial, fun hwoken => (by cases hwoken)⟩
    | panicked => exact trivial
  | asyncFn =>
    obtain rfl := Option.some_inj.mp hpoll
    exact ⟨rfl, congrArg (· + 1) hlasts⟩
  | awaiting =>
    obtain rfl := Option.some_inj.mp hpoll
    cases found.outside with
    | arrived => exact ⟨rfl, Nat.succ_pos _⟩
    | missing woken => exact ⟨rfl, trivial, fun _ => rfl⟩
    | failed => exact trivial

/-- A runnable has been run to its end. -/
theorem Sound.ended (h : s.Sound rt) (htask : s.tasks[id]? = some task)
    (hphase : s.runtime.phase? w = some (.running id)) {task' : Task} {runtime : State ℕ}
    (hinv : Inv rt runtime) (hinit : runtime.initialised .high = true)
    (horder : task'.order = task.order) (hpolls : task'.polls = task.polls + 1)
    (hright : task'.Right) (hrest : ∀ future woken, task'.stage ≠ .active future (.running woken))
    (hqueued : ∀ id', runtime.queuedOf id' =
      s.runtime.queuedOf id' + if id = id' ∧ task'.stage.isAwake = true then 1 else 0)
    (hrunning : ∀ id', runtime.runningOf id' = (s.runtime.goto w .first).runningOf id')
    (htaken : runtime.taken = s.runtime.taken)
    (hsent : ∀ p, ∀ id' ∈ runtime.sent p, id' ∈ s.runtime.sent p ∨ id' = id ∧ p = task.order) :
    Sound rt ⟨runtime, s.tasks.set id task'⟩ := by
  obtain ⟨-, -, -, hnone, hone⟩ := h.runs hphase
  have hgoto (id' : ℕ) : runtime.runningOf id' + (if id = id' then 1 else 0) =
      s.runtime.runningOf id' := by
    have hgoto := runningOf_goto hphase .first id'
    rw [if_neg (by simp : Phase.first ≠ .running id'), Nat.add_zero] at hgoto
    simpa [hrunning] using hgoto
  have hself := hgoto id
  rw [if_pos rfl] at hself
  have htakenOf (id' : ℕ) : runtime.takenOf id' = s.runtime.takenOf id' := by
    rw [State.takenOf, htaken, State.takenOf]
  refine h.change htask hinv hinit horder hright ?_
    (fun future woken hstage => absurd hstage (hrest future woken)) ?_ (fun id' hid => ?_) hsent
  · have hcount := hqueued id
    simp only [true_and] at hcount
    omega
  · have hpolled := h.polled id task htask
    rw [htakenOf, hpolled, hpolls]
    omega
  · have hcount := hqueued id'
    have hrun := hgoto id'
    rw [if_neg fun hboth => hid hboth.1.symm] at hcount
    rw [if_neg (Ne.symm hid)] at hrun
    exact ⟨hcount, hrun, htakenOf id'⟩

/-- A poll ends, and with it the runnable. -/
theorem Sound.ends (h : s.Sound rt) (htask : s.tasks[id]? = some task) {future : Future}
    {woken : Bool} (hstage : task.stage = .active future (.running woken))
    (hphase : s.runtime.phase? w = some (.running id)) {poll : Poll}
    (hpoll : future.poll fromUtf8Lossy found = some poll) {runtime : State ℕ}
    (hturn : s.runtime.turn w = some runtime) (hs : runtime = s.runtime.goto w .first) :
    (endRun { s with runtime } id task woken poll).Sound rt := by
  have hinv : Inv rt runtime := h.runtime.turn hturn
  have hinit : runtime.initialised .high = true :=
    (grows_turn hturn).initialised .high h.initialised
  have hright := h.right id task htask
  rw [Task.Right, hstage] at hright
  obtain ⟨hafter, hlasts, -⟩ := hright
  have hfits := fits_of_poll hlasts (hafter ▸ hpoll)
  have hsame (task' : Task) (hawake : task'.stage.isAwake = false) (id' : ℕ) :
      runtime.queuedOf id' =
        s.runtime.queuedOf id' + if id = id' ∧ task'.stage.isAwake = true then 1 else 0 := by
    simp [hawake, hs]
    rfl
  have hold (p : FuturePriority) (id' : ℕ) (hid' : id' ∈ runtime.sent p) :
      id' ∈ s.runtime.sent p ∨ id' = id ∧ p = task.order := .inl (by rwa [hs] at hid')
  cases poll with
  | ready output =>
    exact h.ended htask hphase hinv hinit rfl rfl hfits (by simp) (hsame _ rfl)
      (fun _ => by rw [hs]) (by rw [hs]; rfl) hold
  | panicked =>
    exact h.ended htask hphase hinv hinit rfl rfl ⟨hfits, Nat.succ_pos _⟩ (by simp) (hsame _ rfl)
      (fun _ => by rw [hs]) (by rw [hs]; rfl) hold
  | pending future' woken' =>
    obtain ⟨hafter', hlasts', hwaits⟩ := hfits
    simp only [endRun]
    by_cases hwoken : (woken || woken') = true
    · rw [if_pos hwoken]
      refine h.ended htask hphase (hinv.schedule task.order id)
        ((grows_schedule runtime task.order id).initialised .high hinit) rfl rfl
        ⟨hafter', hlasts', by simp⟩ (by simp) (fun id' => ?_) (fun id' => ?_) ?_
        fun p id' hid' => ?_
      · show (runtime.schedule task.order id).queuedOf id' = _
        rw [queuedOf_schedule, hs]
        simp [Stage.isAwake]
        rfl
      · show (runtime.schedule task.order id).runningOf id' = _
        rw [runningOf_schedule hinv, hs]
      · show (runtime.schedule task.order id).taken = _
        rw [taken_schedule, hs]
        rfl
      · have hid' : id' ∈ (runtime.schedule task.order id).sent p := hid'
        rw [sent_schedule, List.mem_append] at hid'
        rcases hid' with hid' | hid'
        · exact hold p id' hid'
        · split at hid'
          · rename_i hp
            exact .inr ⟨List.mem_singleton.mp hid', hp⟩
          · cases hid'
    · -- nobody has woken it
      rw [if_neg hwoken]
      have hnot : woken' = false := by
        cases woken' <;> simp_all
      exact h.ended htask hphase hinv hinit rfl rfl ⟨hafter', hlasts', fun _ => hwaits hnot⟩
        (by simp) (hsame _ rfl) (fun _ => by rw [hs]) (by rw [hs]; rfl) hold

/-- All that a turn can do. -/
inductive TurnStep (fromUtf8Lossy : List UInt8 → String) (s : Tasks) (w : Worker) (found : Found) :
    Tasks → Prop
  | begins {id : ℕ} {task : Task} {future : Future}
    (hphase : s.runtime.phase? w = some (.running id)) (htask : s.tasks[id]? = some task)
    (hstage : task.stage = .active future .scheduled) :
    TurnStep fromUtf8Lossy s w found (s.setStage id task (.active future (.running false)))
  | ends {id : ℕ} {task : Task} {future : Future} {woken : Bool} {poll : Poll} {runtime : State ℕ}
    (hphase : s.runtime.phase? w = some (.running id)) (htask : s.tasks[id]? = some task)
    (hstage : task.stage = .active future (.running woken))
    (hpoll : future.poll fromUtf8Lossy found = some poll)
    (hturn : s.runtime.turn w = some runtime) :
    TurnStep fromUtf8Lossy s w found (endRun { s with runtime } id task woken poll)
  | idle {runtime : State ℕ} (hidle : ∀ id, s.runtime.phase? w ≠ some (.running id))
    (hturn : s.runtime.turn w = some runtime) :
    TurnStep fromUtf8Lossy s w found { s with runtime }

theorem turn_cases (h : s.turn fromUtf8Lossy w found = some s') :
    TurnStep fromUtf8Lossy s w found s' := by
  unfold turn at h
  split at h
  · rename_i id hphase
    obtain ⟨task, htask, h⟩ := Option.bind_eq_some_iff.mp h
    split at h
    · rename_i future hstage
      obtain rfl := Option.some_inj.mp h
      exact .begins hphase htask hstage
    · rename_i future woken hstage
      obtain ⟨poll, hpoll, h⟩ := Option.bind_eq_some_iff.mp h
      obtain ⟨runtime, hturn, rfl⟩ := Option.map_eq_some_iff.mp h
      exact .ends hphase htask hstage hpoll hturn
    · cases h
  · rename_i hphase
    obtain ⟨runtime, hturn, rfl⟩ := Option.map_eq_some_iff.mp h
    exact .idle hphase hturn

theorem Sound.turn (h : s.Sound rt) (hs : s.turn fromUtf8Lossy w found = some s') :
    s'.Sound rt := by
  cases turn_cases hs with
  | begins hphase htask hstage => exact h.begins htask hstage hphase
  | ends hphase htask hstage hpoll hturn =>
    cases turn_case h.runtime hturn with
    | ends _ hruntime => exact h.ends htask hstage hphase hpoll hturn hruntime
    | takes hphase' hidle => exact absurd (Option.some_inj.mp (hphase'.symm.trans hphase)) (hidle _)
    | moves hphase' hidle => exact absurd (Option.some_inj.mp (hphase'.symm.trans hphase)) (hidle _)
  | idle hidle hturn =>
    cases turn_case h.runtime hturn with
    | ends hphase => exact absurd hphase (hidle _)
    | takes hphase hidle' hq hruntime => exact h.takes hphase hidle' hq hturn hruntime
    | moves hphase hidle' hidle'' hruntime => exact h.moves hphase hidle' hidle'' hturn hruntime

theorem Sound.step (h : s.Sound rt) {e : TaskEvent} (hs : s.step fromUtf8Lossy e = some s') :
    s'.Sound rt := by
  cases e with
  | spawnTask future order =>
    simp only [Tasks.step, Option.ite_none_right_eq_some, Option.some_inj] at hs
    obtain ⟨hnew, rfl⟩ := hs
    exact h.spawnTask hnew order
  | wake id =>
    obtain ⟨task, htask, rfl⟩ := Option.map_eq_some_iff.mp hs
    exact h.wake htask
  | turn w found => exact h.turn hs

theorem sound_of_reachable (h : Reachable (Tasks.step fromUtf8Lossy) (start rt) s) : s.Sound rt :=
  h.invariant (start_sound rt) fun _ _ _ _ hs he => hs.step he

/-! ### Wake-ups -/

/-- Task `id`, if it is one that can sleep, was woken when `n` of its polls had begun. -/
def Owed (s : Tasks) (id n : ℕ) : Prop :=
  ∃ task, s.tasks[id]? = some task ∧ (task.spawned = .awaiting → task.Owes n)

section
variable {n : ℕ}

/-- A change of one task that owes a poll no later than before. -/
theorem Owed.setStage (h : s.Owed id n) {id' : ℕ} (htask : s.tasks[id']? = some task)
    {task' : Task} (hspawned : task'.spawned = task.spawned) {stage : Stage}
    (howes : task.Owes n → Task.Owes n { task' with stage }) (runtime : State ℕ) :
    (Tasks.setStage ⟨runtime, s.tasks⟩ id' task' stage).Owed id n := by
  obtain ⟨t, ht, howed⟩ := h
  by_cases hid : id' = id
  · subst hid
    obtain rfl := Option.some_inj.mp (htask.symm.trans ht)
    exact ⟨_, List.getElem?_set_self (List.getElem?_eq_some_iff.mp ht).1,
      fun hwaits => howes (howed (hspawned ▸ hwaits))⟩
  · exact ⟨t, (List.getElem?_set_ne hid).trans ht, howed⟩

theorem Owed.wake (h : s.Owed id n) {id' : ℕ} (htask : s.tasks[id']? = some task) :
    (s.wake id' task).Owed id n := by
  unfold Tasks.wake
  split
  · rename_i hstage
    refine h.setStage htask rfl (fun howes => ?_) _
    rw [Task.Owes, hstage] at howes
    exact Nat.le_of_lt howes
  · rename_i woken hstage
    refine h.setStage htask rfl (fun howes => ?_) s.runtime
    rw [Task.Owes, hstage] at howes
    exact Nat.le_trans howes (Nat.add_le_add_left (Bool.toNat_le woken) _)
  · exact h

/-- A poll that has begun before the wake-up schedules the task at its end. -/
theorem Owed.endRun (h : s.Owed id n) {id' : ℕ} (htask : s.tasks[id']? = some task)
    {future : Future} {woken : Bool} (hstage : task.stage = .active future (.running woken))
    (runtime : State ℕ) (poll : Poll) :
    (Tasks.endRun { s with runtime } id' task woken poll).Owed id n := by
  have hbefore (howes : task.Owes n) : n ≤ task.polls + woken.toNat := by
    rwa [Task.Owes, hstage] at howes
  let task' : Task := { task with polls := task.polls + 1 }
  have hset (runtime' : State ℕ) {stage : Stage}
      (howes : task.Owes n → Task.Owes n { task' with stage }) :
      (Tasks.setStage ⟨runtime', s.tasks⟩ id' task' stage).Owed id n :=
    h.setStage htask (show task'.spawned = task.spawned from rfl) howes runtime'
  cases poll with
  | ready output => exact hset _ fun _ => trivial
  | panicked => exact hset _ fun _ => trivial
  | pending future' woken' =>
    simp only [Tasks.endRun]
    split
    · exact hset _ fun howes =>
        Nat.le_trans (hbefore howes) (Nat.add_le_add_left (Bool.toNat_le woken) _)
    · rename_i hwoken
      obtain ⟨rfl, -⟩ : woken = false ∧ woken' = false := by simpa using hwoken
      exact hset _ fun howes => Nat.lt_succ_of_le (hbefore howes)

theorem Owed.step (h : s.Owed id n) {e : TaskEvent} (hs : s.step fromUtf8Lossy e = some s') :
    s'.Owed id n := by
  cases e with
  | spawnTask future order =>
    simp only [Tasks.step, Option.ite_none_right_eq_some, Option.some_inj] at hs
    obtain ⟨-, rfl⟩ := hs
    obtain ⟨t, ht, howed⟩ := h
    exact ⟨t, (List.getElem?_append_left (List.getElem?_eq_some_iff.mp ht).1).trans ht, howed⟩
  | wake id' =>
    obtain ⟨task, htask, rfl⟩ := Option.map_eq_some_iff.mp hs
    exact h.wake htask
  | turn w found =>
    cases turn_cases hs with
    | begins hphase htask hstage =>
      refine h.setStage htask rfl (fun howes => ?_) s.runtime
      rwa [Task.Owes, hstage] at howes
    | ends hphase htask hstage hpoll hturn => exact h.endRun htask hstage _ _
    | idle hidle hturn => exact h

/-- After a wake-up a task that has not ended has its runnable, and owes a poll. -/
theorem Sound.wakes (h : s.Sound rt) (htask : s.tasks[id]? = some task)
    (hactive : task.stage.isActive = true) : ∃ task', (s.wake id task).tasks[id]? = some task' ∧
      task'.stage.isAwake = true ∧ (task'.spawned = .awaiting → task'.Owes task.begun) := by
  have hlt := (List.getElem?_eq_some_iff.mp htask).1
  have hright := h.right id task htask
  obtain ⟨order, spawned, stage, polls⟩ := task
  cases stage with
  | completed | panicked => cases hactive
  | active future schedule =>
    obtain ⟨hafter, -, hwaits⟩ : future = spawned.after polls ∧ spawned.Lasts polls ∧
      (schedule = .asleep → spawned = .awaiting) := hright
    subst hafter
    cases spawned with
    | counterFuture | asyncSleep | serverFuture | asyncFn =>
      -- it is not asleep, and nothing happens
      cases schedule with
      | scheduled | running => exact ⟨_, htask, rfl, fun hspawned => by cases hspawned⟩
      | asleep => cases hwaits rfl
    | awaiting =>
      cases schedule with
      | scheduled => exact ⟨_, htask, rfl, fun _ => Nat.le_refl _⟩
      | running woken => exact ⟨_, List.getElem?_set_self hlt, rfl, fun _ => Nat.le_refl _⟩
      | asleep => exact ⟨_, List.getElem?_set_self hlt, rfl, fun _ => Nat.le_refl _⟩

end

end Tasks

/-- **A task runs at one place, and to its end.**  In every reachable state the runnable of a
task that has not ended is queued or run at exactly one place, unless the task sleeps, which
only one does that waits for something outside; a task that has ended has none.  Each time that
the runnable was taken the task was polled once, or is about to be; the polls are what its
future counts, so that it has ended after the polls that it needs and with the right output;
and it was only ever sent to the channel of its priority.  No wake-up is lost: after it a task
that has not ended has a runnable, and it does not sleep before a poll that has begun later. -/
theorem runs_once_at_a_time {fromUtf8Lossy : List UInt8 → String} {rt : Runtime} {s : Tasks}
    (h : Reachable (Tasks.step fromUtf8Lossy) (Tasks.start rt) s) {id : ℕ} {task : Task}
    (htask : s.tasks[id]? = some task) :
    (s.runtime.queuedOf id + s.runtime.runningOf id = if task.stage.isAwake then 1 else 0) ∧
    s.runtime.takenOf id = task.polls + s.runtime.runningOf id ∧ task.Right ∧
    (∀ p, id ∈ s.runtime.sent p → p = task.order) ∧
    (task.stage.isActive = true → ∀ s', s.step fromUtf8Lossy (.wake id) = some s' →
      s'.runtime.queuedOf id + s'.runtime.runningOf id = 1 ∧
      ∀ s'' task' future, Reachable (Tasks.step fromUtf8Lossy) s' s'' →
        s''.tasks[id]? = some task' → task'.stage = .active future .asleep →
          task.begun < task'.polls) := by
  have hs := Tasks.sound_of_reachable h
  refine ⟨?_, hs.polled id task htask, hs.right id task htask, fun p hsent => ?_,
    fun hactive s' hwake => ?_⟩
  · have honce := hs.once id
    rwa [Tasks.isAwake_of_getElem? htask] at honce
  · obtain ⟨task', htask', horder⟩ := hs.sent p id hsent
    rw [htask, Option.some_inj] at htask'
    rw [htask', horder]
  · have hs' := hs.step hwake
    obtain ⟨task', htask', rfl⟩ := Option.map_eq_some_iff.mp hwake
    obtain rfl := Option.some_inj.mp (htask.symm.trans htask')
    obtain ⟨woken, hwoken, hawake, howes⟩ := hs.wakes htask hactive
    refine ⟨?_, fun s'' task' future hreach htask' hasleep => ?_⟩
    · have honce := hs'.once id
      rwa [Tasks.isAwake_of_getElem? hwoken, hawake, if_pos rfl] at honce
    · obtain ⟨t, ht, howed⟩ := hreach.invariant (I := fun t => t.Owed id task.begun)
        ⟨woken, hwoken, howes⟩ fun _ _ _ _ howed hstep => howed.step hstep
      obtain rfl := Option.some_inj.mp (htask'.symm.trans ht)
      have hs'' : s''.Sound rt := hreach.invariant hs' fun _ _ _ _ ht hstep => ht.step hstep
      have hright := hs''.right id task' htask'
      rw [Task.Right, hasleep] at hright
      have howes := howed (hright.2.2 rfl)
      rwa [Task.Owes, hasleep] at howes

/-- `hyper` has nothing for the program. -/
def nothing : Found := ⟨0, [], .error "connection refused", 0, .missing false⟩

/-- One high worker polls the task of `Runtime::run`, then one that waits for `hyper`, and then
a `CounterFuture`, which was spawned with the default priority, for the first time. -/
def countOnce : List TaskEvent :=
  List.replicate 3 (.turn ⟨.high, 0⟩ nothing) ++
  [.spawnTask (.counterFuture 0) .low, .spawnTask .awaiting .high] ++
  List.replicate 7 (.turn ⟨.high, 0⟩ nothing)

theorem runs_once_at_a_time_counter : ∃ s s',
    run (Tasks.step fun _ => "") (Tasks.start ⟨1, 0⟩) countOnce = some s ∧
    s.tasks = [⟨.high, .asyncFn, .completed .unit, 1⟩,
      ⟨.low, .counterFuture 0, .active (.counterFuture 1) .scheduled, 1⟩,
      ⟨.high, .awaiting, .active .awaiting .asleep, 1⟩] ∧
    s.runtime.queuedOf 2 + s.runtime.runningOf 2 = 0 ∧
    s.step (fun _ => "") (.wake 2) = some s' ∧
    s'.runtime.queuedOf 2 + s'.runtime.runningOf 2 = 1 := by
  have hrun : (run (Tasks.step fun _ => "") (Tasks.start ⟨1, 0⟩) countOnce).map Tasks.tasks =
      some [⟨.high, .asyncFn, .completed .unit, 1⟩,
        ⟨.low, .counterFuture 0, .active (.counterFuture 1) .scheduled, 1⟩,
        ⟨.high, .awaiting, .active .awaiting .asleep, 1⟩] := by
    decide +kernel
  obtain ⟨s, hs, htasks⟩ := Option.map_eq_some_iff.mp hrun
  have htask : s.tasks[2]? = some ⟨.high, .awaiting, .active .awaiting .asleep, 1⟩ := by
    rw [htasks]
    rfl
  have hwake : s.step (fun _ => "") (.wake 2) =
      some (s.wake 2 ⟨.high, .awaiting, .active .awaiting .asleep, 1⟩) := by
    rw [Tasks.step, htask, Option.map_some]
  obtain ⟨honce, -, -, -, hwoken⟩ := runs_once_at_a_time ⟨_, hs⟩ htask
  exact ⟨s, _, hs, htasks, honce, hwake, (hwoken rfl _ hwake).1⟩

end Executor
