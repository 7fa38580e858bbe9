/-
The audit log (`15-async-logger/src/main.rs`).

A handle is a file behind a mutex: it was opened to append, or, if that failed, created,
which truncates the file; a created file is written at the position of its handle.  A task
that logs a line takes the mutex in one of its polls, and puts the line into the file by as
many writes as it takes before it returns.

* `State.step` — the calls of `get_file_handle`, the polls and the writes, cut where the
  threads may interleave;
* `Logged` — a file is what it was at the start, followed by the lines that were logged;
* `append_only_iff` — a run in which no write fails is append-only iff `File::create` finds
  nothing in the file, and writes through created handles find its end.
-/
import Mathlib.Data.List.Perm.Basic
import Mathlib.Logic.Function.Basic
import AsyncRust.ByteFormat
import AsyncRust.Runs

namespace AuditLog

open ByteFormat Runs

variable {P : Type} [DecidableEq P]

/-! ### Files -/

/-- The bytes `bs` are put over those of `content` from `pos` on, after zeros if the file is
shorter. -/
def overwrite (content : List UInt8) (pos : ℕ) (bs : List UInt8) : List UInt8 :=
  (content ++ List.replicate (pos - content.length) 0).take pos ++ bs ++
    content.drop (pos + bs.length)

/-- An `AsyncFileHandle`: the file was opened to append, or has a position; the mutex is
locked or not. -/
structure Handle (P : Type) where
  path : P
  position : Option ℕ
  locked : Bool
  deriving DecidableEq, Repr

namespace Handle

/-- What a write leaves in the file. -/
def content (handle : Handle P) (content bs : List UInt8) : List UInt8 :=
  match handle.position with
  | none => content ++ bs
  | some pos => overwrite content pos bs

/-- Where a write leaves the handle. -/
def advance (handle : Handle P) (n : ℕ) : Handle P :=
  { handle with position := handle.position.map (· + n) }

end Handle

/-! ### The program -/

/-- Where a call of `get_file_handle` is. -/
inductive CallPhase where
  | opening
  | creating
  | returned (handle : ℕ)
  | panicked
  deriving DecidableEq, Repr

structure Call (P : Type) where
  path : P
  phase : CallPhase
  deriving DecidableEq, Repr

/-- Where the task of a `write_log` is; while it writes, it holds the mutex, and has the
bytes `rest` left.  At the end, `written` is what `write_all` has returned. -/
inductive TaskPhase where
  | ready
  | writing (rest : List UInt8)
  | resolved (written : Except String Unit) (result : Except String Bool)

/-- An `AsyncWriteFuture`. -/
structure Task where
  handle : ℕ
  entry : String
  phase : TaskPhase

/-- What the operating system says to a write of some bytes. -/
inductive Outcome where
  | wrote (n : ℕ)
  | interrupted
  | failed (error : String)
  deriving DecidableEq, Repr

structure State (P : Type) where
  files : P → Option (List UInt8)
  handles : List (Handle P)
  calls : List (Call P)
  tasks : List Task

/-- `openFile` and `createFile` may fail for other reasons than those of the file. -/
inductive Event (P : Type) where
  | getFileHandle (path : P)
  | openFile (call : ℕ) (fails : Bool)
  | createFile (call : ℕ) (fails : Bool)
  | writeLog (handle : ℕ) (entry : String)
  | poll (task : ℕ)
  | write (task : ℕ) (outcome : Outcome)
  deriving DecidableEq, Repr

/-- `format!("{}\n", self.entry)`. -/
def linedEntry (entry : String) : List UInt8 := utf8 entry ++ [10]

def Task.line (task : Task) : List UInt8 := linedEntry task.entry

/-- The end of a poll that has the mutex: an error is printed. -/
def pollResult (written : Except String Unit) : Except String Bool :=
  match written with
  | .ok _ => .ok true
  | .error _ => .ok true

namespace State

/-- What is in a file; a file that does not exist is empty. -/
def content (s : State P) (path : P) : List UInt8 := (s.files path).getD []

def setCall (s : State P) (i : ℕ) (call : Call P) : State P :=
  { s with calls := s.calls.set i call }

def setTask (s : State P) (i : ℕ) (task : Task) : State P :=
  { s with tasks := s.tasks.set i task }

def setHandle (s : State P) (i : ℕ) (handle : Handle P) : State P :=
  { s with handles := s.handles.set i handle }

/-- The call `i` returns a new handle. -/
def addHandle (s : State P) (i : ℕ) (path : P) (position : Option ℕ) : State P :=
  { s with
    handles := s.handles ++ [{ path, position, locked := false }]
    calls := s.calls.set i { path, phase := .returned s.handles.length } }

/-- `OpenOptions::new().append(true).open(..)`. -/
def openFile (s : State P) (i : ℕ) (path : P) (fails : Bool) : State P :=
  if fails ∨ s.files path = none then s.setCall i { path, phase := .creating }
  else s.addHandle i path none

/-- `File::create(..)`, which panics if it fails. -/
def createFile (s : State P) (i : ℕ) (path : P) (fails : Bool) : State P :=
  if fails then s.setCall i { path, phase := .panicked }
  else
    { s with files := Function.update s.files path (some []) }.addHandle i path (some 0)

/-- A poll that does not get the mutex wakes itself, and one that does begins to write. -/
def poll (s : State P) (i : ℕ) (task : Task) (handle : Handle P) : State P :=
  if handle.locked then s
  else
    (s.setHandle task.handle { handle with locked := true }).setTask i
      { task with phase := .writing task.line }

/-- The poll returns, and unlocks the mutex. -/
def resolve (s : State P) (i : ℕ) (task : Task) (handle : Handle P)
    (written : Except String Unit) : State P :=
  (s.setHandle task.handle { handle with locked := false }).setTask i
    { task with phase := .resolved written (pollResult written) }

/-- `n` bytes of `rest` are put into the file. -/
def put (s : State P) (i : ℕ) (task : Task) (handle : Handle P) (rest : List UInt8) (n : ℕ) :
    State P :=
  ({ s with
    files := Function.update s.files handle.path
      (some (handle.content (s.content handle.path) (rest.take n))) }.setHandle task.handle
        (handle.advance n)).setTask i { task with phase := .writing (rest.drop n) }

/-- One round of the loop of `write_all`, with `rest` left. -/
def write (s : State P) (i : ℕ) (task : Task) (handle : Handle P) (rest : List UInt8) :
    Outcome → State P
  | .wrote n =>
    if n = 0 then s.resolve i task handle (.error "failed to write whole buffer")
    else if n < rest.length then s.put i task handle rest n
    else
      (s.put i task handle rest rest.length).resolve i task (handle.advance rest.length) (.ok ())
  | .interrupted => s
  | .failed error => s.resolve i task handle (.error error)

def step (s : State P) : Event P → Option (State P)
  | .getFileHandle path => some { s with calls := s.calls ++ [{ path, phase := .opening }] }
  | .openFile i fails =>
    (s.calls[i]?).bind fun call =>
      if call.phase = .opening then some (s.openFile i call.path fails) else none
  | .createFile i fails =>
    (s.calls[i]?).bind fun call =>
      if call.phase = .creating then some (s.createFile i call.path fails) else none
  | .writeLog handle entry =>
    if handle < s.handles.length then
      some { s with tasks := s.tasks ++ [{ handle, entry, phase := .ready }] }
    else none
  | .poll i =>
    (s.tasks[i]?).bind fun task => (s.handles[task.handle]?).bind fun handle =>
      match task.phase with
      | .ready => some (s.poll i task handle)
      | _ => none
  | .write i outcome =>
    (s.tasks[i]?).bind fun task => (s.handles[task.handle]?).bind fun handle =>
      match task.phase with
      | .writing rest => some (s.write i task handle rest outcome)
      | _ => none

/-- Nothing has been opened yet. -/
def new (files : P → Option (List UInt8)) : State P where
  files := files
  handles := []
  calls := []
  tasks := []

end State

/-! ### What is claimed of it -/

def Task.resolved (task : Task) : Bool :=
  match task.phase with
  | .resolved _ _ => true
  | _ => false

namespace State

def paths (s : State P) : List P := s.handles.map (·.path)

/-- The file that a task writes to. -/
def pathOf (s : State P) (task : Task) : Option P := s.paths[task.handle]?

/-- The lines of the tasks that have returned. -/
def logged (s : State P) (path : P) : List (List UInt8) :=
  (s.tasks.filter fun task => task.resolved && s.pathOf task = some path).map (·.line)

/-- The task `i` is about to write to the file, of whose line it has written `written`. -/
def Wrote (s : State P) (path : P) (i : ℕ) (written : List UInt8) : Prop :=
  ∃ task rest, s.tasks[i]? = some task ∧ s.pathOf task = some path ∧
    task.phase = .writing rest ∧ task.line = written ++ rest

/-- The task `i` is inside a line of the file. -/
def Inside (s : State P) (path : P) (i : ℕ) : Prop := ∃ written ≠ [], s.Wrote path i written

end State

/-- Every file is what it was at the start, followed by the lines that were logged to it, in
some order, and what one task has written of its line so far. -/
def Logged (start : P → List UInt8) (s : State P) : Prop :=
  ∀ path, ∃ order : List (List UInt8), order.Perm (s.logged path) ∧
    ((∀ i, ¬ s.Inside path i) ∧ s.content path = start path ++ order.flatten ∨
      ∃ i written, written ≠ [] ∧ s.Wrote path i written ∧
        s.content path = start path ++ order.flatten ++ written ∧
        ∀ j, s.Inside path j → j = i)

/-- No step takes anything from a file or changes it. -/
def KeepsPrefix (s : State P) (e : Event P) : Prop :=
  ∀ s', s.step e = some s' → ∀ path, s.content path <+: s'.content path

/-- What is claimed of the run over `es`. -/
def AppendOnly (start : P → List UInt8) (s : State P) (es : List (Event P)) : Prop :=
  Along State.step (Logged start) s es ∧ Meets State.step KeepsPrefix s es

/-- No write fails. -/
def Succeeds : Event P → Prop
  | .write _ (.wrote n) => n ≠ 0
  | .write _ (.failed _) => False
  | _ => True

/-- Every write takes the whole line. -/
def TakesLine (s : State P) : Event P → Prop
  | .write i (.wrote n) => ∀ task ∈ s.tasks[i]?, task.line.length ≤ n
  | .write _ (.failed _) => False
  | _ => True

/-- `File::create` truncates a file only if there is nothing in it, and a created file is
written at its end. -/
def AtEnd (s : State P) : Event P → Prop
  | .createFile i false => ∀ call ∈ s.calls[i]?, s.content call.path = []
  | .write i (.wrote _) => ∀ task ∈ s.tasks[i]?, ∀ handle ∈ s.handles[task.handle]?,
      ∀ pos ∈ handle.position, pos = (s.content handle.path).length
  | _ => True

/-- Nobody writes to a file while another task is inside a line of it. -/
def NobodyInside (s : State P) : Event P → Prop
  | .write i _ => ∀ task ∈ s.tasks[i]?, ∀ path ∈ s.pathOf task, ∀ j, s.Inside path j → j = i
  | _ => True

/-! ### Steps -/

theorem linedEntry_ne_nil (entry : String) : linedEntry entry ≠ [] :=
  List.append_ne_nil_of_right_ne_nil _ (List.cons_ne_nil _ _)

namespace State

variable {s s' : State P}

theorem step_openFile {i : ℕ} {fails : Bool} (h : s.step (.openFile i fails) = some s') :
    ∃ call, s.calls[i]? = some call ∧ call.phase = .opening ∧
      s' = s.openFile i call.path fails := by
  obtain ⟨call, hcall, h⟩ := Option.bind_eq_some_iff.mp h
  rw [Option.ite_none_right_eq_some, Option.some_inj] at h
  exact ⟨call, hcall, h.1, h.2.symm⟩

theorem step_createFile {i : ℕ} {fails : Bool} (h : s.step (.createFile i fails) = some s') :
    ∃ call, s.calls[i]? = some call ∧ call.phase = .creating ∧
      s' = s.createFile i call.path fails := by
  obtain ⟨call, hcall, h⟩ := Option.bind_eq_some_iff.mp h
  rw [Option.ite_none_right_eq_some, Option.some_inj] at h
  exact ⟨call, hcall, h.1, h.2.symm⟩

theorem step_writeLog {handle : ℕ} {entry : String}
    (h : s.step (.writeLog handle entry) = some s') :
    handle < s.handles.length ∧
      s' = { s with tasks := s.tasks ++ [{ handle, entry, phase := .ready }] } := by
  simp only [step, Option.ite_none_right_eq_some, Option.some_inj] at h
  exact ⟨h.1, h.2.symm⟩

theorem step_poll {i : ℕ} (h : s.step (.poll i) = some s') :
    ∃ task handle, s.tasks[i]? = some task ∧ s.handles[task.handle]? = some handle ∧
      task.phase = .ready ∧ s' = s.poll i task handle := by
  obtain ⟨task, htask, h⟩ := Option.bind_eq_some_iff.mp h
  obtain ⟨handle, hhandle, h⟩ := Option.bind_eq_some_iff.mp h
  split at h
  next hphase => exact ⟨task, handle, htask, hhandle, hphase, (Option.some_inj.mp h).symm⟩
  next => cases h

theorem step_write {i : ℕ} {outcome : Outcome} (h : s.step (.write i outcome) = some s') :
    ∃ task handle rest, s.tasks[i]? = some task ∧ s.handles[task.handle]? = some handle ∧
      task.phase = .writing rest ∧ s' = s.write i task handle rest outcome := by
  obtain ⟨task, htask, h⟩ := Option.bind_eq_some_iff.mp h
  obtain ⟨handle, hhandle, h⟩ := Option.bind_eq_some_iff.mp h
  split at h
  next rest hphase =>
    exact ⟨task, handle, rest, htask, hhandle, hphase, (Option.some_inj.mp h).symm⟩
  next => cases h

end State

/-- The task `i` has written `bs` through its handle, and is in `phase` now. -/
structure Puts (s s' : State P) (i : ℕ) (task : Task) (handle : Handle P) (bs : List UInt8)
    (locked : Bool) (phase : TaskPhase) : Prop where
  files : s'.files = Function.update s.files handle.path
    (some (handle.content (s.content handle.path) bs))
  handles : s'.handles = s.handles.set task.handle { handle.advance bs.length with locked }
  calls : s'.calls = s.calls
  tasks : s'.tasks = s.tasks.set i { task with phase }

/-- What a round of `write_all` does: nothing, it writes a part of the rest, or all of it, or
it fails. -/
theorem write_cases (s : State P) (i : ℕ) (task : Task) (handle : Handle P) (rest : List UInt8)
    (outcome : Outcome) :
    outcome = .interrupted ∧ s.write i task handle rest outcome = s ∨
      (∃ n, outcome = .wrote n ∧ n ≠ 0 ∧ n < rest.length ∧
        Puts s (s.write i task handle rest outcome) i task handle (rest.take n)
          handle.locked (.writing (rest.drop n))) ∨
      (∃ n, outcome = .wrote n ∧ n ≠ 0 ∧ rest.length ≤ n ∧
        Puts s (s.write i task handle rest outcome) i task handle rest
          false (.resolved (.ok ()) (.ok true))) ∨
      ¬ Succeeds (.write i outcome : Event P) ∧ ∃ error,
        s.write i task handle rest outcome = s.resolve i task handle (.error error) := by
  cases outcome with
  | interrupted => exact .inl ⟨rfl, rfl⟩
  | failed error => exact .inr (.inr (.inr ⟨id, error, rfl⟩))
  | wrote n =>
    by_cases hzero : n = 0
    · exact .inr (.inr (.inr ⟨fun h => h hzero, _, if_pos hzero⟩))
    by_cases hlt : n < rest.length
    · refine .inr (.inl ⟨n, rfl, hzero, hlt, ?_⟩)
      rw [State.write, if_neg hzero, if_pos hlt]
      have hlength : (rest.take n).length = n := List.length_take_of_le (Nat.le_of_lt hlt)
      exact ⟨rfl, by rw [hlength]; rfl, rfl, rfl⟩
    · refine .inr (.inr (.inl ⟨n, rfl, hzero, Nat.le_of_not_lt hlt, ?_⟩))
      rw [State.write, if_neg hzero, if_neg hlt]
      refine ⟨?_, ?_, rfl, ?_⟩
      · simp [State.resolve, State.put, State.setHandle, State.setTask]
      · simp [State.resolve, State.put, State.setHandle, State.setTask]
      · simp [State.resolve, State.put, State.setHandle, State.setTask, pollResult]

theorem forall_mem_set {Q : Task → Prop} {tasks : List Task} {i : ℕ} {task : Task}
    (h : ∀ t ∈ tasks, Q t) (htask : Q task) : ∀ t ∈ tasks.set i task, Q t := by
  intro t ht
  rcases List.mem_or_eq_of_mem_set ht with ht | rfl
  · exact h t ht
  · exact htask

/-- What holds of all tasks after a step, if it holds of a new task, of one that begins to
write, and of those that a round of `write_all` leaves. -/
theorem forall_task_step {Q : Task → Prop} {s s' : State P} {e : Event P}
    (h : ∀ task ∈ s.tasks, Q task) (hs : s.step e = some s')
    (hready : ∀ handle entry, Q ⟨handle, entry, .ready⟩)
    (hpoll : ∀ task : Task, Q { task with phase := .writing task.line })
    (hwrite : ∀ i outcome task handle rest, e = .write i outcome → s.tasks[i]? = some task →
      task.phase = .writing rest → ∀ t ∈ (s.write i task handle rest outcome).tasks, Q t) :
    ∀ task ∈ s'.tasks, Q task := by
  cases e with
  | getFileHandle path =>
    obtain rfl := Option.some_inj.mp hs
    exact h
  | openFile i fails =>
    obtain ⟨call, -, -, rfl⟩ := State.step_openFile hs
    rw [State.openFile]
    split <;> exact h
  | createFile i fails =>
    obtain ⟨call, -, -, rfl⟩ := State.step_createFile hs
    rw [State.createFile]
    split <;> exact h
  | writeLog handle entry =>
    obtain ⟨-, rfl⟩ := State.step_writeLog hs
    intro task htask
    rcases List.mem_append.mp htask with htask | htask
    · exact h task htask
    · exact List.mem_singleton.mp htask ▸ hready handle entry
  | poll i =>
    obtain ⟨task, handle, -, -, -, rfl⟩ := State.step_poll hs
    rw [State.poll]
    split
    · exact h
    · exact forall_mem_set h (hpoll task)
  | write i outcome =>
    obtain ⟨task, handle, rest, htask, -, hphase, rfl⟩ := State.step_write hs
    exact hwrite i outcome task handle rest rfl htask hphase

/-! ### What the tasks have written -/

namespace State

variable {s s' : State P}

omit [DecidableEq P] in
theorem pathOf_of_handle {task : Task} {handle : Handle P}
    (h : s.handles[task.handle]? = some handle) : s.pathOf task = some handle.path := by
  rw [pathOf, paths, List.getElem?_map, h, Option.map_some]

omit [DecidableEq P] in
theorem paths_set {handles : List (Handle P)} {i : ℕ} {handle handle' : Handle P}
    (h : handles[i]? = some handle) (hpath : handle'.path = handle.path) :
    (handles.set i handle').map (·.path) = handles.map (·.path) := by
  obtain ⟨hlt, rfl⟩ := List.getElem?_eq_some_iff.mp h
  rw [List.map_set, hpath, ← List.map_set, List.set_getElem_self]

omit [DecidableEq P] in
/-- Handles that are added later do not matter. -/
theorem pathOf_append {task : Task} (hlt : task.handle < s.handles.length)
    {handles : List (Handle P)} (h : s'.handles = s.handles ++ handles) :
    s'.pathOf task = s.pathOf task := by
  rw [pathOf, pathOf, paths, paths, h, List.map_append,
    List.getElem?_append_left (by simpa using hlt)]

omit [DecidableEq P] in
/-- A step that leaves the tasks alone, and their files, changes nothing of what they have
written. -/
theorem wrote_iff_of_tasks (htasks : s'.tasks = s.tasks)
    (hpath : ∀ task ∈ s.tasks, s'.pathOf task = s.pathOf task) (path : P) (i : ℕ)
    (written : List UInt8) : s'.Wrote path i written ↔ s.Wrote path i written := by
  simp only [Wrote, htasks]
  constructor
  · rintro ⟨task, rest, htask, hp, h⟩
    exact ⟨task, rest, htask, (hpath task (List.mem_of_getElem? htask)).symm.trans hp, h⟩
  · rintro ⟨task, rest, htask, hp, h⟩
    exact ⟨task, rest, htask, (hpath task (List.mem_of_getElem? htask)).trans hp, h⟩

theorem logged_eq_of_tasks (htasks : s'.tasks = s.tasks)
    (hpath : ∀ task ∈ s.tasks, s'.pathOf task = s.pathOf task) (path : P) :
    s'.logged path = s.logged path := by
  rw [logged, logged, htasks]
  congr 1
  exact List.filter_congr fun task htask => by rw [hpath task htask]

omit [DecidableEq P] in
/-- A step of the task `i` changes nothing of what the others have written. -/
theorem wrote_iff_of_ne {i j : ℕ} {task' : Task} (htasks : s'.tasks = s.tasks.set i task')
    (hpaths : s'.paths = s.paths) (hj : j ≠ i) (path : P) (written : List UInt8) :
    s'.Wrote path j written ↔ s.Wrote path j written := by
  simp only [Wrote, htasks, List.getElem?_set_ne (Ne.symm hj), pathOf, hpaths]

theorem filter_set_perm {q : Task → Bool} {tasks : List Task} {i : ℕ} {task : Task}
    (h : tasks[i]? = some task) (hq : q task = false) (task' : Task) :
    ((tasks.set i task').filter q).Perm
      ((if q task' then [task'] else []) ++ tasks.filter q) := by
  obtain ⟨hlt, rfl⟩ := List.getElem?_eq_some_iff.mp h
  have hset := (List.set_perm_cons_eraseIdx hlt task').filter q
  have hget := (List.getElem_cons_eraseIdx_perm hlt).filter q
  rw [List.filter_cons_of_neg (by simp [hq])] at hget
  refine hset.trans ?_
  rw [List.filter_cons]
  split
  · exact hget.cons task'
  · exact hget

/-- The lines that are logged after a step of a task that has not returned. -/
theorem logged_perm_set {i : ℕ} {task task' : Task} (htask : s.tasks[i]? = some task)
    (hresolved : task.resolved = false) (htasks : s'.tasks = s.tasks.set i task')
    (hpaths : s'.paths = s.paths) (path : P) :
    (s'.logged path).Perm
      ((if task'.resolved && s.pathOf task' = some path then [task'.line] else []) ++
        s.logged path) := by
  have hfilter : s'.logged path = ((s.tasks.set i task').filter fun task =>
      task.resolved && s.pathOf task = some path).map (·.line) := by
    rw [logged, htasks]
    congr 1
    exact List.filter_congr fun _ _ => by rw [pathOf, pathOf, hpaths]
  rw [hfilter]
  refine ((filter_set_perm htask (by simp [hresolved]) task').map _).trans ?_
  rw [List.map_append]
  refine List.Perm.of_eq (congrArg (· ++ s.logged path) ?_)
  split <;> rfl

end State

/-- What the files hold is a matter of their contents, of the lines that are logged and of
what the tasks inside a line have written. -/
theorem Logged.of_frame {start : P → List UInt8} {s s' : State P} (h : Logged start s)
    (hcontent : ∀ path, s'.content path = s.content path)
    (hlogged : ∀ path, (s'.logged path).Perm (s.logged path))
    (hwrote : ∀ path i written, written ≠ [] →
      (s'.Wrote path i written ↔ s.Wrote path i written)) : Logged start s' := by
  have hinside : ∀ path i, s'.Inside path i ↔ s.Inside path i := fun path i =>
    exists_congr fun written => and_congr_right fun hne => hwrote path i written hne
  intro path
  obtain ⟨order, horder, hfile⟩ := h path
  refine ⟨order, horder.trans (hlogged path).symm, ?_⟩
  rcases hfile with ⟨hnone, hfile⟩ | ⟨i, written, hne, hi, hfile, hall⟩
  · exact .inl ⟨fun i hi => hnone i ((hinside path i).mp hi), (hcontent path).trans hfile⟩
  · exact .inr ⟨i, written, hne, (hwrote path i written hne).mpr hi, (hcontent path).trans hfile,
      fun j hj => hall j ((hinside path j).mp hj)⟩

/-! ### The invariant -/

/-- The invariant of the runs in which all writes are appends. -/
structure Inv (start : P → List UInt8) (s : State P) : Prop where
  logged : Logged start s
  handles : ∀ task ∈ s.tasks, task.handle < s.handles.length
  position : ∀ handle ∈ s.handles, ∀ pos ∈ handle.position,
    pos ≤ (s.content handle.path).length
  writing : ∀ task ∈ s.tasks, ∀ rest, task.phase = .writing rest →
    rest ≠ [] ∧ ∃ written, task.line = written ++ rest

theorem Inv.new (files : P → Option (List UInt8)) :
    Inv (fun path => (files path).getD []) (.new files) where
  logged path := by
    refine ⟨[], .refl _, .inl ⟨?_, by simp [State.content, State.new]⟩⟩
    rintro i ⟨written, -, task, rest, htask, -⟩
    simp [State.new] at htask
  handles := by simp [State.new]
  position := by simp [State.new]
  writing := by simp [State.new]

theorem Inv.of_content {start : P → List UInt8} {s s' : State P} (h : Inv start s)
    (hcontent : ∀ path, s'.content path = s.content path) (hhandles : s'.handles = s.handles)
    (htasks : s'.tasks = s.tasks) : Inv start s' := by
  have hpath : ∀ task ∈ s.tasks, s'.pathOf task = s.pathOf task := fun task _ => by
    rw [State.pathOf, State.pathOf, State.paths, State.paths, hhandles]
  refine ⟨h.logged.of_frame hcontent (fun path => ?_) fun path i written _ => ?_, ?_, ?_, ?_⟩
  · rw [State.logged_eq_of_tasks htasks hpath]
  · exact State.wrote_iff_of_tasks htasks hpath path i written
  · rw [htasks, hhandles]
    exact h.handles
  · rw [hhandles]
    intro handle hhandle pos hpos
    rw [hcontent]
    exact h.position handle hhandle pos hpos
  · rw [htasks]
    exact h.writing

theorem Inv.addHandle {start : P → List UInt8} {s : State P} (h : Inv start s) (i : ℕ) (path : P)
    {position : Option ℕ} (hpos : ∀ pos ∈ position, pos = 0) :
    Inv start (s.addHandle i path position) := by
  have htasks : (s.addHandle i path position).tasks = s.tasks := rfl
  have hpath : ∀ task ∈ s.tasks, (s.addHandle i path position).pathOf task = s.pathOf task :=
    fun task htask => State.pathOf_append (h.handles task htask) rfl
  refine ⟨h.logged.of_frame (fun _ => rfl) (fun p => ?_) fun p j written _ => ?_,
    fun task htask => ?_, fun handle hhandle pos hp => ?_, h.writing⟩
  · exact .of_eq (State.logged_eq_of_tasks htasks hpath p)
  · exact State.wrote_iff_of_tasks htasks hpath p j written
  · rw [State.addHandle, List.length_append]
    exact Nat.lt_add_right _ (h.handles task htask)
  · rcases List.mem_append.mp hhandle with hhandle | hhandle
    · exact h.position handle hhandle pos hp
    · obtain rfl := List.mem_singleton.mp hhandle
      rw [hpos pos hp]
      exact Nat.zero_le _

theorem Inv.writeLog {start : P → List UInt8} {s : State P} (h : Inv start s) {handle : ℕ}
    (hlt : handle < s.handles.length) (entry : String) :
    Inv start { s with tasks := s.tasks ++ [{ handle, entry, phase := .ready }] } := by
  refine ⟨h.logged.of_frame (fun _ => rfl) (fun p => ?_) fun p j written _ => ?_,
    fun task htask => ?_, h.position, fun task htask rest hphase => ?_⟩
  · refine List.Perm.of_eq ?_
    simp [State.logged, Task.resolved, State.pathOf, State.paths]
  · constructor
    · rintro ⟨task, rest, htask, hpath, hphase, hline⟩
      rw [List.getElem?_append] at htask
      split at htask
      · exact ⟨task, rest, htask, hpath, hphase, hline⟩
      · obtain rfl := List.mem_singleton.mp (List.mem_of_getElem? htask)
        cases hphase
    · rintro ⟨task, rest, htask, h⟩
      refine ⟨task, rest, ?_, h⟩
      rw [List.getElem?_append_left (List.getElem?_eq_some_iff.mp htask).1, htask]
  · rcases List.mem_append.mp htask with htask | htask
    · exact h.handles task htask
    · obtain rfl := List.mem_singleton.mp htask
      exact hlt
  · rcases List.mem_append.mp htask with htask | htask
    · exact h.writing task htask rest hphase
    · obtain rfl := List.mem_singleton.mp htask
      cases hphase

omit [DecidableEq P] in
theorem mem_set_handle {s : State P} {i : ℕ} {handle handle' h : Handle P}
    (hmem : h ∈ s.handles.set i handle') (hhandle : s.handles[i]? = some handle) :
    h ∈ s.handles ∨ h = handle' ∧ handle ∈ s.handles :=
  (List.mem_or_eq_of_mem_set hmem).imp_right fun heq => ⟨heq, List.mem_of_getElem? hhandle⟩

theorem Inv.poll {start : P → List UInt8} {s : State P} (h : Inv start s) {i : ℕ} {task : Task}
    {handle : Handle P} (htask : s.tasks[i]? = some task)
    (hhandle : s.handles[task.handle]? = some handle) (hphase : task.phase = .ready) :
    Inv start (s.poll i task handle) := by
  rw [State.poll]
  split
  · exact h
  let s' := (s.setHandle task.handle { handle with locked := true }).setTask i
    { task with phase := .writing task.line }
  have htasks : s'.tasks = s.tasks.set i { task with phase := .writing task.line } := rfl
  have hpaths : s'.paths = s.paths := State.paths_set hhandle rfl
  have hready : task.resolved = false := by rw [Task.resolved, hphase]
  refine ⟨h.logged.of_frame (fun _ => rfl) (fun p => ?_) fun p j written hne => ?_,
    fun t ht => ?_, fun t ht => ?_, fun t ht rest hrest => ?_⟩
  · exact State.logged_perm_set htask hready htasks hpaths p
  · by_cases hj : j = i
    · subst hj
      -- the task that gets the mutex has not written anything
      constructor
      · rintro ⟨t, rest, ht, -, hrest, hline⟩
        rw [State.setTask, State.setHandle, List.getElem?_set_self
          (List.getElem?_eq_some_iff.mp htask).1, Option.some_inj] at ht
        subst ht
        obtain rfl := TaskPhase.writing.inj hrest
        exact absurd (List.self_eq_append_left.mp hline) hne
      · rintro ⟨t, rest, ht, -, hrest, -⟩
        rw [htask, Option.some_inj] at ht
        rw [← ht, hphase] at hrest
        cases hrest
    · exact State.wrote_iff_of_ne htasks hpaths hj p written
  · rw [State.setTask, State.setHandle, List.length_set]
    rcases List.mem_or_eq_of_mem_set ht with ht | rfl
    · exact h.handles t ht
    · exact h.handles task (List.mem_of_getElem? htask)
  · rcases mem_set_handle ht hhandle with hmem | ⟨rfl, hmem⟩
    · exact h.position t hmem
    · exact h.position handle hmem
  · rcases List.mem_or_eq_of_mem_set ht with ht | rfl
    · exact h.writing t ht rest hrest
    · obtain rfl := TaskPhase.writing.inj hrest
      exact ⟨linedEntry_ne_nil _, [], rfl⟩

theorem overwrite_length (content bs : List UInt8) :
    overwrite content content.length bs = content ++ bs := by
  simp [overwrite]

omit [DecidableEq P] in
theorem Handle.content_eq {handle : Handle P} {content : List UInt8}
    (h : ∀ pos ∈ handle.position, pos = content.length) (bs : List UInt8) :
    handle.content content bs = content ++ bs := by
  rw [Handle.content]
  split
  · rfl
  next pos hpos => rw [h pos hpos, overwrite_length]

namespace Puts

variable {s s' : State P} {i : ℕ} {task : Task} {handle : Handle P} {bs : List UInt8}
  {locked : Bool} {phase : TaskPhase}

theorem content_self (h : Puts s s' i task handle bs locked phase) :
    s'.content handle.path = handle.content (s.content handle.path) bs := by
  rw [State.content, h.files, Function.update_self, Option.getD_some]

theorem content_ne (h : Puts s s' i task handle bs locked phase) {path : P}
    (hne : path ≠ handle.path) :
    s'.content path = s.content path := by
  rw [State.content, h.files, Function.update_of_ne hne, State.content]

theorem paths_eq (h : Puts s s' i task handle bs locked phase)
    (hhandle : s.handles[task.handle]? = some handle) : s'.paths = s.paths := by
  rw [State.paths, h.handles]
  exact State.paths_set hhandle rfl

end Puts

/-- The file of a task that writes, if nobody else is inside a line of it. -/
theorem Inv.exists_order {start : P → List UInt8} {s : State P} (h : Inv start s) {i : ℕ}
    {task : Task} {path : P} {rest : List UInt8} (htask : s.tasks[i]? = some task)
    (hpath : s.pathOf task = some path) (hphase : task.phase = .writing rest)
    (hnobody : ∀ j, s.Inside path j → j = i) :
    ∃ (order : List (List UInt8)) (written : List UInt8), order.Perm (s.logged path) ∧
      task.line = written ++ rest ∧
      s.content path = start path ++ order.flatten ++ written := by
  obtain ⟨order, horder, hfile⟩ := h.logged path
  obtain ⟨-, written, hline⟩ := h.writing task (List.mem_of_getElem? htask) rest hphase
  rcases hfile with ⟨hnone, hfile⟩ | ⟨j, written', hne, hj, hfile, -⟩
  · have hempty : written = [] := by
      by_contra hne
      exact hnone i ⟨written, hne, task, rest, htask, hpath, hphase, hline⟩
    exact ⟨order, written, horder, hline, by rw [hfile, hempty, List.append_nil]⟩
  · obtain rfl := hnobody j ⟨written', hne, hj⟩
    obtain ⟨task', rest', htask', -, hphase', hline'⟩ := hj
    obtain rfl := Option.some_inj.mp (htask'.symm.trans htask)
    obtain rfl := TaskPhase.writing.inj (hphase'.symm.trans hphase)
    exact ⟨order, written', horder, hline', hfile⟩

namespace Puts

variable {s s' : State P} {i : ℕ} {task : Task} {handle : Handle P} {bs : List UInt8}
  {locked : Bool} {phase : TaskPhase}

theorem task_eq (h : Puts s s' i task handle bs locked phase) (htask : s.tasks[i]? = some task) :
    s'.tasks[i]? = some { task with phase } := by
  rw [h.tasks, List.getElem?_set_self (List.getElem?_eq_some_iff.mp htask).1]

theorem inside_iff (h : Puts s s' i task handle bs locked phase)
    (hhandle : s.handles[task.handle]? = some handle) {j : ℕ} (hj : j ≠ i) (path : P) :
    s'.Inside path j ↔ s.Inside path j :=
  exists_congr fun written => and_congr_right fun _ =>
    State.wrote_iff_of_ne h.tasks (h.paths_eq hhandle) hj path written

/-- A task that writes logs its line when it returns. -/
theorem logged_perm (h : Puts s s' i task handle bs locked phase) (htask : s.tasks[i]? = some task)
    (hhandle : s.handles[task.handle]? = some handle) {rest : List UInt8}
    (hphase : task.phase = .writing rest) (path : P) :
    (s'.logged path).Perm
      ((if Task.resolved { task with phase } ∧ path = handle.path then [task.line] else []) ++
        s.logged path) := by
  have hready : task.resolved = false := by rw [Task.resolved, hphase]
  have hpath : s.pathOf { task with phase } = some handle.path :=
    State.pathOf_of_handle (s := s) hhandle
  refine (State.logged_perm_set htask hready h.tasks (h.paths_eq hhandle) path).trans ?_
  rw [hpath]
  refine .of_eq (congrArg (· ++ s.logged path) (if_congr ?_ rfl rfl))
  rw [Bool.and_eq_true, decide_eq_true_eq, Option.some_inj]
  exact and_congr_right fun _ => eq_comm

end Puts

section

variable {start : P → List UInt8} {s s' : State P} {i : ℕ} {task : Task} {handle : Handle P}
  {rest bs : List UInt8} {locked : Bool} {phase : TaskPhase}

/-- Nothing happens to the other files. -/
theorem Inv.logged_puts_other (h : Inv start s) (hputs : Puts s s' i task handle bs locked phase)
    (htask : s.tasks[i]? = some task) (hhandle : s.handles[task.handle]? = some handle)
    (hphase : task.phase = .writing rest) {path : P} (hp : path ≠ handle.path) :
    ∃ order : List (List UInt8), order.Perm (s'.logged path) ∧
      ((∀ j, ¬ s'.Inside path j) ∧ s'.content path = start path ++ order.flatten ∨
        ∃ j written, written ≠ [] ∧ s'.Wrote path j written ∧
          s'.content path = start path ++ order.flatten ++ written ∧
          ∀ k, s'.Inside path k → k = j) := by
  have hpath := State.pathOf_of_handle hhandle
  have hpaths := hputs.paths_eq hhandle
  obtain ⟨order, horder, hfile⟩ := h.logged path
  have hinside : ∀ j, s'.Inside path j → s.Inside path j := by
    intro j hin
    by_cases hj : j = i
    · subst hj
      obtain ⟨w, -, t, -, ht, hpt, -⟩ := hin
      obtain rfl := Option.some_inj.mp ((hputs.task_eq htask).symm.trans ht)
      rw [State.pathOf, hpaths] at hpt
      exact absurd (Option.some_inj.mp (hpt.symm.trans hpath)) hp
    · exact (hputs.inside_iff hhandle hj path).mp hin
  have hlogged := hputs.logged_perm htask hhandle hphase path
  rw [if_neg fun hand => hp hand.2] at hlogged
  refine ⟨order, horder.trans hlogged.symm, ?_⟩
  rw [hputs.content_ne hp]
  rcases hfile with ⟨hnone, hfile⟩ | ⟨j, written, hne, hj, hfile, hall⟩
  · exact .inl ⟨fun j hin => hnone j (hinside j hin), hfile⟩
  · have hji : j ≠ i := by
      rintro rfl
      obtain ⟨t, -, ht, hpt, -⟩ := hj
      obtain rfl := Option.some_inj.mp (htask.symm.trans ht)
      exact hp (Option.some_inj.mp (hpt.symm.trans hpath))
    exact .inr ⟨j, written, hne,
      (State.wrote_iff_of_ne hputs.tasks hpaths hji path written).mpr hj, hfile,
      fun k hin => hall k (hinside k hin)⟩

/-- What the files hold after a write at the end of one of them, which nobody else is
inside of. -/
theorem Inv.logged_puts (h : Inv start s) (hputs : Puts s s' i task handle bs locked phase)
    (htask : s.tasks[i]? = some task) (hhandle : s.handles[task.handle]? = some handle)
    (hphase : task.phase = .writing rest)
    (hend : ∀ pos ∈ handle.position, pos = (s.content handle.path).length)
    (hnobody : ∀ j, s.Inside handle.path j → j = i)
    (hnext : (∃ rest', rest = bs ++ rest' ∧ bs ≠ [] ∧ phase = .writing rest') ∨
      bs = rest ∧ phase = .resolved (.ok ()) (.ok true)) : Logged start s' := by
  intro path
  by_cases hp : path = handle.path
  swap
  · exact h.logged_puts_other hputs htask hhandle hphase hp
  subst hp
  have hpath := State.pathOf_of_handle hhandle
  have htask' := hputs.task_eq htask
  obtain ⟨order, written, horder, hline, hfile⟩ := h.exists_order htask hpath hphase hnobody
  have hcontent :
      s'.content handle.path = start handle.path ++ order.flatten ++ written ++ bs := by
    rw [hputs.content_self, Handle.content_eq hend, hfile]
  have hself : ∀ j, j ≠ i → ¬ s'.Inside handle.path j := fun j hj hin =>
    hj (hnobody j ((hputs.inside_iff hhandle hj handle.path).mp hin))
  have hlogged := hputs.logged_perm htask hhandle hphase handle.path
  rcases hnext with ⟨rest', rfl, hbs, rfl⟩ | ⟨rfl, rfl⟩
  · refine ⟨order, horder.trans hlogged.symm, .inr ⟨i, written ++ bs, ?_, ?_, ?_, ?_⟩⟩
    · exact List.append_ne_nil_of_right_ne_nil _ hbs
    · refine ⟨_, rest', htask', ?_, rfl, by rw [List.append_assoc]; exact hline⟩
      rw [State.pathOf, hputs.paths_eq hhandle]
      exact hpath
    · rw [hcontent, List.append_assoc]
    · intro j hin
      by_contra hj
      exact hself j hj hin
  · refine ⟨order ++ [task.line], ?_, .inl ⟨fun j hin => ?_, ?_⟩⟩
    · rw [if_pos ⟨rfl, rfl⟩] at hlogged
      exact (List.perm_append_comm.trans (horder.cons _)).trans hlogged.symm
    · by_cases hj : j = i
      · subst hj
        obtain ⟨w, -, t, r, ht, -, hr, -⟩ := hin
        obtain rfl := Option.some_inj.mp (htask'.symm.trans ht)
        cases hr
      · exact hself j hj hin
    · rw [hcontent, hline]
      simp

theorem Puts.content_eq (hputs : Puts s s' i task handle bs locked phase)
    (hend : ∀ pos ∈ handle.position, pos = (s.content handle.path).length) (path : P) :
    s'.content path = s.content path ++ if path = handle.path then bs else [] := by
  by_cases hp : path = handle.path
  · subst hp
    rw [hputs.content_self, Handle.content_eq hend, if_pos rfl]
  · rw [hputs.content_ne hp, if_neg hp, List.append_nil]

theorem Inv.puts (h : Inv start s) (hputs : Puts s s' i task handle bs locked phase)
    (htask : s.tasks[i]? = some task) (hhandle : s.handles[task.handle]? = some handle)
    (hphase : task.phase = .writing rest)
    (hend : ∀ pos ∈ handle.position, pos = (s.content handle.path).length)
    (hnobody : ∀ j, s.Inside handle.path j → j = i)
    (hnext : (∃ rest', rest = bs ++ rest' ∧ bs ≠ [] ∧ rest' ≠ [] ∧ phase = .writing rest') ∨
      bs = rest ∧ phase = .resolved (.ok ()) (.ok true)) : Inv start s' := by
  have hcontent := hputs.content_eq hend
  refine ⟨h.logged_puts hputs htask hhandle hphase hend hnobody (hnext.imp_left ?_), ?_, ?_, ?_⟩
  · rintro ⟨rest', hrest, hbs, -, hp⟩
    exact ⟨rest', hrest, hbs, hp⟩
  · intro t ht
    rw [hputs.handles, List.length_set]
    rw [hputs.tasks] at ht
    rcases List.mem_or_eq_of_mem_set ht with ht | rfl
    · exact h.handles t ht
    · exact h.handles task (List.mem_of_getElem? htask)
  · intro t ht pos hpos
    rw [hcontent, List.length_append]
    rw [hputs.handles] at ht
    rcases mem_set_handle ht hhandle with hmem | ⟨rfl, hmem⟩
    · exact Nat.le_add_right_of_le (h.position t hmem pos hpos)
    · obtain ⟨pos', hpos', rfl⟩ := Option.mem_map.mp hpos
      show pos' + bs.length ≤ _ + (if handle.path = handle.path then bs else []).length
      rw [hend pos' hpos', if_pos rfl]
      exact Nat.le_refl _
  · intro t ht rest' hrest'
    rw [hputs.tasks] at ht
    rcases List.mem_or_eq_of_mem_set ht with ht | rfl
    · exact h.writing t ht rest' hrest'
    · obtain ⟨-, written, hline⟩ := h.writing task (List.mem_of_getElem? htask) rest hphase
      rcases hnext with ⟨r, rfl, -, hne, rfl⟩ | ⟨-, rfl⟩
      · obtain rfl := TaskPhase.writing.inj hrest'
        exact ⟨hne, written ++ bs, by rw [List.append_assoc]; exact hline⟩
      · cases hrest'

theorem Inv.write (h : Inv start s) {outcome : Outcome} (htask : s.tasks[i]? = some task)
    (hhandle : s.handles[task.handle]? = some handle) (hphase : task.phase = .writing rest)
    (hsucceeds : Succeeds (.write i outcome : Event P)) (hend : AtEnd s (.write i outcome))
    (hnobody : NobodyInside s (.write i outcome)) :
    Inv start (s.write i task handle rest outcome) := by
  have hinside : ∀ j, s.Inside handle.path j → j = i :=
    hnobody task htask handle.path (State.pathOf_of_handle hhandle)
  obtain ⟨-, heq⟩ | ⟨n, rfl, hn, hlt, hputs⟩ | ⟨n, rfl, -, -, hputs⟩ | ⟨hfails, -⟩ :=
    write_cases s i task handle rest outcome
  · rw [heq]
    exact h
  · refine h.puts hputs htask hhandle hphase (hend task htask handle hhandle) hinside
      (.inl ⟨rest.drop n, (List.take_append_drop n rest).symm, ?_, ?_, rfl⟩)
    · exact fun hnil => hn (by simpa [List.ne_nil_of_length_pos (Nat.zero_lt_of_lt hlt)] using hnil)
    · exact fun hnil => Nat.not_le_of_lt hlt (List.drop_eq_nil_iff.mp hnil)
  · exact h.puts hputs htask hhandle hphase (hend task htask handle hhandle) hinside
      (.inr ⟨rfl, rfl⟩)
  · exact absurd hsucceeds hfails

theorem content_createFile (s : State P) (i : ℕ) (call path : P) :
    (s.createFile i call false).content path = if path = call then [] else s.content path := by
  have hfiles : (s.createFile i call false).files = Function.update s.files call (some []) := rfl
  rw [State.content, hfiles]
  by_cases hp : path = call
  · subst hp
    rw [Function.update_self, if_pos rfl, Option.getD_some]
  · rw [Function.update_of_ne hp, if_neg hp]
    rfl

theorem Inv.step (h : Inv start s) {e : Event P} (hsucceeds : Succeeds e) (hend : AtEnd s e)
    (hnobody : NobodyInside s e) (hs : s.step e = some s') : Inv start s' := by
  cases e with
  | getFileHandle path =>
    obtain rfl := Option.some_inj.mp hs
    exact h.of_content (fun _ => rfl) rfl rfl
  | openFile i fails =>
    obtain ⟨call, -, -, rfl⟩ := State.step_openFile hs
    rw [State.openFile]
    split
    · exact h.of_content (fun _ => rfl) rfl rfl
    · exact h.addHandle i call.path (fun pos hpos => by simp at hpos)
  | createFile i fails =>
    obtain ⟨call, hcall, -, rfl⟩ := State.step_createFile hs
    cases fails with
    | true => exact h.of_content (fun _ => rfl) rfl rfl
    | false =>
      have hempty : s.content call.path = [] := hend call hcall
      have hfiles : Inv start { s with files := Function.update s.files call.path (some []) } := by
        refine h.of_content (fun path => (content_createFile s i call.path path).trans ?_) rfl rfl
        split
        next hp => rw [hp, hempty]
        next => rfl
      exact hfiles.addHandle i call.path fun pos hpos => (Option.some_inj.mp hpos).symm
  | writeLog handle entry =>
    obtain ⟨hlt, rfl⟩ := State.step_writeLog hs
    exact h.writeLog hlt entry
  | poll i =>
    obtain ⟨task, handle, htask, hhandle, hphase, rfl⟩ := State.step_poll hs
    exact h.poll htask hhandle hphase
  | write i outcome =>
    obtain ⟨task, handle, rest, htask, hhandle, hphase, rfl⟩ := State.step_write hs
    exact h.write htask hhandle hphase hsucceeds hend hnobody

/-- An append keeps what is there. -/
theorem keepsPrefix_of_atEnd {e : Event P} (hend : AtEnd s e) : KeepsPrefix s e := by
  intro s' hs path
  cases e with
  | getFileHandle path =>
    obtain rfl := Option.some_inj.mp hs
    exact List.prefix_rfl
  | openFile i fails =>
    obtain ⟨call, -, -, rfl⟩ := State.step_openFile hs
    rw [State.openFile]
    split <;> exact List.prefix_rfl
  | createFile i fails =>
    obtain ⟨call, hcall, -, rfl⟩ := State.step_createFile hs
    cases fails with
    | true => exact List.prefix_rfl
    | false =>
      rw [content_createFile]
      split
      next hp =>
        subst hp
        have hempty : s.content call.path = [] := hend call hcall
        exact hempty ▸ List.nil_prefix
      next => exact List.prefix_rfl
  | writeLog handle entry =>
    obtain ⟨-, rfl⟩ := State.step_writeLog hs
    exact List.prefix_rfl
  | poll i =>
    obtain ⟨task, handle, -, -, -, rfl⟩ := State.step_poll hs
    rw [State.poll]
    split <;> exact List.prefix_rfl
  | write i outcome =>
    obtain ⟨task, handle, rest, htask, hhandle, -, rfl⟩ := State.step_write hs
    obtain ⟨-, heq⟩ | ⟨n, rfl, -, -, hputs⟩ | ⟨n, rfl, -, -, hputs⟩ | ⟨-, error, heq⟩ :=
      write_cases s i task handle rest outcome
    · exact (congrArg (·.content path) heq).symm ▸ List.prefix_rfl
    · rw [hputs.content_eq (hend task htask handle hhandle)]
      exact List.prefix_append _ _
    · rw [hputs.content_eq (hend task htask handle hhandle)]
      exact List.prefix_append _ _
    · rw [heq]
      exact List.prefix_rfl

end

/-! ### Whole lines -/

/-- Nobody is inside a line. -/
def Whole (s : State P) : Prop :=
  ∀ task ∈ s.tasks, ∀ rest, task.phase = .writing rest → rest = task.line

omit [DecidableEq P] in
theorem Whole.not_inside {s : State P} (h : Whole s) (path : P) (i : ℕ) : ¬ s.Inside path i := by
  rintro ⟨written, hne, task, rest, htask, -, hphase, hline⟩
  obtain rfl := h task (List.mem_of_getElem? htask) rest hphase
  exact hne (List.self_eq_append_left.mp hline)

/-- How much a file holds. -/
theorem Logged.length_eq {start : P → List UInt8} {s : State P} (h : Logged start s)
    (hwhole : Whole s) (path : P) :
    (s.content path).length = (start path).length + (s.logged path).flatten.length := by
  obtain ⟨order, horder, hfile⟩ := h path
  rcases hfile with ⟨-, hfile⟩ | ⟨i, written, hne, hi, -⟩
  · rw [hfile, List.length_append, horder.flatten.length_eq]
  · exact absurd ⟨written, hne, hi⟩ (hwhole.not_inside path i)

/-- A write that does not start at the end of the file covers something. -/
theorem length_overwrite_lt {content bs : List UInt8} {pos : ℕ} (hpos : pos < content.length)
    (hbs : bs ≠ []) : (overwrite content pos bs).length < content.length + bs.length := by
  have hlength := List.length_pos_iff.mpr hbs
  simp only [overwrite, List.length_append, List.length_take, List.length_replicate,
    List.length_drop]
  omega

section

variable {start : P → List UInt8} {s s' : State P} {e : Event P}

/-- What a write does that takes the whole line. -/
theorem write_line {i : ℕ} {outcome : Outcome} {task : Task} (handle : Handle P)
    {rest : List UInt8} (hwhole : Whole s) (hline : TakesLine s (.write i outcome))
    (htask : s.tasks[i]? = some task) (hphase : task.phase = .writing rest) :
    outcome = .interrupted ∧ s.write i task handle rest outcome = s ∨
      (∃ n, outcome = .wrote n ∧ n ≠ 0) ∧
        Puts s (s.write i task handle rest outcome) i task handle task.line
          false (.resolved (.ok ()) (.ok true)) := by
  obtain rfl := hwhole task (List.mem_of_getElem? htask) rest hphase
  have hpos := List.length_pos_iff.mpr (linedEntry_ne_nil task.entry)
  obtain ⟨rfl, heq⟩ | ⟨n, rfl, -, hlt, -⟩ | ⟨n, rfl, hn, -, hputs⟩ | ⟨hfails, -⟩ :=
    write_cases s i task handle task.line outcome
  · exact .inl ⟨rfl, heq⟩
  · exact absurd (hline task htask) (Nat.not_le_of_lt hlt)
  · exact .inr ⟨⟨n, rfl, hn⟩, hputs⟩
  · cases outcome with
    | interrupted => exact absurd trivial hfails
    | failed => exact absurd hline id
    | wrote n =>
      have hle : task.line.length ≤ n := hline task htask
      exact absurd (Nat.ne_of_gt (Nat.lt_of_lt_of_le hpos hle)) hfails

theorem Whole.step (h : Whole s) (hline : TakesLine s e) (hs : s.step e = some s') :
    Whole s' := by
  refine forall_task_step h hs (fun handle entry rest hphase => by cases hphase)
    (fun task rest hphase => (TaskPhase.writing.inj hphase).symm)
    fun i outcome task handle rest he htask hphase => ?_
  subst he
  obtain ⟨-, heq⟩ | ⟨-, hputs⟩ := write_line handle h hline htask hphase
  · rw [heq]
    exact h
  · rw [hputs.tasks]
    exact forall_mem_set h fun rest hphase => by cases hphase

theorem Inv.step_line (h : Inv start s) (hwhole : Whole s) (hline : TakesLine s e)
    (hend : AtEnd s e) (hs : s.step e = some s') : Inv start s' := by
  have hnobody : NobodyInside s e := by
    cases e with
    | write i outcome =>
      exact fun task _ path _ j hin => absurd hin (hwhole.not_inside path j)
    | _ => trivial
  refine h.step ?_ hend hnobody hs
  cases e with
  | write i outcome =>
    obtain ⟨task, handle, rest, htask, -, hphase, -⟩ := State.step_write hs
    obtain ⟨rfl, -⟩ | ⟨⟨n, rfl, hn⟩, -⟩ := write_line handle hwhole hline htask hphase
    · trivial
    · exact hn
  | _ => trivial

/-- A step that does not append loses something. -/
theorem Inv.not_logged (h : Inv start s) (hwhole : Whole s) (hline : TakesLine s e)
    (hend : ¬ AtEnd s e) (hs : s.step e = some s') : ¬ Logged start s' := by
  intro hlogged
  have hbefore := h.logged.length_eq hwhole
  have hafter := hlogged.length_eq (hwhole.step hline hs)
  cases e with
  | createFile i fails =>
    cases fails with
    | true => exact hend trivial
    | false =>
      obtain ⟨call, hcall, -, rfl⟩ := State.step_createFile hs
      have hne : s.content call.path ≠ [] := fun hempty => hend fun call' hcall' => by
        obtain rfl := Option.some_inj.mp (hcall.symm.trans hcall')
        exact hempty
      have hpath : ∀ task ∈ s.tasks,
          (s.createFile i call.path false).pathOf task = s.pathOf task := fun task htask =>
        State.pathOf_append (h.handles task htask) rfl
      have hsame := State.logged_eq_of_tasks (show (s.createFile i call.path false).tasks = s.tasks
        from rfl) hpath call.path
      have hpos := List.length_pos_iff.mpr hne
      have hlost := hafter call.path
      rw [content_createFile, if_pos rfl, hsame, ← hbefore, List.length_nil] at hlost
      omega
  | write i outcome =>
    obtain ⟨task, handle, rest, htask, hhandle, hphase, rfl⟩ := State.step_write hs
    obtain ⟨rfl, -⟩ | ⟨⟨n, rfl, -⟩, hputs⟩ := write_line handle hwhole hline htask hphase
    · exact hend trivial
    have hfound : ∃ pos ∈ handle.position, pos ≠ (s.content handle.path).length := by
      by_contra hall
      refine hend fun task' htask' handle' hhandle' pos hpos => ?_
      obtain rfl := Option.some_inj.mp (htask.symm.trans htask')
      obtain rfl := Option.some_inj.mp (hhandle.symm.trans hhandle')
      by_contra hne
      exact hall ⟨pos, hpos, hne⟩
    obtain ⟨pos, hpos, hne⟩ := hfound
    have hle := h.position handle (List.mem_of_getElem? hhandle) pos hpos
    have hperm := hputs.logged_perm htask hhandle hphase handle.path
    rw [if_pos ⟨rfl, rfl⟩] at hperm
    have hlost := hafter handle.path
    have hcovered := length_overwrite_lt (Nat.lt_of_le_of_ne hle hne)
      (linedEntry_ne_nil task.entry)
    rw [hperm.flatten.length_eq, hputs.content_self, Handle.content, hpos] at hlost
    simp only [List.singleton_append, List.flatten_cons, List.length_append] at hlost
    have hfull := hbefore handle.path
    simp only [Task.line] at hlost
    omega
  | _ => exact hend trivial

end

/-- **When the log is append-only.**  A run in which no write fails is append-only if
`File::create` finds nothing in the file, created files are written at their ends, and nobody
writes to a file while another task is inside a line of it.  In a run in which every write
takes the whole line nobody is ever inside one, and the first two conditions are exact. -/
theorem append_only_iff (files : P → Option (List UInt8)) :
    (∀ es, Meets State.step (fun s e => Succeeds e ∧ AtEnd s e ∧ NobodyInside s e) (.new files) es →
        AppendOnly (fun path => (files path).getD []) (.new files) es) ∧
      ∀ es, Meets State.step TakesLine (.new files) es →
        (AppendOnly (fun path => (files path).getD []) (.new files) es ↔
          Meets State.step AtEnd (.new files) es) := by
  have hkeeps : ∀ es, Meets State.step AtEnd (.new files) es →
      Meets State.step KeepsPrefix (.new files) es := fun _ hend =>
    hend.mono fun _ _ => keepsPrefix_of_atEnd
  refine ⟨fun es hes => ⟨?_, hkeeps es (hes.mono fun _ _ hok => hok.2.1)⟩, fun es hes => ?_⟩
  · exact along_of_meets (fun _ h => h.logged)
      (fun _ _ _ h hok hs => h.step hok.1 hok.2.1 hok.2.2 hs) (Inv.new files) hes
  · have hstart : Whole (State.new files) := by simp [Whole, State.new]
    have hiff : Along State.step (Logged fun path => (files path).getD []) (.new files) es ↔
        Meets State.step AtEnd (.new files) es :=
      along_iff_meets_of_meets
        (I := fun s => Inv (fun path => (files path).getD []) s ∧ Whole s)
        (fun _ h => h.1.logged)
        (fun _ _ _ h hline hend hs => ⟨h.1.step_line h.2 hline hend hs, h.2.step hline hs⟩)
        (fun _ _ _ h hline hend hs => h.1.not_logged h.2 hline hend hs) ⟨.new files, hstart⟩ hes
    exact ⟨fun h => hiff.mp h.1, fun hend => ⟨hiff.mpr hend, hkeeps es hend⟩⟩

/-- Two calls find that the file is missing, and both create it: the second task writes its
line over the first one's. -/
theorem two_creators : ¬ ∀ es, (∀ e ∈ es, Succeeds e) →
    AppendOnly (fun _ : Unit => []) (.new fun _ => none) es := by
  intro hall
  have hrun : (run State.step (.new fun _ : Unit => none) [.getFileHandle (), .getFileHandle (),
      .openFile 0 false, .openFile 1 false, .createFile 0 false, .createFile 1 false,
      .writeLog 0 "a", .writeLog 1 "b", .poll 0, .write 0 (.wrote 2), .poll 1,
      .write 1 (.wrote 2)]).map (fun s =>
        ((s.content ()).length, (s.logged ()).flatten.length, s.tasks.all Task.resolved)) =
      some (2, 4, true) := by decide
  obtain ⟨s, hs, hfacts⟩ := Option.map_eq_some_iff.mp hrun
  simp only [Prod.mk.injEq] at hfacts
  obtain ⟨hcontent, hlogged, hresolved⟩ := hfacts
  have hwhole : Whole s := by
    intro task htask rest hphase
    have hdone := List.all_eq_true.mp hresolved task htask
    rw [Task.resolved, hphase] at hdone
    cases hdone
  have hsound := ((hall _ (by simp [Succeeds])).1.final hs).length_eq hwhole ()
  simp [hcontent, hlogged] at hsound

end AuditLog
