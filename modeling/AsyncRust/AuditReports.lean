/-
What the tasks of `write_log` report (`15-async-logger/src/main.rs`).

The tasks share one handle, so that the mutex keeps their lines apart: the file is made of
one segment for each task that has got the mutex, in that order.  A segment is the whole
line if `write_all` has succeeded, and what was written before the error if it has not; but
the poll reports `Ok(true)` in both cases.

* `Shared` — the segments of the file, and where the tasks are in them;
* `Reported` — a task that reports success has put its line into the file once, and one whose
  write has failed reports an error;
* `reported_iff` — this holds all along a run iff no write fails.
-/
import AsyncRust.AuditLog
import AsyncRust.Lists
import Mathlib.Data.List.Nodup

namespace AuditLog

open Runs Lists

variable {P : Type} [DecidableEq P]

/-! ### One handle -/

/-- What one call of `get_file_handle` leaves when nobody comes in between. -/
def getFileHandle (files : P → Option (List UInt8)) (path : P) : State P :=
  let s : State P := { State.new files with calls := [{ path, phase := .opening }] }
  let s := s.openFile 0 path false
  if s.handles.isEmpty then s.createFile 0 path false else s

/-- No other handle is made. -/
def SharesHandle : Event P → Bool
  | .getFileHandle _ => false
  | _ => true

/-- The file is made of at most one segment for each task, the line of the task or the beginning
of it, and a task that reports success has put its whole line there.  A task whose write has
failed reports an error. -/
structure Reported (path : P) (start : List UInt8) (s : State P) : Prop where
  ok : ∃ segments : List (ℕ × List UInt8),
    s.content path = start ++ segments.flatMap (·.2) ∧ (segments.map (·.1)).Nodup ∧
      (∀ segment ∈ segments, ∃ task : Task, s.tasks[segment.1]? = some task ∧
        segment.2 <+: task.line) ∧
      ∀ i (task : Task) written, s.tasks[i]? = some task →
        task.phase = .resolved written (.ok true) → (i, task.line) ∈ segments
  err : ∀ task ∈ s.tasks, ∀ error result, task.phase = .resolved (.error error) result →
    ∃ message, result = .error message

/-! ### Segments -/

/-- What a task has done for the segments: nothing; it writes the last one; it has written
one, which is its line if `write_all` has succeeded. -/
def Task.Segment (task : Task) (i : ℕ) (segments : List (ℕ × List UInt8)) : Prop :=
  match task.phase with
  | .ready => i ∉ segments.map (·.1)
  | .writing rest => ∃ front written, segments = front ++ [(i, written)] ∧
      task.line = written ++ rest ∧ rest ≠ []
  | .resolved written _ => ∃ segment, (i, segment) ∈ segments ∧ segment <+: task.line ∧
      (written = .ok () → segment = task.line)

/-- The invariant of one handle and its tasks. -/
structure Shared (path : P) (start : List UInt8) (s : State P)
    (segments : List (ℕ × List UInt8)) : Prop where
  handle : ∃ handle, s.handles = [handle] ∧ handle.path = path ∧
    (∀ pos ∈ handle.position, pos = (s.content path).length) ∧
    (handle.locked = false → ∀ task ∈ s.tasks, ∀ rest, task.phase ≠ .writing rest)
  calls : ∀ call ∈ s.calls, call.phase ≠ .opening ∧ call.phase ≠ .creating
  content : s.content path = start ++ segments.flatMap (·.2)
  nodup : (segments.map (·.1)).Nodup
  bound : ∀ segment ∈ segments, segment.1 < s.tasks.length
  tasks : ∀ i (task : Task), s.tasks[i]? = some task → task.handle = 0 ∧ task.Segment i segments

section

variable {path : P} {start : List UInt8} {s s' : State P} {segments : List (ℕ × List UInt8)}

omit [DecidableEq P] in
/-- The task that writes has the last segment. -/
theorem Task.Segment.writing {task : Task} {i : ℕ} {rest : List UInt8}
    (h : task.Segment i segments) (hphase : task.phase = .writing rest) :
    ∃ front written, segments = front ++ [(i, written)] ∧ task.line = written ++ rest ∧
      rest ≠ [] := by
  rw [Task.Segment, hphase] at h
  exact h

/-- A change of the last segment, or a new one, does not matter to the other tasks. -/
theorem Task.Segment.of_ne {task : Task} {i j : ℕ} {segments' : List (ℕ × List UInt8)}
    (h : task.Segment j segments) (hphase : ∀ rest, task.phase ≠ .writing rest)
    (hmem : ∀ segment, (j, segment) ∈ segments → (j, segment) ∈ segments')
    (hkeys : ∀ k ∈ segments'.map (·.1), k ∈ segments.map (·.1) ∨ k = i) (hj : j ≠ i) :
    task.Segment j segments' := by
  unfold Task.Segment at h ⊢
  split at h
  · exact fun hin => (hkeys j hin).elim h hj
  next rest hwriting => exact absurd hwriting (hphase rest)
  · obtain ⟨segment, hin, hrest⟩ := h
    exact ⟨segment, hmem segment hin, hrest⟩

theorem getFileHandle_none {files : P → Option (List UInt8)} (h : files path = none) :
    getFileHandle files path =
      { files := Function.update files path (some [])
        handles := [{ path, position := some 0, locked := false }]
        calls := [{ path, phase := .returned 0 }], tasks := [] } := by
  simp [getFileHandle, State.new, State.openFile, h, State.setCall, State.createFile,
    State.addHandle]

theorem getFileHandle_some {files : P → Option (List UInt8)} {content : List UInt8}
    (h : files path = some content) :
    getFileHandle files path =
      { files, handles := [{ path, position := none, locked := false }]
        calls := [{ path, phase := .returned 0 }], tasks := [] } := by
  simp [getFileHandle, State.new, State.openFile, h, State.addHandle]

theorem tasks_getFileHandle (files : P → Option (List UInt8)) (path : P) :
    (getFileHandle files path).tasks = [] := by
  cases h : files path with
  | none => rw [getFileHandle_none h]
  | some content => rw [getFileHandle_some h]

theorem Shared.opened (files : P → Option (List UInt8)) (path : P) :
    Shared path ((files path).getD []) (getFileHandle files path) [] := by
  cases h : files path with
  | none =>
    rw [getFileHandle_none h]
    refine ⟨⟨_, rfl, rfl, ?_, ?_⟩, ?_, ?_, List.nodup_nil, ?_, ?_⟩ <;> simp [State.content]
  | some content =>
    rw [getFileHandle_some h]
    refine ⟨⟨_, rfl, rfl, ?_, ?_⟩, ?_, ?_, List.nodup_nil, ?_, ?_⟩ <;> simp [State.content, h]

omit [DecidableEq P] in
theorem Shared.writeLog (h : Shared path start s segments) {handle : ℕ}
    (hlt : handle < s.handles.length) (entry : String) :
    Shared path start { s with tasks := s.tasks ++ [{ handle, entry, phase := .ready }] }
      segments := by
  obtain ⟨file, hfile, hpath, hpos, hlocked⟩ := h.handle
  refine ⟨⟨file, hfile, hpath, hpos, fun hfree task htask rest => ?_⟩, h.calls, h.content, h.nodup,
    fun segment hsegment => ?_, fun i task htask => ?_⟩
  · rcases List.mem_append.mp htask with htask | htask
    · exact hlocked hfree task htask rest
    · obtain rfl := List.mem_singleton.mp htask
      simp
  · rw [List.length_append]
    exact Nat.lt_add_right _ (h.bound segment hsegment)
  · rw [List.getElem?_append] at htask
    split at htask
    · exact h.tasks i task htask
    next hi =>
      obtain rfl := List.mem_singleton.mp (List.mem_of_getElem? htask)
      refine ⟨by simpa [hfile] using hlt, fun hin => ?_⟩
      obtain ⟨segment, hsegment, rfl⟩ := List.mem_map.mp hin
      exact hi (h.bound segment hsegment)

omit [DecidableEq P] in
/-- The handle that all tasks share. -/
theorem Shared.handle_eq (h : Shared path start s segments) {i : ℕ} {task : Task}
    {handle : Handle P} (htask : s.tasks[i]? = some task)
    (hhandle : s.handles[task.handle]? = some handle) :
    s.handles = [handle] ∧ handle.path = path ∧
      (∀ pos ∈ handle.position, pos = (s.content path).length) ∧
      (handle.locked = false → ∀ t ∈ s.tasks, ∀ rest, t.phase ≠ .writing rest) := by
  obtain ⟨file, hfile, hpath, hpos, hlocked⟩ := h.handle
  rw [(h.tasks i task htask).1, hfile] at hhandle
  obtain rfl := Option.some_inj.mp hhandle
  exact ⟨hfile, hpath, hpos, hlocked⟩

omit [DecidableEq P] in
/-- Only the task of the last segment writes. -/
theorem Shared.writing_eq (h : Shared path start s segments) {i j : ℕ} {task t : Task}
    {rest rest' : List UInt8} (htask : s.tasks[i]? = some task) (ht : s.tasks[j]? = some t)
    (hphase : task.phase = .writing rest) (hphase' : t.phase = .writing rest') : j = i := by
  obtain ⟨front, written, heq, -⟩ := (h.tasks i task htask).2.writing hphase
  obtain ⟨front', written', heq', -⟩ := (h.tasks j t ht).2.writing hphase'
  have hlast := List.append_inj_right' (heq.symm.trans heq') rfl
  exact (congrArg Prod.fst (List.singleton_inj.mp hlast)).symm

omit [DecidableEq P] in
theorem Shared.poll (h : Shared path start s segments) {i : ℕ} {task : Task} {handle : Handle P}
    (htask : s.tasks[i]? = some task) (hhandle : s.handles[task.handle]? = some handle)
    (hphase : task.phase = .ready) :
    ∃ segments', Shared path start (s.poll i task handle) segments' := by
  rw [State.poll]
  split
  · exact ⟨segments, h⟩
  next hfree =>
  obtain ⟨hhandles, hpath, hpos, hlocked⟩ := h.handle_eq htask hhandle
  obtain ⟨hzero, hsegment⟩ := h.tasks i task htask
  have hnew : i ∉ segments.map (·.1) := by
    rw [Task.Segment, hphase] at hsegment
    exact hsegment
  have hlt := (List.getElem?_eq_some_iff.mp htask).1
  have hnone := hlocked (by simpa using hfree)
  refine ⟨segments ++ [(i, [])], ⟨{ handle with locked := true }, ?_, hpath, hpos, by simp⟩,
    h.calls, ?_, ?_, fun segment hmem => ?_, fun j t ht => ?_⟩
  · simp [State.setTask, State.setHandle, hhandles, hzero]
  · show s.content path = _
    rw [h.content, List.flatMap_append]
    simp
  · rw [List.map_append, List.map_singleton, (List.perm_append_singleton i _).nodup_iff]
    exact List.nodup_cons.mpr ⟨hnew, h.nodup⟩
  · show segment.1 < (s.tasks.set i _).length
    rw [List.length_set]
    rcases List.mem_append.mp hmem with hmem | hmem
    · exact h.bound segment hmem
    · obtain rfl := List.mem_singleton.mp hmem
      exact hlt
  · obtain ⟨rfl, rfl⟩ | ⟨hj, ht⟩ := getElem?_set_cases ht
    · exact ⟨hzero, segments, [], rfl, rfl, linedEntry_ne_nil task.entry⟩
    · obtain ⟨hzero', hsegment'⟩ := h.tasks j t ht
      refine ⟨hzero', hsegment'.of_ne (hnone t (List.mem_of_getElem? ht))
        (fun segment hmem => List.mem_append_left _ hmem) (fun k hk => ?_) hj⟩
      simpa using hk

/-- What the segments are when the task with the last one has written some more. -/
theorem Shared.puts (h : Shared path start s segments) {i : ℕ} {task : Task} {handle : Handle P}
    {rest bs rest' : List UInt8} {locked : Bool} {phase : TaskPhase}
    (htask : s.tasks[i]? = some task) (hhandle : s.handles[task.handle]? = some handle)
    (hphase : task.phase = .writing rest) (hputs : Puts s s' i task handle bs locked phase)
    (hrest : rest = bs ++ rest')
    (hnext : phase = .writing rest' ∧ rest' ≠ [] ∧ locked = true ∨
      phase = .resolved (.ok ()) (.ok true) ∧ rest' = []) :
    ∃ segments', Shared path start s' segments' := by
  obtain ⟨hhandles, rfl, hpos, -⟩ := h.handle_eq htask hhandle
  obtain ⟨hzero, hsegment⟩ := h.tasks i task htask
  obtain ⟨front, written, rfl, hline, -⟩ := hsegment.writing hphase
  have hcontent : s'.content handle.path = s.content handle.path ++ bs := by
    rw [hputs.content_self, Handle.content_eq hpos]
  have hline' : task.line = written ++ bs ++ rest' := by
    rw [hline, hrest, List.append_assoc]
  have hothers : ∀ j t, s.tasks[j]? = some t → j ≠ i → ∀ r, t.phase ≠ .writing r :=
    fun j t ht hj r hr => hj (h.writing_eq htask ht hphase hr)
  refine ⟨front ++ [(i, written ++ bs)],
    ⟨{ handle.advance bs.length with locked }, ?_, rfl, ?_, fun hfree t ht r hr => ?_⟩,
    hputs.calls ▸ h.calls, ?_, ?_, fun segment hmem => ?_, fun j t ht => ?_⟩
  · rw [hputs.handles, hhandles, hzero]
    rfl
  · intro pos hnew
    obtain ⟨pos', hold, rfl⟩ := Option.mem_map.mp hnew
    rw [hcontent, List.length_append, ← hpos pos' hold]
  · rw [hputs.tasks] at ht
    obtain ⟨j, hj⟩ := List.mem_iff_getElem?.mp ht
    obtain ⟨rfl, rfl⟩ | ⟨hne, hj⟩ := getElem?_set_cases hj
    · rcases hnext with ⟨-, -, hlocked⟩ | ⟨hresolved, -⟩
      · exact absurd (hfree.symm.trans hlocked) (by decide)
      · cases hresolved.symm.trans hr
    · exact hothers j t hj hne r hr
  · rw [hcontent, h.content]
    simp
  · simpa using h.nodup
  · rw [hputs.tasks, List.length_set]
    rcases List.mem_append.mp hmem with hmem | hmem
    · exact h.bound segment (List.mem_append_left _ hmem)
    · obtain rfl := List.mem_singleton.mp hmem
      exact (List.getElem?_eq_some_iff.mp htask).1
  · rw [hputs.tasks] at ht
    obtain ⟨rfl, rfl⟩ | ⟨hj, ht⟩ := getElem?_set_cases ht
    · refine ⟨hzero, ?_⟩
      rcases hnext with ⟨rfl, hne, -⟩ | ⟨rfl, rfl⟩
      · exact ⟨front, written ++ bs, rfl, hline', hne⟩
      · rw [List.append_nil] at hline'
        exact ⟨written ++ bs, by simp, hline' ▸ List.prefix_rfl, fun _ => hline'.symm⟩
    · obtain ⟨hzero', hsegment'⟩ := h.tasks j t ht
      refine ⟨hzero', hsegment'.of_ne (hothers j t ht hj) (fun segment hmem => ?_) (fun k hk => ?_)
        hj⟩
      · rcases List.mem_append.mp hmem with hmem | hmem
        · exact List.mem_append_left _ hmem
        · exact absurd (congrArg Prod.fst (List.mem_singleton.mp hmem)) hj
      · exact .inl (by simpa using hk)

omit [DecidableEq P] in
/-- A write that fails leaves the segment as it is. -/
theorem Shared.fail (h : Shared path start s segments) {i : ℕ} {task : Task} {handle : Handle P}
    {rest : List UInt8} (htask : s.tasks[i]? = some task)
    (hhandle : s.handles[task.handle]? = some handle) (hphase : task.phase = .writing rest)
    (error : String) : Shared path start (s.resolve i task handle (.error error)) segments := by
  obtain ⟨hhandles, hpath, hpos, -⟩ := h.handle_eq htask hhandle
  obtain ⟨hzero, hsegment⟩ := h.tasks i task htask
  obtain ⟨front, written, hsegments, hline, -⟩ := hsegment.writing hphase
  refine ⟨⟨{ handle with locked := false }, ?_, hpath, hpos, fun _ t ht r hr => ?_⟩, h.calls,
    h.content, h.nodup, fun segment hmem => ?_, fun j t ht => ?_⟩
  · simp [State.resolve, State.setTask, State.setHandle, hhandles, hzero]
  · obtain ⟨j, hj⟩ := List.mem_iff_getElem?.mp ht
    obtain ⟨-, rfl⟩ | ⟨hne, hj⟩ := getElem?_set_cases hj
    · cases hr
    · exact hne (h.writing_eq htask hj hphase hr)
  · show segment.1 < (s.tasks.set i _).length
    rw [List.length_set]
    exact h.bound segment hmem
  · obtain ⟨rfl, rfl⟩ | ⟨hj, ht⟩ := getElem?_set_cases ht
    · refine ⟨hzero, written, ?_, ?_, fun hok => by cases hok⟩
      · rw [hsegments]
        simp
      · show written <+: task.line
        rw [hline]
        exact List.prefix_append _ _
    · exact h.tasks j t ht

theorem Shared.step (h : Shared path start s segments) {e : Event P} (he : SharesHandle e = true)
    (hs : s.step e = some s') : ∃ segments', Shared path start s' segments' := by
  cases e with
  | getFileHandle path => cases he
  | openFile i fails =>
    obtain ⟨call, hcall, hphase, -⟩ := State.step_openFile hs
    exact absurd hphase (h.calls call (List.mem_of_getElem? hcall)).1
  | createFile i fails =>
    obtain ⟨call, hcall, hphase, -⟩ := State.step_createFile hs
    exact absurd hphase (h.calls call (List.mem_of_getElem? hcall)).2
  | writeLog handle entry =>
    obtain ⟨hlt, rfl⟩ := State.step_writeLog hs
    exact ⟨segments, h.writeLog hlt entry⟩
  | poll i =>
    obtain ⟨task, handle, htask, hhandle, hphase, rfl⟩ := State.step_poll hs
    exact h.poll htask hhandle hphase
  | write i outcome =>
    obtain ⟨task, handle, rest, htask, hhandle, hphase, rfl⟩ := State.step_write hs
    obtain ⟨-, heq⟩ | ⟨n, -, -, hlt, hputs⟩ | ⟨n, -, -, -, hputs⟩ | ⟨-, error, heq⟩ :=
      write_cases s i task handle rest outcome
    · rw [heq]
      exact ⟨segments, h⟩
    · have hlocked : handle.locked = true := by
        obtain ⟨-, -, -, hlocked⟩ := h.handle_eq htask hhandle
        by_contra hfree
        exact hlocked (by simpa using hfree) task (List.mem_of_getElem? htask) rest hphase
      have hne : rest.drop n ≠ [] := fun hnil =>
        Nat.not_le_of_lt hlt (List.drop_eq_nil_iff.mp hnil)
      exact h.puts htask hhandle hphase hputs (List.take_append_drop n rest).symm
        (.inl ⟨rfl, hne, hlocked⟩)
    · exact h.puts htask hhandle hphase hputs (List.append_nil rest).symm (.inr ⟨rfl, rfl⟩)
    · rw [heq]
      exact ⟨segments, h.fail htask hhandle hphase error⟩

/-! ### Reports -/

/-- No write has failed. -/
def Succeeded (s : State P) : Prop :=
  ∀ task ∈ s.tasks, ∀ written result, task.phase = .resolved written result → written = .ok ()

theorem Succeeded.step (h : Succeeded s) {e : Event P} (he : Succeeds e)
    (hs : s.step e = some s') : Succeeded s' := by
  refine forall_task_step h hs (fun handle entry written result hphase => by cases hphase)
    (fun task written result hphase => by cases hphase)
    fun i outcome task handle rest hwrite htask hphase => ?_
  subst hwrite
  obtain ⟨-, heq⟩ | ⟨n, -, -, -, hputs⟩ | ⟨n, -, -, -, hputs⟩ | ⟨hfails, -⟩ :=
    write_cases s i task handle rest outcome
  · rw [heq]
    exact h
  · rw [hputs.tasks]
    exact forall_mem_set h fun written result hphase => by cases hphase
  · rw [hputs.tasks]
    exact forall_mem_set h fun written result hphase => (TaskPhase.resolved.inj hphase).1.symm
  · exact absurd he hfails

omit [DecidableEq P] in
/-- Every segment is the line of its task, or the beginning of it. -/
theorem Shared.isPrefix_line (h : Shared path start s segments) {segment : ℕ × List UInt8}
    (hmem : segment ∈ segments) :
    ∃ task : Task, s.tasks[segment.1]? = some task ∧ segment.2 <+: task.line := by
  obtain ⟨i, bytes⟩ := segment
  obtain ⟨task, htask⟩ : ∃ task, s.tasks[i]? = some task :=
    ⟨_, List.getElem?_eq_getElem (h.bound _ hmem)⟩
  refine ⟨task, htask, ?_⟩
  -- a task has one segment only
  have honce : ∀ {bytes' : List UInt8}, (i, bytes') ∈ segments → bytes' = bytes := fun hmem' =>
    congrArg Prod.snd (List.inj_on_of_nodup_map h.nodup hmem' hmem rfl)
  obtain ⟨-, hsegment⟩ := h.tasks i task htask
  cases hphase : task.phase with
  | ready =>
    rw [Task.Segment, hphase] at hsegment
    exact absurd (List.mem_map_of_mem hmem) hsegment
  | writing rest =>
    obtain ⟨front, written, rfl, hline, -⟩ := hsegment.writing hphase
    obtain rfl := honce (List.mem_append_right _ List.mem_cons_self)
    exact ⟨rest, hline.symm⟩
  | resolved written result =>
    rw [Task.Segment, hphase] at hsegment
    obtain ⟨bytes', hmem', hbegins, -⟩ := hsegment
    exact honce hmem' ▸ hbegins

omit [DecidableEq P] in
theorem Shared.reported (h : Shared path start s segments) (hok : Succeeded s) :
    Reported path start s where
  ok := by
    refine ⟨segments, h.content, h.nodup, fun segment hmem => h.isPrefix_line hmem,
      fun i task written htask hphase => ?_⟩
    obtain ⟨-, hsegment⟩ := h.tasks i task htask
    rw [Task.Segment, hphase] at hsegment
    obtain ⟨segment, hmem, -, hline⟩ := hsegment
    exact hline (hok task (List.mem_of_getElem? htask) written _ hphase) ▸ hmem
  err task htask error result hphase := by cases hok task htask (.error error) result hphase

/-- A write that fails is reported as a success. -/
theorem not_reported {e : Event P} (he : ¬ Succeeds e) (hs : s.step e = some s') :
    ¬ Reported path start s' := by
  intro hreported
  cases e with
  | write i outcome =>
    obtain ⟨task, handle, rest, htask, -, -, rfl⟩ := State.step_write hs
    obtain ⟨rfl, -⟩ | ⟨n, rfl, hn, -⟩ | ⟨n, rfl, hn, -⟩ | ⟨-, error, heq⟩ :=
      write_cases s i task handle rest outcome
    · exact he trivial
    · exact he hn
    · exact he hn
    · rw [heq] at hreported
      have hmem : { task with phase := .resolved (.error error) (.ok true) } ∈
          (s.resolve i task handle (.error error)).tasks :=
        List.mem_set (List.getElem?_eq_some_iff.mp htask).1 _
      obtain ⟨message, hresult⟩ := hreported.err _ hmem error _ rfl
      cases hresult
  | _ => exact he trivial

end

/-- **When the reports are true.**  The tasks of one handle report what has happened, in all
states of a run, iff no write of the run fails. -/
theorem reported_iff (files : P → Option (List UInt8)) (path : P) {es : List (Event P)}
    (hes : ∀ e ∈ es, SharesHandle e = true) :
    Along State.step (Reported path ((files path).getD [])) (getFileHandle files path) es ↔
      Meets State.step (fun _ e => Succeeds e) (getFileHandle files path) es := by
  have hstart : Succeeded (getFileHandle files path) := by
    intro task htask
    simp [tasks_getFileHandle] at htask
  refine along_iff_meets_of_meets
    (I := fun s => (∃ segments, Shared path ((files path).getD []) s segments) ∧ Succeeded s)
    (fun s hs => ?_) (fun s e s' hs he hok hstep => ?_) (fun s e s' _ _ hno hstep => ?_)
    ⟨⟨[], .opened files path⟩, hstart⟩ (.of_mem (fun e he _ => hes e he) _)
  · obtain ⟨⟨segments, hshared⟩, hsucceeded⟩ := hs
    exact hshared.reported hsucceeded
  · obtain ⟨⟨segments, hshared⟩, hsucceeded⟩ := hs
    exact ⟨hshared.step he hstep, hsucceeded.step hok hstep⟩
  · exact not_reported hno hstep

/-- Two tasks, of which the first has to wait for the mutex and the second writes its line
in two pieces. -/
theorem reported_two_tasks :
    Along State.step (Reported () []) (getFileHandle (fun _ => none) ())
      [.writeLog 0 "a", .writeLog 0 "bc", .poll 1, .poll 0, .write 1 (.wrote 1),
        .write 1 (.wrote 2), .poll 0, .write 0 (.wrote 2)] :=
  (reported_iff (fun _ => none) () (by simp [SharesHandle])).mpr
    (.of_mem (by simp [Succeeds]) _)

/-- The only write fails, and its task reports success. -/
theorem failure_reported_ok :
    ¬ ∀ es, (∀ e ∈ es, SharesHandle e = true) →
      Along State.step (Reported () []) (getFileHandle (fun _ => none) ()) es := by
  intro hall
  obtain ⟨s, hs, htasks⟩ : ∃ s, run State.step (getFileHandle (fun _ => none) ())
      [.writeLog 0 "a", .poll 0, .write 0 (.failed "No space left on device")] = some s ∧
        s.tasks = [⟨0, "a", .resolved (.error "No space left on device") (.ok true)⟩] :=
    ⟨_, rfl, rfl⟩
  have hreported := (hall _ (by simp [SharesHandle])).final hs
  obtain ⟨message, hresult⟩ := hreported.err _ (htasks ▸ List.mem_singleton_self _) _ _ rfl
  cases hresult

end AuditLog
