/-
The executor with two priorities (`16-async-queue/src/main.rs`).

A task is spawned with a priority, and its runnables go to the channel of that priority.
Each of the two queues, when it is first used, starts its workers, as many as an
environment variable says; a worker takes from its own channel first and is meant to
steal from the other one.  The two loops differ in one call: the high workers try to
receive, and the low workers receive, which waits as long as the channel is connected.

* `highWorker`, `lowWorker` — the loops, cut where the threads may interleave;
* `State.step` — a runnable is scheduled, or a worker takes its turn;
* `WorkConserving` — no worker stays parked while a runnable is queued;
* `conserving_iff` — it holds in all reachable states iff there are high workers and no
  low ones, and in one state iff no low worker waits while only the high channel has
  runnables.
-/
import Mathlib.Data.Nat.Notation
import Mathlib.Logic.Function.Basic
import AsyncRust.Runs

namespace Executor

open Runs

variable {R : Type}

/-! ### Channels -/

/-- An unbounded channel: what is queued, and how many senders are alive. -/
structure Channel (R : Type) where
  queue : List R
  senders : ℕ
  deriving DecidableEq, Repr

inductive RecvError where
  | empty
  | disconnected
  deriving DecidableEq, Repr

namespace Channel

/-- A channel with its first sender. -/
def unbounded : Channel R where
  queue := []
  senders := 1

def send (c : Channel R) (r : R) : Channel R := { c with queue := c.queue ++ [r] }

/-- The channel with `n` more senders. -/
def clone (c : Channel R) (n : ℕ) : Channel R := { c with senders := c.senders + n }

def tryRecv (c : Channel R) : Except RecvError (R × Channel R) :=
  match c.queue with
  | r :: queue => .ok (r, { c with queue })
  | [] => .error (if c.senders = 0 then .disconnected else .empty)

/-- Receives, or waits (`none`) as long as the channel is empty and connected. -/
def recv (c : Channel R) : Option (Except RecvError (R × Channel R)) :=
  match c.queue with
  | r :: queue => some (.ok (r, { c with queue }))
  | [] => if c.senders = 0 then some (.error .disconnected) else none

end Channel

/-! ### Workers -/

inductive FuturePriority where
  | high
  | low
  deriving DecidableEq, Repr

/-- Where a worker is in its loop: it looks into its own channel, or into the other one;
it sleeps; it runs a task once. -/
inductive Phase (R : Type) where
  | first
  | second
  | sleeping
  | running (runnable : R)
  deriving DecidableEq, Repr

/-- What a worker does in its turn; `take` leaves the channel that is given. -/
inductive Action (R : Type) where
  | take (source : FuturePriority) (runnable : R) (rest : Channel R)
  | goto (phase : Phase R)
  deriving DecidableEq, Repr

/-- The loop of `HIGH_PRIORITY_QUEUE`.  A task that panics is caught. -/
def highWorker (channel : FuturePriority → Channel R) : Phase R → Option (Action R)
  | .first =>
    match (channel .high).tryRecv with
    | .ok (runnable, rest) => some (.take .high runnable rest)
    | .error _ => some (.goto .second)
  | .second =>
    match (channel .low).tryRecv with
    | .ok (runnable, rest) => some (.take .low runnable rest)
    | .error _ => some (.goto .sleeping)
  | .sleeping => some (.goto .first)
  | .running _ => some (.goto .first)

/-- The loop of `LOW_PRIORITY_QUEUE`; `none` while it waits. -/
def lowWorker (channel : FuturePriority → Channel R) : Phase R → Option (Action R)
  | .first =>
    match (channel .low).recv with
    | some (.ok (runnable, rest)) => some (.take .low runnable rest)
    | some (.error _) => some (.goto .second)
    | none => none
  | .second =>
    match (channel .high).tryRecv with
    | .ok (runnable, rest) => some (.take .high runnable rest)
    | .error _ => some (.goto .sleeping)
  | .sleeping => some (.goto .first)
  | .running _ => some (.goto .first)

def worker : FuturePriority → (FuturePriority → Channel R) → Phase R → Option (Action R)
  | .high => highWorker
  | .low => lowWorker

/-! ### The runtime -/

/-- A thread of one of the two queues. -/
structure Worker where
  kind : FuturePriority
  index : ℕ
  deriving DecidableEq, Repr

/-- A worker took a runnable from the channel `source`. -/
structure Taking (R : Type) where
  worker : Worker
  source : FuturePriority
  runnable : R
  deriving DecidableEq, Repr

/-- `env` are the two environment variables; a queue that is not initialised has no
threads.  `sent` and `taken` record what was sent to each channel and who took it. -/
structure State (R : Type) where
  env : FuturePriority → Option String
  channel : FuturePriority → Channel R
  initialised : FuturePriority → Bool
  threads : FuturePriority → List (Phase R)
  sent : FuturePriority → List R
  taken : List (Taking R)

/-- A number may have a sign. -/
def skipSign : List Char → List Char
  | '+' :: digits => digits
  | digits => digits

/-- `str::parse` of a `usize`. -/
def parseUsize (s : String) : Option UInt64 :=
  let digits := skipSign s.toList
  if digits ≠ [] ∧ digits.all Char.isDigit ∧ Nat.ofDigitChars 10 digits 0 < UInt64.size then
    some (UInt64.ofNat (Nat.ofDigitChars 10 digits 0))
  else none

/-- How many threads there are when the variable is missing, or says no number. -/
def FuturePriority.defaultThreads : FuturePriority → UInt64
  | .high => 2
  | .low => 1

inductive Event (R : Type) where
  | schedule (order : FuturePriority) (runnable : R)
  | turn (w : Worker)
  deriving DecidableEq, Repr

namespace State

def threadCount (s : State R) (order : FuturePriority) : UInt64 :=
  ((s.env order).bind parseUsize).getD order.defaultThreads

/-- The first use of a queue starts its workers, each with a sender of both channels, and clones
the sender of its own channel. -/
def initialise (s : State R) (order : FuturePriority) : State R :=
  if s.initialised order then s
  else
    { s with
      channel := fun p =>
        (s.channel p).clone ((s.threadCount order).toNat + if p = order then 1 else 0)
      initialised := Function.update s.initialised order true
      threads := Function.update s.threads order
        (List.replicate (s.threadCount order).toNat .first) }

def send (s : State R) (order : FuturePriority) (r : R) : State R :=
  { s with
    channel := Function.update s.channel order ((s.channel order).send r)
    sent := Function.update s.sent order (s.sent order ++ [r]) }

/-- What `spawn_task` and every waker do with a runnable. -/
def schedule (s : State R) (order : FuturePriority) (r : R) : State R :=
  (s.initialise order).send order r

/-- The phase of a worker that exists. -/
def phase? (s : State R) (w : Worker) : Option (Phase R) := (s.threads w.kind)[w.index]?

def goto (s : State R) (w : Worker) (phase : Phase R) : State R :=
  { s with
    threads := Function.update s.threads w.kind ((s.threads w.kind).set w.index phase) }

def act (s : State R) (w : Worker) : Action R → State R
  | .take source r rest =>
    { s.goto w (.running r) with
      channel := Function.update s.channel source rest
      taken := s.taken ++ [⟨w, source, r⟩] }
  | .goto phase => s.goto w phase

def turn (s : State R) (w : Worker) : Option (State R) :=
  (s.phase? w).bind fun phase => (worker w.kind s.channel phase).map (s.act w)

def step (s : State R) : Event R → Option (State R)
  | .schedule order r => some (s.schedule order r)
  | .turn w => s.turn w

end State

/-- The thread counts are of type `usize`. -/
structure Runtime where
  highNum : UInt64
  lowNum : UInt64
  deriving DecidableEq, Repr

namespace Runtime

def new (numCores : UInt64) : Runtime where
  highNum := numCores
  lowNum := 1

def withHighPriorityThreads (rt : Runtime) (num : UInt64) : Runtime := { rt with highNum := num }

def withLowPriorityThreads (rt : Runtime) (num : UInt64) : Runtime := { rt with lowNum := num }

def num (rt : Runtime) : FuturePriority → UInt64
  | .high => rt.highNum
  | .low => rt.lowNum

/-- `run` has set the two variables. -/
def setVars (rt : Runtime) : State R where
  env order := some (Nat.repr (rt.num order).toNat)
  channel _ := .unbounded
  initialised _ := false
  threads _ := []
  sent _ := []
  taken := []

/-- `run` has spawned its two tasks, and `s` has been reached since. -/
def Reaches (rt : Runtime) (high low : R) (s : State R) : Prop :=
  ∃ s₁, Reachable State.turn (rt.setVars.schedule .high high) s₁ ∧
    Reachable State.step (s₁.schedule .low low) s

end Runtime

/-! ### What is claimed of it -/

def FuturePriority.other : FuturePriority → FuturePriority
  | .high => .low
  | .low => .high

/-- The worker is between two tasks. -/
def State.Between (s : State R) (w : Worker) : Prop :=
  ∃ phase, s.phase? w = some phase ∧ ∀ r, phase ≠ .running r

/-- The first runnable that the worker takes, if only this worker goes on. -/
inductive Takes (w : Worker) : State R → FuturePriority → R → Prop
  | take {s s' : State R} {p : FuturePriority} {r : R} :
      s.turn w = some s' → s'.taken = s.taken ++ [⟨w, p, r⟩] → Takes w s p r
  | next {s s' : State R} {p : FuturePriority} {r : R} :
      s.turn w = some s' → s'.taken = s.taken → Takes w s' p r → Takes w s p r

/-- The workers can empty both channels, if all tasks return. -/
def Drains (s : State R) : Prop :=
  ∃ s', Reachable State.turn s s' ∧ ∀ p, (s'.channel p).queue = []

/-- What was taken from a channel. -/
def State.takenFrom (s : State R) (p : FuturePriority) : List R :=
  (s.taken.filter (·.source = p)).map (·.runnable)

/-- A worker between two tasks takes a runnable as long as there is one; at the top of its
loop it prefers its own channel; the workers can take all that is queued; and what was
sent to a channel is what one worker or another has taken, followed by what is queued. -/
structure WorkConserving (s : State R) : Prop where
  takes : ∀ w, s.Between w → (∃ p, (s.channel p).queue ≠ []) → ∃ p r, Takes w s p r
  own : ∀ w r rest, s.phase? w = some .first → (s.channel w.kind).queue = r :: rest →
    Takes w s w.kind r
  steal : ∀ w r rest, s.phase? w = some .first → (s.channel w.kind).queue = [] →
    (s.channel w.kind.other).queue = r :: rest → Takes w s w.kind.other r
  drains : Drains s
  once : ∀ p, s.takenFrom p ++ (s.channel p).queue = s.sent p

/-- A low worker waits at its own empty channel although a high runnable is queued. -/
def State.Parked (s : State R) : Prop :=
  (∃ i, s.phase? ⟨.low, i⟩ = some .first) ∧
    (s.channel .low).queue = [] ∧ (s.channel .high).queue ≠ []

/-! ### Thread counts -/

theorem skipSign_eq {cs : List Char} (h : '+' ∉ cs) : skipSign cs = cs := by
  unfold skipSign
  split
  · simp at h
  · rfl

theorem parseUsize_repr (n : UInt64) : parseUsize (Nat.repr n.toNat) = some n := by
  have hdigits : ∀ c ∈ Nat.toDigits 10 n.toNat, c.isDigit = true := fun c hc =>
    Nat.isDigit_of_mem_toDigits (by decide) (by decide) hc
  have hplus : skipSign (Nat.repr n.toNat).toList = Nat.toDigits 10 n.toNat := by
    rw [Nat.toList_repr]
    exact skipSign_eq fun hc => absurd (hdigits '+' hc) (by decide)
  have hlt : n.toNat < UInt64.size := n.toNat_lt_size
  simp only [parseUsize, hplus, Nat.ofDigitChars_ten_toDigits]
  rw [if_pos ⟨Nat.toDigits_ne_nil, List.all_eq_true.mpr hdigits, hlt⟩, UInt64.ofNat_toNat]

/-! ### Turns -/

namespace State

@[simp] theorem phase?_eq (s : State R) (w : Worker) :
    s.phase? w = (s.threads w.kind)[w.index]? := rfl

theorem turn_eq {s : State R} {w : Worker} {phase : Phase R} (h : s.phase? w = some phase) :
    s.turn w = (worker w.kind s.channel phase).map (s.act w) := by
  rw [turn, h, Option.bind_some]

theorem phase?_goto {s : State R} {w : Worker} {phase : Phase R} (h : s.phase? w = some phase)
    (phase' : Phase R) : (s.goto w phase').phase? w = some phase' := by
  obtain ⟨hlt, -⟩ := List.getElem?_eq_some_iff.mp h
  simp [goto, hlt]

end State

theorem Channel.tryRecv_cons {c : Channel R} {r : R} {rest : List R} (h : c.queue = r :: rest) :
    c.tryRecv = .ok (r, { c with queue := rest }) := by
  simp [tryRecv, h]

theorem Channel.tryRecv_nil {c : Channel R} (h : c.queue = []) : ∃ e, c.tryRecv = .error e := by
  simp [tryRecv, h]

theorem Channel.recv_cons {c : Channel R} {r : R} {rest : List R} (h : c.queue = r :: rest) :
    c.recv = some (.ok (r, { c with queue := rest })) := by
  simp [recv, h]

theorem Channel.recv_nil {c : Channel R} (h : c.queue = []) (hs : c.senders ≠ 0) :
    c.recv = none := by
  simp [recv, h, hs]

/-- All that a worker can do: it takes the oldest runnable of a channel, its own one if it
is a low worker, or it goes on without one; a low worker goes back to the top of its
loop then. -/
theorem worker_cases {kind : FuturePriority} {channel : FuturePriority → Channel R}
    {phase : Phase R} {a : Action R} (hs : (channel .low).senders ≠ 0)
    (hphase : kind = .low → phase ≠ .second)
    (h : worker kind channel phase = some a) :
    (∃ p r rest, (channel p).queue = r :: rest ∧ (kind = .low → p = .low) ∧
        a = .take p r { channel p with queue := rest }) ∨
      ∃ phase', (kind = .low → phase' = .first) ∧ a = .goto phase' := by
  cases kind with
  | high =>
    cases phase with
    | first =>
      cases hq : (channel .high).queue with
      | nil =>
        obtain ⟨e, he⟩ := Channel.tryRecv_nil hq
        simp only [worker, highWorker, he, Option.some_inj] at h
        exact .inr ⟨.second, by simp, h.symm⟩
      | cons r rest =>
        simp only [worker, highWorker, Channel.tryRecv_cons hq, Option.some_inj] at h
        exact .inl ⟨.high, r, rest, hq, by simp, h.symm⟩
    | second =>
      cases hq : (channel .low).queue with
      | nil =>
        obtain ⟨e, he⟩ := Channel.tryRecv_nil hq
        simp only [worker, highWorker, he, Option.some_inj] at h
        exact .inr ⟨.sleeping, by simp, h.symm⟩
      | cons r rest =>
        simp only [worker, highWorker, Channel.tryRecv_cons hq, Option.some_inj] at h
        exact .inl ⟨.low, r, rest, hq, by simp, h.symm⟩
    | sleeping => exact .inr ⟨.first, by simp, (Option.some_inj.mp h).symm⟩
    | running r => exact .inr ⟨.first, by simp, (Option.some_inj.mp h).symm⟩
  | low =>
    cases phase with
    | first =>
      cases hq : (channel .low).queue with
      | nil => simp [worker, lowWorker, Channel.recv_nil hq hs] at h
      | cons r rest =>
        simp only [worker, lowWorker, Channel.recv_cons hq, Option.some_inj] at h
        exact .inl ⟨.low, r, rest, hq, by simp, h.symm⟩
    | second => exact absurd rfl (hphase rfl)
    | sleeping => exact .inr ⟨.first, by simp, (Option.some_inj.mp h).symm⟩
    | running r => exact .inr ⟨.first, by simp, (Option.some_inj.mp h).symm⟩

/-! ### The invariant -/

/-- The threads that the environment variables ask for run, the channels are connected, no
low worker gets past its receive, and every runnable that was sent is queued or was taken,
those of the high channel by high workers. -/
structure Inv (rt : Runtime) (s : State R) : Prop where
  env : ∀ p, s.threadCount p = rt.num p
  threads : ∀ p, (s.threads p).length = if s.initialised p then (rt.num p).toNat else 0
  senders : ∀ p, (s.channel p).senders ≠ 0
  low : ∀ phase ∈ s.threads .low, phase = .first ∨ ∃ r, phase = .running r
  once : ∀ p, s.takenFrom p ++ (s.channel p).queue = s.sent p
  high : ∀ t ∈ s.taken, t.source = .high →
    t.worker.kind = .high ∧ t.worker.index < (s.threads .high).length

theorem Inv.setVars (rt : Runtime) : Inv rt (rt.setVars : State R) where
  env p := by
    show ((some (Nat.repr (rt.num p).toNat)).bind parseUsize).getD _ = _
    rw [Option.bind_some, parseUsize_repr, Option.getD_some]
  threads p := by simp [Runtime.setVars]
  senders p := by simp [Runtime.setVars, Channel.unbounded]
  low := by simp [Runtime.setVars]
  once p := by simp [Runtime.setVars, State.takenFrom, Channel.unbounded]
  high := by simp [Runtime.setVars]

theorem Inv.initialise {rt : Runtime} {s : State R} (h : Inv rt s) (p : FuturePriority) :
    Inv rt (s.initialise p) := by
  by_cases hp : s.initialised p = true
  · rw [State.initialise, if_pos hp]
    exact h
  have hlength : (s.threads p).length = 0 := by simp [h.threads, hp]
  rw [State.initialise, if_neg hp]
  refine ⟨h.env, fun q => ?_, fun q => ?_, ?_, fun q => ?_, fun t ht hsource => ?_⟩
  · by_cases hq : q = p
    · subst hq
      simp [h.env]
    · simp [hq, h.threads]
  · have hsenders := h.senders q
    show (s.channel q).senders + _ ≠ 0
    omega
  · intro phase hphase
    by_cases hq : .low = p
    · subst hq
      simp only [Function.update_self] at hphase
      exact .inl (List.eq_of_mem_replicate hphase)
    · simp only [Function.update_of_ne hq] at hphase
      exact h.low phase hphase
  · exact h.once q
  · obtain ⟨hkind, hlt⟩ := h.high t ht hsource
    by_cases hq : .high = p
    · subst hq
      omega
    · simpa [hq] using ⟨hkind, hlt⟩

theorem Inv.send {rt : Runtime} {s : State R} (h : Inv rt s) (p : FuturePriority) (r : R) :
    Inv rt (s.send p r) := by
  refine ⟨h.env, h.threads, fun q => ?_, h.low, fun q => ?_, h.high⟩
  · by_cases hq : q = p
    · subst hq
      simpa [State.send, Channel.send] using h.senders q
    · simpa [State.send, hq] using h.senders q
  · show s.takenFrom q ++ _ = _
    by_cases hq : q = p
    · subst hq
      simp [State.send, Channel.send, ← h.once q]
    · simpa [State.send, hq] using h.once q

theorem Inv.schedule {rt : Runtime} {s : State R} (h : Inv rt s) (p : FuturePriority) (r : R) :
    Inv rt (s.schedule p r) :=
  (h.initialise p).send p r

theorem State.length_threads_goto (s : State R) (w : Worker) (phase : Phase R)
    (p : FuturePriority) : ((s.goto w phase).threads p).length = (s.threads p).length := by
  by_cases hp : p = w.kind
  · subst hp
    simp [goto]
  · simp [goto, hp]

theorem Inv.goto {rt : Runtime} {s : State R} {w : Worker} {phase : Phase R} (h : Inv rt s)
    (hphase : w.kind = .low → phase = .first ∨ ∃ r, phase = .running r) :
    Inv rt (s.goto w phase) := by
  refine ⟨h.env, fun p => ?_, h.senders, fun phase' hmem => ?_, h.once, fun t ht hsource => ?_⟩
  · rw [State.length_threads_goto]
    exact h.threads p
  · by_cases hw : .low = w.kind
    · simp only [State.goto] at hmem
      rw [hw, Function.update_self] at hmem
      rcases List.mem_or_eq_of_mem_set hmem with hmem | rfl
      · exact h.low phase' (hw ▸ hmem)
      · exact hphase hw.symm
    · simp only [State.goto] at hmem
      rw [Function.update_of_ne hw] at hmem
      exact h.low phase' hmem
  · rw [State.length_threads_goto]
    exact h.high t ht hsource

theorem Inv.take {rt : Runtime} {s : State R} {w : Worker} {p : FuturePriority} {r : R}
    {rest : List R} (h : Inv rt s) (hlt : w.index < (s.threads w.kind).length)
    (hq : (s.channel p).queue = r :: rest) (hp : w.kind = .low → p = .low) :
    Inv rt (s.act w (.take p r { s.channel p with queue := rest })) := by
  have hgoto : Inv rt (s.goto w (.running r)) := h.goto fun _ => .inr ⟨r, rfl⟩
  refine ⟨hgoto.env, hgoto.threads, fun q => ?_, hgoto.low, fun q => ?_, fun t ht hsource => ?_⟩
  · by_cases hqp : q = p
    · subst hqp
      simpa [State.act] using h.senders q
    · simpa [State.act, hqp, State.goto] using h.senders q
  · have honce := h.once q
    by_cases hqp : q = p
    · subst hqp
      simp only [State.takenFrom] at honce
      simp [State.act, State.takenFrom, State.goto, ← honce, hq]
    · simp only [State.takenFrom] at honce
      simp [State.act, State.takenFrom, State.goto, hqp, ← honce, Ne.symm hqp]
  · rw [show (s.act w (.take p r _)).threads = (s.goto w (.running r)).threads from rfl,
      State.length_threads_goto]
    rcases List.mem_append.mp ht with ht | ht
    · exact h.high t ht hsource
    · obtain rfl := List.mem_singleton.mp ht
      have hkind : w.kind = .high := by
        cases hk : w.kind with
        | high => rfl
        | low =>
          rw [show p = .high from hsource] at hp
          exact absurd (hp hk) (by decide)
      exact ⟨hkind, hkind ▸ hlt⟩

/-- A turn takes the oldest runnable of a channel or leaves the channels alone. -/
theorem turn_cases {rt : Runtime} {s s' : State R} {w : Worker} (h : Inv rt s)
    (hs : s.turn w = some s') :
    (∃ p r rest, (s.channel p).queue = r :: rest ∧ (w.kind = .low → p = .low) ∧
        s' = s.act w (.take p r { s.channel p with queue := rest })) ∨
      ∃ phase, (w.kind = .low → phase = .first) ∧ s' = s.goto w phase := by
  obtain ⟨phase, hphase, hs⟩ := Option.bind_eq_some_iff.mp hs
  obtain ⟨a, ha, rfl⟩ := Option.map_eq_some_iff.mp hs
  have hfirst : w.kind = .low → phase ≠ .second := by
    rintro hw rfl
    rw [State.phase?_eq, hw] at hphase
    obtain hsecond | ⟨r, hsecond⟩ := h.low _ (List.mem_of_getElem? hphase) <;> cases hsecond
  obtain ⟨p, r, rest, hq, hp, rfl⟩ | ⟨phase', hp, rfl⟩ := worker_cases (h.senders .low) hfirst ha
  · exact .inl ⟨p, r, rest, hq, hp, rfl⟩
  · exact .inr ⟨phase', hp, rfl⟩

theorem State.lt_length_of_turn {s s' : State R} {w : Worker} (hs : s.turn w = some s') :
    w.index < (s.threads w.kind).length := by
  obtain ⟨phase, hphase, -⟩ := Option.bind_eq_some_iff.mp hs
  exact (List.getElem?_eq_some_iff.mp hphase).1

theorem Inv.turn {rt : Runtime} {s s' : State R} {w : Worker} (h : Inv rt s)
    (hs : s.turn w = some s') : Inv rt s' := by
  obtain ⟨p, r, rest, hq, hp, rfl⟩ | ⟨phase, hphase, rfl⟩ := turn_cases h hs
  · exact h.take (State.lt_length_of_turn hs) hq hp
  · exact h.goto fun hw => .inl (hphase hw)

theorem Inv.step {rt : Runtime} {s s' : State R} {e : Event R} (h : Inv rt s)
    (hs : s.step e = some s') : Inv rt s' := by
  cases e with
  | schedule p r =>
    obtain rfl := Option.some_inj.mp hs
    exact h.schedule p r
  | turn w => exact h.turn hs

/-- Nothing that is initialised, or was sent, is forgotten. -/
structure Grows (s s' : State R) : Prop where
  initialised : ∀ p, s.initialised p = true → s'.initialised p = true
  sent : ∀ p, s.sent p <+: s'.sent p

theorem Grows.refl (s : State R) : Grows s s := ⟨fun _ h => h, fun _ => List.prefix_rfl⟩

theorem Grows.trans {s t u : State R} (h : Grows s t) (h' : Grows t u) : Grows s u :=
  ⟨fun p hp => h'.initialised p (h.initialised p hp), fun p => (h.sent p).trans (h'.sent p)⟩

theorem grows_schedule (s : State R) (p : FuturePriority) (r : R) : Grows s (s.schedule p r) := by
  have hinit : Grows s (s.initialise p) := by
    rw [State.initialise]
    split
    · exact .refl s
    · refine ⟨fun q hq => ?_, fun _ => List.prefix_rfl⟩
      by_cases hqp : q = p
      · simp [hqp]
      · simpa [hqp] using hq
  refine hinit.trans ⟨fun _ h => h, fun q => ?_⟩
  by_cases hqp : q = p
  · subst hqp
    simp [State.schedule, State.send]
  · simp [State.schedule, State.send, hqp]

theorem grows_turn {s s' : State R} {w : Worker} (hs : s.turn w = some s') : Grows s s' := by
  obtain ⟨phase, -, hs⟩ := Option.bind_eq_some_iff.mp hs
  obtain ⟨a, -, rfl⟩ := Option.map_eq_some_iff.mp hs
  cases a <;> exact ⟨fun _ h => h, fun _ => List.prefix_rfl⟩

theorem Inv.turns {rt : Runtime} {s s' : State R} (h : Inv rt s)
    (hs : Reachable State.turn s s') : Inv rt s' ∧ Grows s s' :=
  hs.invariant (I := fun t => Inv rt t ∧ Grows s t) ⟨h, .refl s⟩
    fun _ _ _ _ ht hw => ⟨ht.1.turn hw, ht.2.trans (grows_turn hw)⟩

theorem grows_step {s s' : State R} {e : Event R} (hs : s.step e = some s') : Grows s s' := by
  cases e with
  | schedule p r =>
    obtain rfl := Option.some_inj.mp hs
    exact grows_schedule s p r
  | turn w => exact grows_turn hs

theorem initialised_schedule (s : State R) (p : FuturePriority) (r : R) :
    (s.schedule p r).initialised p = true := by
  by_cases hp : s.initialised p = true
  · simp [State.schedule, State.send, State.initialise, hp]
  · simp [State.schedule, State.send, State.initialise, hp]

/-- What the two spawns of `Runtime::run` have set up. -/
theorem Runtime.Reaches.inv {rt : Runtime} {high low : R} {s : State R}
    (h : rt.Reaches high low s) :
    Inv rt s ∧ (∀ p, s.initialised p = true) ∧ high ∈ s.sent .high := by
  obtain ⟨s₁, h₁, h₂⟩ := h
  have hstart : Inv rt (rt.setVars.schedule .high high) := (Inv.setVars rt).schedule .high high
  have hgrows₁ := hstart.turns h₁
  have hgrows₂ : Inv rt s ∧ Grows (s₁.schedule .low low) s :=
    h₂.invariant (I := fun t => Inv rt t ∧ Grows (s₁.schedule .low low) t)
      ⟨hgrows₁.1.schedule .low low, .refl _⟩
      fun _ _ _ _ ht he => ⟨ht.1.step he, ht.2.trans (grows_step he)⟩
  have hgrows : Grows (rt.setVars.schedule .high high) s :=
    hgrows₁.2.trans ((grows_schedule s₁ .low low).trans hgrows₂.2)
  refine ⟨hgrows₂.1, fun p => ?_, (hgrows.sent .high).subset ?_⟩
  · cases p with
    | high => exact hgrows.initialised .high (initialised_schedule _ .high high)
    | low => exact hgrows₂.2.initialised .low (initialised_schedule _ .low low)
  · simp [State.schedule, State.send]

/-! ### High workers never park -/

/-- A turn that takes a runnable. -/
theorem Takes.of_take {s : State R} {w : Worker} {phase : Phase R} {p : FuturePriority} {r : R}
    {rest : Channel R} (hphase : s.phase? w = some phase)
    (h : worker w.kind s.channel phase = some (.take p r rest)) : Takes w s p r := by
  have hturn : s.turn w = some (s.act w (.take p r rest)) := by
    rw [State.turn_eq hphase, h, Option.map_some]
  exact .take hturn rfl

/-- A turn that takes none. -/
theorem Takes.of_goto {s : State R} {w : Worker} {phase phase' : Phase R} {p : FuturePriority}
    {r : R} (hphase : s.phase? w = some phase)
    (h : worker w.kind s.channel phase = some (.goto phase'))
    (htakes : Takes w (s.goto w phase') p r) : Takes w s p r := by
  have hturn : s.turn w = some (s.goto w phase') := by
    rw [State.turn_eq hphase, h, Option.map_some]
    rfl
  exact .next hturn rfl htakes

theorem high_takes_own {s : State R} {i : ℕ} {r : R} {rest : List R}
    (h : s.phase? ⟨.high, i⟩ = some .first) (hq : (s.channel .high).queue = r :: rest) :
    Takes ⟨.high, i⟩ s .high r := by
  have hact : worker .high s.channel .first =
      some (.take .high r { s.channel .high with queue := rest }) := by
    simp [worker, highWorker, Channel.tryRecv_cons hq]
  exact .of_take h hact

theorem high_takes_second {s : State R} {i : ℕ} {r : R} {rest : List R}
    (h : s.phase? ⟨.high, i⟩ = some .second) (hq : (s.channel .low).queue = r :: rest) :
    Takes ⟨.high, i⟩ s .low r := by
  have hact : worker .high s.channel .second =
      some (.take .low r { s.channel .low with queue := rest }) := by
    simp [worker, highWorker, Channel.tryRecv_cons hq]
  exact .of_take h hact

theorem high_steals {s : State R} {i : ℕ} {r : R} {rest : List R}
    (h : s.phase? ⟨.high, i⟩ = some .first) (hhigh : (s.channel .high).queue = [])
    (hlow : (s.channel .low).queue = r :: rest) : Takes ⟨.high, i⟩ s .low r := by
  obtain ⟨e, he⟩ := Channel.tryRecv_nil hhigh
  have hact : worker .high s.channel .first = some (.goto .second) := by
    simp [worker, highWorker, he]
  exact .of_goto h hact (high_takes_second (State.phase?_goto h .second) hlow)

theorem high_takes_first {s : State R} {i : ℕ} (h : s.phase? ⟨.high, i⟩ = some .first)
    (hq : ∃ p, (s.channel p).queue ≠ []) : ∃ p r, Takes ⟨.high, i⟩ s p r := by
  cases hhigh : (s.channel .high).queue with
  | cons r rest => exact ⟨.high, r, high_takes_own h hhigh⟩
  | nil =>
    cases hlow : (s.channel .low).queue with
    | cons r rest => exact ⟨.low, r, high_steals h hhigh hlow⟩
    | nil =>
      obtain ⟨p, hp⟩ := hq
      cases p with
      | high => exact absurd hhigh hp
      | low => exact absurd hlow hp

/-- A high worker that does not run a task takes a runnable if there is one. -/
theorem high_takes {s : State R} {i : ℕ} (h : s.Between ⟨.high, i⟩)
    (hq : ∃ p, (s.channel p).queue ≠ []) : ∃ p r, Takes ⟨.high, i⟩ s p r := by
  obtain ⟨phase, hphase, hidle⟩ := h
  have hsleeping : ∀ t : State R, t.phase? ⟨.high, i⟩ = some .sleeping → t.channel = s.channel →
      ∃ p r, Takes ⟨.high, i⟩ t p r := by
    intro t ht hchannel
    obtain ⟨p, r, htakes⟩ := high_takes_first (State.phase?_goto ht .first)
      (show ∃ p, (t.channel p).queue ≠ [] from hchannel ▸ hq)
    exact ⟨p, r, .of_goto ht rfl htakes⟩
  cases phase with
  | first => exact high_takes_first hphase hq
  | second =>
    cases hlow : (s.channel .low).queue with
    | cons r rest => exact ⟨.low, r, high_takes_second hphase hlow⟩
    | nil =>
      obtain ⟨e, he⟩ := Channel.tryRecv_nil hlow
      obtain ⟨p, r, htakes⟩ := hsleeping (s.goto ⟨.high, i⟩ .sleeping)
        (State.phase?_goto hphase .sleeping) rfl
      exact ⟨p, r, .of_goto hphase (by simp [worker, highWorker, he]) htakes⟩
  | sleeping => exact hsleeping s hphase rfl
  | running r => exact absurd rfl (hidle r)

/-! ### The channels drain -/

/-- How many runnables are queued. -/
def State.queued (s : State R) : ℕ :=
  (s.channel .high).queue.length + (s.channel .low).queue.length

theorem State.queued_goto (s : State R) (w : Worker) (phase : Phase R) :
    (s.goto w phase).queued = s.queued := rfl

theorem State.queued_take {s : State R} (w : Worker) {p : FuturePriority} {r : R}
    {rest : List R} (hq : (s.channel p).queue = r :: rest) :
    (s.act w (.take p r { s.channel p with queue := rest })).queued + 1 = s.queued := by
  cases p <;> simp [queued, act, goto, hq] <;> omega

/-- The runnable that a worker takes is no longer queued. -/
theorem Takes.exists_state {rt : Runtime} {s : State R} {w : Worker} {p : FuturePriority} {r : R}
    (htakes : Takes w s p r) (h : Inv rt s) :
    ∃ s', Reachable State.turn s s' ∧ s'.queued < s.queued := by
  induction htakes with
  | @take s s' p r hs htaken =>
    refine ⟨s', (Reachable.refl s).tail hs, ?_⟩
    obtain ⟨q, t, rest, hq, -, rfl⟩ | ⟨phase, -, rfl⟩ := turn_cases h hs
    · exact Nat.lt_of_succ_le (Nat.le_of_eq (State.queued_take w hq))
    · simp [State.goto] at htaken
  | @next s s' p r hs htaken _ ih =>
    obtain ⟨u, hu, hlt⟩ := ih (h.turn hs)
    refine ⟨u, ((Reachable.refl s).tail hs).trans hu, ?_⟩
    obtain ⟨q, t, rest, hq, -, rfl⟩ | ⟨phase, -, rfl⟩ := turn_cases h hs
    · simp [State.act] at htaken
    · rwa [State.queued_goto] at hlt

theorem Runtime.toNat_pos {n : UInt64} (h : n ≠ 0) : 0 < n.toNat :=
  Nat.pos_of_ne_zero fun hzero => h (UInt64.toNat_inj.mp hzero)

/-- With one high worker, everything is taken. -/
theorem drains_of_high {rt : Runtime} (hrt : rt.highNum ≠ 0) {s : State R} (h : Inv rt s)
    (hinit : s.initialised .high = true) : Drains s := by
  generalize hn : s.queued = n
  induction n using Nat.strongRecOn generalizing s with
  | _ n ih =>
    by_cases hq : ∃ p, (s.channel p).queue ≠ []
    · have hlength : 0 < (s.threads .high).length := by
        rw [h.threads, if_pos hinit]
        exact Runtime.toNat_pos hrt
      have hphase : s.phase? ⟨.high, 0⟩ = some (s.threads .high)[0] :=
        List.getElem?_eq_getElem hlength
      -- a task that is running returns first
      obtain ⟨t, ht, htqueued, hidle, htq⟩ : ∃ t, Reachable State.turn s t ∧
          t.queued = s.queued ∧ t.Between ⟨.high, 0⟩ ∧ ∃ p, (t.channel p).queue ≠ [] := by
        by_cases hrunning : ∃ r, (s.threads .high)[0] = .running r
        · obtain ⟨r, hr⟩ := hrunning
          rw [hr] at hphase
          have hturn : s.turn ⟨.high, 0⟩ = some (s.goto ⟨.high, 0⟩ .first) := by
            rw [State.turn_eq hphase]
            rfl
          exact ⟨_, (Reachable.refl s).tail hturn, rfl,
            ⟨.first, State.phase?_goto hphase .first, by simp⟩, hq⟩
        · exact ⟨s, .refl s, rfl, ⟨_, hphase, fun r hr => hrunning ⟨r, hr⟩⟩, hq⟩
      obtain ⟨hinv, hgrows⟩ := h.turns ht
      obtain ⟨p, r, htakes⟩ := high_takes hidle htq
      obtain ⟨u, hu, hlt⟩ := htakes.exists_state hinv
      obtain ⟨huinv, hugrows⟩ := hinv.turns hu
      obtain ⟨v, hv, hempty⟩ := ih u.queued (by omega) huinv
        (hugrows.initialised .high (hgrows.initialised .high hinit)) rfl
      exact ⟨v, (ht.trans hu).trans hv, hempty⟩
    · exact ⟨s, .refl s, fun p => not_not.mp fun hp => hq ⟨p, hp⟩⟩

/-- Without high workers, the high channel never empties. -/
theorem not_drains {rt : Runtime} (hrt : rt.highNum = 0) {s : State R} (h : Inv rt s) {high : R}
    (hhigh : high ∈ s.sent .high) : ¬ Drains s := by
  rintro ⟨t, ht, hempty⟩
  obtain ⟨hinv, hgrows⟩ := h.turns ht
  have honce := hinv.once .high
  rw [hempty .high, List.append_nil] at honce
  have hmem : high ∈ t.takenFrom .high := honce ▸ (hgrows.sent .high).subset hhigh
  obtain ⟨taking, htaking, -⟩ := List.mem_map.mp hmem
  rw [List.mem_filter, decide_eq_true_eq] at htaking
  obtain ⟨-, hlt⟩ := hinv.high taking htaking.1 htaking.2
  rw [hinv.threads, show rt.num .high = 0 from hrt] at hlt
  split at hlt <;> simp at hlt

theorem drains_iff {rt : Runtime} {high low : R} {s : State R} (h : rt.Reaches high low s) :
    Drains s ↔ rt.highNum ≠ 0 := by
  obtain ⟨hinv, hinit, hhigh⟩ := h.inv
  exact ⟨fun hdrains hrt => not_drains hrt hinv hhigh hdrains,
    fun hrt => drains_of_high hrt hinv (hinit .high)⟩

/-! ### Low workers do -/

theorem Inv.low_phase {rt : Runtime} {s : State R} (h : Inv rt s) {i : ℕ} {phase : Phase R}
    (hphase : s.phase? ⟨.low, i⟩ = some phase) : phase = .first ∨ ∃ r, phase = .running r :=
  h.low phase (List.mem_of_getElem? hphase)

theorem low_takes {s : State R} {i : ℕ} {r : R} {rest : List R}
    (h : s.phase? ⟨.low, i⟩ = some .first) (hq : (s.channel .low).queue = r :: rest) :
    Takes ⟨.low, i⟩ s .low r := by
  have hact : worker .low s.channel .first =
      some (.take .low r { s.channel .low with queue := rest }) := by
    simp [worker, lowWorker, Channel.recv_cons hq]
  exact .of_take h hact

/-- A low worker at its own empty channel takes nothing, whatever the high channel holds. -/
theorem low_waits {rt : Runtime} {s : State R} (h : Inv rt s) {i : ℕ}
    (hphase : s.phase? ⟨.low, i⟩ = some .first) (hq : (s.channel .low).queue = [])
    (p : FuturePriority) (r : R) : ¬ Takes ⟨.low, i⟩ s p r := by
  have hturn : s.turn ⟨.low, i⟩ = none := by
    rw [State.turn_eq hphase]
    simp [worker, lowWorker, Channel.recv_nil hq (h.senders .low)]
  intro htakes
  cases htakes with
  | take hs => simp [hturn] at hs
  | next hs => simp [hturn] at hs

theorem conserving_of {rt : Runtime} {high low : R} {s : State R} (h : rt.Reaches high low s)
    (hrt : rt.highNum ≠ 0) (hparked : ¬ s.Parked) : WorkConserving s := by
  have hinv := h.inv.1
  have hhigh : ∀ i, s.phase? ⟨.low, i⟩ = some .first → (s.channel .low).queue = [] →
      (s.channel .high).queue = [] := fun i hi hlow =>
    not_not.mp fun hq => hparked ⟨⟨i, hi⟩, hlow, hq⟩
  refine ⟨?_, ?_, ?_, (drains_iff h).mpr hrt, hinv.once⟩
  · rintro ⟨kind, i⟩ hidle hq
    cases kind with
    | high => exact high_takes hidle hq
    | low =>
      obtain ⟨phase, hphase, hidle⟩ := hidle
      obtain rfl | ⟨r, rfl⟩ := hinv.low_phase hphase
      · cases hlow : (s.channel .low).queue with
        | cons r rest => exact ⟨.low, r, low_takes hphase hlow⟩
        | nil =>
          obtain ⟨p, hp⟩ := hq
          cases p with
          | high => exact absurd (hhigh i hphase hlow) hp
          | low => exact absurd hlow hp
      · exact absurd rfl (hidle r)
  · rintro ⟨kind, i⟩ r rest hphase hq
    cases kind with
    | high => exact high_takes_own hphase hq
    | low => exact low_takes hphase hq
  · rintro ⟨kind, i⟩ r rest hphase hown hq
    cases kind with
    | high => exact high_steals hphase hown hq
    | low =>
      rw [show (s.channel FuturePriority.low.other).queue = [] from hhigh i hphase hown] at hq
      cases hq

theorem WorkConserving.not_parked {rt : Runtime} {high low : R} {s : State R}
    (h : rt.Reaches high low s) (hs : WorkConserving s) : ¬ s.Parked := by
  rintro ⟨⟨i, hi⟩, hlow, hhigh⟩
  obtain ⟨p, r, htakes⟩ := hs.takes ⟨.low, i⟩ ⟨.first, hi, by simp⟩ ⟨.high, hhigh⟩
  exact low_waits h.inv.1 hi hlow p r htakes

/-- A low worker runs the low task of `Runtime::run` before any high worker comes, and
waits at its empty channel while the high task is queued. -/
theorem exists_parked {rt : Runtime} (hrt : rt.lowNum ≠ 0) (high low : R) :
    ∃ s, rt.Reaches high low s ∧ s.Parked := by
  let s := (rt.setVars.schedule .high high).schedule .low low
  let w : Worker := ⟨.low, 0⟩
  have hinv : Inv rt s := ((Inv.setVars rt).schedule .high high).schedule .low low
  have hlow : (s.channel .low).queue = [low] := rfl
  have hhigh : (s.channel .high).queue = [high] := rfl
  have hphase : s.phase? w = some .first := by
    have hthreads : s.threads .low = List.replicate (s.threadCount .low).toNat .first := rfl
    rw [State.phase?_eq, hthreads, hinv.env, List.getElem?_replicate, if_pos]
    exact Runtime.toNat_pos hrt
  let t := s.act w (.take .low low { s.channel .low with queue := [] })
  have hst : s.turn w = some t := by
    rw [State.turn_eq hphase]
    simp [w, t, worker, lowWorker, Channel.recv_cons hlow]
  have htphase : t.phase? w = some (.running low) := State.phase?_goto hphase (.running low)
  have htu : t.turn w = some (t.goto w .first) := by
    rw [State.turn_eq htphase]
    rfl
  refine ⟨t.goto w .first, ⟨rt.setVars.schedule .high high, .refl _,
    [.turn w, .turn w], run_cons_eq_some.mpr ⟨t, hst, run_cons_eq_some.mpr ⟨_, htu, rfl⟩⟩⟩,
    ⟨0, State.phase?_goto htphase .first⟩, rfl, ?_⟩
  show (s.channel .high).queue ≠ []
  simp [hhigh]

theorem Runtime.Reaches.start (rt : Runtime) (high low : R) :
    rt.Reaches high low ((rt.setVars.schedule .high high).schedule .low low) :=
  ⟨_, .refl _, .refl _⟩

/-- **When the executor is work-conserving.**  All states that are reached after
`Runtime::run` has spawned its tasks are, iff there are high workers and no low ones; they
can all drain iff there are high workers; and one of them is work-conserving iff there are
high workers and no low worker waits at its empty channel while a high runnable is
queued. -/
theorem conserving_iff (rt : Runtime) (high low : R) :
    ((∀ s, rt.Reaches high low s → WorkConserving s) ↔ rt.lowNum = 0 ∧ rt.highNum ≠ 0) ∧
      ((∀ s, rt.Reaches high low s → Drains s) ↔ rt.highNum ≠ 0) ∧
      (∀ s, rt.Reaches high low s → ∀ p, s.takenFrom p ++ (s.channel p).queue = s.sent p) ∧
      ∀ s, rt.Reaches high low s → (WorkConserving s ↔ rt.highNum ≠ 0 ∧ ¬ s.Parked) := by
  have hiff : ∀ s, rt.Reaches high low s →
      (WorkConserving s ↔ rt.highNum ≠ 0 ∧ ¬ s.Parked) := fun s h =>
    ⟨fun hs => ⟨(drains_iff h).mp hs.drains, hs.not_parked h⟩,
      fun hs => conserving_of h hs.1 hs.2⟩
  have hstart := Runtime.Reaches.start rt high low
  refine ⟨⟨fun hall => ⟨?_, (drains_iff hstart).mp (hall _ hstart).drains⟩, ?_⟩,
    ⟨fun hall => (drains_iff hstart).mp (hall _ hstart), fun hrt s h => (drains_iff h).mpr hrt⟩,
    fun s h => h.inv.1.once, hiff⟩
  · by_contra hrt
    obtain ⟨s, h, hparked⟩ := exists_parked hrt high low
    exact (hall s h).not_parked h hparked
  · rintro ⟨hlow, hhigh⟩ s h
    refine (hiff s h).mpr ⟨hhigh, ?_⟩
    rintro ⟨⟨i, hi⟩, -, -⟩
    have hlength : (s.threads .low).length = 0 := by
      rw [h.inv.1.threads, show rt.num .low = 0 from hlow]
      split <;> rfl
    rw [State.phase?_eq, List.length_eq_zero_iff.mp hlength] at hi
    simp at hi

/-- The two low workers and four high workers of `main`: the tasks of `run` are called 0
and 1. -/
theorem main_parks :
    ¬ ∀ s, (((Runtime.new 8).withLowPriorityThreads 2).withHighPriorityThreads 4).Reaches 0 1 s →
      WorkConserving s := by
  intro hall
  have hlow : (((Runtime.new 8).withLowPriorityThreads 2).withHighPriorityThreads 4).lowNum ≠ 0 := by
    decide
  obtain ⟨s, h, hparked⟩ := exists_parked hlow 0 1
  exact (hall s h).not_parked h hparked

end Executor
