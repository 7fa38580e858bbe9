/-
The server of the runtime's demonstration (`ServerFuture` of `16-async-queue`).

A poll takes a connection and reads from it until a read fails.  The end of a stream is a
read of no bytes, not one that fails.

* `readLoop` — the loop of `poll`, with a bound on the number of reads;
* `readLoop_of_failed`, `readLoop_of_eof` — it ends with all bytes, or not at all;
* `serves_iff` — it serves exactly the streams that do not come to their end.
-/
import AsyncRust.ByteStream

namespace ServerFuture

open ByteStream

/-! ### The program -/

/-- `mio::Token`. -/
abbrev Token := ℕ

def SERVER : Token := 0

structure Event where
  token : Token
  isReadable : Bool
  deriving DecidableEq, Repr

inductive PollResult where
  | ready (output : String)
  /-- `woken`: `wake_by_ref` has been called. -/
  | pending (woken : Bool)
  | panicked
  deriving DecidableEq, Repr

/-- The `loop`; `none` when it has not ended after so many reads. -/
def readLoop : ℕ → Source → List UInt8 → Option (List UInt8)
  | 0, _, _ => none
  | reads + 1, stream, receivedData =>
    match stream.read 1024 with
    | (.ok buffer, stream) =>
      readLoop reads stream (if 0 < buffer.length then receivedData ++ buffer else receivedData)
    | (.error _, _) => some receivedData

/-- What `poll` does with a connection; `accept` is the result of `accept`, and
`fromUtf8Lossy` stands for `String::from_utf8_lossy`. -/
def serve (fromUtf8Lossy : List UInt8 → String) (accept : Except String Source) (reads : ℕ) :
    Option PollResult :=
  match accept with
  | .error _ => some .panicked
  | .ok stream =>
    (readLoop reads stream []).map fun receivedData =>
      if receivedData ≠ [] then .ready (fromUtf8Lossy receivedData) else .pending true

/-- `poll`, with the events that mio has for it. -/
def poll (fromUtf8Lossy : List UInt8 → String) (accept : Except String Source) (reads : ℕ) :
    List Event → Option PollResult
  | [] => some (.pending true)
  | event :: events =>
    if event.token = SERVER ∧ event.isReadable = true then serve fromUtf8Lossy accept reads
    else poll fromUtf8Lossy accept reads events

/-! ### The loop -/

variable {fromUtf8Lossy : List UInt8 → String} {stream : Source}
  {events : List Event}

/-- A read that does not fail goes on with what is left, if anything is. -/
theorem readLoop_of_some {reads : ℕ} {bs received : List UInt8} {rest : Source}
    (hread : stream.read 1024 = (.ok bs, rest)) :
    readLoop (reads + 1) stream received = readLoop reads rest (received ++ bs) := by
  rw [readLoop, hread]
  cases bs with
  | nil => simp
  | cons => rfl

/-- **After the last byte a read fails**: the loop has read all of them. -/
theorem readLoop_of_failed {error : String} {reads : ℕ} :
    ∀ {stream : Source} {received : List UInt8}, stream.ending = .failed error →
      stream.bytes.length < reads →
        readLoop reads stream received = some (received ++ stream.bytes) := by
  induction reads with
  | zero => exact fun _ hlt => absurd hlt (Nat.not_lt_zero _)
  | succ reads ih =>
    intro stream received hending hlt
    have hreads := stream.reads (n := 1024) (by decide)
    rcases hread : stream.read 1024 with ⟨result, rest⟩
    rw [hread] at hreads
    cases hreads with
    | some bs _ hne _ hbytes hrest =>
      have hshort : rest.bytes.length < reads := by
        have hpos := List.length_pos_iff.mpr hne
        rw [hbytes, List.length_append] at hlt
        omega
      rw [readLoop_of_some hread, ih (hrest.trans hending) hshort, hbytes, List.append_assoc]
    | eof _ heof => cases hending.symm.trans heof
    | failed error' hbytes _ =>
      rw [readLoop, hread, hbytes, List.append_nil]

/-- **At its end** a stream is read for ever. -/
theorem readLoop_of_eof (reads : ℕ) : ∀ {stream : Source} {received : List UInt8},
    stream.ending = .eof → readLoop reads stream received = none := by
  induction reads with
  | zero => exact fun _ => rfl
  | succ reads ih =>
    intro stream received hending
    have hreads := stream.reads (n := 1024) (by decide)
    rcases hread : stream.read 1024 with ⟨result, rest⟩
    rw [hread] at hreads
    cases hreads with
    | some bs _ hne _ hbytes hrest =>
      rw [readLoop_of_some hread]
      exact ih (hrest.trans hending)
    | eof =>
      rw [readLoop_of_some hread]
      exact ih hending
    | failed error' _ hfailed => cases hending.symm.trans hfailed

/-! ### Polls -/

/-- A poll that finds a connection to take. -/
theorem poll_of_readable {accept : Except String Source} {reads : ℕ}
    (hevent : ∃ event ∈ events, event.token = SERVER ∧ event.isReadable = true) :
    poll fromUtf8Lossy accept reads events = serve fromUtf8Lossy accept reads := by
  induction events with
  | nil => simp at hevent
  | cons event events ih =>
    obtain ⟨readable, hmem, hreadable⟩ := hevent
    rw [poll]
    by_cases hfirst : event.token = SERVER ∧ event.isReadable = true
    · rw [if_pos hfirst]
    · rw [if_neg hfirst]
      rcases List.mem_cons.mp hmem with rfl | hmem
      · exact absurd hreadable hfirst
      · exact ih ⟨readable, hmem, hreadable⟩

/-- A poll that is not ready has woken the task. -/
theorem woken_of_poll {accept : Except String Source} {reads : ℕ} {woken : Bool}
    (h : poll fromUtf8Lossy accept reads events = some (.pending woken)) : woken = true := by
  induction events with
  | nil => exact (PollResult.pending.inj (Option.some_inj.mp h)).symm
  | cons event events ih =>
    rw [poll] at h
    split at h
    · unfold serve at h
      split at h
      · cases h
      · obtain ⟨receivedData, -, hresult⟩ := Option.map_eq_some_iff.mp h
        split at hresult
        · cases hresult
        · exact (PollResult.pending.inj hresult).symm
    · exact ih h

/-- What a client of the server may expect of an accepted connection. -/
structure Serves (fromUtf8Lossy : List UInt8 → String) (stream : Source) : Prop where
  ends : ∃ reads, (readLoop reads stream []).isSome
  ready : stream.bytes ≠ [] →
    ∀ events : List Event, (∃ event ∈ events, event.token = SERVER ∧ event.isReadable = true) →
      ∃ reads, poll fromUtf8Lossy (.ok stream) reads events =
        some (.ready (fromUtf8Lossy stream.bytes))

/-- **The server** serves exactly the streams that do not come to their end. -/
theorem serves_iff (fromUtf8Lossy : List UInt8 → String) (stream : Source) :
    Serves fromUtf8Lossy stream ↔ stream.ending ≠ .eof := by
  constructor
  · rintro ⟨⟨reads, hends⟩, -⟩ heof
    rw [readLoop_of_eof reads heof] at hends
    cases hends
  · intro hending
    cases hfailed : stream.ending with
    | eof => exact absurd hfailed hending
    | failed error =>
      have hall : readLoop (stream.bytes.length + 1) stream [] = some stream.bytes :=
        readLoop_of_failed hfailed (Nat.lt_succ_self _)
      refine ⟨⟨_, Option.isSome_of_eq_some hall⟩, fun hne events hevent => ?_⟩
      refine ⟨stream.bytes.length + 1, ?_⟩
      rw [poll_of_readable hevent, serve]
      simp only [hall, Option.map_some, if_pos hne]

/-- The client writes and closes its socket. -/
theorem closed_client_hangs :
    ¬ ∃ fromUtf8Lossy, Serves fromUtf8Lossy (.whole [104, 105] .eof) := by
  rintro ⟨fromUtf8Lossy, ⟨reads, hends⟩, -⟩
  rw [readLoop_of_eof reads rfl] at hends
  cases hends

end ServerFuture
