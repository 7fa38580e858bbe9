/-
The frames between the nodes, byte for byte (`try_send` and `handle_connection` of
`runtime.rs`).

A frame is the length of its payload, as four bytes, and the payload.  The length is cast
to a `u32`, which keeps its low 32 bits only.

* `trySend`, `readPayload`, `handleConnection` — by the calls they make of their streams;
* `handleConnection_eq` — the worker's `handleConnection`, on all that a connection
  delivers, is this one, however the bytes are cut;
* `round_trip_iff` — a payload is recovered from its frame, and from no part of it, iff its
  length fits in a `u32`.
-/
import AsyncRust.ByteStream
import AsyncRust.RaftWorker

namespace Raft.Framing

open ByteFormat ByteStream

variable {L : Library}

/-! ### The program -/

/-- `len as u32`. -/
def asU32 (len : ℕ) : ℕ := len % 2 ^ 32

/-- `try_send`, with what it has written; `connection` is the result of
`TcpStream::connect`. -/
def trySend (connection : Except String Sink) (bytes : List UInt8) :
    Except String Unit × List UInt8 :=
  match connection with
  | .error err => (.error err, [])
  | .ok stream =>
    match Sink.writeAll (beBytes 4 (asU32 bytes.length)) stream with
    | (.error err, stream) => (.error err, stream.written)
    | (.ok (), stream) =>
      let (result, stream) := Sink.writeAll bytes stream
      (result, stream.written)

/-- `handle_connection` before it decodes. -/
def readPayload (stream : Source) : Except String (List UInt8) × Source :=
  match stream.readExact 4 with
  | (.error err, stream) => (.error err, stream)
  | (.ok lenBuf, stream) => stream.readExact (ofBeBytes lenBuf)

/-- `handle_connection`, with the message that it forwards to the worker; the worker may
be gone. -/
def handleConnection (L : Library) (workerGone : Bool) (stream : Source) :
    Except String Unit × Option L.Message :=
  match (readPayload stream).1 with
  | .error err => (.error err, none)
  | .ok buf =>
    match L.decode buf with
    | .error err => (.error err, none)
    | .ok msg => if workerGone then (.error "worker gone", none) else (.ok (), some msg)

/-! ### What is claimed of it -/

/-- The payload is recovered from what `try_send` has written, if it succeeds, and nothing
is forwarded of a part of a frame. -/
structure RoundTrip (payload : List UInt8) : Prop where
  recovered : ∀ results written, trySend (.ok (.fresh results)) payload = (.ok (), written) →
    ∀ stream : Source, stream.bytes = written → stream.ending = .eof →
      (readPayload stream).1 = .ok payload
  truncated : ∀ stream : Source, stream.bytes <+: frame payload →
    stream.bytes ≠ frame payload → stream.ending = .eof → ∀ (L : Library) (workerGone : Bool),
      ∃ err, handleConnection L workerGone stream = (.error err, none)

/-! ### Frames -/

theorem leBytes_mod (w : ℕ) : ∀ n, leBytes w (n % 256 ^ w) = leBytes w n := by
  induction w with
  | zero => exact fun _ => rfl
  | succ w ih =>
    intro n
    have hlow : n % 256 ^ (w + 1) % 256 = n % 256 :=
      Nat.mod_mod_of_dvd n ⟨256 ^ w, Nat.pow_succ'⟩
    have hhigh : n % 256 ^ (w + 1) / 256 = n / 256 % 256 ^ w := by
      rw [Nat.pow_succ', Nat.mod_mul_right_div_self]
    rw [leBytes, leBytes, hlow, hhigh, ih]

/-- The cast changes nothing of the four bytes that are written. -/
theorem beBytes_asU32 (len : ℕ) : beBytes 4 (asU32 len) = beBytes 4 len := by
  rw [beBytes, beBytes, ← leBytes_mod 4 len]
  rfl

theorem trySend_eq_frame {results : List (Except String ℕ)} {payload written : List UInt8}
    (h : trySend (.ok (.fresh results)) payload = (.ok (), written)) :
    written = frame payload := by
  rw [trySend] at h
  simp only at h
  split at h
  next => cases h
  next stream hlen =>
    obtain ⟨hresult, rfl⟩ := Prod.mk.inj h
    have hall : Sink.writeAll payload stream = (.ok (), (Sink.writeAll payload stream).2) :=
      Prod.ext hresult rfl
    rw [Sink.written_of_writeAll hall, Sink.written_of_writeAll hlen, beBytes_asU32]
    rfl

/-- If every write takes all it is given, the frame is sent. -/
theorem trySend_of_nil (payload : List UInt8) :
    trySend (.ok (.fresh [])) payload = (.ok (), frame payload) := by
  rw [trySend, Sink.fresh]
  simp only [Sink.writeAll_of_nil, beBytes_asU32]
  rfl

/-! ### Connections -/

/-- Up to the end of the stream, only the bytes matter. -/
theorem readPayload_eq {stream : Source} (heof : stream.ending = .eof) :
    (readPayload stream).1 =
      match readBe 4 stream.bytes with
      | none => .error "failed to fill whole buffer"
      | some (len, rest) =>
        match readExact len rest with
        | none => .error "failed to fill whole buffer"
        | some (buf, _) => .ok buf := by
  rw [readPayload, readBe, readExact]
  by_cases hfour : 4 ≤ stream.bytes.length
  · obtain ⟨stream', hread, hbytes, hending⟩ := Source.readExact_of_le hfour
    rw [hread, if_pos hfour]
    simp only [Option.map_some, readExact, ← hbytes]
    by_cases hlen : ofBeBytes (stream.bytes.take 4) ≤ stream'.bytes.length
    · obtain ⟨stream'', hread', -, -⟩ := Source.readExact_of_le hlen
      rw [hread', if_pos hlen]
    · obtain ⟨stream'', hread'⟩ :=
        Source.readExact_of_lt (Nat.lt_of_not_le hlen) (hending.trans heof)
      rw [hread', if_neg hlen]
  · obtain ⟨stream', hread⟩ := Source.readExact_of_lt (Nat.lt_of_not_le hfour) heof
    rw [hread, if_neg hfour]
    rfl

/-- The worker's `handleConnection` is this one, on a connection that is closed after its
bytes. -/
theorem handleConnection_eq {stream : Source} (heof : stream.ending = .eof) :
    handleConnection L false stream =
      match Raft.handleConnection L stream.bytes with
      | .error err => (.error err, none)
      | .ok msg => (.ok (), some msg) := by
  rw [handleConnection, readPayload_eq heof, Raft.handleConnection]
  cases readBe 4 stream.bytes with
  | none => rfl
  | some read =>
    obtain ⟨len, rest⟩ := read
    simp only
    cases readExact len rest with
    | none => rfl
    | some read =>
      obtain ⟨buf, -⟩ := read
      simp only
      cases L.decode buf <;> rfl

theorem readBe_frame (payload : List UInt8) :
    readBe 4 (frame payload) = some (asU32 payload.length, payload) :=
  readBe_beBytes 4 payload.length payload

/-- Every part of a frame is found to be too short. -/
theorem readPayload_of_prefix {payload : List UInt8} (hlt : payload.length < 2 ^ 32)
    {stream : Source} (hinitial : stream.bytes <+: frame payload)
    (hne : stream.bytes ≠ frame payload) (heof : stream.ending = .eof) :
    (readPayload stream).1 = .error "failed to fill whole buffer" := by
  rw [readPayload_eq heof]
  have hlength : stream.bytes.length < 4 + payload.length := by
    have hframe : (frame payload).length = 4 + payload.length := by simp [frame]
    rw [← hframe]
    exact Nat.lt_of_le_of_ne hinitial.length_le fun heq => hne (hinitial.eq_of_length heq)
  by_cases hfour : 4 ≤ stream.bytes.length
  · -- the length is there, and some of the payload is missing
    have hlen : asU32 payload.length = payload.length := Nat.mod_eq_of_lt hlt
    have hbytes : stream.bytes =
        beBytes 4 payload.length ++ payload.take (stream.bytes.length - 4) := by
      conv_lhs => rw [List.prefix_iff_eq_take.mp hinitial, frame, List.take_append]
      rw [length_beBytes, List.take_of_length_le (by simpa using hfour)]
    have hshort : ¬ payload.length ≤ (payload.take (stream.bytes.length - 4)).length := by
      rw [List.length_take]
      omega
    rw [hbytes, readBe_beBytes]
    show (match readExact (asU32 payload.length) _ with | none => _ | some (buf, _) => _) = _
    rw [hlen, readExact, if_neg hshort]
  · rw [readBe, readExact, if_neg hfour]
    rfl

theorem RoundTrip.of_lt {payload : List UInt8} (hlt : payload.length < 2 ^ 32) :
    RoundTrip payload := by
  have hlen : asU32 payload.length = payload.length := Nat.mod_eq_of_lt hlt
  constructor
  · intro results written hsend stream hbytes heof
    rw [readPayload_eq heof, hbytes, trySend_eq_frame hsend, readBe_frame, hlen]
    simp [readExact]
  · intro stream hinitial hne heof L workerGone
    have hmissing := readPayload_of_prefix hlt hinitial hne heof
    exact ⟨_, by rw [handleConnection, hmissing]⟩

/-- A payload whose length does not fit in a `u32` is cut off. -/
theorem RoundTrip.lt {payload : List UInt8} (h : RoundTrip payload) :
    payload.length < 2 ^ 32 := by
  have hread := h.recovered [] (frame payload) (trySend_of_nil payload)
    (.whole (frame payload) .eof) (Source.bytes_whole _ _) rfl
  have hle : asU32 payload.length ≤ payload.length := Nat.mod_le _ _
  rw [readPayload_eq rfl, Source.bytes_whole, readBe_frame] at hread
  simp only [readExact, if_pos hle] at hread
  have hlen := congrArg List.length (Except.ok.inj hread)
  rw [List.length_take_of_le hle] at hlen
  exact hlen ▸ Nat.mod_lt _ (Nat.two_pow_pos 32)

/-- **When a payload is recovered.**  `try_send` and `handle_connection` agree on exactly
the payloads whose length fits in a `u32`. -/
theorem round_trip_iff (payload : List UInt8) :
    RoundTrip payload ↔ payload.length < 2 ^ 32 :=
  ⟨RoundTrip.lt, RoundTrip.of_lt⟩

/-- The length of 2³² zeros is written as 0. -/
theorem zeros_lost : ¬ RoundTrip (List.replicate (2 ^ 32) 0) := by
  intro h
  have hlt := h.lt
  rw [List.length_replicate] at hlt
  exact Nat.lt_irrefl _ hlt

end Raft.Framing
