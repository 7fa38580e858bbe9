/-
Newline-delimited reading through a future that may be dropped.

A buffered reader takes chunks from a stream; the pending read moves the bytes
of the line it is reading out of the buffer into itself, and gives a result
when the line is complete.  A future that is dropped takes these bytes along:

* `scan`, `pollSocket`, `Reader.poll` — one poll of the pending read;
* `Reader.cancel` — the pending read is dropped and made anew;
* `decoded` — the results of an uninterrupted reader: polls without drops,
  until it has to wait or the reading loop stops;
* `Reading.Faithful` — the results obtained so far, followed by what an
  uninterrupted reader would still decode, are what an uninterrupted reader
  decodes from everything that arrived, however the stream goes on.

Every operation keeps `Faithful`, a drop only if the dropped read has consumed
nothing (`faithful_cancel`).  How a line becomes a result is a parameter.
-/
import Mathlib.Algebra.Order.Ring.Nat

namespace LineReader

variable {ρ : Type*}

/-- What one read of the underlying stream gives. -/
inductive Fill where
  | data (byte : UInt8) (more : List UInt8)
  | eof
  | failed
  deriving DecidableEq, Repr

/-- One read that gives all the bytes of `s`. -/
def Fill.ofString (s : String) : Fill :=
  match s.toUTF8.data.toList with
  | [] => .eof
  | byte :: more => .data byte more

/-- How a line becomes a result: `finish` gets the bytes of the line with its
terminator, and `none` skips the line. -/
structure Decoder (ρ : Type*) where
  finish : List UInt8 → Option ρ
  eof : ρ
  failed : ρ

/-- `buf` is what was read from the stream and not consumed, `socket` what the
next reads of the stream give (nothing: they wait), and `line` what the pending
read has consumed. -/
structure Reader where
  buf : List UInt8
  socket : List Fill
  line : List UInt8
  deriving DecidableEq, Repr

/-- The reader of a new connection, on which `fills` are waiting. -/
def Reader.fresh (fills : List Fill) : Reader := ⟨[], fills, []⟩

/-- More of the stream arrives. -/
def Reader.feed (r : Reader) (fills : List Fill) : Reader :=
  { r with socket := r.socket ++ fills }

/-- The pending read is dropped: what it has consumed is gone, the buffer stays. -/
def Reader.cancel (r : Reader) : Reader := { r with line := [] }

def newline : UInt8 := 10

/-- Reading in the buffer ends with the buffer used up or with a result. -/
inductive Scan (ρ : Type*) where
  | more (line : List UInt8)
  | done (result : ρ) (rest : List UInt8)

/-- Consume buffered bytes until a line gives a result. -/
def scan (D : Decoder ρ) : List UInt8 → List UInt8 → Scan ρ
  | line, [] => .more line
  | line, b :: buf =>
    if b = newline then
      match D.finish (line ++ [b]) with
      | none => scan D [] buf
      | some result => .done result buf
    else scan D (line ++ [b]) buf

/-- The poll with an empty buffer: refill it from the stream and scan, until
there is a result or nothing more has arrived.  At the end of the stream the
bytes of an unfinished line count as a line. -/
def pollSocket (D : Decoder ρ) : List UInt8 → List Fill → Option ρ × Reader
  | line, [] => (none, ⟨[], [], line⟩)
  | line, .data b bs :: fills =>
    match scan D line (b :: bs) with
    | .more line => pollSocket D line fills
    | .done result rest => (some result, ⟨rest, fills, []⟩)
  | line, .eof :: fills =>
    (some (if line = [] then D.eof else (D.finish line).getD D.eof), ⟨[], .eof :: fills, []⟩)
  | _, .failed :: fills => (some D.failed, ⟨[], fills, []⟩)

/-- One poll of the pending read; `none` when it has to wait. -/
def Reader.poll (D : Decoder ρ) (r : Reader) : Option ρ × Reader :=
  match scan D r.line r.buf with
  | .more line => pollSocket D line r.socket
  | .done result rest => (some result, ⟨rest, r.socket, []⟩)

/-! ### Polling and arrival -/

/-- A result does not depend on what arrives later. -/
theorem pollSocket_append_of_some {D : Decoder ρ} {x : ρ} {r : Reader} {more : List Fill} :
    ∀ {fills : List Fill} {line : List UInt8}, pollSocket D line fills = (some x, r) →
      pollSocket D line (fills ++ more) = (some x, r.feed more) := by
  intro fills
  induction fills with
  | nil => intro line h; simp [pollSocket] at h
  | cons fill fills ih =>
    intro line h
    cases fill with
    | data b bs =>
      rw [List.cons_append]
      rw [pollSocket] at h ⊢
      cases hs : scan D line (b :: bs) with
      | more line' => rw [hs] at h; exact ih h
      | done y rest =>
        rw [hs] at h
        obtain ⟨hy, rfl⟩ := Prod.mk.inj h
        exact Prod.ext hy rfl
    | eof =>
      obtain ⟨hx, rfl⟩ := Prod.mk.inj h
      exact Prod.ext hx rfl
    | failed =>
      obtain ⟨hx, rfl⟩ := Prod.mk.inj h
      exact Prod.ext hx rfl

/-- A poll that has to wait has taken everything there was into the pending
read, and the next poll goes on from there. -/
theorem pollSocket_append_of_none {D : Decoder ρ} {r : Reader} (more : List Fill) :
    ∀ {fills : List Fill} {line : List UInt8}, pollSocket D line fills = (none, r) →
      r = ⟨[], [], r.line⟩ ∧
        pollSocket D line (fills ++ more) = pollSocket D r.line more := by
  intro fills
  induction fills with
  | nil =>
    intro line h
    obtain ⟨-, rfl⟩ := Prod.mk.inj h
    exact ⟨rfl, rfl⟩
  | cons fill fills ih =>
    intro line h
    cases fill with
    | data b bs =>
      rw [List.cons_append]
      rw [pollSocket] at h ⊢
      cases hs : scan D line (b :: bs) with
      | more line' => rw [hs] at h; exact ih h
      | done y rest => rw [hs] at h; simp at h
    | eof => simp [pollSocket] at h
    | failed => simp [pollSocket] at h

theorem poll_feed_of_some {D : Decoder ρ} {x : ρ} {r r' : Reader} (more : List Fill)
    (h : r.poll D = (some x, r')) : (r.feed more).poll D = (some x, r'.feed more) := by
  unfold Reader.poll at h ⊢
  simp only [Reader.feed]
  cases hs : scan D r.line r.buf with
  | more line =>
    rw [hs] at h
    exact pollSocket_append_of_some h
  | done y rest =>
    rw [hs] at h
    obtain ⟨hy, rfl⟩ := Prod.mk.inj h
    exact Prod.ext hy rfl

theorem poll_feed_of_none {D : Decoder ρ} {r r' : Reader} (more : List Fill)
    (h : r.poll D = (none, r')) : (r.feed more).poll D = (r'.feed more).poll D := by
  unfold Reader.poll at h
  cases hs : scan D r.line r.buf with
  | more line =>
    rw [hs] at h
    obtain ⟨hr, hmore⟩ := pollSocket_append_of_none more h
    rw [hr]
    simp only [Reader.poll, Reader.feed, hs, List.nil_append, scan]
    exact hmore
  | done y rest => rw [hs] at h; simp at h

/-! ### The uninterrupted reader -/

def Fill.size : Fill → ℕ
  | .data _ more => more.length + 1
  | .eof => 0
  | .failed => 1

/-- Bounds the results that the reader can still give before it waits or stops. -/
def Reader.size (r : Reader) : ℕ :=
  r.line.length + r.buf.length + (r.socket.map Fill.size).sum

/-- The results of at most `fuel` uninterrupted reads; `stop` ends the loop
that makes them. -/
def drain (D : Decoder ρ) (stop : ρ → Bool) : ℕ → Reader → List ρ
  | 0, _ => []
  | fuel + 1, r =>
    match r.poll D with
    | (none, _) => []
    | (some x, r') => x :: if stop x then [] else drain D stop fuel r'

/-- What an uninterrupted reader decodes until it waits or its loop stops. -/
def decoded (D : Decoder ρ) (stop : ρ → Bool) (r : Reader) : List ρ :=
  drain D stop (r.size + 1) r

theorem length_of_scan_more {D : Decoder ρ} {line' : List UInt8} :
    ∀ {buf line : List UInt8}, scan D line buf = .more line' →
      line'.length ≤ line.length + buf.length := by
  intro buf
  induction buf with
  | nil =>
    intro line h
    obtain rfl := Scan.more.inj h
    exact Nat.le_refl _
  | cons b buf ih =>
    intro line h
    rw [scan] at h
    split at h
    · split at h
      · have := ih h
        simp only [List.length_cons, List.length_nil] at this ⊢
        omega
      · simp at h
    · have := ih h
      simp only [List.length_append, List.length_cons, List.length_nil] at this ⊢
      omega

theorem length_of_scan_done {D : Decoder ρ} {x : ρ} {rest : List UInt8} :
    ∀ {buf line : List UInt8}, scan D line buf = .done x rest →
      rest.length < buf.length := by
  intro buf
  induction buf with
  | nil => intro line h; simp [scan] at h
  | cons b buf ih =>
    intro line h
    rw [scan] at h
    split at h
    · split at h
      · exact Nat.lt_succ_of_lt (ih h)
      · obtain ⟨-, rfl⟩ := Scan.done.inj h
        exact Nat.lt_succ_self _
    · exact Nat.lt_succ_of_lt (ih h)

theorem size_of_pollSocket {D : Decoder ρ} {stop : ρ → Bool} (heof : stop D.eof = true)
    {x : ρ} {r : Reader} (hx : stop x = false) :
    ∀ {fills : List Fill} {line : List UInt8}, pollSocket D line fills = (some x, r) →
      r.size < line.length + (fills.map Fill.size).sum := by
  intro fills
  induction fills with
  | nil => intro line h; simp [pollSocket] at h
  | cons fill fills ih =>
    intro line h
    cases fill with
    | data b bs =>
      rw [pollSocket] at h
      cases hs : scan D line (b :: bs) with
      | more line' =>
        rw [hs] at h
        have hlen := length_of_scan_more hs
        have hsize := ih h
        simp only [List.map_cons, List.sum_cons, Fill.size, List.length_cons] at hlen ⊢
        omega
      | done y rest =>
        rw [hs] at h
        obtain ⟨-, rfl⟩ := Prod.mk.inj h
        have hlen := length_of_scan_done hs
        simp only [Reader.size, List.map_cons, List.sum_cons, Fill.size, List.length_cons,
          List.length_nil] at hlen ⊢
        omega
    | eof =>
      -- an end of stream without a line stops the loop
      obtain ⟨hres, rfl⟩ := Prod.mk.inj h
      have hline : line ≠ [] := by
        rintro rfl
        rw [if_pos rfl, Option.some_inj] at hres
        rw [← hres, heof] at hx
        exact absurd hx (by simp)
      have hpos := List.length_pos_iff.mpr hline
      simp only [Reader.size, List.map_cons, List.sum_cons, Fill.size, List.length_nil]
      omega
    | failed =>
      obtain ⟨-, rfl⟩ := Prod.mk.inj h
      simp only [Reader.size, List.map_cons, List.sum_cons, Fill.size, List.length_nil]
      omega

/-- A result after which the loop reads on has used something up. -/
theorem size_of_poll {D : Decoder ρ} {stop : ρ → Bool} (heof : stop D.eof = true)
    {x : ρ} (hx : stop x = false) {r r' : Reader} (h : r.poll D = (some x, r')) :
    r'.size < r.size := by
  unfold Reader.poll at h
  cases hs : scan D r.line r.buf with
  | more line =>
    rw [hs] at h
    have hlen := length_of_scan_more hs
    have hsize := size_of_pollSocket heof hx h
    simp only [Reader.size] at hsize ⊢
    omega
  | done y rest =>
    rw [hs] at h
    obtain ⟨-, rfl⟩ := Prod.mk.inj h
    have hlen := length_of_scan_done hs
    simp only [Reader.size, List.length_nil]
    omega

theorem drain_of_lt {D : Decoder ρ} {stop : ρ → Bool} (heof : stop D.eof = true) :
    ∀ {fuel fuel' : ℕ} {r : Reader}, r.size < fuel → r.size < fuel' →
      drain D stop fuel r = drain D stop fuel' r := by
  intro fuel
  induction fuel with
  | zero => intro fuel' r h; exact absurd h (Nat.not_lt_zero _)
  | succ fuel ih =>
    intro fuel' r h h'
    obtain ⟨fuel', rfl⟩ : ∃ n, fuel' = n + 1 := ⟨fuel' - 1, by omega⟩
    rw [drain, drain]
    rcases hp : r.poll D with ⟨_ | x, r'⟩
    · rfl
    · by_cases hx : stop x = true
      · simp only [hx, if_true]
      · simp only [hx]
        have hsize := size_of_poll heof (by simpa using hx) hp
        rw [ih (by omega : r'.size < fuel) (by omega : r'.size < fuel')]

/-- The uninterrupted reader, one result at a time. -/
theorem decoded_eq {D : Decoder ρ} {stop : ρ → Bool} (heof : stop D.eof = true)
    (r : Reader) :
    decoded D stop r =
      match r.poll D with
      | (none, _) => []
      | (some x, r') => x :: if stop x then [] else decoded D stop r' := by
  rw [decoded, drain]
  rcases hp : r.poll D with ⟨_ | x, r'⟩
  · rfl
  · by_cases hx : stop x = true
    · simp only [hx, if_true]
    · simp only [hx]
      have hsize := size_of_poll heof (by simpa using hx) hp
      rw [drain_of_lt heof hsize (Nat.lt_succ_self _)]
      rfl

/-! ### Readings -/

/-- A reader with its history: what has arrived and the results of the reads so
far.  No operation looks at the history. -/
structure Reading (ρ : Type*) where
  reader : Reader
  arrived : List Fill
  results : List ρ
  deriving DecidableEq, Repr

def Reading.start : Reading ρ := ⟨.fresh [], [], []⟩

def Reading.feed (t : Reading ρ) (fill : Fill) : Reading ρ :=
  { t with reader := t.reader.feed [fill], arrived := t.arrived ++ [fill] }

def Reading.poll (D : Decoder ρ) (t : Reading ρ) : Option ρ × Reading ρ :=
  ((t.reader.poll D).1,
    { t with
      reader := (t.reader.poll D).2
      results := t.results ++ (t.reader.poll D).1.toList })

def Reading.cancel (t : Reading ρ) : Reading ρ := { t with reader := t.reader.cancel }

/-- No result has stopped the reading loop. -/
def Reading.live (stop : ρ → Bool) (t : Reading ρ) : Bool := t.results.all fun x => !stop x

/-- The results so far and those still to come are the results of an
uninterrupted reader, however the stream goes on. -/
def Reading.Faithful (D : Decoder ρ) (stop : ρ → Bool) (t : Reading ρ) : Prop :=
  ∀ more : List Fill, decoded D stop (.fresh (t.arrived ++ more)) =
    t.results ++ if t.live stop then decoded D stop (t.reader.feed more) else []

section
variable {D : Decoder ρ} {stop : ρ → Bool} {t : Reading ρ}

theorem faithful_start : (Reading.start : Reading ρ).Faithful D stop := by
  intro more
  simp [Reading.start, Reading.live, Reader.fresh, Reader.feed]

theorem faithful_feed (h : t.Faithful D stop) (fill : Fill) :
    (t.feed fill).Faithful D stop := by
  intro more
  have := h (fill :: more)
  simpa [Reading.feed, Reading.live, Reader.feed] using this

/-- **Polling loses nothing**: a poll that waits goes on where it stopped, and
a poll with a result gives the next one of the uninterrupted reader. -/
theorem faithful_poll (heof : stop D.eof = true) (h : t.Faithful D stop)
    (hlive : t.live stop = true) : (t.poll D).2.Faithful D stop := by
  intro more
  have ht := h more
  rw [if_pos hlive] at ht
  -- the poll waits, or gives a result
  rcases hp : t.reader.poll D with ⟨_ | x, r⟩
  · have hlive' : (t.poll D).2.live stop = true := by
      simpa [Reading.poll, Reading.live, hp] using hlive
    rw [if_pos hlive', show (t.poll D).2.arrived = t.arrived from rfl, ht]
    simp only [Reading.poll, hp, Option.toList_none, List.append_nil]
    rw [decoded_eq heof, decoded_eq heof (r.feed more), poll_feed_of_none more hp]
  · rw [show (t.poll D).2.arrived = t.arrived from rfl, ht, decoded_eq heof,
      poll_feed_of_some more hp]
    have hlive' : (t.poll D).2.live stop = !stop x := by
      simpa [Reading.poll, Reading.live, hp] using fun _ => hlive
    rw [hlive']
    simp only [Reading.poll, hp, Option.toList_some, List.append_assoc, List.singleton_append]
    cases stop x <;> rfl

/-- **A drop loses nothing if the dropped read had consumed nothing.** -/
theorem faithful_cancel (h : t.Faithful D stop) (hline : t.reader.line = []) :
    t.cancel.Faithful D stop := by
  have : t.cancel = t := by
    obtain ⟨⟨buf, socket, line⟩, arrived, results⟩ := t
    subst hline
    rfl
  rw [this]
  exact h

/-- The results so far are the first results of the uninterrupted reader. -/
theorem Reading.Faithful.results_isPrefix (h : t.Faithful D stop) :
    t.results <+: decoded D stop (.fresh t.arrived) := by
  have := h []
  rw [List.append_nil] at this
  rw [this]
  exact List.prefix_append _ _

/-- When the reader has to wait, or its loop has stopped, the results are all
that an uninterrupted reader decodes from what has arrived. -/
theorem Reading.Faithful.results_eq (heof : stop D.eof = true) (h : t.Faithful D stop)
    (hdone : (t.reader.poll D).1 = none ∨ t.live stop = false) :
    t.results = decoded D stop (.fresh t.arrived) := by
  have hall := h []
  rw [List.append_nil] at hall
  rw [hall]
  rcases hdone with hwait | hstop
  · have hfeed : t.reader.feed [] = t.reader := by simp [Reader.feed]
    rw [hfeed, decoded_eq heof]
    rcases hp : t.reader.poll D with ⟨_ | x, r⟩
    · simp
    · rw [hp] at hwait
      exact absurd hwait (by simp)
  · simp [hstop]

end

end LineReader
