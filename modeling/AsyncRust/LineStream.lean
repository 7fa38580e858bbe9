/-
Reading a stream of whole lines.

What arrives are the lines of `lines`, one after the other, cut into chunks at
any place, and then the end of the stream; the reader polls at any time in
between, and no pending read is dropped.

* `scan_lines` — a scan of whole lines skips the lines without a result and stops
  behind the first line with one;
* `Progress` — what has been read are whole lines and a part of the next ones;
* `results_of_lines` — the results are those of the lines, in order, and then the
  end of the stream;
* `exists_line_of_poll` — a read that gives the result of a line has consumed
  everything through this line, and nothing else.

Of any stream, `Reading.Opened.findSome?_lines` says that the first result is the one of
the first line that has a result, if no read was dropped before.
-/
import AsyncRust.LineReader
import AsyncRust.Runs

namespace LineReader

open Runs

variable {ρ : Type*} {D : Decoder ρ} {stop : ρ → Bool}

/-! ### Scanning whole lines -/

/-- A line with its terminator, which is the only one. -/
def Whole (line : List UInt8) : Prop := ∃ body, newline ∉ body ∧ line = body ++ [newline]

theorem scan_append (rest : List UInt8) : ∀ buf line : List UInt8,
    scan D line (buf ++ rest) =
      match scan D line buf with
      | .more line' => scan D line' rest
      | .done x buf' => .done x (buf' ++ rest) := by
  intro buf
  induction buf with
  | nil => intro line; rfl
  | cons b buf ih =>
    intro line
    rw [List.cons_append, scan, scan]
    by_cases hb : b = newline
    · rw [if_pos hb, if_pos hb]
      cases D.finish (line ++ [b]) with
      | none => exact ih []
      | some x => rfl
    · rw [if_neg hb, if_neg hb]
      exact ih _

theorem scan_body {body : List UInt8} (hbody : newline ∉ body) (rest : List UInt8) :
    ∀ line, scan D line (body ++ rest) = scan D (line ++ body) rest := by
  induction body with
  | nil => intro line; rw [List.nil_append, List.append_nil]
  | cons b body ih =>
    intro line
    have hb : b ≠ newline := fun h => hbody (h ▸ List.mem_cons_self)
    have hrest : newline ∉ body := fun h => hbody (List.mem_cons_of_mem _ h)
    rw [List.cons_append, scan, if_neg hb, ih hrest, List.append_assoc, List.singleton_append]

theorem scan_whole {line : List UInt8} (h : Whole line) (rest : List UInt8) :
    scan D [] (line ++ rest) =
      match D.finish line with
      | none => scan D [] rest
      | some x => .done x rest := by
  obtain ⟨body, hbody, rfl⟩ := h
  rw [List.append_assoc, scan_body hbody, List.nil_append, List.singleton_append, scan]
  exact if_pos rfl

/-- **A scan of whole lines** gets through all of them, or stops behind the first
one with a result. -/
theorem scan_lines {lines : List (List UInt8)} (hlines : ∀ line ∈ lines, Whole line) :
    (scan D [] lines.flatten = .more [] ∧ lines.filterMap D.finish = []) ∨
      ∃ skipped line after x, lines = skipped ++ line :: after ∧
        skipped.filterMap D.finish = [] ∧ D.finish line = some x ∧
        scan D [] lines.flatten = .done x after.flatten := by
  induction lines with
  | nil => exact .inl ⟨rfl, rfl⟩
  | cons line lines ih =>
    have hscan := scan_whole (D := D) (hlines line List.mem_cons_self) lines.flatten
    rw [← List.flatten_cons] at hscan
    cases hfin : D.finish line with
    | some x =>
      rw [hfin] at hscan
      exact .inr ⟨[], line, lines, x, rfl, rfl, hfin, hscan⟩
    | none =>
      simp only [hfin] at hscan
      rcases ih fun l hl => hlines l (List.mem_cons_of_mem _ hl) with hmore | hdone
      · exact .inl ⟨hscan.trans hmore.1, by rw [List.filterMap_cons, hfin]; exact hmore.2⟩
      · obtain ⟨skipped, l, after, x, rfl, hskip, hl, hdone⟩ := hdone
        exact .inr ⟨line :: skipped, l, after, x, rfl,
          by rw [List.filterMap_cons, hfin]; exact hskip, hl, hscan.trans hdone⟩

/-! ### Chunks -/

/-- The bytes of a read of the stream. -/
def Fill.bytes : Fill → List UInt8
  | .data byte more => byte :: more
  | .eof => []
  | .failed => []

def Fill.isData : Fill → Bool
  | .data .. => true
  | .eof => false
  | .failed => false

/-- All bytes of `fills`. -/
def bytesOf (fills : List Fill) : List UInt8 := fills.flatMap Fill.bytes

@[simp] theorem bytesOf_nil : bytesOf [] = [] := rfl

@[simp] theorem bytesOf_append (fills fills' : List Fill) :
    bytesOf (fills ++ fills') = bytesOf fills ++ bytesOf fills' := List.flatMap_append

@[simp] theorem bytesOf_eof : bytesOf [.eof] = [] := rfl

/-- The bytes that have arrived and that no read has consumed. -/
def Reader.unread (r : Reader) : List UInt8 := r.buf ++ bytesOf r.socket

/-- A poll whose scan of all chunks gets to their end goes on with what follows
them. -/
theorem pollSocket_of_more {tail : List Fill} {line' : List UInt8} :
    ∀ {chunks : List Fill} {line : List UInt8}, (∀ fill ∈ chunks, fill.isData = true) →
      scan D line (bytesOf chunks) = .more line' →
      pollSocket D line (chunks ++ tail) = pollSocket D line' tail := by
  intro chunks
  induction chunks with
  | nil =>
    intro line _ h
    obtain rfl := Scan.more.inj h
    rfl
  | cons fill chunks ih =>
    intro line hdata h
    obtain ⟨hfill, hchunks⟩ := List.forall_mem_cons.mp hdata
    cases fill with
    | data b bs =>
      change scan D line ((b :: bs) ++ bytesOf chunks) = _ at h
      rw [scan_append] at h
      rw [List.cons_append, pollSocket]
      cases hs : scan D line (b :: bs) with
      | more line₁ =>
        rw [hs] at h
        exact ih hchunks h
      | done x rest => simp [hs] at h
    | eof => simp [Fill.isData] at hfill
    | failed => simp [Fill.isData] at hfill

/-- A poll whose scan of all chunks stops at a result takes no byte more. -/
theorem pollSocket_of_done {tail : List Fill} {x : ρ} {rest : List UInt8} :
    ∀ {chunks : List Fill} {line : List UInt8}, (∀ fill ∈ chunks, fill.isData = true) →
      scan D line (bytesOf chunks) = .done x rest →
      ∃ gone left buf, chunks = gone ++ left ∧ buf ++ bytesOf left = rest ∧
        pollSocket D line (chunks ++ tail) = (some x, ⟨buf, left ++ tail, []⟩) := by
  intro chunks
  induction chunks with
  | nil => intro line _ h; simp [scan] at h
  | cons fill chunks ih =>
    intro line hdata h
    obtain ⟨hfill, hchunks⟩ := List.forall_mem_cons.mp hdata
    cases fill with
    | data b bs =>
      change scan D line ((b :: bs) ++ bytesOf chunks) = _ at h
      rw [scan_append] at h
      simp only [List.cons_append, pollSocket]
      cases hs : scan D line (b :: bs) with
      | more line₁ =>
        rw [hs] at h
        obtain ⟨gone, left, buf, rfl, hrest, hpoll⟩ := ih hchunks h
        exact ⟨.data b bs :: gone, left, buf, rfl, hrest, hpoll⟩
      | done y buf =>
        rw [hs] at h
        obtain ⟨rfl, rfl⟩ := Scan.done.inj h
        exact ⟨[.data b bs], chunks, buf, rfl, rfl, rfl⟩
    | eof => simp [Fill.isData] at hfill
    | failed => simp [Fill.isData] at hfill

/-- A poll that can get to the end of the chunks. -/
theorem poll_of_more {r : Reader} {chunks tail : List Fill} {line : List UInt8}
    (hsocket : r.socket = chunks ++ tail) (hdata : ∀ fill ∈ chunks, fill.isData = true)
    (h : scan D r.line (r.buf ++ bytesOf chunks) = .more line) :
    r.poll D = pollSocket D line tail := by
  rw [scan_append] at h
  rw [Reader.poll, hsocket]
  cases hs : scan D r.line r.buf with
  | more line₁ =>
    rw [hs] at h
    exact pollSocket_of_more hdata h
  | done x rest => simp [hs] at h

/-- A poll that finds a result in the chunks. -/
theorem poll_of_done {r : Reader} {chunks tail : List Fill} {x : ρ} {rest : List UInt8}
    (hsocket : r.socket = chunks ++ tail) (hdata : ∀ fill ∈ chunks, fill.isData = true)
    (h : scan D r.line (r.buf ++ bytesOf chunks) = .done x rest) :
    ∃ gone left buf, chunks = gone ++ left ∧ buf ++ bytesOf left = rest ∧
      r.poll D = (some x, ⟨buf, left ++ tail, []⟩) := by
  rw [scan_append] at h
  rw [Reader.poll, hsocket]
  cases hs : scan D r.line r.buf with
  | more line₁ =>
    rw [hs] at h
    exact pollSocket_of_done hdata h
  | done y buf =>
    rw [hs] at h
    obtain ⟨rfl, rfl⟩ := Scan.done.inj h
    exact ⟨[], chunks, buf, rfl, rfl, rfl⟩

/-! ### Reading without drops -/

inductive ReadEvent where
  | arrive (fill : Fill)
  | poll
  deriving DecidableEq, Repr

/-- More arrives, or the loop polls the pending read; it makes no read after a result
that stops it. -/
def Reading.step (D : Decoder ρ) (stop : ρ → Bool) (t : Reading ρ) :
    ReadEvent → Option (Reading ρ)
  | .arrive fill => some (t.feed fill)
  | .poll => if t.live stop then some (t.poll D).2 else none

/-- The reader is somewhere in the lines: what has arrived are the lines `past` that it
has read, a part `pending` of the next lines, and what it has not consumed.  The results
are those of `past`. -/
structure Progress (D : Decoder ρ) (lines : List (List UInt8)) (t : Reading ρ)
    (past todo : List (List UInt8)) (pending : List UInt8) : Prop where
  lines_eq : lines = past ++ todo
  results_eq : t.results = past.filterMap D.finish
  arrived_eq : bytesOf t.arrived = past.flatten ++ pending ++ t.reader.unread
  scan_eq : scan D [] pending = .more t.reader.line
  socket_eq : ∃ gone, (∀ fill ∈ gone, fill.isData = true) ∧ t.arrived = gone ++ t.reader.socket

/-- The loop has read all lines and the end of the stream. -/
structure Finished (D : Decoder ρ) (stop : ρ → Bool) (lines : List (List UInt8))
    (t : Reading ρ) : Prop where
  results_eq : t.results = lines.filterMap D.finish ++ [D.eof]
  live_eq : t.live stop = false
  unread_eq : t.reader.unread = []

/-- The socket holds chunks and perhaps the end of the stream. -/
theorem socket_split {chunks arrived gone socket : List Fill}
    (hchunks : ∀ fill ∈ chunks, fill.isData = true)
    (hgone : ∀ fill ∈ gone, fill.isData = true) (harrived : arrived = gone ++ socket)
    (h : arrived <+: chunks ++ [.eof]) :
    (∀ fill ∈ socket, fill.isData = true) ∧ arrived <+: chunks ∨
      ∃ data, (∀ fill ∈ data, fill.isData = true) ∧ socket = data ++ [.eof] ∧
        arrived = chunks ++ [.eof] := by
  rcases List.prefix_concat_iff.mp h with hall | hpart
  · right
    rw [harrived] at hall
    rcases List.append_eq_append_iff.mp hall with ⟨data, rfl, hsocket⟩ | ⟨c, hc, heof⟩
    · exact ⟨data, fun fill hf => hchunks fill (List.mem_append_right _ hf), hsocket,
        by rw [harrived, hall]⟩
    · cases c with
      | nil => exact ⟨[], List.forall_mem_nil _, by simpa using heof.symm, harrived.trans hall⟩
      | cons fill c =>
        -- the end of the stream would be among the chunks that are gone
        have hfill : fill = .eof := (List.cons.inj heof).1.symm
        have := hgone fill (by rw [hc]; simp)
        rw [hfill] at this
        exact absurd this (by simp [Fill.isData])
  · refine .inl ⟨fun fill hf => hchunks fill (hpart.subset ?_), hpart⟩
    rw [harrived]
    exact List.mem_append_right _ hf

section
variable {lines past todo : List (List UInt8)} {chunks : List Fill} {t t' : Reading ρ}
  {pending : List UInt8}

theorem progress_start : Progress D lines .start [] lines [] :=
  ⟨rfl, rfl, rfl, rfl, [], List.forall_mem_nil _, rfl⟩

theorem Progress.feed (h : Progress D lines t past todo pending) (fill : Fill) :
    Progress D lines (t.feed fill) past todo pending := by
  obtain ⟨gone, hgone, hsocket⟩ := h.socket_eq
  refine ⟨h.lines_eq, h.results_eq, ?_, h.scan_eq, gone, hgone, ?_⟩
  · simp only [Reading.feed, Reader.feed, Reader.unread, bytesOf_append, h.arrived_eq,
      List.append_assoc]
  · simp only [Reading.feed, Reader.feed, hsocket, List.append_assoc]

/-- The part of the lines that has arrived and is not read. -/
theorem Progress.todo_eq (h : Progress D lines t past todo pending) {ext : List UInt8}
    (hext : bytesOf t.arrived ++ ext = lines.flatten) :
    pending ++ t.reader.unread ++ ext = todo.flatten := by
  rw [h.arrived_eq, h.lines_eq, List.flatten_append] at hext
  simpa only [List.append_assoc, List.append_cancel_left_eq] using hext

/-- The scan of the poll goes on where the pending read stopped. -/
theorem Progress.scan_unread (h : Progress D lines t past todo pending) {data tail : List Fill}
    (hsocket : t.reader.socket = data ++ tail) (htail : bytesOf tail = []) :
    scan D t.reader.line (t.reader.buf ++ bytesOf data) =
      scan D [] (pending ++ t.reader.unread) := by
  rw [scan_append _ pending, h.scan_eq, Reader.unread, hsocket, bytesOf_append, htail,
    List.append_nil]

/-- The poll reaches a line with a result. -/
theorem Progress.poll_of_done (h : Progress D lines t past todo pending)
    (hlines : ∀ line ∈ lines, Whole line) {data tail : List Fill} {ext rest : List UInt8} {x : ρ}
    (hsocket : t.reader.socket = data ++ tail) (hdata : ∀ fill ∈ data, fill.isData = true)
    (htail : bytesOf tail = []) (hext : pending ++ t.reader.unread ++ ext = todo.flatten)
    (hscan : scan D [] (pending ++ t.reader.unread) = .done x rest) :
    ∃ skipped line after x, todo = skipped ++ line :: after ∧
      skipped.filterMap D.finish = [] ∧ D.finish line = some x ∧ (t.poll D).1 = some x ∧
      Progress D lines (t.poll D).2 (past ++ skipped ++ [line]) after [] := by
  obtain ⟨gone, hgone, harrived⟩ := h.socket_eq
  have hpoll := LineReader.poll_of_done hsocket hdata
    ((h.scan_unread hsocket htail).trans hscan)
  obtain ⟨gone', left, buf, rfl, hrest, hpoll⟩ := hpoll
  -- all of `todo` has the same first result
  have htodo : scan D [] todo.flatten = .done x (rest ++ ext) := by
    rw [← hext, scan_append, hscan]
  have hwhole : ∀ line ∈ todo, Whole line := fun line hl =>
    hlines line (h.lines_eq ▸ List.mem_append_right _ hl)
  rcases scan_lines (D := D) hwhole with hmore | ⟨skipped, line, after, y, rfl, hskip, hfin, hdone⟩
  · rw [hmore.1] at htodo
    exact absurd htodo (by simp)
  · obtain ⟨rfl, hafter⟩ := Scan.done.inj (hdone.symm.trans htodo)
    refine ⟨skipped, line, after, y, rfl, hskip, hfin, by rw [Reading.poll, hpoll], ?_⟩
    have hread : pending ++ t.reader.unread = skipped.flatten ++ line ++ rest := by
      rw [List.flatten_append, List.flatten_cons, hafter] at hext
      simpa only [← List.append_assoc, List.append_cancel_right_eq] using hext
    refine ⟨?_, ?_, ?_, by rw [Reading.poll, hpoll]; rfl, gone ++ gone', ?_, ?_⟩
    · simp only [h.lines_eq, List.append_assoc, List.singleton_append]
    · simp only [Reading.poll, hpoll, h.results_eq, List.filterMap_append, hskip,
        List.filterMap_cons, hfin, List.filterMap_nil, List.append_nil, Option.toList_some]
    · simp only [Reading.poll, hpoll, h.arrived_eq, Reader.unread, bytesOf_append, htail,
        List.append_nil, List.flatten_append, List.flatten_singleton, hrest]
      rw [Reader.unread] at hread
      rw [List.append_assoc, hread]
      simp only [List.append_assoc]
    · intro fill hf
      rcases List.mem_append.mp hf with hf | hf
      · exact hgone fill hf
      · exact hdata fill (List.mem_append_left _ hf)
    · simp only [Reading.poll, hpoll, harrived, hsocket, List.append_assoc]

/-- **One poll**: it waits because not everything has arrived, or it gives the result
of the next line that has one and has consumed everything through this line, or all
lines are read and it gives the end of the stream. -/
theorem Progress.poll (h : Progress D lines t past todo pending)
    (hlines : ∀ line ∈ lines, Whole line) (hchunks : ∀ fill ∈ chunks, fill.isData = true)
    (hbytes : bytesOf chunks = lines.flatten) (harrived : t.arrived <+: chunks ++ [.eof]) :
    ((t.poll D).1 = none ∧ t.arrived ≠ chunks ++ [.eof] ∧
      ∃ pending', Progress D lines (t.poll D).2 past todo pending') ∨
    (∃ skipped line after x, todo = skipped ++ line :: after ∧
      skipped.filterMap D.finish = [] ∧ D.finish line = some x ∧ (t.poll D).1 = some x ∧
      Progress D lines (t.poll D).2 (past ++ skipped ++ [line]) after []) ∨
    ((t.poll D).1 = some D.eof ∧ todo.filterMap D.finish = [] ∧
      t.arrived = chunks ++ [.eof] ∧ (t.poll D).2.reader.unread = []) := by
  obtain ⟨gone, hgone, hsocket⟩ := h.socket_eq
  have hwhole : ∀ line ∈ todo, Whole line := fun line hl =>
    hlines line (h.lines_eq ▸ List.mem_append_right _ hl)
  rcases socket_split hchunks hgone hsocket harrived with
    ⟨hdata, hpart⟩ | ⟨data, hdata, heof, hall⟩
  · -- the stream is still open
    obtain ⟨later, rfl⟩ := hpart
    have hext : pending ++ t.reader.unread ++ bytesOf later = todo.flatten :=
      h.todo_eq (by rw [← hbytes, bytesOf_append])
    cases hscan : scan D [] (pending ++ t.reader.unread) with
    | done x rest =>
      exact .inr (.inl (h.poll_of_done hlines (List.append_nil _).symm hdata rfl hext hscan))
    | more line =>
      have hpoll := poll_of_more (List.append_nil _).symm hdata
        ((h.scan_unread (List.append_nil _).symm rfl).trans hscan)
      rw [pollSocket] at hpoll
      refine .inl ⟨by rw [Reading.poll, hpoll], ?_, pending ++ t.reader.unread, h.lines_eq, ?_, ?_,
        ?_, t.arrived, ?_, ?_⟩
      · intro heq
        have := congrArg List.length heq
        simp only [List.length_append, List.length_cons] at this
        omega
      · simp only [Reading.poll, hpoll, h.results_eq, Option.toList_none, List.append_nil]
      · simp only [Reading.poll, hpoll, h.arrived_eq, Reader.unread, bytesOf_nil,
          List.append_nil, List.append_assoc]
      · simp only [Reading.poll, hpoll, hscan]
      · exact fun fill hf => hchunks fill (List.mem_append_left _ hf)
      · simp only [Reading.poll, hpoll, List.append_nil]
  · -- everything has arrived
    have hext : pending ++ t.reader.unread ++ [] = todo.flatten :=
      h.todo_eq (by
        rw [hall, bytesOf_append, bytesOf_eof, hbytes, List.append_nil, List.append_nil])
    rcases scan_lines (D := D) hwhole with hmore | ⟨skipped, line, after, y, -, -, -, hdone⟩
    · rw [← hext, List.append_nil] at hmore
      have hpoll := poll_of_more heof hdata ((h.scan_unread heof rfl).trans hmore.1)
      refine .inr (.inr ⟨by rw [Reading.poll, hpoll]; rfl, hmore.2, hall, ?_⟩)
      simp only [Reading.poll, hpoll, pollSocket, Reader.unread, bytesOf_eof, List.append_nil]
    · rw [← hext, List.append_nil] at hdone
      exact .inr (.inl (h.poll_of_done hlines heof hdata rfl hext hdone))

/-- Where the loop is, as long as no more has arrived than the lines and the end of the
stream. -/
def Reads (D : Decoder ρ) (stop : ρ → Bool) (lines : List (List UInt8)) (chunks : List Fill)
    (t : Reading ρ) : Prop :=
  t.arrived <+: chunks ++ [.eof] →
    (t.live stop = true ∧ ∃ past todo pending, Progress D lines t past todo pending) ∨
      (Finished D stop lines t ∧ t.arrived = chunks ++ [.eof])

theorem live_poll (hlive : t.live stop = true) :
    (t.poll D).2.live stop = (t.poll D).1.toList.all fun x => !stop x := by
  simp only [Reading.live] at hlive ⊢
  simp only [Reading.poll, List.all_append, hlive, Bool.true_and]

theorem reads_step (hlines : ∀ line ∈ lines, Whole line)
    (hchunks : ∀ fill ∈ chunks, fill.isData = true) (hbytes : bytesOf chunks = lines.flatten)
    (heof : stop D.eof = true)
    (hstop : ∀ line ∈ lines, ∀ x, D.finish line = some x → stop x = false) {e : ReadEvent}
    (h : Reads D stop lines chunks t) (he : t.step D stop e = some t') :
    Reads D stop lines chunks t' := by
  intro harrived
  cases e with
  | arrive fill =>
    rw [Reading.step, Option.some_inj] at he
    subst he
    change t.arrived ++ [fill] <+: _ at harrived
    rcases h ((List.prefix_append _ _).trans harrived) with
      ⟨hlive, past, todo, pending, hp⟩ | ⟨-, hall⟩
    · exact .inl ⟨hlive, past, todo, pending, hp.feed fill⟩
    · -- nothing arrives after the end of the stream
      have := harrived.length_le
      rw [hall] at this
      simp only [List.length_append, List.length_cons, List.length_nil] at this
      omega
  | poll =>
    rw [Reading.step] at he
    by_cases hlive : t.live stop = true
    · rw [if_pos hlive, Option.some_inj] at he
      subst he
      change t.arrived <+: _ at harrived
      rcases h harrived with ⟨-, past, todo, pending, hp⟩ | ⟨hfin, -⟩
      · have hlive' := live_poll (D := D) hlive
        obtain hwait | hline | hend := hp.poll hlines hchunks hbytes harrived
        · obtain ⟨hnone, -, pending', hp'⟩ := hwait
          exact .inl ⟨by rw [hlive', hnone]; rfl, past, todo, pending', hp'⟩
        · obtain ⟨skipped, line, after, x, rfl, -, hfin, hsome, hp'⟩ := hline
          have hx := hstop line (by rw [hp.lines_eq]; simp) x hfin
          exact .inl ⟨by rw [hlive', hsome]; simp [hx], _, after, [], hp'⟩
        · obtain ⟨hsome, hnone, hall, hunread⟩ := hend
          refine .inr ⟨⟨?_, by rw [hlive', hsome]; simp [heof], hunread⟩, hall⟩
          simp only [Reading.poll] at hsome ⊢
          rw [hsome, hp.results_eq, hp.lines_eq, List.filterMap_append, hnone, List.append_nil]
          rfl
      · exact absurd hfin.live_eq (by simp [hlive])
    · rw [if_neg hlive] at he
      exact absurd he (by simp)

/-- **The results are those of the lines**, and then the end of the stream.  Once
everything has arrived, no read waits. -/
theorem results_of_lines (hlines : ∀ line ∈ lines, Whole line)
    (hchunks : ∀ fill ∈ chunks, fill.isData = true) (hbytes : bytesOf chunks = lines.flatten)
    (h : Reads D stop lines chunks t) (harrived : t.arrived <+: chunks ++ [.eof]) :
    t.results <+: lines.filterMap D.finish ++ [D.eof] ∧
      (t.live stop = false → t.results = lines.filterMap D.finish ++ [D.eof]) ∧
      (t.live stop = true → t.arrived = chunks ++ [.eof] → (t.poll D).1 ≠ none) := by
  rcases h harrived with ⟨hlive, past, todo, pending, hp⟩ | ⟨hfin, -⟩
  · refine ⟨?_, fun hdead => absurd hlive (by simp [hdead]), fun _ hall => ?_⟩
    · rw [hp.results_eq, hp.lines_eq, List.filterMap_append, List.append_assoc]
      exact List.prefix_append _ _
    · obtain ⟨-, hne, -⟩ | ⟨_, _, _, _, -, -, -, hsome, -⟩ | ⟨hsome, -⟩ :=
        hp.poll hlines hchunks hbytes harrived
      · exact absurd hall hne
      · simp [hsome]
      · simp [hsome]
  · exact ⟨hfin.results_eq ▸ List.prefix_rfl, fun _ => hfin.results_eq,
      fun hlive => absurd hfin.live_eq (by simp [hlive])⟩

/-- **A read consumes exactly through its own line**: what it leaves, followed by what
has not arrived yet, are the lines after this one. -/
theorem exists_line_of_poll (hlines : ∀ line ∈ lines, Whole line)
    (hchunks : ∀ fill ∈ chunks, fill.isData = true) (hbytes : bytesOf chunks = lines.flatten)
    (h : Reads D stop lines chunks t) (hlive : t.live stop = true) {later : List Fill}
    (hlater : t.arrived ++ later = chunks ++ [.eof]) {x : ρ} (hpoll : (t.poll D).1 = some x) :
    (∃ before line after, lines = before ++ line :: after ∧
      t.results = before.filterMap D.finish ∧ D.finish line = some x ∧
      (t.poll D).2.reader.unread ++ bytesOf later = after.flatten) ∨
    (x = D.eof ∧ t.results = lines.filterMap D.finish ∧
      (t.poll D).2.reader.unread ++ bytesOf later = []) := by
  have harrived : t.arrived <+: chunks ++ [.eof] := ⟨later, hlater⟩
  rcases h harrived with ⟨-, past, todo, pending, hp⟩ | ⟨hfin, -⟩
  · obtain hwait | hline | hend := hp.poll hlines hchunks hbytes harrived
    · rw [hwait.1] at hpoll
      exact absurd hpoll (by simp)
    · obtain ⟨skipped, line, after, y, rfl, hskip, hfin, hsome, hp'⟩ := hline
      obtain rfl := Option.some_inj.mp (hsome.symm.trans hpoll)
      refine .inl ⟨past ++ skipped, line, after, by rw [hp.lines_eq, List.append_assoc], ?_, hfin,
        ?_⟩
      · rw [hp.results_eq, List.filterMap_append, hskip, List.append_nil]
      · have hall : bytesOf (t.poll D).2.arrived ++ bytesOf later = lines.flatten := by
          change bytesOf t.arrived ++ _ = _
          rw [← bytesOf_append, hlater, bytesOf_append, hbytes, bytesOf_eof, List.append_nil]
        simpa only [List.nil_append] using hp'.todo_eq hall
    · obtain ⟨hsome, hnone, hall, hunread⟩ := hend
      obtain rfl := Option.some_inj.mp (hsome.symm.trans hpoll)
      rw [hall] at hlater
      obtain rfl : later = [] := List.append_right_eq_self.mp hlater
      refine .inr ⟨rfl, ?_, by rw [hunread]; rfl⟩
      rw [hp.results_eq, hp.lines_eq, List.filterMap_append, hnone, List.append_nil]
  · exact absurd hfin.live_eq (by simp [hlive])

/-- Where the loop is after any arrivals and polls. -/
theorem reads_of_run (hlines : ∀ line ∈ lines, Whole line)
    (hchunks : ∀ fill ∈ chunks, fill.isData = true) (hbytes : bytesOf chunks = lines.flatten)
    (heof : stop D.eof = true)
    (hstop : ∀ line ∈ lines, ∀ x, D.finish line = some x → stop x = false)
    {es : List ReadEvent} (hrun : run (Reading.step D stop) .start es = some t) :
    Reads D stop lines chunks t :=
  run_invariant (fun _ _ _ => reads_step hlines hchunks hbytes heof hstop)
    (fun _ => .inl ⟨rfl, [], lines, [], progress_start⟩) hrun

end

/-! ### The first result -/

/-- The lines of what follows the bytes of `line`, each with its terminator; the last one
may have none. -/
def linesFrom : List UInt8 → List UInt8 → List (List UInt8)
  | line, [] => if line = [] then [] else [line]
  | line, b :: bytes =>
    if b = newline then (line ++ [b]) :: linesFrom [] bytes else linesFrom (line ++ [b]) bytes

def lines (bytes : List UInt8) : List (List UInt8) := linesFrom [] bytes

theorem linesFrom_append {part : List UInt8} (hpart : newline ∉ part) (rest : List UInt8) :
    ∀ line, linesFrom line (part ++ rest) = linesFrom (line ++ part) rest := by
  induction part with
  | nil => intro line; rw [List.nil_append, List.append_nil]
  | cons b part ih =>
    intro line
    obtain ⟨hb, hpart⟩ := not_or.mp (List.mem_cons.not.mp hpart)
    rw [List.cons_append, linesFrom, if_neg (Ne.symm hb), ih hpart, List.append_assoc]
    rfl

/-- Whole lines at the front are the first lines. -/
theorem lines_flatten_append {past : List (List UInt8)} (hwhole : ∀ l ∈ past, Whole l)
    (rest : List UInt8) : lines (past.flatten ++ rest) = past ++ lines rest := by
  induction past with
  | nil => rfl
  | cons l past ih =>
    obtain ⟨⟨body, hbody, rfl⟩, hpast⟩ := List.forall_mem_cons.mp hwhole
    rw [List.cons_append, ← ih hpast, lines, lines, List.flatten_cons, List.append_assoc,
      List.append_assoc, linesFrom_append hbody, List.nil_append, List.singleton_append, linesFrom,
      if_pos rfl]

/-- Without a newline there is at most one line, which is not finished. -/
theorem lines_of_part {rest : List UInt8} (hrest : newline ∉ rest) :
    lines rest = if rest = [] then [] else [rest] := by
  have := linesFrom_append hrest [] []
  rwa [List.append_nil, List.nil_append] at this

/-- What has arrived before the end of the stream or a failure. -/
def received (fills : List Fill) : List UInt8 := bytesOf (fills.takeWhile Fill.isData)

/-- A scan gives the result of the first line that has one. -/
theorem findSome?_linesFrom (rest : List UInt8) : ∀ buf line : List UInt8,
    (linesFrom line (buf ++ rest)).findSome? D.finish =
      match scan D line buf with
      | .more line' => (linesFrom line' rest).findSome? D.finish
      | .done x _ => some x := by
  intro buf
  induction buf with
  | nil => intro line; rfl
  | cons b buf ih =>
    intro line
    rw [List.cons_append, linesFrom, scan]
    by_cases hb : b = newline
    · rw [if_pos hb, if_pos hb, List.findSome?_cons]
      cases D.finish (line ++ [b]) with
      | none => exact ih []
      | some x => rfl
    · rw [if_neg hb, if_neg hb]
      exact ih _

theorem findSome?_of_pollSocket {x : ρ} {r : Reader} : ∀ {fills : List Fill} {line : List UInt8},
    pollSocket D line fills = (some x, r) →
      x = D.eof ∨ x = D.failed ∨ (linesFrom line (received fills)).findSome? D.finish = some x := by
  intro fills
  induction fills with
  | nil => intro line h; exact absurd h (by simp [pollSocket])
  | cons fill fills ih =>
    intro line h
    cases fill with
    | data b bs =>
      have hbytes : received (.data b bs :: fills) = (b :: bs) ++ received fills := rfl
      rw [hbytes, findSome?_linesFrom]
      rw [pollSocket] at h
      cases hs : scan D line (b :: bs) with
      | more line' =>
        rw [hs] at h
        exact ih h
      | done y rest =>
        rw [hs] at h
        exact .inr (.inr (Prod.mk.inj h).1)
    | eof =>
      have hbytes : received (.eof :: fills) = [] := rfl
      have hx := Option.some_inj.mp (Prod.mk.inj h).1
      rw [hbytes, linesFrom]
      -- the line that the stream has left unfinished
      by_cases hline : line = []
      · rw [if_pos hline] at hx
        exact .inl hx.symm
      · rw [if_neg hline] at hx ⊢
        cases hfin : D.finish line with
        | none => rw [hfin] at hx; exact .inl hx.symm
        | some y =>
          rw [hfin] at hx
          exact .inr (.inr (by rw [List.findSome?_cons, hfin, ← hx]; rfl))
    | failed => exact .inr (.inl (Option.some_inj.mp (Prod.mk.inj h).1).symm)

/-- No read has given a result, and none has been dropped: the first result will be
that of a reader that has everything before it. -/
def Reading.Unread (D : Decoder ρ) (t : Reading ρ) : Prop :=
  t.results = [] ∧ ∀ more : List Fill,
    ((Reader.fresh (t.arrived ++ more)).poll D).1 = ((t.reader.feed more).poll D).1

/-- The first result was `x`, and is that of a reader that has everything before it. -/
def Reading.Opened (D : Decoder ρ) (x : ρ) (t : Reading ρ) : Prop :=
  t.results.head? = some x ∧ ∀ more : List Fill,
    ((Reader.fresh (t.arrived ++ more)).poll D).1 = some x

section
variable {t : Reading ρ}

theorem unread_start : (Reading.start : Reading ρ).Unread D :=
  ⟨rfl, fun _ => rfl⟩

theorem Reading.Unread.feed (h : t.Unread D) (fill : Fill) : (t.feed fill).Unread D := by
  refine ⟨h.1, fun more => ?_⟩
  have := h.2 (fill :: more)
  simpa [Reading.feed, Reader.feed] using this

theorem Reading.Unread.poll_none (h : t.Unread D) (hpoll : (t.poll D).1 = none) :
    (t.poll D).2.Unread D := by
  refine ⟨?_, fun more => ?_⟩
  · change t.results ++ (t.poll D).1.toList = []
    rw [hpoll, h.1]
    rfl
  · have hread : t.reader.poll D = (none, (t.reader.poll D).2) := Prod.ext hpoll rfl
    exact (h.2 more).trans (congrArg Prod.fst (poll_feed_of_none more hread))

theorem Reading.Unread.poll_some {x : ρ} (h : t.Unread D) (hpoll : (t.poll D).1 = some x) :
    (t.poll D).2.Opened D x := by
  refine ⟨?_, fun more => ?_⟩
  · change (t.results ++ (t.poll D).1.toList).head? = some x
    rw [hpoll, h.1]
    rfl
  · have hread : t.reader.poll D = (some x, (t.reader.poll D).2) := Prod.ext hpoll rfl
    exact (h.2 more).trans (congrArg Prod.fst (poll_feed_of_some more hread))

theorem Reading.Opened.feed {x : ρ} (h : t.Opened D x) (fill : Fill) :
    (t.feed fill).Opened D x := by
  refine ⟨h.1, fun more => ?_⟩
  have := h.2 (fill :: more)
  simpa [Reading.feed] using this

theorem Reading.Opened.poll {x : ρ} (h : t.Opened D x) : (t.poll D).2.Opened D x := by
  refine ⟨?_, h.2⟩
  change (t.results ++ _).head? = some x
  rw [List.head?_append, h.1]
  rfl

/-- The first result is the one of the first line that has a result. -/
theorem Reading.Opened.findSome?_lines {x : ρ} (h : t.Opened D x) (heof : x ≠ D.eof)
    (hfailed : x ≠ D.failed) : (lines (received t.arrived)).findSome? D.finish = some x := by
  have hpoll := h.2 []
  rw [List.append_nil] at hpoll
  have hsocket : pollSocket D [] t.arrived = (some x, (pollSocket D [] t.arrived).2) :=
    Prod.ext hpoll rfl
  rcases findSome?_of_pollSocket hsocket with hx | hx | hx
  · exact absurd hx heof
  · exact absurd hx hfailed
  · exact hx

end

end LineReader
