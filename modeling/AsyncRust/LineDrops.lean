/-
Reading a stream of lines with a read that may be dropped at any time.

A dropped read takes along the part of a line that it has consumed; the rest of the line
is read as a line of its own.  So what is read of each line is a suffix of it.

* `Consumed` — the lines that were consumed, and what was kept of each;
* `scan_consumed`, `pollSocket_consumed` — one poll;
* `Reading.Told` — every operation keeps it, drops included;
* `Told.sublist` — if no part of a line passes for another message, what is read are
  some of the messages that were written, in order;
* `Told.isPrefix`, `Told.eq_of_waiting` — if no drop has lost anything, they are the
  first ones, and all of them once the reader waits for nothing that was written;
* `Told.givenBy_lines`, `Told.isPrefix_lines`, `Told.eq_lines_of_waiting` — the same of the
  lines of any stream, whoever wrote it.
-/
import AsyncRust.LineStream
import Mathlib.Data.List.Forall2

namespace LineReader

variable {ρ μ : Type*} {D : Decoder ρ}

/-! ### Consumed bytes -/

/-- Of `bytes`, the lines `past` were consumed, and of each of them the suffix in `kept`
was read in one piece; of the next line the part `lost` was dropped, and the pending read
holds `line`. -/
structure Consumed (bytes : List UInt8) (past kept : List (List UInt8))
    (lost line : List UInt8) : Prop where
  bytes_eq : bytes = past.flatten ++ (lost ++ line)
  whole : ∀ l ∈ past, Whole l
  part : newline ∉ lost ++ line
  suffixes : List.Forall₂ (· <:+ ·) kept past

section
variable {bytes line lost lost' : List UInt8} {past kept : List (List UInt8)}

theorem consumed_nil : Consumed [] [] [] [] [] :=
  ⟨rfl, List.forall_mem_nil _, List.not_mem_nil, .nil⟩

theorem Consumed.byte (h : Consumed bytes past kept lost line) {b : UInt8} (hb : b ≠ newline) :
    Consumed (bytes ++ [b]) past kept lost (line ++ [b]) where
  bytes_eq := by rw [h.bytes_eq]; simp only [List.append_assoc]
  whole := h.whole
  part := by
    rw [← List.append_assoc, List.mem_append, List.mem_singleton]
    exact not_or.mpr ⟨h.part, hb.symm⟩
  suffixes := h.suffixes

theorem Consumed.newline (h : Consumed bytes past kept lost line) :
    Consumed (bytes ++ [newline]) (past ++ [lost ++ line ++ [LineReader.newline]])
      (kept ++ [line ++ [LineReader.newline]]) [] [] where
  bytes_eq := by
    rw [h.bytes_eq]
    simp only [List.flatten_append, List.flatten_singleton, List.append_assoc, List.append_nil]
  whole l hl := by
    rcases List.mem_append.mp hl with hl | hl
    · exact h.whole l hl
    · exact ⟨_, h.part, List.mem_singleton.mp hl⟩
  part := List.not_mem_nil
  suffixes := List.rel_append h.suffixes (.cons ⟨lost, (List.append_assoc _ _ _).symm⟩ .nil)

theorem Consumed.drop (h : Consumed bytes past kept lost line) :
    Consumed bytes past kept (lost ++ line) [] where
  bytes_eq := by rw [h.bytes_eq, List.append_nil]
  whole := h.whole
  part := by rw [List.append_nil]; exact h.part
  suffixes := h.suffixes

/-- From the lines `past` on, what follows up to the end of `bytes` was consumed, with
the results `xs`. -/
def Consumes (D : Decoder ρ) (past kept : List (List UInt8)) (lost bytes lost' line : List UInt8)
    (xs : List ρ) : Prop :=
  ∃ past' kept', Consumed bytes (past ++ past') (kept ++ kept') lost' line ∧
    kept'.filterMap D.finish = xs ∧ (lost = [] → lost' = [] ∧ kept' = past')

theorem Consumed.consumes (h : Consumed bytes past kept lost line) :
    Consumes D past kept lost bytes lost line [] :=
  ⟨[], [], by simpa only [List.append_nil] using h, rfl, fun hlost => ⟨hlost, rfl⟩⟩

/-- What is consumed behind lines without a result. -/
theorem Consumes.behind {past' kept' : List (List UInt8)} {lost₁ : List UInt8} {xs : List ρ}
    (h : Consumes D (past ++ past') (kept ++ kept') lost₁ bytes lost' line xs)
    (hfinish : kept'.filterMap D.finish = []) (hlost : lost = [] → lost₁ = [] ∧ kept' = past') :
    Consumes D past kept lost bytes lost' line xs := by
  obtain ⟨past₂, kept₂, hall, hfinish₂, hlost₂⟩ := h
  refine ⟨past' ++ past₂, kept' ++ kept₂, ?_, ?_, fun hnone => ?_⟩
  · simpa only [List.append_assoc] using hall
  · rw [List.filterMap_append, hfinish, List.nil_append, hfinish₂]
  · obtain ⟨hnone₁, rfl⟩ := hlost hnone
    obtain ⟨hnone₂, rfl⟩ := hlost₂ hnone₁
    exact ⟨hnone₂, rfl⟩

/-- What a scan does with the bytes in the buffer. -/
inductive Scanned (D : Decoder ρ) (bytes buf : List UInt8) (past kept : List (List UInt8))
    (lost : List UInt8) : Scan ρ → Prop
  | more {lost' line : List UInt8} (h : Consumes D past kept lost (bytes ++ buf) lost' line []) :
      Scanned D bytes buf past kept lost (.more line)
  | done {x : ρ} {read rest : List UInt8} (hbuf : buf = read ++ rest)
      (h : Consumes D past kept lost (bytes ++ read) [] [] [x]) :
      Scanned D bytes buf past kept lost (.done x rest)

theorem scan_consumed : ∀ (buf : List UInt8) {bytes line lost : List UInt8}
    {past kept : List (List UInt8)}, Consumed bytes past kept lost line →
      Scanned D bytes buf past kept lost (scan D line buf) := by
  intro buf
  induction buf with
  | nil =>
    intro bytes line lost past kept h
    exact .more ((List.append_nil bytes).symm ▸ h.consumes)
  | cons b buf ih =>
    intro bytes line lost past kept h
    rw [scan]
    by_cases hb : b = newline
    · subst hb
      rw [if_pos rfl]
      have hlost : lost = [] → ([] : List UInt8) = [] ∧
          [line ++ [newline]] = [lost ++ line ++ [newline]] := by
        rintro rfl
        exact ⟨rfl, rfl⟩
      cases hfin : D.finish (line ++ [newline]) with
      | some x =>
        exact .done (List.singleton_append).symm
          ⟨_, _, h.newline, by rw [List.filterMap_cons, hfin]; rfl, hlost⟩
      | none =>
        -- a line without a result: the scan goes on behind it
        show Scanned D bytes (newline :: buf) past kept lost (scan D [] buf)
        have hfinish : [line ++ [newline]].filterMap D.finish = [] := by
          rw [List.filterMap_cons, hfin]
          rfl
        have hrest := ih h.newline
        generalize scan D [] buf = result at hrest
        cases hrest with
        | more h' =>
          rw [List.append_assoc bytes] at h'
          exact .more (h'.behind hfinish hlost)
        | done hbuf h' =>
          rw [List.append_assoc bytes] at h'
          exact .done (congrArg (newline :: ·) hbuf) (h'.behind hfinish hlost)
    · rw [if_neg hb]
      have hrest := ih (h.byte hb)
      generalize scan D (line ++ [b]) buf = result at hrest
      cases hrest with
      | more h' =>
        rw [List.append_assoc bytes] at h'
        exact .more h'
      | done hbuf h' =>
        rw [List.append_assoc bytes] at h'
        exact .done (congrArg (b :: ·) hbuf) h'

/-- What one poll with an empty buffer does with what has arrived. -/
inductive Polled (D : Decoder ρ) (bytes : List UInt8) (fills : List Fill)
    (past kept : List (List UInt8)) (lost : List UInt8) : Option ρ × Reader → Prop
  | waits {lost' line : List UInt8}
      (h : Consumes D past kept lost (bytes ++ bytesOf fills) lost' line []) :
      Polled D bytes fills past kept lost (none, ⟨[], [], line⟩)
  | reads {x : ρ} {read rest : List UInt8} {left : List Fill} (hleft : left <:+ fills)
      (hbytes : bytesOf fills = read ++ (rest ++ bytesOf left))
      (h : Consumes D past kept lost (bytes ++ read) [] [] [x]) :
      Polled D bytes fills past kept lost (some x, ⟨rest, left, []⟩)
  | failed {lost' line : List UInt8} {gone left : List Fill}
      (hfills : fills = gone ++ .failed :: left)
      (h : Consumes D past kept lost (bytes ++ bytesOf gone) lost' line []) :
      Polled D bytes fills past kept lost (some D.failed, ⟨[], left, []⟩)
  | ends {lost' line : List UInt8} {gone left : List Fill} (hfills : fills = gone ++ .eof :: left)
      (h : Consumes D past kept lost (bytes ++ bytesOf gone) lost' line []) :
      Polled D bytes fills past kept lost
        (some (if line = [] then D.eof else (D.finish line).getD D.eof), ⟨[], .eof :: left, []⟩)

theorem pollSocket_consumed : ∀ (fills : List Fill) {bytes line lost : List UInt8}
    {past kept : List (List UInt8)}, Consumed bytes past kept lost line →
      Polled D bytes fills past kept lost (pollSocket D line fills) := by
  intro fills
  induction fills with
  | nil =>
    intro bytes line lost past kept h
    exact .waits ((List.append_nil bytes).symm ▸ h.consumes)
  | cons fill fills ih =>
    intro bytes line lost past kept h
    have hstay : Consumes D past kept lost (bytes ++ bytesOf []) lost line [] :=
      (List.append_nil bytes).symm ▸ h.consumes
    cases fill with
    | eof => exact .ends (List.nil_append _).symm hstay
    | failed => exact .failed (List.nil_append _).symm hstay
    | data b bs =>
      have hbytes : ∀ more, bytesOf (.data b bs :: more) = (b :: bs) ++ bytesOf more :=
        fun _ => rfl
      rw [pollSocket]
      have hscan := scan_consumed (D := D) (b :: bs) h
      generalize scan D line (b :: bs) = result at hscan
      cases hscan with
      | done hbuf h' =>
        exact .reads (List.suffix_cons _ _) (by rw [hbytes, hbuf, List.append_assoc]) h'
      | @more lost' line' h' =>
        -- all of the chunk is taken, and the poll goes on with the next one
        show Polled D bytes (.data b bs :: fills) past kept lost (pollSocket D line' fills)
        obtain ⟨past', kept', hall, hfinish, hlost⟩ := h'
        have hrest := ih hall
        generalize pollSocket D line' fills = result at hrest
        cases hrest with
        | waits h' =>
          rw [List.append_assoc bytes, ← hbytes] at h'
          exact .waits (h'.behind hfinish hlost)
        | reads hleft hread h' =>
          rw [List.append_assoc bytes] at h'
          exact .reads (hleft.trans (List.suffix_cons _ _))
            (by rw [hbytes, hread, List.append_assoc]) (h'.behind hfinish hlost)
        | failed hfills h' =>
          rw [List.append_assoc bytes, ← hbytes] at h'
          exact .failed (by rw [hfills]; rfl) (h'.behind hfinish hlost)
        | ends hfills h' =>
          rw [List.append_assoc bytes, ← hbytes] at h'
          exact .ends (by rw [hfills]; rfl) (h'.behind hfinish hlost)

end

/-! ### Readings -/

/-- The message in a line, if its result has one. -/
def Decoder.found (D : Decoder ρ) (good : ρ → Option μ) (line : List UInt8) : Option μ :=
  (D.finish line).bind good

/-- The stream goes on: the messages among the results are those of `kept`, and what was
not consumed is unread. -/
structure Reading.Story (D : Decoder ρ) (good : ρ → Option μ) (t : Reading ρ)
    (past kept : List (List UInt8)) (lost : List UInt8) : Prop where
  closing : ∀ gone fill left, t.reader.socket = gone ++ fill :: left → fill.isData = false →
    left = [] ∧ fill ∈ t.arrived
  consumed : ∃ bytes, Consumed bytes past kept lost t.reader.line ∧
    bytesOf t.arrived = bytes ++ t.reader.unread
  results : t.results.filterMap good = kept.filterMap (D.found good)

/-- The end of the stream was read, or its failure, with the suffix `last` of an unfinished
line `rest`. -/
structure Reading.Over (D : Decoder ρ) (good : ρ → Option μ) (t : Reading ρ)
    (past kept : List (List UInt8)) (rest last : List UInt8) : Prop where
  reader : t.reader = ⟨[], [.eof], []⟩ ∨ t.reader = ⟨[], [], []⟩
  ended : ∃ fill ∈ t.arrived, fill.isData = false
  arrived : bytesOf t.arrived = past.flatten ++ rest
  whole : ∀ l ∈ past, Whole l
  part : newline ∉ rest
  suffixes : List.Forall₂ (· <:+ ·) kept past
  last_suffix : last <:+ rest
  results : t.results.filterMap good = kept.filterMap (D.found good) ∨ last ≠ [] ∧
    t.results.filterMap good = kept.filterMap (D.found good) ++ (D.found good last).toList

/-- What can be told of a reader whatever was dropped; `strict` says that no drop has lost
anything. -/
def Reading.Told (D : Decoder ρ) (good : ρ → Option μ) (strict : Prop) (t : Reading ρ) : Prop :=
  (∃ past kept lost, t.Story D good past kept lost ∧ (strict → lost = [] ∧ kept = past)) ∨
    ∃ past kept rest last, t.Over D good past kept rest last ∧
      (strict → last = rest ∧ kept = past)

section
variable {good : ρ → Option μ} {strict : Prop} {t : Reading ρ}
  {past kept : List (List UInt8)} {lost rest last : List UInt8}

theorem told_start : (Reading.start : Reading ρ).Told D good strict := by
  refine .inl ⟨[], [], [], ⟨fun gone fill left h => ?_, ⟨[], consumed_nil, rfl⟩, rfl⟩,
    fun _ => ⟨rfl, rfl⟩⟩
  exact absurd h.symm (by simp [Reading.start, Reader.fresh])

/-- More arrives, as long as the stream has neither ended nor failed. -/
theorem Reading.Told.feed (h : t.Told D good strict)
    (hopen : ∀ fill ∈ t.arrived, fill.isData = true) (fill : Fill) :
    (t.feed fill).Told D good strict := by
  rcases h with ⟨past, kept, lost, hstory, hall⟩ | ⟨past, kept, rest, last, hover, hall⟩
  · refine .inl ⟨past, kept, lost, ⟨fun gone other left heq hother => ?_, ?_, hstory.results⟩, hall⟩
    · change t.reader.socket ++ [fill] = gone ++ other :: left at heq
      rcases List.eq_nil_or_concat' left with rfl | ⟨left, last, rfl⟩
      · obtain ⟨-, hlast⟩ := List.append_inj' heq rfl
        exact ⟨rfl, List.mem_append_right _ (by rw [hlast]; exact List.mem_cons_self)⟩
      · -- the end of the stream would have arrived before
        rw [← List.cons_append, ← List.append_assoc] at heq
        have hsocket := (List.append_inj' heq rfl).1
        have hmem := (hstory.closing gone other left hsocket hother).2
        exact absurd (hopen other hmem) (by simp [hother])
    · obtain ⟨bytes, hbytes, harrived⟩ := hstory.consumed
      refine ⟨bytes, hbytes, ?_⟩
      simp only [Reading.feed, Reader.feed, Reader.unread, bytesOf_append, harrived,
        List.append_assoc]
  · obtain ⟨fill, hmem, hfill⟩ := hover.ended
    exact absurd (hopen fill hmem) (by simp [hfill])

theorem Reading.Told.cancel (h : t.Told D good strict) (hline : strict → t.reader.line = []) :
    t.cancel.Told D good strict := by
  rcases h with ⟨past, kept, lost, hstory, hall⟩ | ⟨past, kept, rest, last, hover, hall⟩
  · obtain ⟨bytes, hbytes, harrived⟩ := hstory.consumed
    refine .inl ⟨past, kept, lost ++ t.reader.line,
      ⟨hstory.closing, ⟨bytes, hbytes.drop, harrived⟩, hstory.results⟩, ?_⟩
    intro hs
    rw [hline hs, (hall hs).1]
    exact ⟨rfl, (hall hs).2⟩
  · refine .inr ⟨past, kept, rest, last, { hover with reader := ?_ }, hall⟩
    rcases hover.reader with hreader | hreader
    · exact .inl (by rw [Reading.cancel, hreader]; rfl)
    · exact .inr (by rw [Reading.cancel, hreader]; rfl)

/-- The results after a poll. -/
theorem results_poll {x : Option ρ} {r : Reader} (hpoll : t.reader.poll D = (x, r)) :
    (t.poll D).2.results.filterMap good =
      t.results.filterMap good ++ x.toList.filterMap good := by
  simp only [Reading.poll, hpoll, List.filterMap_append]

theorem filterMap_found {xs : List ρ} (h : kept.filterMap D.finish = xs) :
    kept.filterMap (D.found good) = xs.filterMap good := by
  rw [← h, List.filterMap_filterMap]
  rfl

/-- What is in the buffer is the first chunk of the poll. -/
theorem Reader.poll_eq (r : Reader) : ∃ chunk : List Fill,
    (∀ fill ∈ chunk, fill.isData = true) ∧ bytesOf chunk = r.buf ∧
      r.poll D = pollSocket D r.line (chunk ++ r.socket) := by
  obtain ⟨buf, socket, line⟩ := r
  cases buf with
  | nil => exact ⟨[], List.forall_mem_nil _, rfl, rfl⟩
  | cons b bs =>
    refine ⟨[.data b bs], fun fill hfill => ?_, List.append_nil _, rfl⟩
    rw [List.mem_singleton.mp hfill]
    rfl

theorem Reading.Told.poll (h : t.Told D good strict) (heof : good D.eof = none)
    (hfailed : good D.failed = none) : (t.poll D).2.Told D good strict := by
  rcases h with ⟨past, kept, lost, hstory, hall⟩ | ⟨past, kept, rest, last, hover, hall⟩
  · obtain ⟨bytes, hbytes, harrived⟩ := hstory.consumed
    obtain ⟨chunk, hchunk, hbuf, hpoll⟩ := t.reader.poll_eq (D := D)
    have hpolled := pollSocket_consumed (D := D) (chunk ++ t.reader.socket) hbytes
    rw [← hpoll] at hpolled
    have hunread : bytesOf (chunk ++ t.reader.socket) = t.reader.unread := by
      rw [bytesOf_append, hbuf]
      rfl
    -- what ends the stream is the last thing in the socket
    have hclosing : ∀ gone fill left, chunk ++ t.reader.socket = gone ++ fill :: left →
        fill.isData = false → left = [] ∧ fill ∈ t.arrived := by
      intro gone fill left heq hfill
      rcases List.append_eq_append_iff.mp heq with ⟨gone', -, hsocket⟩ | ⟨c, hc, hsocket⟩
      · exact hstory.closing gone' fill left hsocket hfill
      · cases c with
        | nil => exact hstory.closing [] fill left hsocket.symm hfill
        | cons other c =>
          obtain ⟨rfl, -⟩ := List.cons.inj hsocket
          have hdata := hchunk fill (hc ▸ List.mem_append_right _ List.mem_cons_self)
          exact absurd hdata (by simp [hfill])
    generalize hresult : t.reader.poll D = result at hpolled
    -- the stream goes on after the poll
    have hgo : ∀ {bytes' lost' : List UInt8} {xs : List ρ} {x : Option ρ} {r : Reader},
        result = (x, r) → Consumes D past kept lost bytes' lost' r.line xs →
        bytesOf t.arrived = bytes' ++ r.unread → x.toList.filterMap good = xs.filterMap good →
        (∃ gone, chunk ++ t.reader.socket = gone ++ r.socket) →
        (t.poll D).2.Told D good strict := by
      rintro bytes' lost' xs x r rfl ⟨past', kept', hall', hfinish, hlost⟩ hbytes' hgood
        ⟨gone, hgone⟩
      have hreader : (t.poll D).2.reader = r := by simp only [Reading.poll, hresult]
      refine .inl ⟨past ++ past', kept ++ kept', lost', ⟨fun gone' fill left heq hfill => ?_,
        ⟨bytes', hreader ▸ hall', hreader ▸ hbytes'⟩, ?_⟩, fun hs => ?_⟩
      · rw [hreader] at heq
        exact hclosing (gone ++ gone') fill left (by rw [hgone, heq, List.append_assoc]) hfill
      · rw [results_poll hresult, hstory.results, hgood, List.filterMap_append,
          filterMap_found hfinish]
      · obtain ⟨hnone, rfl⟩ := hall hs
        obtain ⟨hnone', rfl⟩ := hlost hnone
        exact ⟨hnone', rfl⟩
    -- the stream ends with the poll
    have hover : ∀ {lost' line : List UInt8} {x : ρ} {r : Reader} {gone left : List Fill}
        {fill : Fill}, result = (some x, r) → chunk ++ t.reader.socket = gone ++ fill :: left →
        fill.isData = false → r = ⟨[], [.eof], []⟩ ∨ r = ⟨[], [], []⟩ →
        Consumes D past kept lost (bytes ++ bytesOf gone) lost' line [] →
        (good x = none ∨ line ≠ [] ∧ good x = D.found good line) →
        (t.poll D).2.Told D good strict := by
      rintro lost' line x r gone left fill rfl hfills hfill hr ⟨past', kept', hall', hfinish, hlost⟩
        hgood
      obtain ⟨rfl, hmem⟩ := hclosing gone fill left hfills hfill
      have hnobytes : bytesOf [fill] = [] := by
        cases fill with
        | data b bs => exact absurd hfill (by simp [Fill.isData])
        | eof => rfl
        | failed => rfl
      refine .inr ⟨past ++ past', kept ++ kept', lost' ++ line, line, ⟨?_, ⟨fill, hmem, hfill⟩, ?_,
        hall'.whole, hall'.part, hall'.suffixes, ⟨lost', rfl⟩, ?_⟩, fun hs => ?_⟩
      · simpa only [Reading.poll, hresult] using hr
      · change bytesOf t.arrived = _
        rw [harrived, ← hunread, hfills, bytesOf_append, hnobytes, List.append_nil,
          hall'.bytes_eq]
      · rw [results_poll hresult, hstory.results, List.filterMap_append, filterMap_found hfinish,
          List.filterMap_nil, List.append_nil]
        rcases hgood with hnone | ⟨hline, hfound⟩
        · exact .inl (by simp [hnone])
        · refine .inr ⟨hline, congrArg _ ?_⟩
          rw [← hfound]
          cases hx : good x <;> simp [hx]
      · obtain ⟨hnone, rfl⟩ := hall hs
        obtain ⟨rfl, rfl⟩ := hlost hnone
        exact ⟨rfl, rfl⟩
    cases hpolled with
    | waits h' =>
      rw [hunread, ← harrived] at h'
      exact hgo rfl h' (List.append_nil _).symm rfl ⟨_, (List.append_nil _).symm⟩
    | reads hleft hread h' =>
      obtain ⟨gone, hgone⟩ := hleft
      refine hgo rfl h' ?_ rfl ⟨gone, hgone.symm⟩
      rw [harrived, ← hunread, hread, List.append_assoc]
      rfl
    | failed hfills h' =>
      obtain ⟨rfl, -⟩ := hclosing _ _ _ hfills rfl
      exact hover rfl hfills rfl (.inr rfl) h' (.inl hfailed)
    | @ends lost' line gone left hfills h' =>
      obtain ⟨rfl, -⟩ := hclosing _ _ _ hfills rfl
      refine hover rfl hfills rfl (.inl rfl) h' ?_
      by_cases hline : line = []
      · exact .inl (by rw [if_pos hline, heof])
      · rw [if_neg hline, Decoder.found]
        cases D.finish line with
        | none => exact .inl heof
        | some x => exact .inr ⟨hline, rfl⟩
  · rcases hover.reader with hreader | hreader
    · have hpoll : t.reader.poll D = (some D.eof, ⟨[], [.eof], []⟩) := by rw [hreader]; rfl
      refine .inr ⟨past, kept, rest, last, { hover with reader := .inl ?_, results := ?_ }, hall⟩
      · simp only [Reading.poll, hpoll]
      · rw [results_poll hpoll]
        simpa [heof] using hover.results
    · have hpoll : t.reader.poll D = (none, ⟨[], [], []⟩) := by rw [hreader]; rfl
      refine .inr ⟨past, kept, rest, last, { hover with reader := .inr ?_, results := ?_ }, hall⟩
      · simp only [Reading.poll, hpoll]
      · rw [results_poll hpoll]
        simpa using hover.results

/-- A poll that waits has taken all that there was. -/
theorem unread_of_waiting (h : (t.poll D).1 = none) : (t.poll D).2.reader.unread = [] := by
  obtain ⟨chunk, -, -, hpoll⟩ := t.reader.poll_eq (D := D)
  have hwait : pollSocket D t.reader.line (chunk ++ t.reader.socket) =
      (none, (t.reader.poll D).2) := hpoll.symm.trans (Prod.ext h rfl)
  have hreader := (pollSocket_append_of_none [] hwait).1
  change (t.reader.poll D).2.unread = []
  rw [hreader]
  rfl

end

/-! ### What was written -/

theorem whole_eq_of_isPrefix {l l' x y : List UInt8} (h : Whole l) (h' : Whole l')
    (hpre : l ++ x <+: l' ++ y) : l = l' ∧ x <+: y := by
  obtain ⟨body, hbody, rfl⟩ := h
  obtain ⟨body', hbody', rfl⟩ := h'
  have hkeep : ∀ {b z : List UInt8}, newline ∉ b →
      (b ++ [newline] ++ z).takeWhile (fun c => decide (c ≠ newline)) = b := by
    intro b z hb
    rw [List.append_assoc, List.takeWhile_append_of_pos fun c hc => by
      simpa using ne_of_mem_of_not_mem hc hb]
    simp
  obtain ⟨z, hz⟩ := hpre
  have hbodies : body = body' := by
    rw [← hkeep (z := x ++ z) hbody, ← List.append_assoc, hz, hkeep hbody']
  subst hbodies
  refine ⟨rfl, z, ?_⟩
  rwa [List.append_assoc, List.append_cancel_left_eq] at hz

/-- The whole lines at the front of what was written are the first ones that were. -/
theorem exists_todo_of_isPrefix {rest : List UInt8} : ∀ {past sent : List (List UInt8)},
    (∀ l ∈ past, Whole l) → (∀ l ∈ sent, Whole l) → past.flatten ++ rest <+: sent.flatten →
      ∃ todo, sent = past ++ todo ∧ rest <+: todo.flatten := by
  intro past
  induction past with
  | nil => exact fun {sent} _ _ h => ⟨sent, rfl, h⟩
  | cons l past ih =>
    intro sent hpast hsent h
    obtain ⟨hl, hpast⟩ := List.forall_mem_cons.mp hpast
    cases sent with
    | nil =>
      obtain ⟨body, -, rfl⟩ := hl
      have := h.length_le
      simp at this
    | cons l' sent =>
      obtain ⟨hl', hlines⟩ := List.forall_mem_cons.mp hsent
      rw [List.flatten_cons, List.flatten_cons, List.append_assoc] at h
      obtain ⟨rfl, hlater⟩ := whole_eq_of_isPrefix hl hl' h
      obtain ⟨todo, rfl, hrest⟩ := ih hpast hlines hlater
      exact ⟨todo, rfl, hrest⟩

/-- What there is of the next line. -/
theorem isPrefix_head_of_part {rest : List UInt8} (hrest : newline ∉ rest) (hne : rest ≠ [])
    {todo : List (List UInt8)} (htodo : ∀ l ∈ todo, Whole l) (h : rest <+: todo.flatten) :
    ∃ l todo', todo = l :: todo' ∧ rest <+: l := by
  cases todo with
  | nil => exact absurd (List.prefix_nil.mp h) hne
  | cons l todo =>
    refine ⟨l, todo, rfl, ?_⟩
    rw [List.flatten_cons] at h
    rcases List.prefix_or_prefix_of_prefix h (List.prefix_append l todo.flatten) with hpre | hpre
    · exact hpre
    · obtain ⟨body, -, rfl⟩ := htodo l List.mem_cons_self
      exact absurd (hpre.subset (List.mem_append_right _ List.mem_cons_self)) hrest

/-- A part of the line gives what the line gives, or nothing. -/
def Decoder.Sturdy (D : Decoder ρ) (good : ρ → Option μ) (line : List UInt8) : Prop :=
  ∀ part, part <:+: line → D.found good part = none ∨ D.found good part = D.found good line

/-- The same for the beginning of the line. -/
def Decoder.Closed (D : Decoder ρ) (good : ρ → Option μ) (line : List UInt8) : Prop :=
  ∀ part, part <+: line → D.found good part = none ∨ D.found good part = D.found good line

section
variable {good : ρ → Option μ} {strict : Prop} {t : Reading ρ} {sent : List (List UInt8)}

theorem sublist_of_suffixes {past kept : List (List UInt8)}
    (h : List.Forall₂ (· <:+ ·) kept past) (hsturdy : ∀ l ∈ past, D.Sturdy good l) :
    (kept.filterMap (D.found good)).Sublist (past.filterMap (D.found good)) := by
  induction h with
  | nil => exact .slnil
  | @cons k l kept past hsuffix _ ih =>
    obtain ⟨hl, hpast⟩ := List.forall_mem_cons.mp hsturdy
    rw [List.filterMap_cons, List.filterMap_cons]
    rcases hl k hsuffix.isInfix with hnone | hsame
    · rw [hnone]
      cases D.found good l with
      | none => exact ih hpast
      | some x => exact (ih hpast).cons x
    · rw [hsame]
      cases D.found good l with
      | none => exact ih hpast
      | some x => exact (ih hpast).cons_cons x

theorem toList_found_sublist {part l : List UInt8}
    (h : D.found good part = none ∨ D.found good part = D.found good l)
    (later : List (List UInt8)) :
    (D.found good part).toList.Sublist ((l :: later).filterMap (D.found good)) := by
  rcases h with hnone | hsame
  · rw [hnone]
    exact List.nil_sublist _
  · rw [hsame, List.filterMap_cons]
    cases D.found good l with
    | none => exact List.nil_sublist _
    | some x => exact (List.nil_sublist _).cons_cons x

/-- **Whatever is dropped**, what was read are some of the messages that were written, in
their order, each at most once. -/
theorem Reading.Told.sublist (h : t.Told D good strict) (hwhole : ∀ l ∈ sent, Whole l)
    (hsturdy : ∀ l ∈ sent, D.Sturdy good l) (hsent : bytesOf t.arrived <+: sent.flatten) :
    (t.results.filterMap good).Sublist (sent.filterMap (D.found good)) := by
  rcases h with ⟨past, kept, lost, hstory, -⟩ | ⟨past, kept, rest, last, hover, -⟩
  · obtain ⟨bytes, hbytes, harrived⟩ := hstory.consumed
    rw [harrived, hbytes.bytes_eq, List.append_assoc] at hsent
    obtain ⟨todo, rfl, -⟩ := exists_todo_of_isPrefix hbytes.whole hwhole hsent
    rw [hstory.results, List.filterMap_append]
    exact (sublist_of_suffixes hbytes.suffixes fun l hl =>
      hsturdy l (List.mem_append_left _ hl)).trans (List.sublist_append_left _ _)
  · rw [hover.arrived] at hsent
    obtain ⟨todo, rfl, hrest⟩ := exists_todo_of_isPrefix hover.whole hwhole hsent
    have hpast := sublist_of_suffixes hover.suffixes fun l hl =>
      hsturdy l (List.mem_append_left _ hl)
    rw [List.filterMap_append]
    rcases hover.results with hresults | ⟨hline, hresults⟩ <;> rw [hresults]
    · exact hpast.trans (List.sublist_append_left _ _)
    · -- the stream has broken off in the next line
      have hne : rest ≠ [] := by
        rintro rfl
        exact hline (List.suffix_nil.mp hover.last_suffix)
      obtain ⟨l, todo', rfl, hpre⟩ := isPrefix_head_of_part hover.part hne
        (fun l hl => hwhole l (List.mem_append_right _ hl)) hrest
      have hinfix : last <:+: l := hover.last_suffix.isInfix.trans hpre.isInfix
      exact hpast.append (toList_found_sublist
        (hsturdy l (List.mem_append_right _ List.mem_cons_self) last hinfix) todo')

/-- **As long as no drop loses anything**, what was read are the first of the messages
that were written. -/
theorem Reading.Told.isPrefix (h : t.Told D good True) (hwhole : ∀ l ∈ sent, Whole l)
    (hclosed : ∀ l ∈ sent, D.Closed good l) (hsent : bytesOf t.arrived <+: sent.flatten) :
    t.results.filterMap good <+: sent.filterMap (D.found good) := by
  rcases h with ⟨past, kept, lost, hstory, hall⟩ | ⟨past, kept, rest, last, hover, hall⟩
  · obtain ⟨rfl, rfl⟩ := hall trivial
    obtain ⟨bytes, hbytes, harrived⟩ := hstory.consumed
    rw [harrived, hbytes.bytes_eq, List.append_assoc] at hsent
    obtain ⟨todo, rfl, -⟩ := exists_todo_of_isPrefix hbytes.whole hwhole hsent
    rw [hstory.results, List.filterMap_append]
    exact List.prefix_append _ _
  · obtain ⟨rfl, rfl⟩ := hall trivial
    rw [hover.arrived] at hsent
    obtain ⟨todo, rfl, hrest⟩ := exists_todo_of_isPrefix hover.whole hwhole hsent
    rw [List.filterMap_append]
    rcases hover.results with hresults | ⟨hline, hresults⟩ <;> rw [hresults]
    · exact List.prefix_append _ _
    · rw [List.prefix_append_right_inj]
      obtain ⟨l, todo', rfl, hpre⟩ := isPrefix_head_of_part hover.part hline
        (fun l hl => hwhole l (List.mem_append_right _ hl)) hrest
      rw [List.filterMap_cons]
      rcases hclosed l (List.mem_append_right _ List.mem_cons_self) last hpre with hnone | hsame
      · rw [hnone]
        exact List.nil_prefix
      · rw [← hsame]
        cases D.found good last with
        | none => exact List.nil_prefix
        | some x => exact List.prefix_append [x] _

/-- **Once the reader waits** and everything that was written has arrived, all messages
were read. -/
theorem Reading.Told.eq_of_waiting (h : t.Told D good True) (heof : good D.eof = none)
    (hfailed : good D.failed = none) (hwhole : ∀ l ∈ sent, Whole l)
    (hopen : ∀ fill ∈ t.arrived, fill.isData = true) (hwait : (t.poll D).1 = none)
    (hsent : bytesOf t.arrived = sent.flatten) :
    t.results.filterMap good = sent.filterMap (D.found good) := by
  have hresults : (t.poll D).2.results = t.results := by
    change t.results ++ (t.poll D).1.toList = t.results
    rw [hwait]
    exact List.append_nil _
  rw [← hresults]
  rcases h.poll heof hfailed with ⟨past, kept, lost, hstory, hall⟩ | ⟨_, _, _, _, hover, -⟩
  · obtain ⟨rfl, rfl⟩ := hall trivial
    obtain ⟨bytes, hbytes, harrived⟩ := hstory.consumed
    rw [unread_of_waiting hwait, List.append_nil, hbytes.bytes_eq, List.nil_append] at harrived
    have hlines := harrived.symm.trans hsent
    obtain ⟨todo, rfl, -⟩ :=
      exists_todo_of_isPrefix hbytes.whole hwhole ⟨[], (List.append_nil _).trans hlines⟩
    rw [List.flatten_append, List.append_cancel_left_eq] at hlines
    -- a whole line would have been read
    have htodo : todo = [] := by
      cases todo with
      | nil => rfl
      | cons l todo =>
        obtain ⟨body, -, rfl⟩ := hwhole l (List.mem_append_right _ List.mem_cons_self)
        have hmem : newline ∈ (t.poll D).2.reader.line := by rw [hlines]; simp
        exact absurd hmem hbytes.part
    rw [hstory.results, htodo, List.append_nil]
  · obtain ⟨fill, hmem, hfill⟩ := hover.ended
    exact absurd (hopen fill hmem) (by simp [hfill])

/-! ### The lines of the stream -/

/-- The message is what a suffix of the line gives: all of it, or what a dropped read has left. -/
def Decoder.GivenBy (D : Decoder ρ) (good : ρ → Option μ) (x : μ) (line : List UInt8) : Prop :=
  ∃ part, part <:+ line ∧ D.found good part = some x

theorem givenBy_of_suffixes {past kept : List (List UInt8)}
    (h : List.Forall₂ (· <:+ ·) kept past) {xs : List μ} {ls : List (List UInt8)}
    (hlater : List.SublistForall₂ (D.GivenBy good) xs ls) :
    List.SublistForall₂ (D.GivenBy good) (kept.filterMap (D.found good) ++ xs) (past ++ ls) := by
  induction h with
  | nil => exact hlater
  | @cons k l kept past hsuffix _ ih =>
    rw [List.filterMap_cons]
    cases hfound : D.found good k with
    | none => exact .cons_right ih
    | some x => exact .cons ⟨k, hsuffix, hfound⟩ ih

/-- **Whatever is dropped**, each message that was read is what a suffix of a line gives, and
they come from different lines, in their order. -/
theorem Reading.Told.givenBy_lines (h : t.Told D good strict) :
    List.SublistForall₂ (D.GivenBy good) (t.results.filterMap good)
      (lines (bytesOf t.arrived)) := by
  rcases h with ⟨past, kept, lost, hstory, -⟩ | ⟨past, kept, rest, last, hover, -⟩
  · obtain ⟨bytes, hbytes, harrived⟩ := hstory.consumed
    rw [harrived, hbytes.bytes_eq, List.append_assoc, lines_flatten_append hbytes.whole,
      hstory.results]
    have hkept : List.SublistForall₂ (D.GivenBy good) (kept.filterMap (D.found good) ++ [])
        (past ++ lines (lost ++ t.reader.line ++ t.reader.unread)) :=
      givenBy_of_suffixes hbytes.suffixes .nil
    rwa [List.append_nil] at hkept
  · rw [hover.arrived, lines_flatten_append hover.whole, lines_of_part hover.part]
    rcases hover.results with hresults | ⟨hline, hresults⟩ <;> rw [hresults]
    · have hkept : List.SublistForall₂ (D.GivenBy good) (kept.filterMap (D.found good) ++ [])
          (past ++ if rest = [] then [] else [rest]) := givenBy_of_suffixes hover.suffixes .nil
      rwa [List.append_nil] at hkept
    · -- the unfinished line counts as a line
      have hne : rest ≠ [] := by
        rintro rfl
        exact hline (List.suffix_nil.mp hover.last_suffix)
      rw [if_neg hne]
      refine givenBy_of_suffixes hover.suffixes ?_
      cases hfound : D.found good last with
      | none => exact .nil
      | some x => exact .cons ⟨last, hover.last_suffix, hfound⟩ .nil

/-- **As long as no drop loses anything**, what was read are the messages of the first lines. -/
theorem Reading.Told.isPrefix_lines (h : t.Told D good True) :
    t.results.filterMap good <+: (lines (bytesOf t.arrived)).filterMap (D.found good) := by
  rcases h with ⟨past, kept, lost, hstory, hall⟩ | ⟨past, kept, rest, last, hover, hall⟩
  · obtain ⟨-, rfl⟩ := hall trivial
    obtain ⟨bytes, hbytes, harrived⟩ := hstory.consumed
    rw [harrived, hbytes.bytes_eq, List.append_assoc, lines_flatten_append hbytes.whole,
      hstory.results, List.filterMap_append]
    exact List.prefix_append _ _
  · obtain ⟨rfl, rfl⟩ := hall trivial
    rw [hover.arrived, lines_flatten_append hover.whole, lines_of_part hover.part,
      List.filterMap_append]
    rcases hover.results with hresults | ⟨hline, hresults⟩ <;> rw [hresults]
    · exact List.prefix_append _ _
    · rw [if_neg hline, List.filterMap_cons, List.filterMap_nil]
      cases D.found good last <;> exact List.prefix_rfl

/-- **Once the reader waits**, the messages of all finished lines were read. -/
theorem Reading.Told.eq_lines_of_waiting (h : t.Told D good True) (heof : good D.eof = none)
    (hfailed : good D.failed = none) (hopen : ∀ fill ∈ t.arrived, fill.isData = true)
    (hwait : (t.poll D).1 = none) :
    t.results.filterMap good =
      ((lines (bytesOf t.arrived)).filter (newline ∈ ·)).filterMap (D.found good) := by
  have hresults : (t.poll D).2.results = t.results := by
    change t.results ++ (t.poll D).1.toList = t.results
    rw [hwait]
    exact List.append_nil _
  rw [← hresults]
  rcases h.poll heof hfailed with ⟨past, kept, lost, hstory, hall⟩ | ⟨_, _, _, _, hover, -⟩
  · obtain ⟨rfl, rfl⟩ := hall trivial
    obtain ⟨bytes, hbytes, harrived⟩ := hstory.consumed
    have hpast : kept.filter (newline ∈ ·) = kept := by
      refine List.filter_eq_self.mpr fun l hl => ?_
      obtain ⟨body, -, rfl⟩ := hbytes.whole l hl
      simp
    -- what is pending is not finished
    have hpending : (lines ([] ++ (t.poll D).2.reader.line)).filter (newline ∈ ·) = [] := by
      rw [lines_of_part hbytes.part]
      split
      · rfl
      · exact List.filter_cons_of_neg (by simpa using hbytes.part)
    change bytesOf t.arrived = _ at harrived
    rw [harrived, unread_of_waiting hwait, List.append_nil, hbytes.bytes_eq,
      lines_flatten_append hbytes.whole, List.filter_append, hpast, hpending, List.append_nil,
      hstory.results]
  · obtain ⟨fill, hmem, hfill⟩ := hover.ended
    exact absurd (hopen fill hmem) (by simp [hfill])

end

end LineReader
