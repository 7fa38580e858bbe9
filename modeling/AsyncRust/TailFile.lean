/-
Following the end of a file (`6-async-tail-f/src/main.rs`).

Three parties take turns: a writer appends to the file, a watcher compares the modification
time with the last one it has seen and reports a change through a watch channel, and the
reader waits for a change and prints what comes after its offset.  The channel keeps only a
version, so that many changes are noticed as one; a read that ends inside a character fails
and leaves the offset alone.

* `State.step` — the turns of the writer, the watcher and the reader;
* `Sound` — what is printed is what comes between the start and the offset, and no change
  goes unnoticed;
* `tail_sound_iff` — this holds in all runs iff the file ends between two characters when the
  reader seeks its end;
* `prints_nothing` — otherwise nothing is ever printed.
-/
import AsyncRust.ByteFormat
import AsyncRust.Runs

namespace TailFile

open ByteFormat Runs

/-! ### The program -/

/-- The reader has not opened the file yet; it waits for a change; it reads, and has put
these bytes into its buffer. -/
inductive Reader where
  | opening
  | waiting
  | reading (buffer : List UInt8)
  deriving DecidableEq, Repr

/-- `past` are the modification times that the file had before, `looked` is the one that
the watcher has just read, and `version` and `seen` are those of the watch channel and of
its receiver.  The reader started at `start`.  `printed` is what was handed to `print!`; the
buffering of the standard output is left out. -/
structure State where
  file : List UInt8
  mtime : ℕ
  past : List ℕ
  looked : Option ℕ
  lastModified : Option ℕ
  version : ℕ
  seen : ℕ
  reader : Reader
  start : ℕ
  offset : ℕ
  printed : List String
  deriving DecidableEq, Repr

/-- An append gets its modification time.  `readEnd` is a read that returns no byte. -/
inductive Event where
  | append (chunk : List UInt8) (time : ℕ)
  | look
  | notify
  | seekEnd
  | changed
  | read (n : ℕ)
  | readEnd
  deriving DecidableEq, Repr

namespace State

/-- The program starts when `n` bytes of `text` are in the file. -/
def new (text : String) (n mtime : ℕ) : State where
  file := (utf8 text).take n
  mtime := mtime
  past := []
  looked := none
  lastModified := none
  version := 0
  seen := 0
  reader := .opening
  start := 0
  offset := 0
  printed := []

/-- The end of a round of `watch_file_changes`.  Nobody else sees `last_modified`, so that
its assignment and the `send` that follows are one step. -/
def watchFileChanges (s : State) (modified : ℕ) : State :=
  if s.lastModified ≠ some modified then
    { s with looked := none, lastModified := some modified, version := s.version + 1 }
  else { s with looked := none }

/-- The end of `read_new_content`, when all bytes are in the buffer. -/
def readNewContent (s : State) (buffer : List UInt8) : Option String × State :=
  match ofUtf8 buffer with
  | some content => (some content, { s with offset := s.offset + buffer.length })
  | none => (none, s)

/-- The end of a round of the loop of `main`. -/
def finish (s : State) (buffer : List UInt8) : State :=
  match s.readNewContent buffer with
  | (some content, s) =>
    { s with
      reader := .waiting
      printed := if content = "" then s.printed else s.printed ++ [content] }
  | (none, s) => { s with reader := .waiting }

/-- One turn.  The file becomes `text` in the end, and no two appends leave the same
modification time. -/
def step (text : String) (s : State) : Event → Option State
  | .append chunk time =>
    if (s.file ++ chunk).isPrefixOf (utf8 text) ∧ time ∉ s.mtime :: s.past then
      some { s with file := s.file ++ chunk, mtime := time, past := s.mtime :: s.past }
    else none
  | .look => if s.looked = none then some { s with looked := some s.mtime } else none
  | .notify => s.looked.map s.watchFileChanges
  | .seekEnd =>
    if s.reader = .opening then
      some { s with reader := .waiting, start := s.file.length, offset := s.file.length }
    else none
  | .changed =>
    if s.reader = .waiting ∧ s.version ≠ s.seen then
      some { s with reader := .reading [], seen := s.version }
    else none
  | .read n =>
    match s.reader with
    | .reading buffer =>
      if 0 < n ∧ s.offset + buffer.length + n ≤ s.file.length then
        some { s with
          reader := .reading (buffer ++ (s.file.drop (s.offset + buffer.length)).take n) }
      else none
    | _ => none
  | .readEnd =>
    match s.reader with
    | .reading buffer =>
      if s.offset + buffer.length = s.file.length then some (s.finish buffer) else none
    | _ => none

end State

/-! ### What is claimed of it -/

/-- What was printed is what the file has between the start and the offset; and while the
reader waits with a character, or more, to be read, a change is announced or about to be
seen by the watcher. -/
structure Sound (text : String) (s : State) : Prop where
  offset : s.start ≤ s.offset ∧ s.offset ≤ s.file.length
  printed : s.printed.flatMap utf8 = (s.file.drop s.start).take (s.offset - s.start)
  noticed : s.reader = .waiting → s.offset < s.file.length → Boundary text s.file.length →
    s.version ≠ s.seen ∨ s.lastModified ≠ some s.mtime

/-- The file ends between two characters when the reader seeks its end. -/
def SeeksBoundary (text : String) (s : State) (e : Event) : Prop :=
  e = .seekEnd → Boundary text s.file.length

/-! ### The start is between two characters -/

/-- What holds in every run. -/
structure Base (text : String) (s : State) : Prop where
  file : s.file <+: utf8 text
  looked : ∀ t, s.looked = some t → t ∈ s.mtime :: s.past
  lastModified : ∀ t, s.lastModified = some t → t ∈ s.mtime :: s.past
  version : s.seen ≤ s.version
  offset : s.start ≤ s.offset ∧ s.offset ≤ s.file.length
  reading : ∀ buffer, s.reader = .reading buffer → ∃ n, s.offset + n ≤ s.file.length ∧
    buffer = (s.file.drop s.offset).take n
  printed : s.printed.flatMap utf8 = (s.file.drop s.start).take (s.offset - s.start)
  opening : s.reader = .opening → s.printed = [] ∧ s.offset = 0

theorem take_drop_append {bs chunk : List UInt8} {i n : ℕ} (h : i + n ≤ bs.length) :
    ((bs ++ chunk).drop i).take n = (bs.drop i).take n := by
  rw [List.drop_append_of_le_length (by omega), List.take_append_of_le_length]
  rw [List.length_drop]
  omega

theorem length_take_drop {bs : List UInt8} {i n : ℕ} (h : i + n ≤ bs.length) :
    ((bs.drop i).take n).length = n := by
  rw [List.length_take, List.length_drop]
  omega

theorem Base.new (text : String) (n mtime : ℕ) : Base text (.new text n mtime) where
  file := List.take_prefix n (utf8 text)
  looked t h := by cases h
  lastModified t h := by cases h
  version := Nat.le_refl 0
  offset := ⟨Nat.le_refl 0, Nat.zero_le _⟩
  reading buffer h := by cases h
  printed := rfl
  opening _ := ⟨rfl, rfl⟩

namespace State

variable {text : String} {s s' : State}

theorem step_append {chunk : List UInt8} {time : ℕ}
    (h : s.step text (.append chunk time) = some s') :
    s.file ++ chunk <+: utf8 text ∧ time ∉ s.mtime :: s.past ∧
      s' = { s with file := s.file ++ chunk, mtime := time, past := s.mtime :: s.past } := by
  simp only [step, Option.ite_none_right_eq_some, Option.some_inj] at h
  obtain ⟨⟨hfile, htime⟩, rfl⟩ := h
  exact ⟨List.isPrefixOf_iff_prefix.mp hfile, htime, rfl⟩

theorem step_look (h : s.step text .look = some s') :
    s.looked = none ∧ s' = { s with looked := some s.mtime } := by
  simp only [step, Option.ite_none_right_eq_some, Option.some_inj] at h
  exact ⟨h.1, h.2.symm⟩

theorem watchFileChanges_eq (s : State) (modified : ℕ) :
    s.watchFileChanges modified =
      { s with
        looked := none, lastModified := some modified
        version := if s.lastModified ≠ some modified then s.version + 1 else s.version } := by
  by_cases h : s.lastModified = some modified
  · simp [watchFileChanges, h]
  · simp [watchFileChanges, h]

theorem step_notify (h : s.step text .notify = some s') :
    ∃ modified, s.looked = some modified ∧
      s' = { s with
        looked := none, lastModified := some modified
        version := if s.lastModified ≠ some modified then s.version + 1 else s.version } := by
  obtain ⟨modified, hlooked, rfl⟩ := Option.map_eq_some_iff.mp h
  exact ⟨modified, hlooked, s.watchFileChanges_eq modified⟩

theorem step_seekEnd (h : s.step text .seekEnd = some s') :
    s.reader = .opening ∧
      s' = { s with reader := .waiting, start := s.file.length, offset := s.file.length } := by
  simp only [step, Option.ite_none_right_eq_some, Option.some_inj] at h
  exact ⟨h.1, h.2.symm⟩

theorem step_changed (h : s.step text .changed = some s') :
    s.reader = .waiting ∧ s.version ≠ s.seen ∧
      s' = { s with reader := .reading [], seen := s.version } := by
  simp only [step, Option.ite_none_right_eq_some, Option.some_inj] at h
  exact ⟨h.1.1, h.1.2, h.2.symm⟩

theorem step_read {n : ℕ} (h : s.step text (.read n) = some s') :
    ∃ buffer, s.reader = .reading buffer ∧ 0 < n ∧ s.offset + buffer.length + n ≤ s.file.length ∧
      s' = { s with
        reader := .reading (buffer ++ (s.file.drop (s.offset + buffer.length)).take n) } := by
  simp only [step] at h
  split at h
  next buffer hreader =>
    simp only [Option.ite_none_right_eq_some, Option.some_inj] at h
    obtain ⟨⟨hn, hle⟩, rfl⟩ := h
    exact ⟨buffer, hreader, hn, hle, rfl⟩
  next => cases h

theorem step_readEnd (h : s.step text .readEnd = some s') :
    ∃ buffer, s.reader = .reading buffer ∧ s.offset + buffer.length = s.file.length ∧
      s' = s.finish buffer := by
  simp only [step] at h
  split at h
  next buffer hreader =>
    simp only [Option.ite_none_right_eq_some, Option.some_inj] at h
    exact ⟨buffer, hreader, h.1, h.2.symm⟩
  next => cases h

/-- What a read of `n` bytes adds to the buffer. -/
theorem take_append_take {bs : List UInt8} (i m n : ℕ) (h : i + m ≤ bs.length) :
    (bs.drop i).take m ++ (bs.drop (i + ((bs.drop i).take m).length)).take n =
      (bs.drop i).take (m + n) := by
  rw [length_take_drop h, ← List.drop_drop, List.take_add]

/-- A read that fails changes nothing, and one that does not advances the offset. -/
theorem finish_eq (s : State) (buffer : List UInt8) :
    ofUtf8 buffer = none ∧ s.finish buffer = { s with reader := .waiting } ∨
      ∃ content, utf8 content = buffer ∧ s.finish buffer =
        { s with
          reader := .waiting, offset := s.offset + buffer.length
          printed := if content = "" then s.printed else s.printed ++ [content] } := by
  cases h : ofUtf8 buffer with
  | none => exact .inl ⟨rfl, by simp [finish, readNewContent, h]⟩
  | some content => exact .inr ⟨content, utf8_of_ofUtf8 h, by simp [finish, readNewContent, h]⟩

end State

theorem flatMap_printed (printed : List String) (content : String) :
    (if content = "" then printed else printed ++ [content]).flatMap utf8 =
      printed.flatMap utf8 ++ utf8 content := by
  split
  next h =>
    subst h
    exact (List.append_nil _).symm
  next => simp

theorem Base.step {text : String} {s s' : State} {e : Event} (h : Base text s)
    (hs : s.step text e = some s') : Base text s' := by
  obtain ⟨hstart, hoffset⟩ := h.offset
  cases e with
  | append chunk time =>
    obtain ⟨hfile, htime, rfl⟩ := State.step_append hs
    have hend : s.start + (s.offset - s.start) ≤ s.file.length := by omega
    refine ⟨hfile, fun t ht => ?_, fun t ht => ?_, h.version, ⟨hstart, ?_⟩, ?_, ?_, h.opening⟩
    · exact List.mem_cons_of_mem _ (h.looked t ht)
    · exact List.mem_cons_of_mem _ (h.lastModified t ht)
    · rw [List.length_append]
      exact Nat.le_add_right_of_le hoffset
    · intro buffer hreader
      obtain ⟨n, hn, rfl⟩ := h.reading buffer hreader
      refine ⟨n, ?_, (take_drop_append hn).symm⟩
      rw [List.length_append]
      exact Nat.le_add_right_of_le hn
    · exact h.printed.trans (take_drop_append hend).symm
  | look =>
    obtain ⟨-, rfl⟩ := State.step_look hs
    refine ⟨h.file, fun t ht => ?_, h.lastModified, h.version, h.offset, h.reading, h.printed,
      h.opening⟩
    obtain rfl := Option.some_inj.mp ht
    exact List.mem_cons_self
  | notify =>
    obtain ⟨modified, hlooked, rfl⟩ := State.step_notify hs
    refine ⟨h.file, fun t ht => by simp at ht, fun t ht => ?_, ?_, h.offset, h.reading, h.printed,
      h.opening⟩
    · obtain rfl := Option.some_inj.mp ht
      exact h.looked _ hlooked
    · have hversion := h.version
      simp only
      split <;> omega
  | seekEnd =>
    obtain ⟨hreader, rfl⟩ := State.step_seekEnd hs
    refine ⟨h.file, h.looked, h.lastModified, h.version, ⟨Nat.le_refl _, Nat.le_refl _⟩,
      fun _ hr => by simp at hr, ?_, fun hr => by simp at hr⟩
    rw [(h.opening hreader).1, Nat.sub_self, List.take_zero]
    rfl
  | changed =>
    obtain ⟨-, -, rfl⟩ := State.step_changed hs
    refine ⟨h.file, h.looked, h.lastModified, Nat.le_refl _, h.offset, ?_, h.printed,
      fun hr => by simp at hr⟩
    intro buffer hreader
    obtain rfl := Reader.reading.inj hreader
    exact ⟨0, hoffset, by simp⟩
  | read n =>
    obtain ⟨buffer, hreader, -, hle, rfl⟩ := State.step_read hs
    refine ⟨h.file, h.looked, h.lastModified, h.version, h.offset, ?_, h.printed,
      fun hr => by simp at hr⟩
    intro buffer' hreader'
    obtain rfl := Reader.reading.inj hreader'
    obtain ⟨m, hm, rfl⟩ := h.reading buffer hreader
    rw [length_take_drop hm, Nat.add_assoc] at hle
    exact ⟨m + n, hle, State.take_append_take s.offset m n hm⟩
  | readEnd =>
    obtain ⟨buffer, hreader, hend, rfl⟩ := State.step_readEnd hs
    obtain ⟨-, heq⟩ | ⟨content, hcontent, heq⟩ := s.finish_eq buffer <;> rw [heq]
    · exact ⟨h.file, h.looked, h.lastModified, h.version, h.offset, fun _ hr => by simp at hr,
        h.printed, fun hr => by simp at hr⟩
    · obtain ⟨n, hn, rfl⟩ := h.reading buffer hreader
      rw [length_take_drop hn] at hend ⊢
      have hlow : s.start ≤ s.offset + n := by omega
      have hlength : s.offset + n - s.start = s.offset - s.start + n := by omega
      have hbegin : s.start + (s.offset - s.start) = s.offset := by omega
      refine ⟨h.file, h.looked, h.lastModified, h.version, ⟨hlow, hn⟩,
        fun _ hr => by simp at hr, ?_, fun hr => by simp at hr⟩
      rw [flatMap_printed, h.printed, hcontent, hlength, List.take_add, List.drop_drop, hbegin]

theorem Base.slice {text : String} {s : State} (h : Base text s) {i n : ℕ}
    (hn : i + n ≤ s.file.length) :
    (s.file.drop i).take n = ((utf8 text).drop i).take n := by
  obtain ⟨rest, hrest⟩ := h.file
  rw [← hrest, take_drop_append hn]

/-- The rest of the file is a string iff it is empty, or the offset and the end of the file
are between two characters. -/
theorem Base.isSome_ofUtf8 {text : String} {s : State} (h : Base text s) {n : ℕ}
    (hn : s.offset + n = s.file.length) :
    (ofUtf8 ((s.file.drop s.offset).take n)).isSome = true ↔
      n = 0 ∨ Boundary text s.offset ∧ Boundary text s.file.length := by
  have hle := h.file.length_le
  rw [h.slice (Nat.le_of_eq hn), isSome_ofUtf8_slice (by omega), hn]

/-- The invariant of the runs that start between two characters. -/
structure Inv (text : String) (s : State) : Prop extends Base text s where
  boundary : Boundary text s.offset
  noticed : s.reader = .waiting → s.offset = s.file.length ∨ ¬ Boundary text s.file.length ∨
    s.version ≠ s.seen ∨ s.lastModified ≠ some s.mtime

theorem Inv.new (text : String) (n mtime : ℕ) : Inv text (.new text n mtime) where
  toBase := .new text n mtime
  boundary := boundary_zero text
  noticed h := by cases h

theorem Inv.sound {text : String} {s : State} (h : Inv text s) : Sound text s where
  offset := h.offset
  printed := h.printed
  noticed hreader hlt hb := by
    rcases h.noticed hreader with heq | hnb | hnoticed
    · exact absurd heq (Nat.ne_of_lt hlt)
    · exact absurd hb hnb
    · exact hnoticed

theorem Inv.of_opening {text : String} {s : State} (h : Base text s)
    (hreader : s.reader = .opening) : Inv text s where
  toBase := h
  boundary := (h.opening hreader).2 ▸ boundary_zero text
  noticed hwaiting := by
    rw [hreader] at hwaiting
    cases hwaiting

/-- The reader opens the file once. -/
theorem started_step {text : String} {s s' : State} {e : Event} (h : s.reader ≠ .opening)
    (hs : s.step text e = some s') : s'.reader ≠ .opening := by
  cases e with
  | append chunk time =>
    obtain ⟨-, -, rfl⟩ := State.step_append hs
    exact h
  | look =>
    obtain ⟨-, rfl⟩ := State.step_look hs
    exact h
  | notify =>
    obtain ⟨modified, -, rfl⟩ := State.step_notify hs
    exact h
  | seekEnd =>
    exact absurd (State.step_seekEnd hs).1 h
  | changed =>
    obtain ⟨-, -, rfl⟩ := State.step_changed hs
    simp
  | read n =>
    obtain ⟨buffer, -, -, -, rfl⟩ := State.step_read hs
    simp
  | readEnd =>
    obtain ⟨buffer, -, -, rfl⟩ := State.step_readEnd hs
    obtain ⟨-, heq⟩ | ⟨content, -, heq⟩ := s.finish_eq buffer <;> simp [heq]

/-- The end of a read leaves nothing to read, or the file ends inside a character. -/
theorem Inv.finish {text : String} {s : State} (h : Inv text s) {buffer : List UInt8}
    (hreader : s.reader = .reading buffer) (hend : s.offset + buffer.length = s.file.length) :
    Boundary text (s.finish buffer).offset ∧
      ((s.finish buffer).offset = s.file.length ∨ ¬ Boundary text s.file.length) := by
  obtain ⟨n, hn, rfl⟩ := h.reading buffer hreader
  rw [length_take_drop hn] at hend
  have hiff := h.isSome_ofUtf8 hend
  obtain ⟨hnone, heq⟩ | ⟨content, hcontent, heq⟩ := s.finish_eq ((s.file.drop s.offset).take n) <;>
    rw [heq]
  · rw [hnone] at hiff
    have hnb : ¬ Boundary text s.file.length := fun hb =>
      absurd (hiff.mpr (.inr ⟨h.boundary, hb⟩)) (by simp)
    exact ⟨h.boundary, .inr hnb⟩
  · rw [← hcontent, ofUtf8_utf8] at hiff
    simp only [length_take_drop hn, hend]
    refine ⟨?_, .inl trivial⟩
    rcases hiff.mp rfl with hzero | ⟨-, hb⟩
    · rw [← hend, hzero]
      exact h.boundary
    · exact hb

theorem Inv.step {text : String} {s s' : State} {e : Event} (h : Inv text s)
    (hok : SeeksBoundary text s e) (hs : s.step text e = some s') : Inv text s' := by
  refine ⟨h.toBase.step hs, ?_, ?_⟩
  · cases e with
    | append chunk time =>
      obtain ⟨-, -, rfl⟩ := State.step_append hs
      exact h.boundary
    | look =>
      obtain ⟨-, rfl⟩ := State.step_look hs
      exact h.boundary
    | notify =>
      obtain ⟨modified, -, rfl⟩ := State.step_notify hs
      exact h.boundary
    | seekEnd =>
      obtain ⟨-, rfl⟩ := State.step_seekEnd hs
      exact hok rfl
    | changed =>
      obtain ⟨-, -, rfl⟩ := State.step_changed hs
      exact h.boundary
    | read n =>
      obtain ⟨buffer, -, -, -, rfl⟩ := State.step_read hs
      exact h.boundary
    | readEnd =>
      obtain ⟨buffer, hreader, hend, rfl⟩ := State.step_readEnd hs
      exact (h.finish hreader hend).1
  · intro hwaiting
    cases e with
    | append chunk time =>
      obtain ⟨-, htime, rfl⟩ := State.step_append hs
      exact .inr (.inr (.inr fun hlast => htime (h.lastModified time hlast)))
    | look =>
      obtain ⟨-, rfl⟩ := State.step_look hs
      exact h.noticed hwaiting
    | notify =>
      obtain ⟨modified, -, rfl⟩ := State.step_notify hs
      -- a watcher that has seen a new time reports it
      by_cases hlast : s.lastModified = some modified
      · simpa [hlast] using h.noticed hwaiting
      · have hversion := h.version
        refine .inr (.inr (.inl ?_))
        simp only [ne_eq, hlast, not_false_eq_true, if_true]
        omega
    | seekEnd =>
      obtain ⟨-, rfl⟩ := State.step_seekEnd hs
      exact .inl rfl
    | changed =>
      obtain ⟨-, -, rfl⟩ := State.step_changed hs
      cases hwaiting
    | read n =>
      obtain ⟨buffer, -, -, -, rfl⟩ := State.step_read hs
      cases hwaiting
    | readEnd =>
      obtain ⟨buffer, hreader, hend, rfl⟩ := State.step_readEnd hs
      have hdone := (h.finish hreader hend).2
      obtain ⟨-, heq⟩ | ⟨content, -, heq⟩ := s.finish_eq buffer <;> rw [heq] at hdone ⊢
      · exact hdone.imp_right .inl
      · exact hdone.imp_right .inl

/-! ### The start is inside a character -/

/-- The reader has started inside a character, and has not printed anything. -/
structure Broken (text : String) (s : State) : Prop extends Base text s where
  started : s.reader ≠ .opening
  boundary : ¬ Boundary text s.offset
  nothing : s.printed = [] ∧ s.offset = s.start

/-- Every read that starts inside a character fails. -/
theorem Broken.finish {text : String} {s : State} (h : Broken text s) {buffer : List UInt8}
    (hreader : s.reader = .reading buffer) (hend : s.offset + buffer.length = s.file.length) :
    ∃ offset, s.finish buffer = { s with reader := .waiting, offset } ∧ offset = s.offset := by
  obtain ⟨n, hn, rfl⟩ := h.reading buffer hreader
  rw [length_take_drop hn] at hend
  have hiff := h.isSome_ofUtf8 hend
  obtain ⟨-, heq⟩ | ⟨content, hcontent, heq⟩ := s.finish_eq ((s.file.drop s.offset).take n)
  · exact ⟨s.offset, heq, rfl⟩
  · rw [← hcontent, ofUtf8_utf8] at hiff
    have hzero : n = 0 := (hiff.mp rfl).resolve_right fun hb => h.boundary hb.1
    subst hzero
    have hempty : content = "" := by
      rw [← Option.some_inj, ← ofUtf8_utf8 content, hcontent, List.take_zero]
      exact ofUtf8_utf8 ""
    exact ⟨_, heq.trans (by rw [if_pos hempty]), by simp⟩

theorem Broken.step {text : String} {s s' : State} {e : Event} (h : Broken text s)
    (hs : s.step text e = some s') : Broken text s' := by
  have hbase := h.toBase.step hs
  cases e with
  | append chunk time =>
    obtain ⟨-, -, rfl⟩ := State.step_append hs
    exact ⟨hbase, h.started, h.boundary, h.nothing⟩
  | look =>
    obtain ⟨-, rfl⟩ := State.step_look hs
    exact ⟨hbase, h.started, h.boundary, h.nothing⟩
  | notify =>
    obtain ⟨modified, -, rfl⟩ := State.step_notify hs
    exact ⟨hbase, h.started, h.boundary, h.nothing⟩
  | seekEnd =>
    exact absurd (State.step_seekEnd hs).1 h.started
  | changed =>
    obtain ⟨-, -, rfl⟩ := State.step_changed hs
    exact ⟨hbase, by simp, h.boundary, h.nothing⟩
  | read n =>
    obtain ⟨buffer, -, -, -, rfl⟩ := State.step_read hs
    exact ⟨hbase, by simp, h.boundary, h.nothing⟩
  | readEnd =>
    obtain ⟨buffer, hreader, hend, rfl⟩ := State.step_readEnd hs
    obtain ⟨offset, heq, rfl⟩ := h.finish hreader hend
    rw [heq] at hbase ⊢
    exact ⟨hbase, by simp, h.boundary, h.nothing⟩

theorem Broken.of_seekEnd {text : String} {s s' : State} (h : Base text s)
    (hb : ¬ Boundary text s.file.length) (hs : s.step text .seekEnd = some s') :
    Broken text s' := by
  have hbase := h.step hs
  obtain ⟨hreader, rfl⟩ := State.step_seekEnd hs
  exact ⟨hbase, by simp, hb, (h.opening hreader).1, rfl⟩

/-- A reader that starts inside a character never prints anything. -/
theorem prints_nothing {text : String} {s t s' : State} (h : Base text s)
    (hb : ¬ Boundary text s.file.length) (ht : s.step text .seekEnd = some t)
    (hs : Reachable (State.step text) t s') : s'.printed = [] ∧ s'.offset = s'.start := by
  have hbroken : Broken text s' :=
    hs.invariant (.of_seekEnd h hb ht) fun _ _ _ _ hu he => hu.step he
  exact hbroken.nothing

/-- The watcher finishes its round. -/
theorem exists_idle (text : String) (s : State) : ∃ es u, run (State.step text) s es = some u ∧
    u.looked = none ∧ u.reader = s.reader ∧ u.file = s.file ∧ u.offset = s.offset := by
  cases hlooked : s.looked with
  | none => exact ⟨[], s, rfl, hlooked, rfl, rfl, rfl⟩
  | some modified =>
    refine ⟨[.notify], s.watchFileChanges modified, ?_, ?_⟩
    · simp [run, State.step, hlooked]
    · rw [State.watchFileChanges_eq]
      exact ⟨rfl, rfl, rfl, rfl⟩

theorem exists_fresh (times : List ℕ) : ∃ time, ∀ t ∈ times, t < time := by
  induction times with
  | nil => exact ⟨0, by simp⟩
  | cons t times ih =>
    obtain ⟨time, htime⟩ := ih
    refine ⟨max (t + 1) time, fun u hu => ?_⟩
    rcases List.mem_cons.mp hu with rfl | hu
    · omega
    · have hlt := htime u hu
      omega

/-- A reader that waits and has started inside a character may be told of the last change
and go on waiting, although it has not read the text to its end. -/
theorem Broken.exists_lost {text : String} {s : State} (h : Broken text s)
    (hwaiting : s.reader = .waiting) : ∃ es, ¬ Along (State.step text) (Sound text) s es := by
  obtain ⟨es, u, hu, hidle, hureader, -, -⟩ := exists_idle text s
  have hbroken : Broken text u :=
    run_invariant (I := Broken text) (fun _ _ _ ht he => ht.step he) h hu
  obtain ⟨rest, hrest⟩ := hbroken.file
  obtain ⟨time, hfresh⟩ := exists_fresh (u.mtime :: u.past)
  have htime : time ∉ u.mtime :: u.past := fun hmem => Nat.lt_irrefl time (hfresh time hmem)
  have hlast : u.lastModified ≠ some time := fun hlast => htime (hbroken.lastModified time hlast)
  have hlt : u.offset < (utf8 text).length := by
    refine Nat.lt_of_le_of_ne (hbroken.offset.2.trans hbroken.file.length_le) fun heq => ?_
    exact hbroken.boundary (heq ▸ boundary_length text)
  -- the writer appends the rest, the watcher reports it, and the read of it fails
  let u₁ : State := { u with file := utf8 text, mtime := time, past := u.mtime :: u.past }
  let u₂ : State := { u₁ with looked := some time }
  let u₃ : State :=
    { u₁ with looked := none, lastModified := some time, version := u.version + 1 }
  let u₄ : State := { u₃ with reader := .reading [], seen := u.version + 1 }
  let buffer := ((utf8 text).drop (u.offset + 0)).take ((utf8 text).length - u.offset)
  let u₅ : State := { u₄ with reader := .reading buffer }
  have h₁ : u.step text (.append rest time) = some u₁ := by
    simp only [State.step, hrest, u₁]
    rw [if_pos ⟨List.isPrefixOf_iff_prefix.mpr List.prefix_rfl, htime⟩]
  have h₂ : u₁.step text .look = some u₂ := if_pos hidle
  have h₃ : u₂.step text .notify = some u₃ := by
    simp [State.step, State.watchFileChanges, u₁, u₂, u₃, hlast]
  have h₄ : u₃.step text .changed = some u₄ := by
    have hversion := hbroken.version
    have hne : u.version + 1 ≠ u.seen := by omega
    exact if_pos ⟨hureader.trans hwaiting, hne⟩
  have h₅ : u₄.step text (.read ((utf8 text).length - u.offset)) = some u₅ := by
    have hn : 0 < (utf8 text).length - u.offset := by omega
    have hle : u.offset + 0 + ((utf8 text).length - u.offset) ≤ (utf8 text).length := by omega
    exact if_pos ⟨hn, hle⟩
  have hu₅ : Broken text u₅ :=
    ((((hbroken.step h₁).step h₂).step h₃).step h₄).step h₅
  have hend : u.offset + buffer.length = (utf8 text).length := by
    rw [length_take_drop (by omega)]
    omega
  have hreading : u₅.reader = .reading buffer := rfl
  obtain ⟨offset, heq, hoffset⟩ := hu₅.finish hreading hend
  have h₆ : u₅.step text .readEnd = some { u₅ with reader := .waiting, offset } := by
    show (if _ then some _ else none) = _
    rw [if_pos hend, heq]
  refine ⟨es ++ [.append rest time, .look, .notify, .changed,
    .read ((utf8 text).length - u.offset), .readEnd], fun halong => ?_⟩
  have hsound := halong.final (run_append_eq_some.mpr ⟨u, hu, run_cons_eq_some.mpr ⟨u₁, h₁,
    run_cons_eq_some.mpr ⟨u₂, h₂, run_cons_eq_some.mpr ⟨u₃, h₃, run_cons_eq_some.mpr ⟨u₄, h₄,
    run_cons_eq_some.mpr ⟨u₅, h₅, run_cons_eq_some.mpr ⟨_, h₆, rfl⟩⟩⟩⟩⟩⟩⟩)
  rcases hsound.noticed rfl (hoffset ▸ hlt) (boundary_length text) with hne | hne
  · exact hne rfl
  · exact hne rfl

/-- **When nothing is lost.**  A run is sound in all its states if the file ends between two
characters when the reader seeks its end; and after that, all runs are sound only then. -/
theorem tail_sound_iff (text : String) (n mtime : ℕ) :
    (∀ es, Meets (State.step text) (SeeksBoundary text) (.new text n mtime) es →
        Along (State.step text) (Sound text) (.new text n mtime) es) ∧
      ∀ s, Reachable (State.step text) (.new text n mtime) s → s.reader = .opening →
        ((∀ es, Along (State.step text) (Sound text) s (.seekEnd :: es)) ↔
          Boundary text s.file.length) := by
  have hinv : ∀ t e t', Inv text t → SeeksBoundary text t e → t.step text e = some t' →
      Inv text t' := fun _ _ _ h hok he => h.step hok he
  refine ⟨fun es => along_of_meets (fun _ h => h.sound) hinv (.new text n mtime),
    fun s hs hreader => ?_⟩
  have hbase : Base text s :=
    hs.invariant (.new text n mtime) fun _ _ _ _ h he => h.step he
  let t : State :=
    { s with reader := .waiting, start := s.file.length, offset := s.file.length }
  have ht : s.step text .seekEnd = some t := if_pos hreader
  constructor
  · intro hall
    by_contra hb
    obtain ⟨es, hes⟩ := (Broken.of_seekEnd hbase hb ht).exists_lost rfl
    exact hes ((hall es).2 t ht)
  · intro hb es
    have hs : Inv text s := .of_opening hbase hreader
    refine ⟨hs.sound, fun u hu => ?_⟩
    obtain rfl := Option.some_inj.mp (ht.symm.trans hu)
    refine along_of_invariant (I := fun u => Inv text u ∧ u.reader ≠ .opening)
      (fun _ h => h.1.sound) (fun v e v' hv he => ⟨hv.1.step (fun hseek => ?_) he,
        started_step hv.2 he⟩) es ⟨hs.step (fun _ => hb) ht, by simp [t]⟩
    subst hseek
    exact absurd (State.step_seekEnd he).1 hv.2

/-- The writer has appended the first byte of 'é' when the reader seeks the end. -/
theorem inside_character :
    ¬ ∀ es, Along (State.step "é") (Sound "é") (.new "é" 0 0) es := by
  intro hall
  have hrun : (run (State.step "é") (.new "é" 0 0) [.append [0xC3] 1, .seekEnd, .append [0xA9] 2,
      .look, .notify, .changed, .read 1, .readEnd]).map
        (fun s => ((s.reader, s.offset, s.file), (s.version, s.seen), s.lastModified, s.mtime)) =
      some ((.waiting, 1, [0xC3, 0xA9]), (1, 1), some 2, 2) := by decide
  obtain ⟨s, hs, hfacts⟩ := Option.map_eq_some_iff.mp hrun
  simp only [Prod.mk.injEq] at hfacts
  obtain ⟨⟨hreader, hoffset, hfile⟩, ⟨hversion, hseen⟩, hlast, hmtime⟩ := hfacts
  have hlt : s.offset < s.file.length := by simp [hoffset, hfile]
  have hb : Boundary "é" s.file.length := hfile ▸ boundary_length "é"
  rcases ((hall _).final hs).noticed hreader hlt hb with hne | hne
  · exact hne (hversion.trans hseen.symm)
  · exact hne (by rw [hlast, hmtime])

end TailFile
