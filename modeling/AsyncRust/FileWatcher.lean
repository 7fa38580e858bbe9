/-
A file that one program appends to and another one prints (`5-file-writer/src/main.rs`,
`4-file-watcher/src/main.rs`).

The writer opens the file for each line, and creates it if need be.  It does not wait until
the line is written: `write_all` hands it to a thread of `tokio`, nobody flushes the file, and
the next file may be opened in the meantime.  The watcher compares the modification time with
the last one that it has seen and reports a change through a watch channel; the reader waits
for a change and prints the whole file.  While there is no file, the watcher looks again
without a pause.  Errors of the file system are left out.

* `State.step` — the turns of the writer, of its writes, of the watcher and of the reader;
* `prints_the_file` — every content that is printed extends the one before, the last one is
  the file whenever no change is on its way, and the reader never panics;
* `catches_up` — the watcher and the reader get there by themselves.
-/
import AsyncRust.ByteFormat
import AsyncRust.Lists
import AsyncRust.Runs
import AsyncRust.Segments

namespace FileWatcher

open ByteFormat Lists Runs Segments

/-! ### The programs -/

/-- The alphabet of `nanoid!()`. -/
def alphabet : List Char :=
  "_-0123456789abcdefghijklmnopqrstuvwxyzABCDEFGHIJKLMNOPQRSTUVWXYZ".toList

/-- What `nanoid!()` returns. -/
def isNanoid (id : String) : Bool := id.length = 21 && id.toList.all (alphabet.contains ·)

/-- The writer is about to take the next id, or to open the file for a line. -/
inductive Writer where
  | idle
  | opening (line : List UInt8)
  deriving DecidableEq, Repr

/-- The reader waits for a change, opens the file, has put these bytes into its buffer, or has
panicked. -/
inductive Reader where
  | waiting
  | opening
  | reading (buffer : List UInt8)
  | panicked
  deriving DecidableEq, Repr

/-- A file, with the modification times that it had before. -/
structure File where
  content : List UInt8
  modified : ℕ
  past : List ℕ
  deriving DecidableEq, Repr

/-- `writes` are what is left to write of each line that was handed on.  `looked` is the
modification time that the watcher has just read, and `version` and `seen` are those of the
watch channel and of its receiver.  `ids` are the lines that the writer has printed, and
`printed` the contents that the reader has. -/
structure State where
  file : Option File
  writer : Writer
  writes : List (List UInt8)
  ids : List String
  looked : Option ℕ
  lastModified : Option ℕ
  version : ℕ
  seen : ℕ
  reader : Reader
  printed : List String
  deriving DecidableEq, Repr

/-- The programs start, when there is a file already or not. -/
def State.new (file : Option File) : State :=
  ⟨file, .idle, [], [], none, none, 0, 0, .waiting, []⟩

/-- A change of the file comes with its modification time; `write` puts the next bytes of a line
into it, and `readEnd` is a read that returns no byte. -/
inductive Event where
  | next (id : String)
  | openAppend (time : ℕ)
  | write (k n time : ℕ)
  | look
  | notify
  | changed
  | openFile
  | read (n : ℕ)
  | readEnd
  deriving DecidableEq, Repr

/-- The event is one of the writer. -/
def Event.isWriter : Event → Bool
  | .next _ | .openAppend _ | .write _ _ _ => true
  | _ => false

namespace State

def line (id : String) : List UInt8 := utf8 (id ++ "\n")

/-- `OpenOptions::open`, with `create`, and the `write_all`, which returns at once. -/
def openAppend (s : State) (line : List UInt8) (time : ℕ) : State :=
  { s with
    file := some (s.file.getD ⟨[], time, []⟩)
    writer := .idle
    writes := s.writes ++ [line] }

/-- The end of a round of `watch_file_changes`. -/
def watchFileChanges (s : State) (modified : ℕ) : State :=
  if s.lastModified ≠ some modified then
    { s with looked := none, lastModified := some modified, version := s.version + 1 }
  else { s with looked := none }

/-- `read_file` has reached the end of the file, and its result is unwrapped. -/
def finish (s : State) (buffer : List UInt8) : State :=
  match ofUtf8 buffer with
  | some contents => { s with reader := .waiting, printed := s.printed ++ [contents] }
  | none => { s with reader := .panicked }

/-- One turn of the writer, one of its writes, the watcher or the reader. -/
def step (s : State) : Event → Option State
  | .next id =>
    if s.writer = .idle ∧ isNanoid id then
      some { s with writer := .opening (line id), ids := s.ids ++ [id] }
    else none
  | .openAppend time =>
    match s.writer with
    | .opening line => some (s.openAppend line time)
    | .idle => none
  | .write k n time =>
    match s.writes[k]?, s.file with
    | some rest, some file =>
      if 0 < n ∧ n ≤ rest.length then
        some { s with
          file := some ⟨file.content ++ rest.take n, time, file.modified :: file.past⟩
          writes := s.writes.set k (rest.drop n) }
      else none
    | _, _ => none
  | .look => if s.looked = none then some { s with looked := s.file.map File.modified } else none
  | .notify => s.looked.map s.watchFileChanges
  | .changed =>
    if s.reader = .waiting ∧ s.version ≠ s.seen then
      some { s with reader := .opening, seen := s.version }
    else none
  | .openFile =>
    if s.reader = .opening then
      some { s with reader := if s.file.isSome then .reading [] else .panicked }
    else none
  | .read n =>
    match s.reader, s.file with
    | .reading buffer, some file =>
      if 0 < n ∧ buffer.length + n ≤ file.content.length then
        some { s with reader := .reading (buffer ++ (file.content.drop buffer.length).take n) }
      else none
    | _, _ => none
  | .readEnd =>
    match s.reader, s.file with
    | .reading buffer, some file =>
      if buffer.length = file.content.length then some (s.finish buffer) else none
    | _, _ => none

/-- A turn of the watcher or of the reader. -/
def readStep (s : State) (e : Event) : Option State := if e.isWriter then none else s.step e

end State

/-! ### What is claimed of it -/

/-- What the writer has printed. -/
def lines (ids : List String) : List UInt8 := ids.flatMap State.line

/-- What the file holds, if there is one. -/
def content (file : Option File) : List UInt8 := file.elim [] File.content

/-- What the file holds is text. -/
def Textual (file : Option File) : Prop := ∃ text, utf8 text = content file

/-- The line that the writer has printed and not handed on yet. -/
def Writer.line : Writer → List (List UInt8)
  | .idle => []
  | .opening line => [line]

/-- The file has grown by the pieces of the lines: those of a line, and what is left to write of
it, are the line. -/
structure Grown (old : List UInt8) (file : Option File) (writer : Writer)
    (writes : List (List UInt8)) (ids : List String) (segments : List (ℕ × List UInt8)) : Prop where
  content : content file = old ++ whole segments
  bound : ∀ segment ∈ segments, segment.1 < writes.length
  length : (writes ++ writer.line).length = ids.length
  line : ∀ (k : ℕ) rest, (writes ++ writer.line)[k]? = some rest →
    ∃ id, ids[k]? = some id ∧ part segments k ++ rest = State.line id

/-- When a file is opened, all that was handed on is written. -/
def State.InTurn (s : State) : Event → Prop
  | .openAppend _ => ∀ rest ∈ s.writes, rest = []
  | _ => True

/-! ### Lines -/

variable {old : List UInt8} {s s' : State} {e : Event} {segments : List (ℕ × List UInt8)}

theorem lt_of_mem_line {id : String} (h : isNanoid id = true) {b : UInt8}
    (hb : b ∈ State.line id) : b.toNat < 0x80 := by
  refine lt_of_mem_utf8 (fun c hc => ?_) hb
  rw [String.toList_append, List.mem_append] at hc
  have halphabet : alphabet.all (·.toNat < 0x80) = true := by decide
  rcases hc with hc | hc
  · have hall := (Bool.and_eq_true_iff.mp h).2
    have hmem : c ∈ alphabet := by simpa using List.all_eq_true.mp hall c hc
    simpa using List.all_eq_true.mp halphabet c hmem
  · obtain rfl : c = '\n' := by simpa using hc
    decide

namespace Grown

variable {file : Option File} {writer : Writer} {writes : List (List UInt8)} {ids : List String}

/-- What the file holds in between is text, too. -/
theorem textual (h : Grown old file writer writes ids segments)
    (hids : ∀ id ∈ ids, isNanoid id = true) (hold : ∃ text, utf8 text = old) : Textual file := by
  have hlt : ∀ b ∈ whole segments, b.toNat < 0x80 := by
    intro b hb
    obtain ⟨segment, hsegment, hb⟩ := mem_whole hb
    have hk : segment.1 < (writes ++ writer.line).length := by
      rw [List.length_append]
      exact Nat.lt_add_right _ (h.bound segment hsegment)
    obtain ⟨id, hid, hline⟩ := h.line _ _ (List.getElem?_eq_getElem hk)
    exact lt_of_mem_line (hids id (List.mem_of_getElem? hid)) (hline ▸ List.mem_append_left _ hb)
  obtain ⟨text, rfl⟩ := hold
  obtain ⟨new, hnew⟩ := exists_utf8_of_lt hlt
  exact ⟨text ++ new, by rw [utf8_append, hnew, h.content]⟩

theorem new (file : Option File) : Grown (FileWatcher.content file) file .idle [] [] [] where
  content := (List.append_nil _).symm
  bound := List.forall_mem_nil _
  length := rfl
  line k rest h := by cases h

theorem next (h : Grown old file .idle writes ids segments) (id : String) :
    Grown old file (.opening (State.line id)) writes (ids ++ [id]) segments := by
  obtain ⟨hcontent, hbound, hlength, hline⟩ := h
  rw [Writer.line, List.append_nil] at hlength hline
  refine ⟨hcontent, hbound, ?_, fun k rest hrest => ?_⟩
  · simp only [Writer.line, List.length_append, List.length_singleton, hlength]
  · rcases getElem?_concat_cases hrest with ⟨hk, hrest⟩ | ⟨rfl, rfl⟩
    · obtain ⟨id', hid', hrest⟩ := hline k rest hrest
      exact ⟨id', by rw [List.getElem?_append_left (hlength ▸ hk), hid'], hrest⟩
    · -- nothing of the line is written
      have hnil : part segments writes.length = [] :=
        part_eq_nil fun segment hsegment => Nat.ne_of_lt (hbound segment hsegment)
      exact ⟨id, by rw [hlength, List.getElem?_concat_length], by rw [hnil, List.nil_append]⟩

theorem openAppend {line : List UInt8} (h : Grown old file (.opening line) writes ids segments)
    (time : ℕ) :
    Grown old (some (file.getD ⟨[], time, []⟩)) .idle (writes ++ [line]) ids segments := by
  obtain ⟨hcontent, hbound, hlength, hline⟩ := h
  have hleft : writes ++ [line] ++ Writer.idle.line = writes ++ (Writer.opening line).line :=
    List.append_nil _
  refine ⟨?_, fun segment hsegment => ?_, hleft.symm ▸ hlength, hleft.symm ▸ hline⟩
  · rw [← hcontent]
    cases file <;> rfl
  · rw [List.length_append]
    exact Nat.lt_add_right _ (hbound segment hsegment)

theorem write {f : File} (h : Grown old (some f) writer writes ids segments) {k : ℕ}
    {rest : List UInt8} (hrest : writes[k]? = some rest) (n time : ℕ) :
    Grown old (some ⟨f.content ++ rest.take n, time, f.modified :: f.past⟩) writer
      (writes.set k (rest.drop n)) ids (segments ++ [(k, rest.take n)]) := by
  obtain ⟨hcontent, hbound, hlength, hline⟩ := h
  have hk : k < writes.length := (List.getElem?_eq_some_iff.mp hrest).1
  have hleft : writes.set k (rest.drop n) ++ writer.line =
      (writes ++ writer.line).set k (rest.drop n) := (List.set_append_left _ _ hk).symm
  refine ⟨?_, fun segment hsegment => ?_, ?_, fun j rest' hrest' => ?_⟩
  · rw [whole_concat, ← List.append_assoc, ← hcontent]
    rfl
  · rw [List.length_set]
    rcases List.mem_append.mp hsegment with hsegment | hsegment
    · exact hbound segment hsegment
    · rw [List.mem_singleton.mp hsegment]
      exact hk
  · rw [hleft, List.length_set, hlength]
  · rw [hleft] at hrest'
    rcases getElem?_set_cases hrest' with ⟨rfl, rfl⟩ | ⟨hne, hrest'⟩
    · obtain ⟨id, hid, hline⟩ := hline j rest (by rw [List.getElem?_append_left hk, hrest])
      exact ⟨id, hid, by rw [part_concat_self, List.append_assoc, List.take_append_drop, hline]⟩
    · rw [part_concat_of_ne (Ne.symm hne)]
      exact hline j rest' hrest'

end Grown

/-! ### Steps -/

/-- All that a step can do. -/
inductive StepCase (s : State) : Event → State → Prop
  | next {id : String} (hwriter : s.writer = .idle) (hid : isNanoid id = true) :
    StepCase s (.next id) { s with writer := .opening (State.line id), ids := s.ids ++ [id] }
  | openAppend {line : List UInt8} {time : ℕ} (hwriter : s.writer = .opening line) :
    StepCase s (.openAppend time) (s.openAppend line time)
  | write {k n time : ℕ} {rest : List UInt8} {file : File} (hrest : s.writes[k]? = some rest)
    (hfile : s.file = some file) (hn : 0 < n) (hle : n ≤ rest.length) :
    StepCase s (.write k n time) { s with
      file := some ⟨file.content ++ rest.take n, time, file.modified :: file.past⟩
      writes := s.writes.set k (rest.drop n) }
  | look (hlooked : s.looked = none) :
    StepCase s .look { s with looked := s.file.map File.modified }
  | notify {modified : ℕ} (hlooked : s.looked = some modified) :
    StepCase s .notify (s.watchFileChanges modified)
  | changed (hreader : s.reader = .waiting) (hseen : s.version ≠ s.seen) :
    StepCase s .changed { s with reader := .opening, seen := s.version }
  | openFile (hreader : s.reader = .opening) :
    StepCase s .openFile { s with reader := if s.file.isSome then .reading [] else .panicked }
  | read {n : ℕ} {buffer : List UInt8} {file : File} (hreader : s.reader = .reading buffer)
    (hfile : s.file = some file) (hle : buffer.length + n ≤ file.content.length) :
    StepCase s (.read n) { s with
      reader := .reading (buffer ++ (file.content.drop buffer.length).take n) }
  | readEnd {buffer : List UInt8} {file : File} (hreader : s.reader = .reading buffer)
    (hfile : s.file = some file) (hlength : buffer.length = file.content.length) :
    StepCase s .readEnd (s.finish buffer)

theorem step_cases (h : s.step e = some s') : StepCase s e s' := by
  cases e with
  | next id =>
    simp only [State.step, Option.ite_none_right_eq_some, Option.some_inj] at h
    obtain ⟨⟨hwriter, hid⟩, rfl⟩ := h
    exact .next hwriter hid
  | openAppend time =>
    simp only [State.step] at h
    split at h
    · rename_i line hwriter
      obtain rfl := Option.some_inj.mp h
      exact .openAppend hwriter
    · cases h
  | write k n time =>
    simp only [State.step] at h
    split at h
    · rename_i rest file hrest hfile
      simp only [Option.ite_none_right_eq_some, Option.some_inj] at h
      obtain ⟨⟨hn, hle⟩, rfl⟩ := h
      exact .write hrest hfile hn hle
    · cases h
  | look =>
    simp only [State.step, Option.ite_none_right_eq_some, Option.some_inj] at h
    obtain ⟨hlooked, rfl⟩ := h
    exact .look hlooked
  | notify =>
    obtain ⟨modified, hlooked, rfl⟩ := Option.map_eq_some_iff.mp h
    exact .notify hlooked
  | changed =>
    simp only [State.step, Option.ite_none_right_eq_some, Option.some_inj] at h
    obtain ⟨⟨hreader, hseen⟩, rfl⟩ := h
    exact .changed hreader hseen
  | openFile =>
    simp only [State.step, Option.ite_none_right_eq_some, Option.some_inj] at h
    obtain ⟨hreader, rfl⟩ := h
    exact .openFile hreader
  | read n =>
    simp only [State.step] at h
    split at h
    · rename_i buffer file hreader hfile
      simp only [Option.ite_none_right_eq_some, Option.some_inj] at h
      obtain ⟨⟨-, hle⟩, rfl⟩ := h
      exact .read hreader hfile hle
    · cases h
  | readEnd =>
    simp only [State.step] at h
    split at h
    · rename_i buffer file hreader hfile
      simp only [Option.ite_none_right_eq_some, Option.some_inj] at h
      obtain ⟨hlength, rfl⟩ := h
      exact .readEnd hreader hfile hlength
    · cases h

/-! ### The invariant -/

/-- The file has had the modification time `time`. -/
def State.Had (s : State) (time : ℕ) : Prop :=
  ∃ file, s.file = some file ∧ time ∈ file.modified :: file.past

structure Sound (old : List UInt8) (s : State) : Prop where
  text : ∃ text, utf8 text = old
  ids : ∀ id ∈ s.ids, isNanoid id = true
  grown : ∃ segments, Grown old s.file s.writer s.writes s.ids segments
  looked : ∀ time, s.looked = some time → s.Had time
  lastModified : ∀ time, s.lastModified = some time → s.Had time
  missing : s.file = none → s.version = 0
  version : s.seen ≤ s.version
  alive : s.reader ≠ .panicked
  opening : s.reader = .opening → 0 < s.version
  reading : ∀ buffer, s.reader = .reading buffer →
    s.file.isSome = true ∧ buffer <+: content s.file
  printed : ∀ contents ∈ s.printed, utf8 contents <+: content s.file
  grows : s.printed.Pairwise fun contents contents' => utf8 contents <+: utf8 contents'
  caughtUp : ∀ file, s.file = some file → file.modified ∉ file.past →
    s.reader = .waiting → s.seen = s.version → s.lastModified = some file.modified →
    ∃ contents, s.printed.getLast? = some contents ∧ utf8 contents = file.content

theorem sound_new {file : Option File} (h : Textual file) : Sound (content file) (.new file) := by
  refine ⟨h, by simp [State.new], ⟨[], .new file⟩, ?_, ?_, ?_, ?_, ?_, ?_, ?_, ?_, ?_, ?_⟩ <;>
    simp [State.new]

theorem content_eq {file : File} (hfile : s.file = some file) : content s.file = file.content := by
  rw [hfile]
  rfl

theorem Sound.next (hs : Sound old s) {id : String} (hwriter : s.writer = .idle)
    (hid : isNanoid id = true) :
    Sound old { s with writer := .opening (State.line id), ids := s.ids ++ [id] } :=
  { hs with
    ids := by
      intro id' hid'
      rcases List.mem_append.mp hid' with hid' | hid'
      · exact hs.ids id' hid'
      · exact List.mem_singleton.mp hid' ▸ hid
    grown := by
      obtain ⟨segments, hgrown⟩ := hs.grown
      rw [hwriter] at hgrown
      exact ⟨segments, hgrown.next id⟩ }

theorem Sound.openAppend (hs : Sound old s) {line : List UInt8} (hwriter : s.writer = .opening line)
    (time : ℕ) : Sound old (s.openAppend line time) := by
  have hhad (t : ℕ) (ht : s.Had t) : (s.openAppend line time).Had t := by
    obtain ⟨file, hfile, ht⟩ := ht
    exact ⟨file, by rw [State.openAppend, hfile, Option.getD_some], ht⟩
  have hcontent : content (s.openAppend line time).file = content s.file := by
    rw [State.openAppend]
    cases s.file <;> rfl
  exact
    { hs with
      grown := by
        obtain ⟨segments, hgrown⟩ := hs.grown
        rw [hwriter] at hgrown
        exact ⟨segments, hgrown.openAppend time⟩
      looked := fun t ht => hhad t (hs.looked t ht)
      lastModified := fun t ht => hhad t (hs.lastModified t ht)
      missing := fun hnone => by cases hnone
      reading := fun buffer h => ⟨rfl, by rw [hcontent]; exact (hs.reading buffer h).2⟩
      printed := fun contents h => by rw [hcontent]; exact hs.printed contents h
      caughtUp := fun file hfile hmodified hreader hseen hlast => by
        -- the file has not just been created
        obtain ⟨file', hfile', -⟩ := hs.lastModified _ hlast
        refine hs.caughtUp file ?_ hmodified hreader hseen hlast
        rwa [State.openAppend, hfile', Option.getD_some, ← hfile'] at hfile }

theorem Sound.write (hs : Sound old s) {k : ℕ} {rest : List UInt8} {file : File}
    (hrest : s.writes[k]? = some rest) (hfile : s.file = some file) (n time : ℕ) :
    Sound old { s with
      file := some ⟨file.content ++ rest.take n, time, file.modified :: file.past⟩
      writes := s.writes.set k (rest.drop n) } := by
  have hbegins : content s.file <+: file.content ++ rest.take n := by
    rw [content_eq hfile]
    exact List.prefix_append _ _
  have hhad (t : ℕ) (ht : s.Had t) : t ∈ file.modified :: file.past := by
    obtain ⟨file', hfile', ht⟩ := ht
    rw [hfile, Option.some_inj] at hfile'
    exact hfile' ▸ ht
  exact
    { hs with
      grown := by
        obtain ⟨segments, hgrown⟩ := hs.grown
        rw [hfile] at hgrown
        exact ⟨_, hgrown.write hrest n time⟩
      looked := fun t ht => ⟨_, rfl, List.mem_cons_of_mem _ (hhad t (hs.looked t ht))⟩
      lastModified := fun t ht =>
        ⟨_, rfl, List.mem_cons_of_mem _ (hhad t (hs.lastModified t ht))⟩
      missing := fun hnone => by cases hnone
      reading := fun buffer h => ⟨rfl, (hs.reading buffer h).2.trans hbegins⟩
      printed := fun contents h => (hs.printed contents h).trans hbegins
      caughtUp := fun file' hfile' hmodified _ _ hlast => by
        -- the watcher has not seen this modification time
        obtain rfl := Option.some_inj.mp hfile'
        exact absurd (hhad time (hs.lastModified time hlast)) hmodified }

theorem Sound.watchFileChanges (hs : Sound old s) {modified : ℕ}
    (hlooked : s.looked = some modified) : Sound old (s.watchFileChanges modified) := by
  have hhad : s.Had modified := hs.looked modified hlooked
  unfold State.watchFileChanges
  split
  · exact
      { hs with
        looked := fun t ht => by cases ht
        lastModified := fun t ht => Option.some_inj.mp ht ▸ hhad
        missing := fun hnone => by
          obtain ⟨file, hfile, -⟩ := hhad
          cases hfile.symm.trans hnone
        version := Nat.le_succ_of_le hs.version
        opening := fun _ => Nat.succ_pos _
        -- the reader has not seen this version
        caughtUp := fun _ _ _ _ hseen _ =>
          absurd hs.version (by rw [hseen]; exact Nat.not_succ_le_self _) }
  · exact { hs with looked := fun t ht => by cases ht }

theorem Sound.finish (hs : Sound old s) {file : File} (hfile : s.file = some file) :
    Sound old (s.finish file.content) := by
  have hcontent : content s.file = file.content := content_eq hfile
  obtain ⟨segments, hgrown⟩ := hs.grown
  obtain ⟨contents, hcontents⟩ := hgrown.textual hs.ids hs.text
  rw [hcontent] at hcontents
  unfold State.finish
  rw [← hcontents, ofUtf8_utf8]
  simp only
  refine
    { hs with
      alive := by simp
      opening := fun h => by cases h
      reading := fun _ h => by cases h
      printed := fun contents' hmem => ?_
      grows := ?_
      caughtUp := fun file' hfile' _ _ _ _ => ⟨contents, by simp, ?_⟩ }
  · rcases List.mem_append.mp hmem with hmem | hmem
    · exact hs.printed contents' hmem
    · obtain rfl := List.mem_singleton.mp hmem
      exact ⟨[], (List.append_nil _).trans (hcontents.trans hcontent.symm)⟩
  · refine List.pairwise_append.mpr ⟨hs.grows, List.pairwise_singleton _ _, fun a ha b hb => ?_⟩
    rw [List.mem_singleton.mp hb, hcontents, ← hcontent]
    exact hs.printed a ha
  · rw [hcontents, Option.some_inj.mp (hfile.symm.trans hfile')]

theorem Sound.step (hs : Sound old s) (h : s.step e = some s') : Sound old s' := by
  cases step_cases h with
  | next hwriter hid => exact hs.next hwriter hid
  | openAppend hwriter => exact hs.openAppend hwriter _
  | write hrest hfile => exact hs.write hrest hfile _ _
  | look hlooked =>
    refine { hs with looked := fun t ht => ?_ }
    obtain ⟨file, hfile, rfl⟩ := Option.map_eq_some_iff.mp ht
    exact ⟨file, hfile, List.mem_cons_self⟩
  | notify hlooked => exact hs.watchFileChanges hlooked
  | changed hreader hseen =>
    have hversion : 0 < s.version := by
      have hle : s.seen ≤ s.version := hs.version
      omega
    exact
      { hs with
        version := Nat.le_refl _
        alive := by simp
        opening := fun _ => hversion
        reading := fun _ h => by cases h
        caughtUp := fun _ _ _ h => by cases h }
  | openFile hreader =>
    -- there is a file, as there has been a change
    have hfile : s.file.isSome = true := by
      rw [Option.isSome_iff_ne_none]
      intro hnone
      exact absurd (hs.opening hreader) (by rw [hs.missing hnone]; exact Nat.lt_irrefl 0)
    rw [if_pos hfile]
    exact
      { hs with
        alive := by simp
        opening := fun h => by cases h
        reading := fun buffer h => by
          cases h
          exact ⟨hfile, List.nil_prefix⟩
        caughtUp := fun _ _ _ h => by cases h }
  | read hreader hfile =>
    obtain ⟨hsome, hbuffer⟩ := hs.reading _ hreader
    refine
      { hs with
        alive := by simp
        opening := fun h => by cases h
        reading := fun buffer' h => ?_
        caughtUp := fun _ _ _ h => by cases h }
    cases h
    refine ⟨hsome, ?_⟩
    show _ <+: content s.file
    rw [content_eq hfile] at hbuffer ⊢
    obtain ⟨back, hback⟩ := hbuffer
    rw [← hback, List.drop_left]
    exact (List.prefix_append_right_inj _).mpr (List.take_prefix _ _)
  | readEnd hreader hfile hlength =>
    obtain ⟨-, hbuffer⟩ := hs.reading _ hreader
    rw [content_eq hfile] at hbuffer
    rw [hbuffer.eq_of_length hlength]
    exact hs.finish hfile

theorem sound_of_reachable {file : Option File} (hfile : Textual file)
    (h : Reachable State.step (.new file) s) : Sound (content file) s := by
  obtain ⟨es, hes⟩ := h
  exact run_invariant (fun _ _ _ hs hstep => hs.step hstep) (sound_new hfile) hes

/-! ### In turn -/

/-- The file has grown by whole lines and the beginning of one; only the last line that was
handed on may not be written. -/
structure Ordered (old : List UInt8) (s : State) : Prop where
  content : old ++ lines s.ids = content s.file ++ s.writes.flatten ++ s.writer.line.flatten
  done : ∀ (k : ℕ) rest, s.writes[k]? = some rest → k + 1 < s.writes.length → rest = []

theorem Ordered.write (h : Ordered old s) {k : ℕ} {rest : List UInt8} {file : File}
    (hrest : s.writes[k]? = some rest) (hfile : s.file = some file) {n : ℕ} (hn : 0 < n)
    (hle : n ≤ rest.length) (time : ℕ) :
    Ordered old { s with
      file := some ⟨file.content ++ rest.take n, time, file.modified :: file.past⟩
      writes := s.writes.set k (rest.drop n) } := by
  obtain ⟨hk, -⟩ := List.getElem?_eq_some_iff.mp hrest
  have hlast : k + 1 = s.writes.length := by
    by_contra hne
    have hnil := h.done k rest hrest (by omega)
    rw [hnil, List.length_nil] at hle
    omega
  obtain ⟨front, last, hwrites⟩ : ∃ front last, s.writes = front ++ [last] :=
    ⟨_, _, (List.dropLast_append_getLast (List.length_pos_iff.mp (by omega))).symm⟩
  have hfront : k = front.length := by
    rw [hwrites, List.length_append, List.length_singleton] at hlast
    omega
  obtain rfl : last = rest := by simpa [hwrites, hfront] using hrest
  have hnil : front.flatten = [] := by
    refine List.flatten_eq_nil_iff.mpr fun rest' hmem => ?_
    obtain ⟨j, hj⟩ := List.mem_iff_getElem?.mp hmem
    have hlt := (List.getElem?_eq_some_iff.mp hj).1
    refine h.done j rest' ?_ (by omega)
    rw [hwrites, List.getElem?_append_left hlt, hj]
  have hcontent := h.content
  rw [content_eq hfile, hwrites] at hcontent
  refine ⟨?_, fun j rest' hrest' hj => ?_⟩
  · simp only [hwrites, hfront, List.set_append_right _ _ (Nat.le_refl _), Nat.sub_self,
      List.set_cons_zero]
    simpa [hnil, FileWatcher.content] using hcontent
  · rw [List.length_set] at hj
    rcases getElem?_set_cases hrest' with ⟨rfl, -⟩ | ⟨-, hrest'⟩
    · omega
    · exact h.done j rest' hrest' hj

theorem Ordered.step (h : Ordered old s) (hok : s.InTurn e) (hstep : s.step e = some s') :
    Ordered old s' := by
  cases step_cases hstep with
  | next hwriter hid =>
    refine ⟨?_, h.done⟩
    have hcontent := h.content
    rw [hwriter, Writer.line, List.flatten_nil, List.append_nil] at hcontent
    simp only [lines, List.flatMap_append, List.flatMap_singleton, Writer.line,
      List.flatten_singleton]
    rw [← List.append_assoc, ← lines, hcontent]
  | openAppend hwriter =>
    refine ⟨?_, fun k rest hrest hk => ?_⟩
    · have hcontent := h.content
      rw [hwriter] at hcontent
      simp only [State.openAppend, Writer.line, List.flatten_append, List.flatten_nil,
        List.append_nil]
      rw [hcontent, List.append_assoc]
      cases s.file <;> rfl
    · rcases getElem?_concat_cases hrest with ⟨-, hrest⟩ | ⟨rfl, -⟩
      · exact hok rest (List.mem_of_getElem? hrest)
      · simp [State.openAppend] at hk
  | write hrest hfile hn hle => exact h.write hrest hfile hn hle _
  | look | changed | openFile | read => exact ⟨h.content, h.done⟩
  | notify =>
    unfold State.watchFileChanges
    split <;> exact ⟨h.content, h.done⟩
  | readEnd =>
    unfold State.finish
    split <;> exact ⟨h.content, h.done⟩

theorem ordered_of_run {file : Option File} {es : List Event}
    (hrun : run State.step (.new file) es = some s)
    (hok : Meets State.step State.InTurn (.new file) es) : Ordered (content file) s := by
  refine run_invariant_of_meets (fun _ _ _ ht hok hstep => ht.step hok hstep) ?_ hok hrun
  exact ⟨by simp [State.new, lines, Writer.line], fun k rest h => by cases h⟩

/-- **What is printed.**  The programs start when there is no file, or one that holds text.  In
every run the reader does not panic, every printed content extends the ones before and begins
the file, and the file is what it was at the start, followed by pieces of the lines that the
writer has printed: those of a line are in order, and what is missing of it is still to be
written.  If no file is opened before the line before is written, the lines are one after
another.  When the reader waits, has seen every change that was reported, and the watcher has
seen the modification time of the file, one that the file has not had before, then the content
that was printed last is the file. -/
theorem prints_the_file {start : Option File} (hstart : Textual start) {es : List Event}
    (hrun : run State.step (.new start) es = some s) :
    s.reader ≠ .panicked ∧
    s.printed.Pairwise (fun contents contents' => contents.toList <+: contents'.toList) ∧
    (∀ contents ∈ s.printed, utf8 contents <+: content s.file) ∧
    (∃ segments, Grown (content start) s.file s.writer s.writes s.ids segments) ∧
    (Meets State.step State.InTurn (.new start) es →
      content start ++ lines s.ids =
        content s.file ++ s.writes.flatten ++ s.writer.line.flatten) ∧
    ∀ file, s.file = some file → s.reader = .waiting → s.seen = s.version →
      s.lastModified = some file.modified → file.modified ∉ file.past →
      ∃ contents, s.printed.getLast? = some contents ∧ utf8 contents = file.content := by
  have hs := sound_of_reachable hstart ⟨es, hrun⟩
  exact ⟨hs.alive, hs.grows.imp isPrefix_of_utf8, hs.printed, hs.grown,
    fun hok => (ordered_of_run hrun hok).content,
    fun file hfile hreader hseen hlast hmodified =>
      hs.caughtUp file hfile hmodified hreader hseen hlast⟩

/-- The first bytes of a line are noticed and the reader opens the file; before the rest of
them is written, the next line is; then the reader reads. -/
def twoLines : List Event :=
  [.next "0123456789abcdefghi_-", .openAppend 1, .write 0 10 2, .look, .notify, .changed, .openFile,
    .next "-_ihgfedcba9876543210", .openAppend 3, .write 1 22 3, .read 32, .write 0 12 4, .read 12,
    .readEnd]

/-- What the file holds after that. -/
def mixed : List UInt8 :=
  (State.line "0123456789abcdefghi_-").take 10 ++ State.line "-_ihgfedcba9876543210" ++
    (State.line "0123456789abcdefghi_-").drop 10

/-- The watcher looks once more, and the lines are printed once more. -/
theorem prints_the_file_two_lines : ∃ s contents,
    run State.step (.new none) (twoLines ++ [.look, .notify, .changed, .openFile, .read 44,
      .readEnd]) = some s ∧
    s.printed.getLast? = some contents ∧ utf8 contents = mixed := by
  have hrun : (run State.step (.new none)
        (twoLines ++ [.look, .notify, .changed, .openFile, .read 44, .readEnd])).map
        (fun s => (s.file, s.reader, (s.seen, s.version), s.lastModified)) =
      some (some ⟨mixed, 4, [3, 2, 1]⟩, .waiting, (2, 2), some 4) := by
    decide +kernel
  obtain ⟨s, hs, hfacts⟩ := Option.map_eq_some_iff.mp hrun
  simp only [Prod.mk.injEq] at hfacts
  obtain ⟨hfile, hreader, ⟨hseen, hversion⟩, hlast⟩ := hfacts
  obtain ⟨contents, hprinted, hcontents⟩ := (prints_the_file ⟨"", rfl⟩ hs).2.2.2.2.2 _ hfile
    hreader (hseen.trans hversion.symm) hlast (by decide)
  exact ⟨s, contents, hs, hprinted, hcontents⟩

/-! ### The last change -/

theorem sound_of_readStep (hs : Sound old s) (h : Reachable State.readStep s s') :
    Sound old s' := by
  obtain ⟨es, hes⟩ := h
  refine run_invariant (fun t e t' ht hstep => ?_) hs hes
  simp only [State.readStep, Option.ite_none_left_eq_some] at hstep
  exact ht.step hstep.2

@[simp] theorem watchFileChanges_file (s : State) (modified : ℕ) :
    (s.watchFileChanges modified).file = s.file := by
  unfold State.watchFileChanges
  split <;> rfl

@[simp] theorem watchFileChanges_looked (s : State) (modified : ℕ) :
    (s.watchFileChanges modified).looked = none := by
  unfold State.watchFileChanges
  split <;> rfl

@[simp] theorem watchFileChanges_lastModified (s : State) (modified : ℕ) :
    (s.watchFileChanges modified).lastModified = some modified := by
  unfold State.watchFileChanges
  split
  · rfl
  · rename_i hsame
    exact not_not.mp hsame

/-- The watcher notices the modification time. -/
theorem reaches_noticed {file : File} (hfile : s.file = some file) :
    ∃ s', Reachable State.readStep s s' ∧ s'.file = some file ∧
      s'.lastModified = some file.modified := by
  -- the round that it is in ends first
  obtain ⟨s₁, hreach, hlooked, hfile₁⟩ :
      ∃ s₁, Reachable State.readStep s s₁ ∧ s₁.looked = none ∧ s₁.file = some file := by
    cases hlooked : s.looked with
    | none => exact ⟨s, .refl s, hlooked, hfile⟩
    | some modified =>
      have hnotify : s.readStep .notify = some (s.watchFileChanges modified) := by
        simp [State.readStep, Event.isWriter, State.step, hlooked]
      exact ⟨_, (Reachable.refl s).tail hnotify, by simp, by simp [hfile]⟩
  let s₂ : State := { s₁ with looked := some file.modified }
  have hlook : s₁.readStep .look = some s₂ := by
    simp [State.readStep, Event.isWriter, State.step, hlooked, hfile₁, s₂]
  have hnotify : s₂.readStep .notify = some (s₂.watchFileChanges file.modified) := by
    simp [State.readStep, Event.isWriter, State.step, s₂]
  exact ⟨_, (hreach.tail hlook).tail hnotify, by simp [s₂, hfile₁], by simp⟩

/-- The reader reads to the end of the file, and prints it. -/
theorem reaches_printed (hs : Sound old s) {file : File} (hfile : s.file = some file)
    {buffer : List UInt8} (hreader : s.reader = .reading buffer) :
    Reachable State.readStep s (s.finish file.content) := by
  obtain ⟨-, hbuffer⟩ := hs.reading buffer hreader
  rw [content_eq hfile] at hbuffer
  by_cases hlength : buffer.length = file.content.length
  · have hend : s.readStep .readEnd = some (s.finish file.content) := by
      simp [State.readStep, Event.isWriter, State.step, hreader, hfile,
        hbuffer.eq_of_length hlength]
    exact (Reachable.refl s).tail hend
  · have hle := hbuffer.length_le
    obtain ⟨back, hback⟩ := hbuffer
    let s₁ : State := { s with reader := .reading file.content }
    have hread : s.readStep (.read back.length) = some s₁ := by
      have hne : back ≠ [] := fun hnil => hlength (by rw [← hback, hnil, List.append_nil])
      simp [State.readStep, Event.isWriter, State.step, hreader, hfile, ← hback, s₁,
        List.length_pos_iff.mpr hne]
    have hend : s₁.readStep .readEnd = some (s₁.finish file.content) := by
      simp [State.readStep, Event.isWriter, State.step, hfile, s₁]
    have hfinish : s₁.finish file.content = s.finish file.content := by
      unfold State.finish
      split <;> rfl
    exact hfinish ▸ ((Reachable.refl s).tail hread).tail hend

theorem finish_of_alive {buffer : List UInt8} (h : (s.finish buffer).reader ≠ .panicked) :
    (s.finish buffer).reader = .waiting ∧ (s.finish buffer).file = s.file ∧
      (s.finish buffer).lastModified = s.lastModified ∧
      (s.finish buffer).version = s.version ∧ (s.finish buffer).seen = s.seen := by
  cases hcontents : ofUtf8 buffer with
  | none => exact absurd (by rw [State.finish, hcontents]) h
  | some contents =>
    rw [State.finish, hcontents]
    exact ⟨rfl, rfl, rfl, rfl, rfl⟩

/-- The reader gets back to waiting, and nothing else changes. -/
theorem reaches_waiting (hs : Sound old s) {file : File} (hfile : s.file = some file) :
    ∃ s', Reachable State.readStep s s' ∧ s'.reader = .waiting ∧ s'.file = some file ∧
      s'.lastModified = s.lastModified ∧ s'.version = s.version ∧ s'.seen = s.seen := by
  have hread (t : State) (buffer : List UInt8) (ht : Sound old t) (htfile : t.file = some file)
      (hreader : t.reader = .reading buffer) :
      ∃ s', Reachable State.readStep t s' ∧ s'.reader = .waiting ∧ s'.file = some file ∧
        s'.lastModified = t.lastModified ∧ s'.version = t.version ∧ s'.seen = t.seen := by
    have hreach := reaches_printed ht htfile hreader
    have halive := (sound_of_readStep ht hreach).alive
    exact ⟨_, hreach, htfile ▸ finish_of_alive halive⟩
  cases hreader : s.reader with
  | waiting => exact ⟨s, .refl s, hreader, hfile, rfl, rfl, rfl⟩
  | panicked => exact absurd hreader hs.alive
  | reading buffer => exact hread s buffer hs hfile hreader
  | opening =>
    let s₁ : State := { s with reader := .reading [] }
    have hopen : s.readStep .openFile = some s₁ := by
      simp [State.readStep, Event.isWriter, State.step, hreader, hfile, s₁]
    have hreach : Reachable State.readStep s s₁ := (Reachable.refl s).tail hopen
    obtain ⟨s', hreach', hrest⟩ := hread s₁ [] (sound_of_readStep hs hreach) hfile rfl
    exact ⟨s', hreach.trans hreach', hrest⟩

/-- **No change is missed.**  The programs start when there is no file, or one that holds text.
From every reachable state in which there is a file with a modification time that it has not
had before, the watcher and the reader reach, by themselves, a state in which the reader waits
and has printed the file. -/
theorem catches_up {start : Option File} (hstart : Textual start)
    (h : Reachable State.step (.new start) s) {file : File} (hfile : s.file = some file)
    (hmodified : file.modified ∉ file.past) :
    ∃ s', Reachable State.readStep s s' ∧ s'.file = some file ∧ s'.reader = .waiting ∧
      ∃ contents, s'.printed.getLast? = some contents ∧ utf8 contents = file.content := by
  have hs := sound_of_reachable hstart h
  obtain ⟨s₁, hreach₁, hfile₁, hlast₁⟩ := reaches_noticed hfile
  have hs₁ := sound_of_readStep hs hreach₁
  obtain ⟨s₂, hreach₂, hreader₂, hfile₂, hlast₂, -, -⟩ := reaches_waiting hs₁ hfile₁
  have hs₂ := sound_of_readStep hs₁ hreach₂
  rw [hlast₁] at hlast₂
  have hreach := hreach₁.trans hreach₂
  by_cases hseen : s₂.version = s₂.seen
  · exact ⟨s₂, hreach, hfile₂, hreader₂,
      hs₂.caughtUp file hfile₂ hmodified hreader₂ hseen.symm hlast₂⟩
  · -- the reader goes around once more
    let s₃ : State := { s₂ with reader := .opening, seen := s₂.version }
    have hchanged : s₂.readStep .changed = some s₃ := by
      simp [State.readStep, Event.isWriter, State.step, hreader₂, hseen, s₃]
    have hs₃ : Sound (content start) s₃ := sound_of_readStep hs₂ ((Reachable.refl s₂).tail hchanged)
    obtain ⟨s₄, hreach₄, hreader₄, hfile₄, hlast₄, hversion₄, hseen₄⟩ :=
      reaches_waiting hs₃ hfile₂
    have hs₄ := sound_of_readStep hs₃ hreach₄
    have hcaught : s₄.seen = s₄.version := by rw [hversion₄, hseen₄]
    exact ⟨s₄, (hreach.tail hchanged).trans hreach₄, hfile₄, hreader₄,
      hs₄.caughtUp file hfile₄ hmodified hreader₄ hcaught (hlast₄.trans hlast₂)⟩

theorem catches_up_two_lines : ∃ s, run State.step (.new none) twoLines = some s ∧
    s.lastModified = some 2 ∧
    ∃ s', Reachable State.readStep s s' ∧ s'.reader = .waiting ∧
      ∃ contents, s'.printed.getLast? = some contents ∧ utf8 contents = mixed := by
  have hrun : (run State.step (.new none) twoLines).map (fun s => (s.file, s.lastModified)) =
      some (some ⟨mixed, 4, [3, 2, 1]⟩, some 2) := by
    decide +kernel
  obtain ⟨s, hs, hfacts⟩ := Option.map_eq_some_iff.mp hrun
  simp only [Prod.mk.injEq] at hfacts
  obtain ⟨s', hreach, -, hreader, hprinted⟩ :=
    catches_up ⟨"", rfl⟩ ⟨_, hs⟩ hfacts.1 (by decide)
  exact ⟨s, hs, hfacts.2, s', hreach, hreader, hprinted⟩

end FileWatcher
