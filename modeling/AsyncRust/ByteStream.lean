/-
Byte streams as a program meets them, one call at a time.

The bytes of a `Source` come in chunks, which have nothing to do with the messages that
were sent: a `read` gets what there is of one chunk.  After the last chunk, every `read`
finds the end of the stream, or fails.  A `Sink` takes as much of each `write` as it likes.
Calls that are interrupted are made again, and are left out.

* `readExact_of_le`, `readExact_of_lt` — `read_exact` is a matter of the bytes alone,
  however they are cut;
* `written_of_writeAll` — a `write_all` that succeeds has written all bytes, in order.
-/
import Mathlib.Data.List.Basic

namespace ByteStream

/-! ### Sources -/

/-- What every `read` finds after the last chunk. -/
inductive Ending where
  | eof
  | failed (error : String)
  deriving DecidableEq, Repr

/-- A `read` of no bytes is the end of the stream, so that no chunk is empty. -/
structure Source where
  chunks : List (List UInt8)
  ne_nil : ∀ chunk ∈ chunks, chunk ≠ []
  ending : Ending

namespace Source

def bytes (s : Source) : List UInt8 := s.chunks.flatten

/-- All bytes in one chunk. -/
def whole (bs : List UInt8) (ending : Ending) : Source where
  chunks := if bs = [] then [] else [bs]
  ne_nil chunk h := by
    split at h
    · cases h
    next hne => exact List.mem_singleton.mp h ▸ hne
  ending := ending

@[simp] theorem bytes_whole (bs : List UInt8) (ending : Ending) :
    (whole bs ending).bytes = bs := by
  rw [bytes, whole]
  split
  next h => exact h.symm
  next => exact List.append_nil bs

/-- `Read::read` into a buffer of `n` bytes: what was read, no bytes at the end of the
stream. -/
def read (n : ℕ) : Source → Except String (List UInt8) × Source
  | ⟨[], h, .eof⟩ => (.ok [], ⟨[], h, .eof⟩)
  | ⟨[], h, .failed error⟩ => (.error error, ⟨[], h, .failed error⟩)
  | ⟨chunk :: chunks, h, ending⟩ =>
    if hle : chunk.length ≤ n then
      (.ok chunk, ⟨chunks, (List.forall_mem_cons.mp h).2, ending⟩)
    else
      (.ok (chunk.take n), ⟨chunk.drop n :: chunks, List.forall_mem_cons.mpr
        ⟨fun hnil => hle (List.drop_eq_nil_iff.mp hnil), (List.forall_mem_cons.mp h).2⟩, ending⟩)

/-- `Read::read_exact`, by its `read`s. -/
def readExact (n : ℕ) (s : Source) : Except String (List UInt8) × Source :=
  if n = 0 then (.ok [], s)
  else
    match s.read n with
    | (.error error, s) => (.error error, s)
    | (.ok [], s) => (.error "failed to fill whole buffer", s)
    | (.ok (b :: bs), s) =>
      match readExact (n - (bs.length + 1)) s with
      | (.error error, s) => (.error error, s)
      | (.ok rest, s) => (.ok (b :: bs ++ rest), s)
termination_by n
decreasing_by omega

/-- What a `read` may do. -/
inductive Reads (n : ℕ) (s : Source) : Except String (List UInt8) × Source → Prop
  | some (bs : List UInt8) (s' : Source) (hne : bs ≠ []) (hle : bs.length ≤ n)
      (hbytes : s.bytes = bs ++ s'.bytes) (hending : s'.ending = s.ending) : Reads n s (.ok bs, s')
  | eof (hbytes : s.bytes = []) (hending : s.ending = .eof) : Reads n s (.ok [], s)
  | failed (error : String) (hbytes : s.bytes = []) (hending : s.ending = .failed error) :
      Reads n s (.error error, s)

theorem reads {n : ℕ} (hn : 0 < n) (s : Source) : Reads n s (s.read n) := by
  obtain ⟨chunks, hne, ending⟩ := s
  cases chunks with
  | nil =>
    cases ending with
    | eof => exact .eof rfl rfl
    | failed error => exact .failed error rfl rfl
  | cons chunk chunks =>
    have hchunk : chunk ≠ [] := hne chunk List.mem_cons_self
    rw [read]
    split
    next hle => exact .some chunk _ hchunk hle rfl rfl
    next hlt =>
      refine .some _ _ ?_ (List.length_take_le n chunk) ?_ rfl
      · simpa [hchunk] using Nat.ne_of_gt hn
      · simp only [bytes, List.flatten_cons]
        rw [← List.append_assoc, List.take_append_drop]

/-- **Reading what is there.** -/
theorem readExact_of_le {n : ℕ} : ∀ {s : Source}, n ≤ s.bytes.length →
    ∃ s', s.readExact n = (.ok (s.bytes.take n), s') ∧ s'.bytes = s.bytes.drop n ∧
      s'.ending = s.ending := by
  induction n using Nat.strongRecOn with
  | ind n ih =>
    intro s hle
    rw [readExact]
    by_cases hn : n = 0
    · subst hn
      exact ⟨s, if_pos rfl, rfl, rfl⟩
    rw [if_neg hn]
    have hreads := s.reads (Nat.pos_of_ne_zero hn)
    generalize s.read n = result at hreads
    cases hreads with
    | some bs s' hne hlen hbytes hending =>
      obtain ⟨b, bs, rfl⟩ := List.exists_cons_of_ne_nil hne
      rw [List.length_cons] at hlen
      have hrest : n - (bs.length + 1) ≤ s'.bytes.length := by
        rw [hbytes, List.length_append, List.length_cons] at hle
        omega
      obtain ⟨t, ht, htbytes, htending⟩ := ih (n - (bs.length + 1)) (by omega) hrest
      have hfront : (b :: bs).take n = b :: bs := List.take_of_length_le hlen
      have hgone : (b :: bs).drop n = [] := List.drop_eq_nil_of_le hlen
      refine ⟨t, ?_, ?_, htending.trans hending⟩
      · simp only [ht]
        rw [hbytes, List.take_append, hfront, List.length_cons]
      · rw [htbytes, hbytes, List.drop_append, hgone, List.length_cons, List.nil_append]
    | eof hbytes hending =>
      rw [hbytes] at hle
      exact absurd (Nat.le_zero.mp hle) hn
    | failed error hbytes hending =>
      rw [hbytes] at hle
      exact absurd (Nat.le_zero.mp hle) hn

/-- **A stream that ends too early.** -/
theorem readExact_of_lt {n : ℕ} : ∀ {s : Source}, s.bytes.length < n → s.ending = .eof →
    ∃ s', s.readExact n = (.error "failed to fill whole buffer", s') := by
  induction n using Nat.strongRecOn with
  | ind n ih =>
    intro s hlt heof
    have hn : n ≠ 0 := Nat.ne_of_gt (Nat.zero_lt_of_lt hlt)
    rw [readExact, if_neg hn]
    have hreads := s.reads (Nat.pos_of_ne_zero hn)
    generalize s.read n = result at hreads
    cases hreads with
    | some bs s' hne hlen hbytes hending =>
      obtain ⟨b, bs, rfl⟩ := List.exists_cons_of_ne_nil hne
      have hrest : s'.bytes.length < n - (bs.length + 1) := by
        rw [hbytes, List.length_append, List.length_cons] at hlt
        omega
      obtain ⟨t, ht⟩ := ih (n - (bs.length + 1)) (by omega) hrest (hending.trans heof)
      exact ⟨t, by simp only [ht]⟩
    | eof hbytes hending => exact ⟨s, rfl⟩
    | failed error hbytes hending => cases hending.symm.trans heof

end Source

/-! ### Sinks -/

/-- `results` are those of the next `write`s, the number of bytes being what the sink is
ready to take; a `write` after them takes all it is given. -/
structure Sink where
  results : List (Except String ℕ)
  written : List UInt8

namespace Sink

/-- Nothing has been written yet. -/
def fresh (results : List (Except String ℕ)) : Sink := ⟨results, []⟩

/-- `Write::write`: how many bytes were taken. -/
def write (bs : List UInt8) : Sink → Except String ℕ × Sink
  | ⟨[], written⟩ => (.ok bs.length, ⟨[], written ++ bs⟩)
  | ⟨.ok n :: results, written⟩ => (.ok (min n bs.length), ⟨results, written ++ bs.take n⟩)
  | ⟨.error error :: results, written⟩ => (.error error, ⟨results, written⟩)

/-- `Write::write_all`, by its `write`s. -/
def writeAll : List UInt8 → Sink → Except String Unit × Sink
  | [], s => (.ok (), s)
  | b :: bs, s =>
    match s.write (b :: bs) with
    | (.error error, s) => (.error error, s)
    | (.ok 0, s) => (.error "failed to write whole buffer", s)
    | (.ok (n + 1), s) => writeAll (bs.drop n) s
termination_by bs => bs.length
decreasing_by
  rw [List.length_drop, List.length_cons]
  omega

theorem written_of_write {bs : List UInt8} {n : ℕ} {s s' : Sink} (h : s.write bs = (.ok n, s')) :
    s'.written = s.written ++ bs.take n := by
  obtain ⟨results, written⟩ := s
  cases results with
  | nil =>
    obtain ⟨hn, rfl⟩ := Prod.mk.inj h
    rw [← Except.ok.inj hn, List.take_length]
  | cons result results =>
    cases result with
    | error error => cases h
    | ok m =>
      obtain ⟨hn, rfl⟩ := Prod.mk.inj h
      rw [← Except.ok.inj hn, List.take_eq_take_min]

/-- **What a `write_all` that succeeds has written.** -/
theorem written_of_writeAll {bs : List UInt8} {s s' : Sink} (h : writeAll bs s = (.ok (), s')) :
    s'.written = s.written ++ bs := by
  fun_induction writeAll bs s with
  | case1 s =>
    obtain ⟨-, rfl⟩ := Prod.mk.inj h
    exact (List.append_nil _).symm
  | case2 => cases h
  | case3 => cases h
  | case4 s b bs n t hwrite ih =>
    rw [ih h, written_of_write hwrite, List.append_assoc, List.take_succ_cons,
      List.cons_append, List.take_append_drop]

/-- A sink that takes all it is given. -/
theorem writeAll_of_nil (bs written : List UInt8) :
    writeAll bs ⟨[], written⟩ = (.ok (), ⟨[], written ++ bs⟩) := by
  cases bs with
  | nil => rw [writeAll, List.append_nil]
  | cons b bs =>
    rw [writeAll, write, List.length_cons]
    simp only
    rw [List.drop_length, writeAll]

end Sink

end ByteStream
