/-
Mutexes that serve in order.

Who finds the mutex locked gets in line, and who unlocks it passes it on to the first in
line, whether or not this one is ever polled again.  Who drops its lock future leaves the
line, and unlocks the mutex if it was passed on to it.

* `FairMutex.poll`, `FairMutex.leave` — a poll of a lock future, and the end of one or of a
  guard;
* `FairMutex.Ahead` — somebody is in line before another one;
* `Ahead.poll`, `Ahead.leave`, `Ahead.not_served` — nothing but its own leaving changes that,
  and until then the other one is not served.
-/
import Mathlib.Data.List.Nodup

/-- The line, with the one that has the mutex first. -/
structure FairMutex (ι : Type*) where
  line : List ι
  nodup : line.Nodup

namespace FairMutex

variable {ι : Type*} [DecidableEq ι]

def new : FairMutex ι := ⟨[], List.nodup_nil⟩

/-- A poll of the lock future of `i`, with whether it has the mutex now. -/
def poll (m : FairMutex ι) (i : ι) : Bool × FairMutex ι :=
  if h : i ∈ m.line then (m.line.head? = some i, m)
  else (m.line.isEmpty, ⟨m.line ++ [i], by
    refine List.nodup_append.mpr ⟨m.nodup, List.nodup_singleton i, fun j hj k hk => ?_⟩
    rintro rfl
    exact h (List.mem_singleton.mp hk ▸ hj)⟩)

/-- The lock future of `i` or its guard is dropped. -/
def leave (m : FairMutex ι) (i : ι) : FairMutex ι := ⟨m.line.erase i, m.nodup.erase i⟩

variable {m : FairMutex ι} {i j a b : ι}

/-! ### The line -/

theorem line_leave (m : FairMutex ι) (i : ι) : (m.leave i).line = m.line.erase i := rfl

@[simp] theorem mem_poll : j ∈ (m.poll i).2.line ↔ j = i ∨ j ∈ m.line := by
  unfold poll
  split
  · rename_i hmem
    constructor
    · exact .inr
    · rintro (rfl | h)
      · exact hmem
      · exact h
  · simp [or_comm]

@[simp] theorem mem_leave : j ∈ (m.leave i).line ↔ j ≠ i ∧ j ∈ m.line := m.nodup.mem_erase_iff

/-- The poll is served iff its future is then the first in line. -/
theorem poll_fst : (m.poll i).1 = true ↔ (m.poll i).2.line.head? = some i := by
  unfold poll
  split
  · simp
  · rename_i hmem
    show m.line.isEmpty = true ↔ (m.line ++ [i]).head? = some i
    cases hline : m.line with
    | nil => simp
    | cons j line =>
      have hne : j ≠ i := by
        rintro rfl
        exact hmem (by rw [hline]; exact List.mem_cons_self)
      simp [hne]

theorem head_poll (h : m.line.head? = some j) : (m.poll i).2.line.head? = some j := by
  unfold poll
  split
  · exact h
  · rw [List.head?_append, h, Option.some_or]

theorem head_leave (h : m.line.head? = some j) (hne : j ≠ i) :
    (m.leave i).line.head? = some j := by
  obtain ⟨line, hline⟩ := List.head?_eq_some_iff.mp h
  have herase : (m.leave i).line = j :: line.erase i := by
    rw [line_leave, hline, List.erase_cons_tail (by simpa using hne)]
  rw [herase, List.head?_cons]

/-- With nobody else in line, a poll is served. -/
theorem poll_of_alone (h : ∀ j ∈ m.line, j = i) : (m.poll i).1 = true := by
  rw [poll_fst]
  cases hhead : (m.poll i).2.line.head? with
  | none =>
    rw [List.head?_eq_none_iff] at hhead
    have hmem : i ∈ (m.poll i).2.line := mem_poll.mpr (.inl rfl)
    rw [hhead] at hmem
    cases hmem
  | some j =>
    rcases mem_poll.mp (List.mem_of_head? hhead) with rfl | hmem
    · rfl
    · rw [h j hmem]

/-! ### Overtaking -/

/-- `a` is in line, and `b` is not before it. -/
def Ahead (m : FairMutex ι) (a b : ι) : Prop :=
  ∃ before after, m.line = before ++ a :: after ∧ b ∉ before

omit [DecidableEq ι] in
theorem ahead_of_not_mem (ha : a ∈ m.line) (hb : b ∉ m.line) : m.Ahead a b := by
  obtain ⟨before, after, hline⟩ := List.append_of_mem ha
  exact ⟨before, after, hline, fun hmem => hb (hline ▸ List.mem_append_left _ hmem)⟩

namespace Ahead

theorem poll (h : m.Ahead a b) (i : ι) : (m.poll i).2.Ahead a b := by
  obtain ⟨before, after, hline, hb⟩ := h
  unfold FairMutex.poll
  split
  · exact ⟨before, after, hline, hb⟩
  · refine ⟨before, after ++ [i], ?_, hb⟩
    simp only [hline, List.append_assoc, List.cons_append]

theorem leave (h : m.Ahead a b) (hne : i ≠ a) : (m.leave i).Ahead a b := by
  obtain ⟨before, after, hline, hb⟩ := h
  by_cases hmem : i ∈ before
  · refine ⟨before.erase i, after, ?_, fun hmem' => hb (List.mem_of_mem_erase hmem')⟩
    rw [line_leave, hline, List.erase_append_left _ hmem]
  · refine ⟨before, after.erase i, ?_, hb⟩
    rw [line_leave, hline, List.erase_append_right _ hmem,
      List.erase_cons_tail (by simpa using Ne.symm hne)]

theorem not_served (h : m.Ahead a b) (hne : a ≠ b) : (m.poll b).1 = false := by
  obtain ⟨before, after, hline, hb⟩ := h
  refine Bool.eq_false_iff.mpr fun hserved => ?_
  obtain ⟨before, after, hline, hb⟩ := Ahead.poll ⟨before, after, hline, hb⟩ b
  rw [poll_fst, hline] at hserved
  cases before with
  | nil => exact hne (Option.some_inj.mp hserved)
  | cons j before => exact hb (Option.some_inj.mp hserved ▸ List.mem_cons_self)

end Ahead

end FairMutex
