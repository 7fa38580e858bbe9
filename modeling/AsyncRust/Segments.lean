/-
A sequence that several sources have written, a piece at a time.

* `whole`, `part` — the sequence, and what one source has put into it;
* `mem_whole` — nothing else is in it.
-/
import Mathlib.Data.List.Basic

namespace Segments

variable {α : Type*} {segments : List (ℕ × List α)} {i j : ℕ} {piece : List α}

/-- The sequence that is made of the pieces. -/
def whole (segments : List (ℕ × List α)) : List α := segments.flatMap (·.2)

/-- The pieces of source `i`. -/
def part (segments : List (ℕ × List α)) (i : ℕ) : List α :=
  (segments.filter (·.1 = i)).flatMap (·.2)

@[simp] theorem whole_concat : whole (segments ++ [(i, piece)]) = whole segments ++ piece := by
  simp [whole]

@[simp] theorem part_concat_self :
    part (segments ++ [(i, piece)]) i = part segments i ++ piece := by
  simp [part]

theorem part_concat_of_ne (h : i ≠ j) : part (segments ++ [(i, piece)]) j = part segments j := by
  simp [part, h]

/-- A source that has written nothing. -/
theorem part_eq_nil (h : ∀ segment ∈ segments, segment.1 ≠ i) : part segments i = [] := by
  have hnone : segments.filter (·.1 = i) = [] := by
    simpa using fun k piece hmem => h (k, piece) hmem
  rw [part, hnone, List.flatMap_nil]

theorem mem_whole {a : α} (h : a ∈ whole segments) :
    ∃ segment ∈ segments, a ∈ part segments segment.1 := by
  obtain ⟨segment, hmem, ha⟩ := List.mem_flatMap.mp h
  exact ⟨segment, hmem, List.mem_flatMap.mpr ⟨segment, by simp [hmem], ha⟩⟩

end Segments
