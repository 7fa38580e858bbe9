/-
Lists in which one element is replaced, or added at the end.

* `set_perm`, `sum_map_set_lt`, `map_set_eq` — what is replaced;
* `getElem?_set_cases`, `getElem?_concat_cases` — what is found there;
* `sublistForall₂_of_sublist` — a part of a list that is related to a part of another one.
-/
import Mathlib.Algebra.BigOperators.Group.List.Basic
import Mathlib.Algebra.Order.Ring.Nat
import Mathlib.Data.List.Forall2
import Mathlib.Data.List.Perm.Basic

namespace Lists

variable {α : Type*} {l : List α} {i j : ℕ} {a b : α}

theorem set_perm (h : l[i]? = some a) (b : α) : (a :: l.set i b).Perm (b :: l) := by
  obtain ⟨hi, rfl⟩ := List.getElem?_eq_some_iff.mp h
  calc (l[i] :: l.set i b).Perm (l[i] :: b :: l.eraseIdx i) :=
        (List.set_perm_cons_eraseIdx hi b).cons _
    _ |>.Perm (b :: l[i] :: l.eraseIdx i) := .swap _ _ _
    _ |>.Perm (b :: l) := (List.getElem_cons_eraseIdx_perm hi).cons _

theorem sum_map_set_lt {f : α → ℕ} (h : l[i]? = some a) (hlt : f b < f a) :
    ((l.set i b).map f).sum < (l.map f).sum := by
  have hsum := ((set_perm h b).map f).sum_eq
  simp only [List.map_cons, List.sum_cons] at hsum
  omega

theorem set_of_getElem? (h : l[i]? = some a) : l.set i a = l := by
  obtain ⟨hi, rfl⟩ := List.getElem?_eq_some_iff.mp h
  exact List.set_getElem_self hi

/-- A change that `f` does not see. -/
theorem map_set_eq {β : Type*} {f : α → β} (h : l[i]? = some a) (hf : f b = f a) :
    (l.set i b).map f = l.map f := by
  rw [List.map_set, hf]
  exact set_of_getElem? (by rw [List.getElem?_map, h, Option.map_some])

theorem getElem?_set_cases (h : (l.set i a)[j]? = some b) :
    j = i ∧ b = a ∨ j ≠ i ∧ l[j]? = some b := by
  rw [List.getElem?_set] at h
  split at h
  · rename_i hij
    split at h
    · exact .inl ⟨hij.symm, (Option.some_inj.mp h).symm⟩
    · cases h
  · rename_i hij
    exact .inr ⟨Ne.symm hij, h⟩

theorem getElem?_concat_cases (h : (l ++ [a])[j]? = some b) :
    j < l.length ∧ l[j]? = some b ∨ j = l.length ∧ b = a := by
  rw [List.getElem?_append] at h
  split at h
  · rename_i hj
    exact .inl ⟨hj, h⟩
  · obtain ⟨hlt, hb⟩ := List.getElem?_eq_some_iff.mp h
    rw [List.length_singleton] at hlt
    exact .inr ⟨by omega, by simpa using hb.symm⟩

theorem sublistForall₂_of_sublist {β : Type*} {R : α → β → Prop} {l' : List α} {m : List β}
    (h : List.SublistForall₂ R l m) (hsub : l'.Sublist l) : List.SublistForall₂ R l' m := by
  induction h generalizing l' with
  | nil => exact List.sublist_nil.mp hsub ▸ .nil
  | cons hab _ ih =>
    cases hsub with
    | cons _ hsub => exact .cons_right (ih hsub)
    | cons_cons _ hsub => exact .cons hab (ih hsub)
  | cons_right _ ih => exact .cons_right (ih hsub)

end Lists
