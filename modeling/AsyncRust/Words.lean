/-
Words between separators.

A list is cut at the elements that satisfy `p`; what is left between them, where it is not
empty, are its words.

* `Spaced` — the lists with given words: any separators around them, and at least one
  between two of them;
* `words_eq_iff` — the words of a list are those that it was spaced out of;
* `words_dropWhile`, `words_rdropWhile` — separators at the ends do not matter.
-/
import Mathlib.Data.List.DropRight

namespace Words

variable {α : Type*} {p : α → Bool} {l : List α} {ws : List (List α)}

def words (p : α → Bool) (l : List α) : List (List α) :=
  (l.splitOnP p).filter fun word => !word.isEmpty

/-- No separator is in a word, and something is. -/
structure IsWord (p : α → Bool) (word : List α) : Prop where
  ne_nil : word ≠ []
  not_sep : ∀ a ∈ word, p a = false

/-- `l` has the words `ws`.  What follows a word starts with a separator. -/
inductive Spaced (p : α → Bool) : List (List α) → List α → Prop
  | blank {gap : List α} (h : ∀ a ∈ gap, p a = true) : Spaced p [] gap
  | cons {gap word rest : List α} {ws : List (List α)} (hgap : ∀ a ∈ gap, p a = true)
      (hword : IsWord p word) (hsep : ∀ a ∈ rest.head?, p a = true) (hrest : Spaced p ws rest) :
      Spaced p (word :: ws) (gap ++ word ++ rest)

@[simp] theorem words_nil : words p [] = [] := rfl

theorem words_cons_sep {a : α} (ha : p a = true) (l : List α) : words p (a :: l) = words p l := by
  rw [words, List.splitOnP_cons_eq_if_modifyHead, if_pos ha, List.filter_cons_of_neg (by simp)]
  rfl

theorem words_append_gap {gap : List α} (hgap : ∀ a ∈ gap, p a = true) (l : List α) :
    words p (gap ++ l) = words p l := by
  induction gap with
  | nil => rfl
  | cons a gap ih =>
    rw [List.cons_append, words_cons_sep (hgap a List.mem_cons_self),
      ih fun b hb => hgap b (List.mem_cons_of_mem a hb)]

theorem words_append_word {word rest : List α} (hword : IsWord p word)
    (hsep : ∀ a ∈ rest.head?, p a = true) : words p (word ++ rest) = word :: words p rest := by
  have hkept (tail : List (List α)) :
      (word :: tail).filter (fun w => !w.isEmpty) = word :: tail.filter fun w => !w.isEmpty :=
    List.filter_cons_of_pos (by simpa using hword.ne_nil)
  cases rest with
  | nil =>
    rw [List.append_nil, words, List.splitOnP_eq_singleton hword.not_sep, hkept]
    rfl
  | cons a rest =>
    have ha : p a = true := hsep a rfl
    rw [words, List.splitOnP_append_cons_of_forall_mem hword.not_sep a ha, hkept,
      words_cons_sep ha]
    rfl

theorem words_of_spaced (h : Spaced p ws l) : words p l = ws := by
  induction h with
  | @blank gap hgap => rw [← List.append_nil gap, words_append_gap hgap, words_nil]
  | cons hgap hword hsep hrest ih =>
    rw [List.append_assoc, words_append_gap hgap, words_append_word hword hsep, ih]

/-- What is left behind the elements that satisfy `p` starts with one that does not. -/
theorem not_of_mem_head?_dropWhile {a : α} (h : a ∈ (l.dropWhile p).head?) : p a = false := by
  have hnot := List.head?_dropWhile_not p l
  rw [Option.mem_def.mp h] at hnot
  simpa using hnot

theorem spaced_words (l : List α) : Spaced p (words p l) l := by
  induction hlen : l.length using Nat.strongRecOn generalizing l with
  | ind n ih =>
    set rest := l.dropWhile p with hrest
    have hl : l.takeWhile p ++ rest = l := List.takeWhile_append_dropWhile
    have hgap : ∀ a ∈ l.takeWhile p, p a = true := fun a ha => List.mem_takeWhile_imp ha
    rcases hcons : rest with _ | ⟨a, tail⟩
    · -- there is no word left
      rw [hcons, List.append_nil] at hl
      rw [hl] at hgap
      have hnone : words p l = [] := words_of_spaced (.blank hgap)
      rw [hnone]
      exact .blank hgap
    · set word := rest.takeWhile fun a => !p a with hword
      set after := rest.dropWhile fun a => !p a with hafter
      have ha : p a = false := not_of_mem_head?_dropWhile (l := l) (by rw [← hrest, hcons]; rfl)
      have hsplit : word ++ after = rest := List.takeWhile_append_dropWhile
      have hisWord : IsWord p word := by
        refine ⟨?_, fun b hb => by simpa using List.mem_takeWhile_imp hb⟩
        rw [hword, hcons, List.takeWhile_cons_of_pos (by simpa using ha)]
        exact List.cons_ne_nil _ _
      have hsep : ∀ b ∈ after.head?, p b = true := fun b hb => by
        simpa using not_of_mem_head?_dropWhile hb
      have hlt : after.length < n := by
        have hpos := List.length_pos_iff.mpr hisWord.ne_nil
        have hsum := congrArg List.length hl
        rw [← hsplit, List.length_append, List.length_append, hlen] at hsum
        omega
      have hcut : l = l.takeWhile p ++ word ++ after := by
        rw [List.append_assoc, hsplit, hl]
      have hwords : words p l = word :: words p after := by
        conv_lhs => rw [hcut, List.append_assoc, words_append_gap hgap,
          words_append_word hisWord hsep]
      rw [hwords]
      conv => arg 3; rw [hcut]
      exact .cons hgap hisWord hsep (ih after.length hlt after rfl)

/-- **The words of a list** are those that it was spaced out of. -/
theorem words_eq_iff : words p l = ws ↔ Spaced p ws l :=
  ⟨fun h => h ▸ spaced_words l, words_of_spaced⟩

theorem Spaced.isWord (h : Spaced p ws l) {word : List α} (hmem : word ∈ ws) :
    IsWord p word := by
  induction h with
  | blank => cases hmem
  | cons hgap hword hsep hrest ih =>
    rcases List.mem_cons.mp hmem with rfl | hmem
    · exact hword
    · exact ih hmem

theorem Spaced.append_gap {gap : List α} (h : Spaced p ws l) (hgap : ∀ a ∈ gap, p a = true) :
    Spaced p ws (l ++ gap) := by
  induction h with
  | blank hblank =>
    refine .blank fun a ha => ?_
    exact (List.mem_append.mp ha).elim (hblank a) (hgap a)
  | @cons before word rest ws hbefore hword hsep hrest ih =>
    rw [List.append_assoc]
    refine .cons hbefore hword (fun a ha => ?_) ih
    cases rest with
    | nil => exact hgap a (List.mem_of_mem_head? ha)
    | cons b rest => exact hsep a ha

theorem words_dropWhile (l : List α) : words p (l.dropWhile p) = words p l := by
  conv_rhs => rw [← List.takeWhile_append_dropWhile (p := p) (l := l)]
  exact (words_append_gap (fun a ha => List.mem_takeWhile_imp ha) _).symm

theorem words_rdropWhile (l : List α) : words p (l.rdropWhile p) = words p l := by
  have hgap : ∀ a ∈ l.rtakeWhile p, p a = true := fun a ha => List.mem_rtakeWhile_imp ha
  have hspaced := (spaced_words (p := p) (l.rdropWhile p)).append_gap hgap
  rw [List.rdropWhile_append_rtakeWhile] at hspaced
  exact (words_of_spaced hspaced).symm

end Words
