/-
A line editor, and a string with a byte position that stands for it.

The reference editor has characters before and behind its cursor.  Strings are
addressed by the offsets of their UTF-8 bytes: an offset within a character is no
position, and inserting or removing there fails.

* `Editor` — typing, deleting and moving by one character;
* `splitAt`, `insertAt`, `removeAt` — strings at byte offsets;
* `Represents` — the string is that of the editor, and the offset is that of its cursor;
* `Represents.insertAt`, `Represents.removeAt` — moving the offset by the size of the
  character keeps this.
-/
import Mathlib.Algebra.Order.Ring.Nat

namespace LineEditor

/-! ### The reference editor -/

/-- The characters before the cursor and those behind it. -/
structure Editor where
  before : List Char
  after : List Char
  deriving DecidableEq, Repr

namespace Editor

def empty : Editor := ⟨[], []⟩

def text (e : Editor) : List Char := e.before ++ e.after

def insert (e : Editor) (c : Char) : Editor := { e with before := e.before ++ [c] }

def backspace (e : Editor) : Editor := { e with before := e.before.dropLast }

def left (e : Editor) : Editor :=
  match e.before.getLast? with
  | none => e
  | some c => ⟨e.before.dropLast, c :: e.after⟩

def right (e : Editor) : Editor :=
  match e.after with
  | [] => e
  | c :: after => ⟨e.before ++ [c], after⟩

/-! At the ends of the line, nothing happens. -/

theorem backspace_of_nil {e : Editor} (h : e.before = []) : e.backspace = e := by
  rw [backspace, h, List.dropLast_nil, ← h]

theorem left_of_nil {e : Editor} (h : e.before = []) : e.left = e := by
  rw [left, h, List.getLast?_nil]

theorem right_of_nil {e : Editor} (h : e.after = []) : e.right = e := by
  rw [right, h]

end Editor

/-! ### Byte offsets -/

/-- The number of bytes in UTF-8. -/
def byteLength (cs : List Char) : ℕ := (cs.map Char.utf8Size).sum

@[simp] theorem byteLength_nil : byteLength [] = 0 := rfl

@[simp] theorem byteLength_cons (c : Char) (cs : List Char) :
    byteLength (c :: cs) = c.utf8Size + byteLength cs := List.sum_cons

@[simp] theorem byteLength_append (cs cs' : List Char) :
    byteLength (cs ++ cs') = byteLength cs + byteLength cs' := by
  rw [byteLength, List.map_append, List.sum_append]
  rfl

/-- The characters before a byte offset and those behind it; `none` if the offset is
beyond the end or within a character. -/
def splitAt : ℕ → List Char → Option (List Char × List Char)
  | 0, cs => some ([], cs)
  | _ + 1, [] => none
  | n + 1, c :: cs =>
    if c.utf8Size ≤ n + 1 then
      (splitAt (n + 1 - c.utf8Size) cs).map fun (before, after) => (c :: before, after)
    else none

theorem splitAt_append (after : List Char) : ∀ before : List Char,
    splitAt (byteLength before) (before ++ after) = some (before, after) := by
  intro before
  induction before with
  | nil => rw [byteLength_nil, splitAt, List.nil_append]
  | cons c before ih =>
    obtain ⟨n, hn⟩ : ∃ n, byteLength (c :: before) = n + 1 :=
      ⟨c.utf8Size + byteLength before - 1, by have := c.utf8Size_pos; rw [byteLength_cons]; omega⟩
    have hle : c.utf8Size ≤ n + 1 := by
      rw [← hn, byteLength_cons]
      exact Nat.le_add_right _ _
    have hrest : n + 1 - c.utf8Size = byteLength before := by
      rw [← hn, byteLength_cons]
      omega
    rw [hn, List.cons_append, splitAt, if_pos hle, hrest, ih, Option.map_some]

theorem eq_of_splitAt {before after : List Char} : ∀ {cs : List Char} {n : ℕ},
    splitAt n cs = some (before, after) → cs = before ++ after ∧ n = byteLength before := by
  intro cs
  induction cs generalizing before with
  | nil =>
    intro n h
    cases n with
    | zero =>
      obtain ⟨rfl, rfl⟩ := Prod.mk.inj (Option.some_inj.mp h)
      exact ⟨rfl, rfl⟩
    | succ n => cases h
  | cons c cs ih =>
    intro n h
    cases n with
    | zero =>
      obtain ⟨rfl, rfl⟩ := Prod.mk.inj (Option.some_inj.mp h)
      exact ⟨rfl, rfl⟩
    | succ n =>
      rw [splitAt] at h
      split at h
      · obtain ⟨⟨front, rest⟩, hsplit, heq⟩ := Option.map_eq_some_iff.mp h
        obtain ⟨rfl, rfl⟩ := Prod.mk.inj heq
        obtain ⟨rfl, hn⟩ := ih hsplit
        refine ⟨rfl, ?_⟩
        rw [byteLength_cons]
        omega
      · cases h

/-- `str::is_char_boundary`. -/
def isCharBoundary (s : String) (i : ℕ) : Bool := (splitAt i s.toList).isSome

/-- `str::len`. -/
def len (s : String) : ℕ := byteLength s.toList

/-- `String::insert`; `none` is its panic, on an offset that is no character boundary. -/
def insertAt (s : String) (i : ℕ) (c : Char) : Option String :=
  (splitAt i s.toList).map fun (before, after) => String.ofList (before ++ c :: after)

/-- `String::remove`; it panics also where there is no character to remove. -/
def removeAt (s : String) (i : ℕ) : Option String :=
  match splitAt i s.toList with
  | some (before, _ :: after) => some (String.ofList (before ++ after))
  | _ => none

theorem le_len_of_isCharBoundary {s : String} {i : ℕ} (h : isCharBoundary s i = true) :
    i ≤ len s := by
  obtain ⟨⟨before, after⟩, hsplit⟩ := Option.isSome_iff_exists.mp h
  obtain ⟨hs, rfl⟩ := eq_of_splitAt hsplit
  rw [len, hs, byteLength_append]
  exact Nat.le_add_right _ _

/-! ### Representing the editor -/

/-- The string and the byte offset stand for the editor. -/
structure Represents (s : String) (i : ℕ) (e : Editor) : Prop where
  text_eq : s.toList = e.text
  cursor_eq : i = byteLength e.before

variable {s : String} {i : ℕ} {e : Editor}

theorem represents_empty : Represents "" 0 .empty := ⟨rfl, rfl⟩

theorem Represents.splitAt_eq (h : Represents s i e) :
    splitAt i s.toList = some (e.before, e.after) := by
  rw [h.text_eq, h.cursor_eq]
  exact splitAt_append _ _

/-- The offset is a position of the string. -/
theorem Represents.isCharBoundary (h : Represents s i e) : isCharBoundary s i = true := by
  rw [LineEditor.isCharBoundary, h.splitAt_eq, Option.isSome_some]

/-- **Typing** moves the offset by the size of the character. -/
theorem Represents.insertAt (h : Represents s i e) (c : Char) :
    ∃ s', insertAt s i c = some s' ∧ Represents s' (i + c.utf8Size) (e.insert c) := by
  refine ⟨_, by rw [LineEditor.insertAt, h.splitAt_eq, Option.map_some], ?_, ?_⟩
  · simp [Editor.insert, Editor.text]
  · simp [Editor.insert, h.cursor_eq]

/-- **Deleting** the character before the cursor. -/
theorem Represents.removeAt (h : Represents s i e) {before : List Char} {c : Char}
    (hbefore : e.before = before ++ [c]) :
    ∃ s', removeAt s (i - c.utf8Size) = some s' ∧
      Represents s' (i - c.utf8Size) e.backspace := by
  have hi : i - c.utf8Size = byteLength before := by
    rw [h.cursor_eq, hbefore]
    simp
  have hsplit : splitAt (i - c.utf8Size) s.toList = some (before, c :: e.after) := by
    rw [hi, h.text_eq, Editor.text, hbefore, List.append_assoc]
    exact splitAt_append _ _
  refine ⟨_, by rw [LineEditor.removeAt, hsplit], ?_, ?_⟩
  · simp [Editor.backspace, Editor.text, hbefore]
  · simp [Editor.backspace, hbefore, hi]

theorem Represents.left (h : Represents s i e) {before : List Char} {c : Char}
    (hbefore : e.before = before ++ [c]) : Represents s (i - c.utf8Size) e.left := by
  have hleft : e.left = ⟨before, c :: e.after⟩ := by simp [Editor.left, hbefore]
  refine ⟨?_, ?_⟩
  · rw [hleft, h.text_eq, Editor.text, Editor.text, hbefore, List.append_assoc]
    rfl
  · rw [hleft, h.cursor_eq, hbefore]
    simp

theorem Represents.right (h : Represents s i e) {after : List Char} {c : Char}
    (hafter : e.after = c :: after) : Represents s (i + c.utf8Size) e.right := by
  have hright : e.right = ⟨e.before ++ [c], after⟩ := by simp [Editor.right, hafter]
  refine ⟨?_, ?_⟩
  · rw [hright, h.text_eq, Editor.text, Editor.text, hafter, List.append_assoc]
    rfl
  · rw [hright, h.cursor_eq]
    simp

end LineEditor
