/-
JSON objects of strings and lists of strings, in the compact form.

* `escape`, `unescape` — string literals: quotes, backslashes and control characters
  are escaped;
* `print`, `parse` — objects with their fields in order, without blanks;
* `parse_print` — parsing undoes printing;
* `le_of_mem_print` — what is printed contains no control character.

The parser knows every escape of a string literal but surrogate pairs.
-/
import Mathlib.Data.List.Basic
import Mathlib.Data.Option.Basic

namespace Json

/-! ### String literals -/

def hexDigit (n : ℕ) : Char := ['0', '1', '2', '3', '4', '5', '6', '7', '8', '9', 'a', 'b', 'c',
  'd', 'e', 'f'].getD n '0'

def hexValue (c : Char) : Option ℕ :=
  if '0' ≤ c ∧ c ≤ '9' then some (c.toNat - 48)
  else if 'a' ≤ c ∧ c ≤ 'f' then some (c.toNat - 87)
  else if 'A' ≤ c ∧ c ≤ 'F' then some (c.toNat - 55)
  else none

/-- The character of a `\u` escape. -/
def hexChar (a b c d : Char) : Option Char := do
  let n := (((← hexValue a) * 16 + (← hexValue b)) * 16 + (← hexValue c)) * 16 + (← hexValue d)
  if n.isValidChar then some (Char.ofNat n) else none

/-- A character within a string literal. -/
def escapeChar (c : Char) : List Char :=
  if c = '"' then ['\\', '"']
  else if c = '\\' then ['\\', '\\']
  else if c = '\x08' then ['\\', 'b']
  else if c = '\t' then ['\\', 't']
  else if c = '\n' then ['\\', 'n']
  else if c = '\x0c' then ['\\', 'f']
  else if c = '\r' then ['\\', 'r']
  else if c.toNat < 0x20 then
    ['\\', 'u', '0', '0', hexDigit (c.toNat / 16), hexDigit (c.toNat % 16)]
  else [c]

def escape (cs : List Char) : List Char := cs.flatMap escapeChar

/-- The character of a backslash and one letter. -/
def unescapeChar (e : Char) : Option Char :=
  if e = '"' then some '"'
  else if e = '\\' then some '\\'
  else if e = '/' then some '/'
  else if e = 'b' then some '\x08'
  else if e = 't' then some '\t'
  else if e = 'n' then some '\n'
  else if e = 'f' then some '\x0c'
  else if e = 'r' then some '\r'
  else none

/-- A character or an escape off the front of a literal. -/
def unescapeOne (c : Char) (rest : List Char) : Option (Char × List Char) :=
  if c = '\\' then
    match rest with
    | [] => none
    | e :: rest =>
      if e = 'u' then
        match rest with
        | h₁ :: h₂ :: h₃ :: h₄ :: rest => (hexChar h₁ h₂ h₃ h₄).map fun x => (x, rest)
        | _ => none
      else (unescapeChar e).map fun x => (x, rest)
  else if c.toNat < 0x20 then none
  else some (c, rest)

/-- The string up to its closing quote, of at most `fuel` characters, and what follows. -/
def unescape : ℕ → List Char → Option (List Char × List Char)
  | 0, _ => none
  | _ + 1, [] => none
  | fuel + 1, c :: rest =>
    if c = '"' then some ([], rest)
    else do
      let (x, rest) ← unescapeOne c rest
      let (xs, rest) ← unescape fuel rest
      return (x :: xs, rest)

theorem hexChar_control : ∀ n < 0x20,
    hexChar '0' '0' (hexDigit (n / 16)) (hexDigit (n % 16)) = some (Char.ofNat n) := by
  decide

/-- An escaped character is no quote and is read back. -/
theorem exists_unescapeOne (c : Char) (cs : List Char) :
    ∃ a rest, escapeChar c ++ cs = a :: rest ∧ a ≠ '"' ∧ unescapeOne a rest = some (c, cs) := by
  unfold escapeChar
  split_ifs with h₁ h₂ h₃ h₄ h₅ h₆ h₇ hcontrol
  · subst h₁; exact ⟨_, _, rfl, by decide, rfl⟩
  · subst h₂; exact ⟨_, _, rfl, by decide, rfl⟩
  · subst h₃; exact ⟨_, _, rfl, by decide, rfl⟩
  · subst h₄; exact ⟨_, _, rfl, by decide, rfl⟩
  · subst h₅; exact ⟨_, _, rfl, by decide, rfl⟩
  · subst h₆; exact ⟨_, _, rfl, by decide, rfl⟩
  · subst h₇; exact ⟨_, _, rfl, by decide, rfl⟩
  · have hchar := hexChar_control c.toNat hcontrol
    rw [Char.ofNat_toNat] at hchar
    exact ⟨_, _, rfl, by decide, congrArg (Option.map _) hchar⟩
  · refine ⟨c, cs, rfl, h₁, ?_⟩
    unfold unescapeOne
    rw [if_neg h₂, if_neg hcontrol]

/-- **Unescaping stops at the closing quote** and leaves what follows. -/
theorem unescape_escape (rest : List Char) : ∀ {fuel : ℕ} {cs : List Char}, cs.length < fuel →
    unescape fuel (escape cs ++ '"' :: rest) = some (cs, rest) := by
  intro fuel
  induction fuel with
  | zero => intro cs h; exact absurd h (Nat.not_lt_zero _)
  | succ fuel ih =>
    intro cs h
    cases cs with
    | nil => rfl
    | cons c cs =>
      obtain ⟨a, tail, htail, ha, hone⟩ := exists_unescapeOne c (escape cs ++ '"' :: rest)
      rw [escape, List.flatMap_cons, List.append_assoc]
      change unescape _ (escapeChar c ++ (escape cs ++ '"' :: rest)) = _
      rw [htail, unescape, if_neg ha, hone]
      simp only [Option.bind_eq_bind, Option.bind_some, ih (Nat.lt_of_succ_lt_succ h)]
      rfl

theorem length_le_escape (cs : List Char) : cs.length ≤ (escape cs).length := by
  induction cs with
  | nil => exact Nat.le_refl _
  | cons c cs ih =>
    have hc : 1 ≤ (escapeChar c).length := by
      unfold escapeChar
      split_ifs <;> simp
    rw [escape] at ih ⊢
    rw [List.flatMap_cons, List.length_append, List.length_cons]
    omega

theorem le_of_mem_escapeChar {c d : Char} (h : d ∈ escapeChar c) : 0x20 ≤ d.toNat := by
  have hhex : ∀ n < 0x20, ['\\', 'u', '0', '0', hexDigit (n / 16), hexDigit (n % 16)].all
      fun d => 0x20 ≤ d.toNat := by
    decide
  have hletter : ['"', '\\', 'b', 't', 'n', 'f', 'r'].all fun x => ['\\', x].all
      fun d => 0x20 ≤ d.toNat := by
    decide
  simp only [List.all_eq_true, decide_eq_true_eq] at hhex hletter
  unfold escapeChar at h
  split_ifs at h with h₁ h₂ h₃ h₄ h₅ h₆ h₇ hcontrol
  · exact hletter '"' (by simp) d h
  · exact hletter '\\' (by simp) d h
  · exact hletter 'b' (by simp) d h
  · exact hletter 't' (by simp) d h
  · exact hletter 'n' (by simp) d h
  · exact hletter 'f' (by simp) d h
  · exact hletter 'r' (by simp) d h
  · exact hhex c.toNat hcontrol d h
  · rw [List.mem_singleton.mp h]
    exact Nat.not_lt.mp hcontrol

/-! ### Lists in brackets -/

section
variable {α : Type*} {item : List Char → Option (α × List Char)} {print : α → List Char}
  {close : Char}

/-- Items with commas between them. -/
def printItems (print : α → List Char) : List α → List Char
  | [] => []
  | x :: xs => print x ++ xs.flatMap fun y => ',' :: print y

/-- What follows an item: commas with items, up to the closing bracket. -/
def readMore (item : List Char → Option (α × List Char)) (close : Char) :
    ℕ → List Char → Option (List α × List Char)
  | 0, _ => none
  | _ + 1, [] => none
  | fuel + 1, c :: rest =>
    if c = close then some ([], rest)
    else if c = ',' then do
      let (x, rest) ← item rest
      let (xs, rest) ← readMore item close fuel rest
      return (x :: xs, rest)
    else none

/-- The items behind an opening bracket. -/
def readItems (item : List Char → Option (α × List Char)) (close : Char) (cs : List Char) :
    Option (List α × List Char) :=
  if cs.head? = some close then some ([], cs.tail)
  else do
    let (x, rest) ← item cs
    let (xs, rest) ← readMore item close (rest.length + 1) rest
    return (x :: xs, rest)

theorem readMore_flatMap (hclose : close ≠ ',')
    (hitem : ∀ x rest, item (print x ++ rest) = some (x, rest)) (rest : List Char) :
    ∀ {fuel : ℕ} {xs : List α}, xs.length < fuel →
      readMore item close fuel ((xs.flatMap fun y => ',' :: print y) ++ close :: rest) =
        some (xs, rest) := by
  intro fuel
  induction fuel with
  | zero => intro xs h; exact absurd h (Nat.not_lt_zero _)
  | succ fuel ih =>
    intro xs h
    cases xs with
    | nil => exact if_pos rfl
    | cons x xs =>
      rw [List.flatMap_cons, List.append_assoc, List.cons_append, readMore, if_neg hclose.symm,
        if_pos rfl, hitem]
      simp only [Option.bind_eq_bind, Option.bind_some, ih (Nat.lt_of_succ_lt_succ h)]
      rfl

theorem length_le_commas (print : α → List Char) (xs : List α) :
    xs.length ≤ (xs.flatMap fun y => ',' :: print y).length := by
  induction xs with
  | nil => exact Nat.le_refl _
  | cons x xs ih =>
    rw [List.flatMap_cons, List.length_append, List.length_cons, List.length_cons]
    omega

theorem readItems_printItems (hclose : close ≠ ',')
    (hitem : ∀ x rest, item (print x ++ rest) = some (x, rest))
    (hprint : ∀ x rest, (print x ++ rest).head? ≠ some close) (xs : List α) (rest : List Char) :
    readItems item close (printItems print xs ++ close :: rest) = some (xs, rest) := by
  cases xs with
  | nil => exact if_pos rfl
  | cons x xs =>
    rw [printItems, List.append_assoc, readItems, if_neg (hprint x _), hitem]
    have hlen : xs.length < ((xs.flatMap fun y => ',' :: print y) ++ close :: rest).length + 1 := by
      have := length_le_commas print xs
      rw [List.length_append]
      omega
    simp only [Option.bind_eq_bind, Option.bind_some, readMore_flatMap hclose hitem rest hlen]
    rfl

theorem exists_of_mem_printItems {xs : List α} {d : Char} (h : d ∈ printItems print xs) :
    d = ',' ∨ ∃ x, d ∈ print x := by
  cases xs with
  | nil => exact absurd h List.not_mem_nil
  | cons x xs =>
    rcases List.mem_append.mp h with h | h
    · exact .inr ⟨x, h⟩
    · obtain ⟨y, -, h⟩ := List.mem_flatMap.mp h
      rcases List.mem_cons.mp h with h | h
      · exact .inl h
      · exact .inr ⟨y, h⟩

end

/-! ### Objects -/

inductive Value where
  | text (s : String)
  | texts (l : List String)
  deriving DecidableEq, Repr

def printText (s : String) : List Char := '"' :: (escape s.toList ++ ['"'])

def printValue : Value → List Char
  | .text s => printText s
  | .texts l => '[' :: (printItems printText l ++ [']'])

def printField (field : String × Value) : List Char :=
  printText field.1 ++ ':' :: printValue field.2

/-- An object, as the text of its fields in order. -/
def print (fields : List (String × Value)) : String :=
  String.ofList ('{' :: (printItems printField fields ++ ['}']))

def readText : List Char → Option (String × List Char)
  | '"' :: rest => (unescape (rest.length + 1) rest).map fun (cs, rest) => (String.ofList cs, rest)
  | _ => none

def readValue : List Char → Option (Value × List Char)
  | '[' :: rest => (readItems readText ']' rest).map fun (l, rest) => (.texts l, rest)
  | cs => (readText cs).map fun (s, rest) => (.text s, rest)

def readField (cs : List Char) : Option ((String × Value) × List Char) := do
  let (key, rest) ← readText cs
  match rest with
  | ':' :: rest => (readValue rest).map fun (value, rest) => ((key, value), rest)
  | _ => none

/-- The fields of an object that is the whole text. -/
def parse (s : String) : Option (List (String × Value)) :=
  match s.toList with
  | '{' :: rest =>
    match readItems readField '}' rest with
    | some (fields, []) => some fields
    | _ => none
  | _ => none

theorem readText_printText (s : String) (rest : List Char) :
    readText (printText s ++ rest) = some (s, rest) := by
  have hlen : s.toList.length < (escape s.toList ++ '"' :: rest).length + 1 := by
    have := length_le_escape s.toList
    rw [List.length_append]
    omega
  rw [printText, List.cons_append, List.append_assoc, readText]
  change (unescape ((escape s.toList ++ '"' :: rest).length + 1) (escape s.toList ++ '"' :: rest)).map
    _ = _
  simp only [unescape_escape rest hlen, Option.map_some, String.ofList_toList]

theorem readValue_printValue (value : Value) (rest : List Char) :
    readValue (printValue value ++ rest) = some (value, rest) := by
  cases value with
  | text s =>
    change (readText (printText s ++ rest)).map _ = _
    rw [readText_printText]
    rfl
  | texts l =>
    rw [printValue, List.cons_append, List.append_assoc]
    change (readItems readText ']' (printItems printText l ++ ']' :: rest)).map _ = _
    rw [readItems_printItems (by decide) readText_printText (fun x rest h => by cases h)]
    rfl

theorem readField_printField (field : String × Value) (rest : List Char) :
    readField (printField field ++ rest) = some (field, rest) := by
  rw [printField, List.append_assoc, readField, readText_printText]
  change (readValue (printValue field.2 ++ rest)).map _ = _
  rw [readValue_printValue]
  rfl

/-- **Parsing undoes printing.** -/
theorem parse_print (fields : List (String × Value)) : parse (print fields) = some fields := by
  rw [parse, print, String.toList_ofList]
  simp only
  rw [readItems_printItems (by decide) readField_printField (fun x rest h => by cases h)]

theorem le_of_mem_printText {s : String} {d : Char} (h : d ∈ printText s) : 0x20 ≤ d.toNat := by
  rcases List.mem_cons.mp h with rfl | h
  · decide
  · rcases List.mem_append.mp h with h | h
    · obtain ⟨c, -, h⟩ := List.mem_flatMap.mp h
      exact le_of_mem_escapeChar h
    · rw [List.mem_singleton.mp h]
      decide

theorem le_of_mem_printValue {value : Value} {d : Char} (h : d ∈ printValue value) :
    0x20 ≤ d.toNat := by
  cases value with
  | text s => exact le_of_mem_printText h
  | texts l =>
    rcases List.mem_cons.mp h with rfl | h
    · decide
    · rcases List.mem_append.mp h with h | h
      · rcases exists_of_mem_printItems h with rfl | ⟨s, h⟩
        · decide
        · exact le_of_mem_printText h
      · rw [List.mem_singleton.mp h]
        decide

/-- **What is printed contains no control character.** -/
theorem le_of_mem_print {fields : List (String × Value)} {d : Char}
    (h : d ∈ (print fields).toList) : 0x20 ≤ d.toNat := by
  rw [print, String.toList_ofList] at h
  rcases List.mem_cons.mp h with rfl | h
  · decide
  · rcases List.mem_append.mp h with h | h
    · rcases exists_of_mem_printItems h with rfl | ⟨field, h⟩
      · decide
      · rcases List.mem_append.mp h with h | h
        · exact le_of_mem_printText h
        · rcases List.mem_cons.mp h with rfl | h
          · decide
          · exact le_of_mem_printValue h
    · rw [List.mem_singleton.mp h]
      decide

theorem print_ne_empty (fields : List (String × Value)) : print fields ≠ "" := by
  intro h
  have := congrArg String.toList h
  rw [print, String.toList_ofList] at this
  exact absurd this (by simp)

end Json
