/-
Reading and writing binary formats on byte lists.

Numbers of a fixed width are written low byte first (`leBytes`) or high byte
first (`beBytes`); readers take what they need off the front of the input and
return what is left, `none` when the input ends too early.

* `readLe_leBytes`, `readBe_beBytes` — a written number is read back modulo
  `256 ^ w`, whatever follows it;
* `readUtf8_utf8` — a string is read back from its UTF-8 bytes;
* `exists_utf8_of_lt` — the bytes of ASCII are text in any order;
* `isSome_ofUtf8_slice` — which slices of the bytes of a text are strings themselves;
* `isInfix_of_utf8` — they are parts of the text.
-/
import Mathlib.Algebra.Order.Ring.Nat

namespace ByteFormat

/-- The `w` low bytes of `n`, low byte first. -/
def leBytes : ℕ → ℕ → List UInt8
  | 0, _ => []
  | w + 1, n => UInt8.ofNat (n % 256) :: leBytes w (n / 256)

/-- The number of these bytes, low byte first. -/
def ofLeBytes : List UInt8 → ℕ
  | [] => 0
  | b :: bs => b.toNat + 256 * ofLeBytes bs

def beBytes (w n : ℕ) : List UInt8 := (leBytes w n).reverse

def ofBeBytes (bs : List UInt8) : ℕ := ofLeBytes bs.reverse

/-- Exactly `n` bytes off the front. -/
def readExact (n : ℕ) (bs : List UInt8) : Option (List UInt8 × List UInt8) :=
  if n ≤ bs.length then some (bs.take n, bs.drop n) else none

def readLe (w : ℕ) (bs : List UInt8) : Option (ℕ × List UInt8) :=
  (readExact w bs).map fun (front, rest) => (ofLeBytes front, rest)

def readBe (w : ℕ) (bs : List UInt8) : Option (ℕ × List UInt8) :=
  (readExact w bs).map fun (front, rest) => (ofBeBytes front, rest)

def utf8 (s : String) : List UInt8 := s.toUTF8.data.toList

def ofUtf8 (bs : List UInt8) : Option String := String.fromUTF8? ⟨bs.toArray⟩

/-- A string of `n` bytes off the front. -/
def readUtf8 (n : ℕ) (bs : List UInt8) : Option (String × List UInt8) :=
  (readExact n bs).bind fun (front, rest) => (ofUtf8 front).map fun s => (s, rest)

/-! ### Numbers -/

@[simp] theorem length_leBytes (w : ℕ) : ∀ n, (leBytes w n).length = w := by
  induction w with
  | zero => exact fun _ => rfl
  | succ w ih => exact fun n => congrArg (· + 1) (ih (n / 256))

@[simp] theorem length_beBytes (w n : ℕ) : (beBytes w n).length = w := by
  rw [beBytes, List.length_reverse, length_leBytes]

theorem ofLeBytes_leBytes (w : ℕ) : ∀ n, ofLeBytes (leBytes w n) = n % 256 ^ w := by
  induction w with
  | zero => intro n; rw [Nat.pow_zero, Nat.mod_one]; rfl
  | succ w ih =>
    intro n
    have hlow : (UInt8.ofNat (n % 256)).toNat = n % 256 := by
      rw [UInt8.toNat_ofNat']
      exact Nat.mod_eq_of_lt (Nat.mod_lt n (by decide))
    rw [leBytes, ofLeBytes, ih, hlow, Nat.pow_succ', Nat.mod_mul]

theorem ofBeBytes_beBytes (w n : ℕ) : ofBeBytes (beBytes w n) = n % 256 ^ w := by
  rw [ofBeBytes, beBytes, List.reverse_reverse, ofLeBytes_leBytes]

/-! ### Readers -/

theorem readExact_append {n : ℕ} {front : List UInt8} (h : front.length = n)
    (rest : List UInt8) : readExact n (front ++ rest) = some (front, rest) := by
  subst h
  simp [readExact]

theorem readLe_leBytes (w n : ℕ) (rest : List UInt8) :
    readLe w (leBytes w n ++ rest) = some (n % 256 ^ w, rest) := by
  simp only [readLe, readExact_append (length_leBytes w n), Option.map_some, ofLeBytes_leBytes]

theorem readBe_beBytes (w n : ℕ) (rest : List UInt8) :
    readBe w (beBytes w n ++ rest) = some (n % 256 ^ w, rest) := by
  simp only [readBe, readExact_append (length_beBytes w n), Option.map_some, ofBeBytes_beBytes]

theorem ofUtf8_utf8 (s : String) : ofUtf8 (utf8 s) = some s := by
  have hvalid : (⟨(utf8 s).toArray⟩ : ByteArray).IsValidUTF8 := s.isValidUTF8
  rw [ofUtf8, String.fromUTF8?, dif_pos hvalid]
  rfl

theorem isSome_ofUtf8 (bs : List UInt8) :
    (ofUtf8 bs).isSome = true ↔ (⟨bs.toArray⟩ : ByteArray).IsValidUTF8 := by
  rw [ofUtf8, String.fromUTF8?]
  split <;> simpa

theorem utf8_of_ofUtf8 {bs : List UInt8} {s : String} (h : ofUtf8 bs = some s) : utf8 s = bs := by
  rw [ofUtf8, String.fromUTF8?] at h
  split at h
  · obtain rfl := Option.some_inj.mp h
    rfl
  · cases h

theorem readUtf8_utf8 (s : String) (rest : List UInt8) :
    readUtf8 (utf8 s).length (utf8 s ++ rest) = some (s, rest) := by
  simp only [readUtf8, readExact_append rfl, Option.bind_some, ofUtf8_utf8, Option.map_some]

/-! ### Characters and bytes -/

theorem utf8_append (s t : String) : utf8 (s ++ t) = utf8 s ++ utf8 t := by
  simp [utf8]

theorem utf8_ofList (l : List Char) :
    utf8 (String.ofList l) = l.flatMap String.utf8EncodeChar := by
  simp [utf8, List.utf8Encode]

theorem utf8_eq_flatMap (s : String) : utf8 s = s.toList.flatMap String.utf8EncodeChar := by
  rw [← utf8_ofList, String.ofList_toList]

/-- Only the characters of ASCII are encoded with bytes below 128. -/
theorem toNat_of_mem_utf8EncodeChar {c : Char} {b : UInt8} (h : b ∈ String.utf8EncodeChar c)
    (hb : b.toNat < 0x80) : c.toNat = b.toNat := by
  change c.val.toNat = b.toNat
  simp only [String.utf8EncodeChar] at h
  split_ifs at h
  · obtain rfl := List.mem_singleton.mp h
    rw [UInt8.toNat_ofNat']
    omega
  · simp only [List.mem_cons, List.not_mem_nil, or_false] at h
    rcases h with rfl | rfl <;> rw [UInt8.toNat_ofNat'] at hb <;> omega
  · simp only [List.mem_cons, List.not_mem_nil, or_false] at h
    rcases h with rfl | rfl | rfl <;> rw [UInt8.toNat_ofNat'] at hb <;> omega
  · simp only [List.mem_cons, List.not_mem_nil, or_false] at h
    rcases h with rfl | rfl | rfl | rfl <;> rw [UInt8.toNat_ofNat'] at hb <;> omega

theorem utf8EncodeChar_of_lt {c : Char} (h : c.toNat < 0x80) :
    String.utf8EncodeChar c = [UInt8.ofNat c.toNat] := by
  have hle : c.toNat ≤ 127 := Nat.lt_succ_iff.mp h
  simp [String.utf8EncodeChar, hle]

/-- The bytes of ASCII text. -/
theorem lt_of_mem_utf8 {text : String} (h : ∀ c ∈ text.toList, c.toNat < 0x80) {b : UInt8}
    (hb : b ∈ utf8 text) : b.toNat < 0x80 := by
  rw [utf8_eq_flatMap] at hb
  obtain ⟨c, hc, hb⟩ := List.mem_flatMap.mp hb
  have hlt := h c hc
  rw [utf8EncodeChar_of_lt hlt, List.mem_singleton] at hb
  rw [hb, UInt8.toNat_ofNat']
  omega

/-- Such bytes are text, in any order. -/
theorem exists_utf8_of_lt {bs : List UInt8} (h : ∀ b ∈ bs, b.toNat < 0x80) :
    ∃ text, utf8 text = bs := by
  refine ⟨String.ofList (bs.map fun b => Char.ofNat b.toNat), ?_⟩
  rw [utf8_ofList]
  induction bs with
  | nil => rfl
  | cons b bs ih =>
    obtain ⟨hb, hbs⟩ := List.forall_mem_cons.mp h
    have hvalid : b.toNat.isValidChar := .inl (by omega)
    have hchar : (Char.ofNat b.toNat).toNat = b.toNat := by
      rw [Char.ofNat, dif_pos hvalid]
      rfl
    rw [List.map_cons, List.flatMap_cons, ih hbs, utf8EncodeChar_of_lt (by rwa [hchar]), hchar,
      UInt8.ofNat_toNat]
    rfl

/-! ### Slices of a text -/

/-- The position `n` of the bytes of `text` is between two characters. -/
def Boundary (text : String) (n : ℕ) : Prop := String.Pos.Raw.IsValid text ⟨n⟩

theorem boundary_zero (text : String) : Boundary text 0 := String.Pos.Raw.isValid_zero

theorem boundary_length (text : String) : Boundary text (utf8 text).length :=
  String.Pos.Raw.isValid_rawEndPos

/-- Bytes of a text are a string iff there are none, or they start and end between two
characters. -/
theorem isSome_ofUtf8_slice {text : String} {i n : ℕ} (h : i + n ≤ (utf8 text).length) :
    (ofUtf8 (((utf8 text).drop i).take n)).isSome = true ↔
      n = 0 ∨ Boundary text i ∧ Boundary text (i + n) := by
  have hextract : (⟨(((utf8 text).drop i).take n).toArray⟩ : ByteArray) =
      text.toByteArray.extract i (i + n) := by
    apply ByteArray.ext
    apply Array.ext'
    simp [utf8, List.extract_eq_take_drop]
  have hle : (⟨i⟩ : String.Pos.Raw) ≤ ⟨i + n⟩ := by
    rw [String.Pos.Raw.le_iff]
    exact Nat.le_add_right i n
  have hend : (⟨i + n⟩ : String.Pos.Raw) ≤ text.rawEndPos := by
    rw [String.Pos.Raw.le_iff]
    exact h
  rw [isSome_ofUtf8, hextract, String.Pos.Raw.isValidUTF8_extract_iff ⟨i⟩ ⟨i + n⟩ hle hend]
  simp [Boundary, String.Pos.Raw.ext_iff]

theorem utf8_injective {s t : String} (h : utf8 s = utf8 t) : s = t := by
  have hs := ofUtf8_utf8 s
  rw [h, ofUtf8_utf8] at hs
  exact (Option.some_inj.mp hs).symm

/-- A text can be cut between two characters. -/
theorem Boundary.exists_append {text : String} {n : ℕ} (h : Boundary text n) :
    ∃ front back, text = front ++ back ∧ (utf8 front).length = n := by
  obtain ⟨front, back, htext, hpos⟩ := String.Pos.Raw.isValid_iff_exists_append.mp h
  exact ⟨front, back, htext, (congrArg String.Pos.Raw.byteIdx hpos).symm⟩

/-- A string whose bytes are a part of those of a text is a part of the text. -/
theorem exists_append_of_utf8 {part text : String} {front back : List UInt8}
    (h : front ++ utf8 part ++ back = utf8 text) (hne : part ≠ "") :
    ∃ before after, text = before ++ part ++ after ∧ utf8 before = front ∧ utf8 after = back := by
  have hlen := congrArg List.length h
  simp only [List.length_append] at hlen
  have hslice : ((utf8 text).drop front.length).take (utf8 part).length = utf8 part := by
    rw [← h, List.append_assoc, List.drop_left, List.take_left]
  have hvalid : (utf8 part).length = 0 ∨
      Boundary text front.length ∧ Boundary text (front.length + (utf8 part).length) :=
    (isSome_ofUtf8_slice (by omega)).mp (by rw [hslice, ofUtf8_utf8]; rfl)
  rcases hvalid with hnone | ⟨hfront, hback⟩
  · exact absurd (utf8_injective (t := "") (List.length_eq_zero_iff.mp hnone)) hne
  · obtain ⟨before, rest, htext, hbefore⟩ := hfront.exists_append
    obtain ⟨before', after, htext', hbefore'⟩ := hback.exists_append
    rw [htext', utf8_append] at h
    obtain ⟨hfull, hafter⟩ := List.append_inj h (by rw [List.length_append]; omega)
    have hsplit : utf8 before ++ utf8 rest = front ++ (utf8 part ++ back) := by
      rw [← utf8_append, ← htext, htext', utf8_append, ← hfull, ← hafter, List.append_assoc]
    obtain ⟨hbefore, -⟩ := List.append_inj hsplit hbefore
    have hboth : utf8 before' = utf8 (before ++ part) := by rw [← hfull, utf8_append, hbefore]
    exact ⟨before, after, utf8_injective hboth ▸ htext', hbefore, hafter.symm⟩

theorem isInfix_of_utf8 {part text : String} (h : utf8 part <:+: utf8 text) :
    part.toList <:+: text.toList := by
  obtain ⟨front, back, h⟩ := h
  by_cases hne : part = ""
  · rw [hne]
    exact List.nil_infix
  · obtain ⟨before, after, rfl, -⟩ := exists_append_of_utf8 h hne
    exact ⟨before.toList, after.toList, by simp only [String.toList_append]⟩

theorem isPrefix_of_utf8 {part text : String} (h : utf8 part <+: utf8 text) :
    part.toList <+: text.toList := by
  obtain ⟨back, h⟩ := h
  by_cases hne : part = ""
  · rw [hne]
    exact List.nil_prefix
  · have hslice : [] ++ utf8 part ++ back = utf8 text := h
    obtain ⟨before, after, rfl, hbefore, -⟩ := exists_append_of_utf8 hslice hne
    obtain rfl := utf8_injective (t := "") hbefore
    exact ⟨after.toList, by simp only [String.toList_append, String.toList_empty, List.nil_append]⟩

end ByteFormat
