/-
The chat protocol's messages and its line framing (`message.rs`).

Messages travel as JSON objects, one a line.  `serde_json` is not part of the
repository: `fromStr` stands for `serde_json::from_str` at the message type,
`none` for its error.  `readMessage` is the loop body of `read_message` as a
decoder of the line reader: what becomes of the bytes that `read_line` returns.

Rust's `str::trim` removes the characters with the Unicode property
`White_Space`; `isWhitespace` lists them.
-/
import AsyncRust.ByteFormat
import AsyncRust.LineReader
import Mathlib.Data.List.DropRight

namespace Chat

open LineReader

/-! ### Trimming -/

/-- `char::is_whitespace`: the Unicode property `White_Space`. -/
def isWhitespace (c : Char) : Bool :=
  (0x09 ≤ c.toNat && c.toNat ≤ 0x0D) || (0x2000 ≤ c.toNat && c.toNat ≤ 0x200A) ||
    [0x20, 0x85, 0xA0, 0x1680, 0x2028, 0x2029, 0x202F, 0x205F, 0x3000].contains c.toNat

/-- `str::trim`. -/
def trim (s : String) : String :=
  String.ofList ((s.toList.dropWhile isWhitespace).rdropWhile isWhitespace)

/-- No whitespace at either end. -/
def Trimmed (s : String) : Prop :=
  (∀ c, s.toList.head? = some c → isWhitespace c = false) ∧
    ∀ c, s.toList.getLast? = some c → isWhitespace c = false

theorem head?_of_isPrefix {α : Type*} {l l' : List α} (h : l <+: l') {a : α}
    (ha : l.head? = some a) : l'.head? = some a := by
  obtain ⟨t, rfl⟩ := h
  rw [List.head?_append, ha]
  rfl

theorem trimmed_trim (s : String) : Trimmed (trim s) := by
  unfold Trimmed trim
  rw [String.toList_ofList]
  constructor
  · intro c hc
    have hhead := head?_of_isPrefix (List.rdropWhile_prefix isWhitespace _) hc
    by_contra hw
    have := List.head?_dropWhile_not isWhitespace s.toList
    rw [hhead] at this
    simp [hw] at this
  · intro c hc
    rw [List.getLast?_eq_some_iff] at hc
    obtain ⟨l, hl⟩ := hc
    have hne : (s.toList.dropWhile isWhitespace).rdropWhile isWhitespace ≠ [] := by
      rw [hl]
      simp
    have hlast := List.rdropWhile_last_not isWhitespace _ hne
    simpa [hl] using hlast

/-! ### Messages -/

inductive ClientToServer where
  | hello (nickname : String)
  | chat (text : String)
  deriving DecidableEq, Repr

inductive ServerToClient where
  | welcome (nickname : String)
  | roster (participants : List String)
  | userJoined (nickname : String)
  | userLeft (nickname : String)
  | chat (nickname text : String)
  | error (message : String)
  deriving DecidableEq, Repr

/-! ### Reading a message -/

/-- The `io::Error`s of `read_message`: of the stream, of `read_line` for a
line that is not UTF-8, and `to_io_error` of a `serde_json` error. -/
inductive IoError where
  | stream
  | invalidUtf8
  | invalidData
  deriving DecidableEq, Repr

/-- The result of `read_message`; `none` is the end of the stream. -/
abbrev ReadResult (T : Type) := Except IoError (Option T)

def lineEndings : List Char := ['\n', '\r']

/-- `line.trim_end_matches(LINE_ENDINGS)`. -/
def trimEndMatches (line : String) : String :=
  String.ofList (line.toList.rdropWhile lineEndings.contains)

/-- What becomes of a line that `read_line` has consumed; `none` is the
`continue` for a blank line. -/
def finishLine {T : Type} (fromStr : String → Option T) (bytes : List UInt8) :
    Option (ReadResult T) :=
  match String.fromUTF8? ⟨bytes.toArray⟩ with
  | none => some (.error .invalidUtf8)
  | some line =>
    let trimmed := trimEndMatches line
    if trimmed = "" then none
    else
      match fromStr trimmed with
      | none => some (.error .invalidData)
      | some parsed => some (.ok (some parsed))

section
variable {T : Type} {fromStr : String → Option T} {bytes : List UInt8}

theorem finishLine_of_none (h : ByteFormat.ofUtf8 bytes = none) :
    finishLine fromStr bytes = some (.error .invalidUtf8) := by
  rw [ByteFormat.ofUtf8] at h
  rw [finishLine, h]

theorem finishLine_of_some {line : String} (h : ByteFormat.ofUtf8 bytes = some line) :
    finishLine fromStr bytes = if trimEndMatches line = "" then none
      else (fromStr (trimEndMatches line)).elim (some (.error .invalidData))
        fun parsed => some (.ok (some parsed)) := by
  rw [ByteFormat.ofUtf8] at h
  rw [finishLine, h]
  simp only
  cases fromStr (trimEndMatches line) <;> rfl

end

/-- `read_message`, as a decoder of the line reader. -/
def readMessage {T : Type} (fromStr : String → Option T) : Decoder (ReadResult T) where
  finish := finishLine fromStr
  eof := .ok none
  failed := .error .stream

/-- The results after which `run_client_session` and `run_client_loop` read no
more: an error leaves them through `?`, the end of the stream through `break`. -/
def endsLoop {T : Type} : ReadResult T → Bool
  | .ok (some _) => false
  | .ok none => true
  | .error _ => true

end Chat
