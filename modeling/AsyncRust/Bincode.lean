/-
The `bincode` format of a command.

`bincode::serialize` writes the tag of the variant as four bytes and a string
as its length in eight bytes before its UTF-8 bytes, low bytes first;
`bincode::deserialize` reads them back and ignores what follows.

* `deserialize_serialize`, `serialize_ne_nil` — what the Raft programs rely on.
-/
import AsyncRust.ByteFormat
import AsyncRust.RaftLibrary

namespace Raft.Bincode

open ByteFormat

/-- A length that does not fit does not occur in the program. -/
def serializeString (s : String) : Except String (List UInt8) :=
  if (utf8 s).length < 256 ^ 8 then .ok (leBytes 8 (utf8 s).length ++ utf8 s)
  else .error "string too long"

def serialize : CommandPayload → Except String (List UInt8)
  | .put key value => do
    let key ← serializeString key
    let value ← serializeString value
    pure (leBytes 4 0 ++ (key ++ value))

def deserializeString (bytes : List UInt8) : Except String (String × List UInt8) :=
  match readLe 8 bytes with
  | none => .error "unexpected end of file"
  | some (len, rest) =>
    match readUtf8 len rest with
    | none => .error "string is not valid utf8"
    | some result => .ok result

def deserialize (bytes : List UInt8) : Except String CommandPayload :=
  match readLe 4 bytes with
  | none => .error "unexpected end of file"
  | some (0, rest) => do
    let (key, rest) ← deserializeString rest
    let (value, _) ← deserializeString rest
    pure (.put key value)
  | some (_, _) => .error "invalid variant index"

theorem deserializeString_serializeString {s : String} {bytes : List UInt8}
    (h : serializeString s = .ok bytes) (rest : List UInt8) :
    deserializeString (bytes ++ rest) = .ok (s, rest) := by
  unfold serializeString at h
  split at h
  · rename_i hlen
    cases h
    rw [List.append_assoc, deserializeString, readLe_leBytes, Nat.mod_eq_of_lt hlen]
    simp only [readUtf8_utf8]
  · cases h

theorem serialize_eq_ok {key value : String} {bytes : List UInt8}
    (h : serialize (.put key value) = .ok bytes) :
    ∃ k v, serializeString key = .ok k ∧ serializeString value = .ok v ∧
      bytes = leBytes 4 0 ++ (k ++ v) := by
  rw [serialize] at h
  cases hk : serializeString key with
  | error err => rw [hk] at h; cases h
  | ok k =>
    cases hv : serializeString value with
    | error err => rw [hk, hv] at h; cases h
    | ok v => rw [hk, hv] at h; cases h; exact ⟨k, v, rfl, rfl, rfl⟩

theorem deserialize_serialize (payload : CommandPayload) (bytes : List UInt8)
    (h : serialize payload = .ok bytes) : deserialize bytes = .ok payload := by
  cases payload with
  | put key value =>
    obtain ⟨k, v, hk, hv, rfl⟩ := serialize_eq_ok h
    have hv' := deserializeString_serializeString hv []
    rw [List.append_nil] at hv'
    rw [deserialize, readLe_leBytes]
    simp only [Nat.zero_mod, deserializeString_serializeString hk v, hv', bind, Except.bind]
    rfl

theorem serialize_ne_nil (payload : CommandPayload) : serialize payload ≠ .ok [] := by
  intro h
  cases payload with
  | put key value =>
    obtain ⟨k, v, -, -, hbytes⟩ := serialize_eq_ok h
    cases hbytes

end Raft.Bincode
