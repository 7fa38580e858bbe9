/-
Lines of messages, and parts of them.

A reader that has lost the beginning of a line, or that has seen only the beginning, takes
the part for a line.  What comes of it depends on the encoding: `Serde.Closed` says that no
beginning of the text of a message is the text of one, and `Serde.Solid` that no part is.
The messages of the client are solid; those of the server are closed, but a roster with the
right nicknames has a part that is another message.

* `found_of_isPrefix`, `found_of_isInfix` — a part of a line gives its message or none;
* `recordJson_closed`, `clientJson_solid` — the JSON of the protocol.
-/
import AsyncRust.JsonParts
import AsyncRust.LineDrops
import AsyncRust.LineProtocol

namespace Chat

open LineReader ByteFormat

variable {T : Type}

/-- The message that was read, if any. -/
def messageOf : ReadResult T → Option T
  | .ok message => message
  | .error _ => none

def linesOf (json : Serde T) (messages : List T) : List (List UInt8) :=
  messages.map fun message => (Item.message message).line json

/-- No beginning of the text of a message but the whole is the text of one. -/
def Serde.Closed (json : Serde T) : Prop :=
  ∀ message text part, json.toVec message = some (utf8 text) → part.toList <+: text.toList →
    part ≠ text → json.fromStr part = none

/-- No part of the text of a message but the whole is the text of one. -/
def Serde.Solid (json : Serde T) : Prop :=
  ∀ message text part, json.toVec message = some (utf8 text) → part.toList <:+: text.toList →
    part ≠ text → json.fromStr part = none

theorem Serde.Solid.closed {json : Serde T} (h : json.Solid) : json.Closed :=
  fun message text part htext hpart => h message text part htext hpart.isInfix

/-! ### Lines -/

section
variable {json : Serde T} {message : T} {part : List UInt8}

theorem linesOf_append (json : Serde T) (messages messages' : List T) :
    (linesOf json (messages ++ messages')).flatten =
      (linesOf json messages).flatten ++ (linesOf json messages').flatten := by
  rw [linesOf, List.map_append, List.flatten_append]
  rfl

theorem linesOf_isPrefix (json : Serde T) {sent tried : List T} (h : sent <+: tried) :
    (linesOf json sent).flatten <+: (linesOf json tried).flatten := by
  obtain ⟨rest, rfl⟩ := h
  rw [linesOf_append]
  exact List.prefix_append _ _

theorem whole_of_mem_linesOf (hjson : json.Lawful) {messages : List T} :
    ∀ l ∈ linesOf json messages, Whole l := by
  intro l hl
  obtain ⟨message, -, rfl⟩ := List.mem_map.mp hl
  exact whole_line hjson _

theorem found_line (hjson : json.Lawful) (message : T) :
    (readMessage json.fromStr).found messageOf ((Item.message message).line json) =
      some message := by
  change (finishLine json.fromStr ((Item.message message).line json)).bind messageOf = _
  rw [finishLine_line hjson]
  rfl

theorem filterMap_found_linesOf (hjson : json.Lawful) (messages : List T) :
    (linesOf json messages).filterMap ((readMessage json.fromStr).found messageOf) = messages := by
  rw [linesOf, List.filterMap_map]
  refine (List.filterMap_congr fun message _ => ?_).trans List.filterMap_some
  exact found_line hjson message

/-! ### Parts -/

theorem parsed_of_found (h : (readMessage json.fromStr).found messageOf part = some message) :
    ∃ text, ofUtf8 part = some text ∧ json.fromStr (trimEndMatches text) = some message := by
  change (finishLine json.fromStr part).bind messageOf = some message at h
  cases htext : ofUtf8 part with
  | none =>
    rw [finishLine_of_none htext] at h
    cases h
  | some text =>
    refine ⟨text, rfl, ?_⟩
    rw [finishLine_of_some htext] at h
    split at h
    · cases h
    · cases hparsed : json.fromStr (trimEndMatches text) with
      | none =>
        rw [hparsed] at h
        cases h
      | some parsed =>
        rw [hparsed] at h
        exact h

/-- What is left of a text behind which the line endings are trimmed. -/
theorem trimEndMatches_isPrefix (text : String) : (trimEndMatches text).toList <+: text.toList := by
  rw [trimEndMatches, String.toList_ofList]
  exact List.rdropWhile_prefix _ _

theorem trimEndMatches_ne_concat {text : String} {before : List Char} :
    (trimEndMatches text).toList ≠ before ++ ['\n'] := by
  rw [trimEndMatches, String.toList_ofList]
  intro h
  have hne : text.toList.rdropWhile lineEndings.contains ≠ [] := by rw [h]; simp
  have hend : (text.toList.rdropWhile lineEndings.contains).getLast hne = '\n' := by simp [h]
  have hlast := List.rdropWhile_last_not lineEndings.contains _ hne
  rw [hend] at hlast
  exact hlast (by decide)

/-- The line of a message is its text with a line feed behind it. -/
theorem exists_text_of_line (hjson : json.Lawful) (message : T) :
    ∃ text, json.toVec message = some (utf8 text) ∧ json.fromStr text = some message ∧
      (Item.message message).line json = utf8 (text ++ "\n") := by
  obtain ⟨text, htext, hparse⟩ := hjson.undo message
  refine ⟨text, htext, hparse, ?_⟩
  rw [Item.line, htext, Option.getD_some, utf8_append]
  rfl

theorem found_of_isInfix (hjson : json.Lawful) (hsolid : json.Solid)
    (h : part <:+: (Item.message message).line json) :
    (readMessage json.fromStr).found messageOf part = none ∨
      (readMessage json.fromStr).found messageOf part = some message := by
  obtain ⟨text, htext, hparse, hline⟩ := exists_text_of_line hjson message
  cases hfound : (readMessage json.fromStr).found messageOf part with
  | none => exact .inl rfl
  | some other =>
    refine .inr ?_
    obtain ⟨line, hpart, hother⟩ := parsed_of_found hfound
    rw [hline, ← utf8_of_ofUtf8 hpart] at h
    have hinfix := (trimEndMatches_isPrefix line).isInfix.trans (isInfix_of_utf8 h)
    rw [String.toList_append] at hinfix
    have hbefore : (trimEndMatches line).toList <:+: text.toList := by
      rcases List.infix_concat_iff.mp hinfix with hsuffix | hinfix
      · rcases List.suffix_concat_iff.mp hsuffix with hnil | ⟨before, hbefore, -⟩
        · rw [hnil]
          exact List.nil_infix
        · exact absurd hbefore trimEndMatches_ne_concat
      · exact hinfix
    by_cases heq : trimEndMatches line = text
    · rw [heq, hparse] at hother
      exact hother.symm
    · rw [hsolid message text _ htext hbefore heq] at hother
      cases hother

theorem found_of_isPrefix (hjson : json.Lawful) (hclosed : json.Closed)
    (h : part <+: (Item.message message).line json) :
    (readMessage json.fromStr).found messageOf part = none ∨
      (readMessage json.fromStr).found messageOf part = some message := by
  obtain ⟨text, htext, hparse, hline⟩ := exists_text_of_line hjson message
  cases hfound : (readMessage json.fromStr).found messageOf part with
  | none => exact .inl rfl
  | some other =>
    refine .inr ?_
    obtain ⟨line, hpart, hother⟩ := parsed_of_found hfound
    rw [hline, ← utf8_of_ofUtf8 hpart] at h
    have hprefix := (trimEndMatches_isPrefix line).trans (isPrefix_of_utf8 h)
    rw [String.toList_append] at hprefix
    have hbefore : (trimEndMatches line).toList <+: text.toList := by
      rcases List.prefix_concat_iff.mp hprefix with hall | hprefix
      · exact absurd hall trimEndMatches_ne_concat
      · exact hprefix
    by_cases heq : trimEndMatches line = text
    · rw [heq, hparse] at hother
      exact hother.symm
    · rw [hclosed message text _ htext hbefore heq] at hother
      cases hother

theorem sturdy_of_mem_linesOf (hjson : json.Lawful) (hsolid : json.Solid) {messages : List T} :
    ∀ l ∈ linesOf json messages, (readMessage json.fromStr).Sturdy messageOf l := by
  intro l hl part hpart
  obtain ⟨message, -, rfl⟩ := List.mem_map.mp hl
  rw [found_line hjson]
  exact found_of_isInfix hjson hsolid hpart

theorem closed_of_mem_linesOf (hjson : json.Lawful) (hclosed : json.Closed) {messages : List T} :
    ∀ l ∈ linesOf json messages, (readMessage json.fromStr).Closed messageOf l := by
  intro l hl part hpart
  obtain ⟨message, -, rfl⟩ := List.mem_map.mp hl
  rw [found_line hjson]
  exact found_of_isPrefix hjson hclosed hpart

end

/-! ### The JSON of the protocol -/

theorem recordJson_closed (toFields : T → List (String × Json.Value))
    (ofFields : List (String × Json.Value) → Option T) : (recordJson toFields ofFields).Closed := by
  intro message text part htext hpart hne
  obtain rfl := utf8_injective (Option.some_inj.mp htext)
  cases hparse : Json.parse part with
  | none => exact congrArg (Option.bind · ofFields) hparse
  | some fields => exact absurd (Json.parse_isPrefix hparse hpart) hne

/-- The text of a message of the client: only its last field can have braces in it. -/
theorem clientJson_text (message : ClientToServer) : ∃ front cs,
    (Json.print message.toFields).toList = '{' :: (front ++ (Json.escape cs ++ ['"', '}'])) ∧
      '{' ∉ front := by
  have htype : Json.escape ['t', 'y', 'p', 'e'] = ['t', 'y', 'p', 'e'] := by decide
  have hhello : Json.escape ['h', 'e', 'l', 'l', 'o'] = ['h', 'e', 'l', 'l', 'o'] := by decide
  have hnickname : Json.escape ['n', 'i', 'c', 'k', 'n', 'a', 'm', 'e'] =
    ['n', 'i', 'c', 'k', 'n', 'a', 'm', 'e'] := by decide
  have hchat : Json.escape ['c', 'h', 'a', 't'] = ['c', 'h', 'a', 't'] := by decide
  have htext : Json.escape ['t', 'e', 'x', 't'] = ['t', 'e', 'x', 't'] := by decide
  cases message with
  | hello nickname =>
    refine ⟨"\"type\":\"hello\",\"nickname\":\"".toList, nickname.toList, ?_, by decide⟩
    simp [Json.print, ClientToServer.toFields, Json.printItems, Json.printField, Json.printText,
      Json.printValue, htype, hhello, hnickname]
  | chat text =>
    refine ⟨"\"type\":\"chat\",\"text\":\"".toList, text.toList, ?_, by decide⟩
    simp [Json.print, ClientToServer.toFields, Json.printItems, Json.printField, Json.printText,
      Json.printValue, htype, hchat, htext]

theorem clientJson_solid : clientJson.Solid := by
  intro message text part htext hpart hne
  obtain rfl := utf8_injective (Option.some_inj.mp htext)
  cases hparse : Json.parse part with
  | none => exact congrArg (Option.bind · ClientToServer.ofFields) hparse
  | some fields =>
    by_cases hfields : fields = []
    · rw [hfields] at hparse
      exact congrArg (Option.bind · ClientToServer.ofFields) hparse
    · obtain ⟨front, cs, hprint, hfront⟩ := clientJson_text message
      exact absurd (Json.parse_isInfix hprint hfront hparse hfields hpart) hne

end Chat
