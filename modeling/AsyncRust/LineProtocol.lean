/-
The line protocol there and back (`message.rs`).

`serde_json` is not part of the repository: `Serde` stands for `serde_json::to_vec` and
`serde_json::from_str` at a message type, and `Serde.Lawful` says what the protocol relies
on.  `clientJson` and `serverJson` are such an encoding of the two message types, as the
serde attributes of the enums say it: internally tagged, with names in snake case.

* `writeMessage` — `write_message` on a stream that takes all bytes;
* `messages_round_trip` — messages that were written one after the other, with blank
  lines between them, are read back one by one, each read consuming exactly through its
  own line, and then comes the end of the stream.
-/
import AsyncRust.ByteFormat
import AsyncRust.ChatMessage
import AsyncRust.JsonRecord
import AsyncRust.LineStream

namespace Chat

open LineReader ByteFormat Runs

/-! ### Writing -/

/-- `to_vec` and `from_str` at the type `T`; `none` is a `serde_json` error. -/
structure Serde (T : Type) where
  toVec : T → Option (List UInt8)
  fromStr : String → Option T

/-- `from_str` undoes `to_vec`, and the JSON text has no line break and is not empty. -/
structure Serde.Lawful {T : Type} (json : Serde T) : Prop where
  undo : ∀ message, ∃ text, json.toVec message = some (utf8 text) ∧
    json.fromStr text = some message
  no_break : ∀ message bytes, json.toVec message = some bytes → 10 ∉ bytes ∧ 13 ∉ bytes
  ne_nil : ∀ message bytes, json.toVec message = some bytes → bytes ≠ []

variable {T : Type}

/-- `write_message`, onto the bytes `written` so far. -/
def writeMessage (json : Serde T) (written : List UInt8) (message : T) :
    Except IoError (List UInt8) :=
  match json.toVec message with
  | none => .error .invalidData
  | some encoded => .ok (written ++ (encoded ++ [newline]))

/-! ### The messages as JSON -/

def ClientToServer.toFields : ClientToServer → List (String × Json.Value)
  | .hello nickname => [("type", .text "hello"), ("nickname", .text nickname)]
  | .chat text => [("type", .text "chat"), ("text", .text text)]

def ClientToServer.ofFields : List (String × Json.Value) → Option ClientToServer
  | [("type", .text "hello"), ("nickname", .text nickname)] => some (.hello nickname)
  | [("type", .text "chat"), ("text", .text text)] => some (.chat text)
  | _ => none

def ServerToClient.toFields : ServerToClient → List (String × Json.Value)
  | .welcome nickname => [("type", .text "welcome"), ("nickname", .text nickname)]
  | .roster participants => [("type", .text "roster"), ("participants", .texts participants)]
  | .userJoined nickname => [("type", .text "user_joined"), ("nickname", .text nickname)]
  | .userLeft nickname => [("type", .text "user_left"), ("nickname", .text nickname)]
  | .chat nickname text =>
    [("type", .text "chat"), ("nickname", .text nickname), ("text", .text text)]
  | .error message => [("type", .text "error"), ("message", .text message)]

def ServerToClient.ofFields : List (String × Json.Value) → Option ServerToClient
  | [("type", .text "welcome"), ("nickname", .text nickname)] => some (.welcome nickname)
  | [("type", .text "roster"), ("participants", .texts participants)] =>
    some (.roster participants)
  | [("type", .text "user_joined"), ("nickname", .text nickname)] => some (.userJoined nickname)
  | [("type", .text "user_left"), ("nickname", .text nickname)] => some (.userLeft nickname)
  | [("type", .text "chat"), ("nickname", .text nickname), ("text", .text text)] =>
    some (.chat nickname text)
  | [("type", .text "error"), ("message", .text message)] => some (.error message)
  | _ => none

/-- Messages as JSON objects. -/
def recordJson (toFields : T → List (String × Json.Value))
    (ofFields : List (String × Json.Value) → Option T) : Serde T where
  toVec m := some (utf8 (Json.print (toFields m)))
  fromStr s := (Json.parse s).bind ofFields

def clientJson : Serde ClientToServer :=
  recordJson ClientToServer.toFields ClientToServer.ofFields

def serverJson : Serde ServerToClient :=
  recordJson ServerToClient.toFields ServerToClient.ofFields

theorem recordJson_lawful {toFields : T → List (String × Json.Value)}
    {ofFields : List (String × Json.Value) → Option T}
    (h : ∀ m, ofFields (toFields m) = some m) : (recordJson toFields ofFields).Lawful := by
  have hbreak : ∀ (m : T) (b : UInt8), b.toNat < 0x20 → b ∉ utf8 (Json.print (toFields m)) := by
    intro m b hb hmem
    rw [utf8_eq_flatMap] at hmem
    obtain ⟨c, hc, hbc⟩ := List.mem_flatMap.mp hmem
    have hle := Json.le_of_mem_print hc
    have hascii := toNat_of_mem_utf8EncodeChar hbc (by omega)
    omega
  refine ⟨fun m => ⟨_, rfl, ?_⟩, ?_, ?_⟩
  · change (Json.parse (Json.print (toFields m))).bind ofFields = some m
    rw [Json.parse_print, Option.bind_some, h]
  · intro m bytes hbytes
    obtain rfl := Option.some_inj.mp hbytes
    exact ⟨hbreak m 10 (by decide), hbreak m 13 (by decide)⟩
  · intro m bytes hbytes hnil
    obtain rfl := Option.some_inj.mp hbytes
    have := congrArg ofUtf8 hnil
    rw [ofUtf8_utf8] at this
    exact Json.print_ne_empty _ (Option.some_inj.mp (this.trans (ofUtf8_utf8 "")))

theorem clientJson_lawful : clientJson.Lawful :=
  recordJson_lawful fun m => by cases m <;> rfl

theorem serverJson_lawful : serverJson.Lawful :=
  recordJson_lawful fun m => by cases m <;> rfl

/-! ### Conversations -/

/-- What is written to the stream: messages, and blank lines of any number of carriage
returns (none: LF, one: CRLF). -/
inductive Item (T : Type) where
  | message (m : T)
  | blank (returns : ℕ)
  deriving DecidableEq, Repr

def writeItem (json : Serde T) (written : List UInt8) : Item T → Except IoError (List UInt8)
  | .message m => writeMessage json written m
  | .blank returns => .ok (written ++ (List.replicate returns 13 ++ [newline]))

/-- Everything that is written for `items`, one after the other. -/
def writeItems (json : Serde T) : List UInt8 → List (Item T) → Except IoError (List UInt8)
  | written, [] => .ok written
  | written, item :: items =>
    match writeItem json written item with
    | .error err => .error err
    | .ok written => writeItems json written items

def Item.message? : Item T → Option T
  | .message m => some m
  | .blank _ => none

/-- The messages of `items`, as the results of the reads that should return them. -/
def readBack (items : List (Item T)) : List (ReadResult T) :=
  items.filterMap fun item => item.message?.map fun m => .ok (some m)

/-- The loop's reads so far, when `later` is still to arrive: they gave the messages in
order and then `Ok(None)`, a read waits only for what has not arrived, and a read
consumes exactly through the line of its message. -/
structure ReadsBack (json : Serde T) (items : List (Item T))
    (t : Reading (ReadResult T)) (later : List Fill) : Prop where
  results : t.results <+: readBack items ++ [.ok none]
  complete : t.live endsLoop = false → t.results = readBack items ++ [.ok none]
  returns : t.live endsLoop = true → later = [] → (t.poll (readMessage json.fromStr)).1 ≠ none
  consumes : t.live endsLoop = true → ∀ x, (t.poll (readMessage json.fromStr)).1 = some x →
    (∃ before m after, items = before ++ .message m :: after ∧ t.results = readBack before ∧
      x = .ok (some m) ∧
      writeItems json [] after =
        .ok ((t.poll (readMessage json.fromStr)).2.reader.unread ++ bytesOf later)) ∨
    (x = .ok none ∧ t.results = readBack items ∧
      (t.poll (readMessage json.fromStr)).2.reader.unread = [] ∧ bytesOf later = [])

/-! ### The lines of the stream -/

/-- The line of an item. -/
def Item.line (json : Serde T) : Item T → List UInt8
  | .message m => (json.toVec m).getD [] ++ [newline]
  | .blank returns => List.replicate returns 13 ++ [newline]

section
variable {json : Serde T}

theorem writeItems_eq (hjson : json.Lawful) : ∀ (items : List (Item T)) (written : List UInt8),
    writeItems json written items = .ok (written ++ (items.map (·.line json)).flatten) := by
  intro items
  induction items with
  | nil => intro written; rw [writeItems, List.map_nil, List.flatten_nil, List.append_nil]
  | cons item items ih =>
    intro written
    have hitem : writeItem json written item = .ok (written ++ item.line json) := by
      cases item with
      | blank returns => rfl
      | message m =>
        obtain ⟨text, htext, -⟩ := hjson.undo m
        simp only [writeItem, writeMessage, Item.line, htext, Option.getD_some]
    rw [writeItems, hitem]
    simp only
    rw [ih, List.map_cons, List.flatten_cons, List.append_assoc]

theorem whole_line (hjson : json.Lawful) (item : Item T) : Whole (item.line json) := by
  cases item with
  | blank returns =>
    refine ⟨_, fun h => ?_, rfl⟩
    exact absurd (List.eq_of_mem_replicate h) (by decide)
  | message m =>
    refine ⟨_, fun h => ?_, rfl⟩
    obtain ⟨text, htext, -⟩ := hjson.undo m
    rw [htext] at h
    exact (hjson.no_break m _ htext).1 h

theorem mem_utf8_of_mem {text : String} {c : Char} {b : UInt8}
    (hb : b ∈ String.utf8EncodeChar c) (h : c ∈ text.toList) : b ∈ utf8 text := by
  rw [utf8_eq_flatMap]
  exact List.mem_flatMap.mpr ⟨c, h, hb⟩

/-- Only the terminator is trimmed from a line without other line breaks. -/
theorem trimEndMatches_append {text : String} (hlf : '\n' ∉ text.toList)
    (hcr : '\r' ∉ text.toList) : trimEndMatches (text ++ "\n") = text := by
  have hkeep : text.toList.rdropWhile lineEndings.contains = text.toList := by
    rw [List.rdropWhile_eq_self_iff]
    intro hne hlast
    have hmem := List.getLast_mem hne
    simp only [lineEndings, List.contains_eq_mem, decide_eq_true_eq, List.mem_cons,
      List.not_mem_nil, or_false] at hlast
    rcases hlast with h | h
    · exact hlf (h ▸ hmem)
    · exact hcr (h ▸ hmem)
  rw [trimEndMatches, String.toList_append]
  change String.ofList ((text.toList ++ ['\n']).rdropWhile lineEndings.contains) = text
  rw [List.rdropWhile_concat_pos _ _ _ (by decide), hkeep, String.ofList_toList]

/-- What becomes of the line of an item. -/
theorem finishLine_line (hjson : json.Lawful) (item : Item T) :
    finishLine json.fromStr (item.line json) = item.message?.map fun m => .ok (some m) := by
  cases item with
  | blank returns =>
    have hline : (Item.blank returns : Item T).line json =
        utf8 (String.ofList (List.replicate returns '\r' ++ ['\n'])) := by
      rw [utf8_ofList, List.flatMap_append, List.flatMap_replicate]
      change _ = (List.replicate returns [13]).flatten ++ [newline]
      rw [List.flatten_replicate_singleton]
      rfl
    have hblank : trimEndMatches (String.ofList (List.replicate returns '\r' ++ ['\n'])) = "" := by
      rw [trimEndMatches, String.toList_ofList, List.rdropWhile_eq_nil_iff.mpr]
      intro c hc
      rcases List.mem_append.mp hc with h | h
      · rw [List.eq_of_mem_replicate h]
        decide
      · rw [List.mem_singleton.mp h]
        decide
    rw [hline, finishLine_of_some (ofUtf8_utf8 _), if_pos hblank]
    rfl
  | message m =>
    obtain ⟨text, htext, hparse⟩ := hjson.undo m
    obtain ⟨hlf, hcr⟩ := hjson.no_break m _ htext
    have hline : (Item.message m).line json = utf8 (text ++ "\n") := by
      rw [Item.line, htext, Option.getD_some, utf8_append]
      rfl
    have htrim : trimEndMatches (text ++ "\n") = text :=
      trimEndMatches_append (fun h => hlf (mem_utf8_of_mem (by decide) h))
        fun h => hcr (mem_utf8_of_mem (by decide) h)
    have hne : text ≠ "" := by
      rintro rfl
      exact hjson.ne_nil m _ htext rfl
    rw [hline, finishLine_of_some (ofUtf8_utf8 _), htrim, if_neg hne, hparse]
    rfl

theorem filterMap_line (hjson : json.Lawful) (items : List (Item T)) :
    (items.map (·.line json)).filterMap (finishLine json.fromStr) = readBack items := by
  rw [List.filterMap_map]
  exact congrArg (List.filterMap · items) (funext fun item => finishLine_line hjson item)

/-- **Round trip.**  Messages with blank lines around them, written one after the other and
read in chunks of any kind at any time, are read back in order; each read consumes exactly
through the line of its message, and after the last one comes `Ok(None)`. -/
theorem messages_round_trip (json : Serde T) (hjson : json.Lawful) (items : List (Item T)) :
    ∃ stream, writeItems json [] items = .ok stream ∧
      ∀ chunks : List Fill, (∀ fill ∈ chunks, fill.isData = true) → bytesOf chunks = stream →
        ∀ es t, run (Reading.step (readMessage json.fromStr) endsLoop) .start es = some t →
          ∀ later, t.arrived ++ later = chunks ++ [.eof] → ReadsBack json items t later := by
  refine ⟨_, (writeItems_eq hjson items []).trans (by rw [List.nil_append]), ?_⟩
  intro chunks hchunks hbytes es t hrun later hlater
  have hlines : ∀ line ∈ items.map (·.line json), Whole line := by
    intro line hl
    obtain ⟨item, -, rfl⟩ := List.mem_map.mp hl
    exact whole_line hjson item
  have hstop : ∀ line ∈ items.map (·.line json), ∀ x,
      (readMessage json.fromStr).finish line = some x → endsLoop x = false := by
    intro line hl x hx
    obtain ⟨item, -, rfl⟩ := List.mem_map.mp hl
    obtain ⟨m, -, rfl⟩ := Option.map_eq_some_iff.mp ((finishLine_line hjson item).symm.trans hx)
    rfl
  have hreads := reads_of_run hlines hchunks hbytes rfl hstop hrun
  have hresults := results_of_lines hlines hchunks hbytes hreads ⟨later, hlater⟩
  have hfilter := filterMap_line hjson items
  rw [show (readMessage json.fromStr).finish = finishLine json.fromStr from rfl, hfilter]
    at hresults
  refine ⟨hresults.1, hresults.2.1, fun hlive hall => hresults.2.2 hlive ?_, ?_⟩
  · rw [← hlater, hall, List.append_nil]
  · intro hlive x hpoll
    rcases exists_line_of_poll hlines hchunks hbytes hreads hlive hlater hpoll with
      ⟨before, line, after, hsplit, hpast, hline, hunread⟩ | ⟨hx, hpast, hunread⟩
    · -- the line is that of a message
      obtain ⟨before, rest, rfl, rfl, hrest⟩ := List.map_eq_append_iff.mp hsplit
      obtain ⟨item, after, rfl, rfl, rfl⟩ := List.map_eq_cons_iff.mp hrest
      obtain ⟨m, hm, rfl⟩ :=
        Option.map_eq_some_iff.mp ((finishLine_line hjson item).symm.trans hline)
      cases item with
      | blank returns => exact absurd hm (by simp [Item.message?])
      | message m' =>
        obtain rfl := Option.some_inj.mp hm
        refine .inl ⟨before, m', after, rfl, hpast.trans (filterMap_line hjson before), rfl, ?_⟩
        rw [writeItems_eq hjson, hunread, List.nil_append]
    · rw [List.append_eq_nil_iff] at hunread
      exact .inr ⟨hx, hpast.trans hfilter, hunread.1, hunread.2⟩

end

/-- One event for each chunk and a poll behind it, then the end of the stream. -/
def pollEach (chunks : List Fill) : List ReadEvent :=
  (chunks.map fun fill => [.arrive fill, .poll]).flatten ++ [.arrive .eof, .poll]

/-- A message with line breaks in its text between blank lines, cut within an escape. -/
def chatItems : List (Item ClientToServer) := [.blank 1, .message (.chat "a\n\rb"), .blank 0]

def chatChunks : List Fill :=
  [.ofString "\r\n\x7b\"type\":\"chat\",\"text\":\"a\\", .ofString "n\\rb\"\x7d\n\n"]

/-- Two messages in one chunk. -/
def rosterItems : List (Item ServerToClient) :=
  [.message (.roster ["", "\"\n"]), .message (.userLeft "é")]

def rosterChunks : List Fill :=
  [.ofString ("\x7b\"type\":\"roster\",\"participants\":[\"\",\"\\\"\\n\"]\x7d\n" ++
    "\x7b\"type\":\"user_left\",\"nickname\":\"é\"\x7d\n")]

theorem messages_round_trip_chat :
    (∃ t, run (Reading.step (readMessage clientJson.fromStr) endsLoop) .start
        (pollEach chatChunks) = some t ∧
      t.results = readBack chatItems ++ [.ok none] ∧ ReadsBack clientJson chatItems t []) ∧
    ∃ t, run (Reading.step (readMessage serverJson.fromStr) endsLoop) .start
        (pollEach rosterChunks) = some t ∧
      t.results = readBack rosterItems ∧ ReadsBack serverJson rosterItems t [] := by
  have hchat : (run (Reading.step (readMessage clientJson.fromStr) endsLoop) .start
      (pollEach chatChunks)).map (fun t => (t.arrived, t.results)) =
        some (chatChunks ++ [.eof], readBack chatItems ++ [.ok none]) := by
    decide
  have hroster : (run (Reading.step (readMessage serverJson.fromStr) endsLoop) .start
      (pollEach rosterChunks)).map (fun t => (t.arrived, t.results)) =
        some (rosterChunks ++ [.eof], readBack rosterItems) := by
    decide
  constructor
  · obtain ⟨t, ht, hfacts⟩ := Option.map_eq_some_iff.mp hchat
    obtain ⟨harrived, hresults⟩ := Prod.mk.inj hfacts
    have hbytes : writeItems clientJson [] chatItems = .ok (bytesOf chatChunks) := by decide
    obtain ⟨stream, hstream, h⟩ := messages_round_trip clientJson clientJson_lawful chatItems
    rw [hbytes] at hstream
    exact ⟨t, ht, hresults, h chatChunks (by decide) (Except.ok.inj hstream) _ t ht []
      (by rw [harrived, List.append_nil])⟩
  · obtain ⟨t, ht, hfacts⟩ := Option.map_eq_some_iff.mp hroster
    obtain ⟨harrived, hresults⟩ := Prod.mk.inj hfacts
    have hbytes : writeItems serverJson [] rosterItems = .ok (bytesOf rosterChunks) := by decide
    obtain ⟨stream, hstream, h⟩ := messages_round_trip serverJson serverJson_lawful rosterItems
    rw [hbytes] at hstream
    exact ⟨t, ht, hresults, h rosterChunks (by decide) (Except.ok.inj hstream) _ t ht []
      (by rw [harrived, List.append_nil])⟩

end Chat
