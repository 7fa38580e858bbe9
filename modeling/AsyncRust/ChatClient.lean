/-
The chat client (`client.rs`), once it is connected.

`run_client_loop` selects between a message of the server, a line of standard input
and Ctrl-C.  As in the broker, a step is one await completing, and the branch that
completes drops the futures of the others: a line of standard input drops the pending
`read_message`, a message drops the pending `read_line`.  Log messages are left out.
-/
import AsyncRust.ChatMessage

namespace Chat

open LineReader

/-- What `stdin.read_line` gives: a line with its ending, nothing at the end of
the stream. -/
abbrev StdinResult := Except IoError String

def readStdin : Decoder StdinResult where
  finish bytes :=
    match String.fromUTF8? ⟨bytes.toArray⟩ with
    | none => some (.error .invalidUtf8)
    | some line => some (.ok line)
  eof := .ok ""
  failed := .error .stream

/-- `str::trim_end`. -/
def trimEnd (s : String) : String := String.ofList (s.toList.rdropWhile isWhitespace)

/-- `str::eq_ignore_ascii_case`. -/
def eqIgnoreAsciiCase (a b : String) : Bool :=
  a.toList.map Char.toLower == b.toList.map Char.toLower

inductive Output where
  | stdout (line : String)
  | stderr (line : String)
  deriving DecidableEq, Repr

/-- The line that a message is shown as; an empty roster is not shown. -/
def renderServerMessage : ServerToClient → Option Output
  | .welcome nickname => some (.stdout s!"*** connected as {nickname}")
  | .roster [] => none
  | .roster participants =>
    let names := ", ".intercalate participants
    some (.stdout s!"*** currently online: {names}")
  | .userJoined nickname => some (.stdout s!"*** {nickname} joined the chat")
  | .userLeft nickname => some (.stdout s!"*** {nickname} left the chat")
  | .chat nickname text => some (.stdout s!"<{nickname}> {text}")
  | .error message => some (.stderr s!"!!! {message}")

/-- What `handle_server_message` does with what was read. -/
inductive Served where
  | render (output : Option Output)
  | finish (output : Output)
  | failed (err : IoError)
  deriving DecidableEq, Repr

def handleServerMessage : ReadResult ServerToClient → Served
  | .error err => .failed err
  | .ok (some message) => .render (renderServerMessage message)
  | .ok none => .finish (.stdout "*** server closed the connection")

/-- What `handle_stdin_input` does with what was typed. -/
inductive Typed where
  | ignore
  | send (message : ClientToServer)
  | finish (output : Option Output)
  | failed (err : IoError)
  deriving DecidableEq, Repr

def handleStdinInput : StdinResult → Typed
  | .error err => .failed err
  | .ok input =>
    if input = "" then .finish none
    else if trimEnd input = "" then .ignore
    else if eqIgnoreAsciiCase (trimEnd input) "/quit" then
      .finish (some (.stdout "*** leaving chat"))
    else .send (.chat (trimEnd input))

inductive ClientPhase where
  /-- `send_handshake` writes the `Hello`. -/
  | greeting
  | selecting
  | showing (output : Output)
  | sending (message : ClientToServer)
  /-- The last line is being shown, after which the loop is left. -/
  | parting (output : Output)
  /-- The loop is left; `shutdown_connection` closes the socket. -/
  | closing
  /-- `run` has returned. -/
  | returned (result : Except IoError Unit)
  deriving DecidableEq, Repr

structure Client where
  nickname : String
  phase : ClientPhase
  reading : Reading (ReadResult ServerToClient)
  stdin : Reading StdinResult
  sent : List ClientToServer
  shown : List Output
  deriving DecidableEq, Repr

def Client.new (nickname : String) : Client := ⟨nickname, .greeting, .start, .start, [], []⟩

/-- A part of a stream arrives, a branch of the `select!` is polled, the pending
write succeeds or fails, or the socket is shut down. -/
inductive ClientEvent where
  | serverArrive (fill : Fill)
  | stdinArrive (fill : Fill)
  | pollServer
  | pollStdin
  | ctrlC
  | write (ok : Bool)
  | shutdown
  deriving DecidableEq, Repr

variable (fromStr : String → Option ServerToClient)

def Client.step (client : Client) : ClientEvent → Option Client
  | .serverArrive fill => some { client with reading := client.reading.feed fill }
  | .stdinArrive fill => some { client with stdin := client.stdin.feed fill }
  | .pollServer =>
    let (result, reading) := client.reading.poll (readMessage fromStr)
    match client.phase, result with
    | .selecting, none => some { client with reading }
    | .selecting, some result =>
      -- the `read_line` branch loses, and its future is dropped
      let client := { client with reading, stdin := client.stdin.cancel }
      match handleServerMessage result with
      | .render none => some client
      | .render (some output) => some { client with phase := .showing output }
      | .finish output => some { client with phase := .parting output }
      | .failed err => some { client with phase := .returned (.error err) }
    | _, _ => none
  | .pollStdin =>
    let (result, stdin) := client.stdin.poll readStdin
    match client.phase, result with
    | .selecting, none => some { client with stdin }
    | .selecting, some result =>
      -- the `read_message` branch loses, and its future is dropped
      let client := { client with stdin, reading := client.reading.cancel }
      match handleStdinInput result with
      | .ignore => some client
      | .send message => some { client with phase := .sending message }
      | .finish none => some { client with phase := .closing }
      | .finish (some output) => some { client with phase := .parting output }
      | .failed err => some { client with phase := .returned (.error err) }
    | _, _ => none
  | .ctrlC =>
    match client.phase with
    | .selecting =>
      some { client with
        phase := .closing, reading := client.reading.cancel, stdin := client.stdin.cancel }
    | _ => none
  | .write ok =>
    match client.phase, ok with
    | .greeting, true =>
      some { client with phase := .selecting, sent := client.sent ++ [.hello client.nickname] }
    | .showing output, true =>
      some { client with phase := .selecting, shown := client.shown ++ [output] }
    | .sending message, true =>
      some { client with phase := .selecting, sent := client.sent ++ [message] }
    | .parting output, true =>
      some { client with phase := .closing, shown := client.shown ++ [output] }
    | .greeting, false => some { client with phase := .returned (.error .stream) }
    | .showing _, false => some { client with phase := .returned (.error .stream) }
    | .sending _, false => some { client with phase := .returned (.error .stream) }
    | .parting _, false => some { client with phase := .returned (.error .stream) }
    | _, _ => none
  | .shutdown =>
    match client.phase with
    | .closing => some { client with phase := .returned (.ok ()) }
    | _ => none

/-- The loop may still read. -/
def ClientPhase.reads : ClientPhase → Bool
  | .greeting => true
  | .selecting => true
  | .showing _ => true
  | .sending _ => true
  | _ => false

end Chat
