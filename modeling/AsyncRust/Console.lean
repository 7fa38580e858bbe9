/-
The commands of the console (`protocol.rs`).

`toUppercase` stands for `str::to_uppercase`, whose Unicode tables are not modelled.
-/
import AsyncRust.ChatMessage

namespace Raft

open Chat (isWhitespace trim)

/-- `str::split_whitespace`. -/
def splitWhitespace (s : String) : List String :=
  ((s.toList.splitOnP isWhitespace).filter fun word => !word.isEmpty).map String.ofList

inductive ConsoleCommand where
  | put (key value : String)
  | get (key : String)
  | keys
  | scan
  | clear
  | status
  | campaign
  | exit
  | help
  deriving DecidableEq, Repr

namespace ConsoleCommand

/-- The aliases, expanded. -/
def normalizedCmd (cmd : String) : String :=
  match cmd with
  | "P" => "PUT"
  | "G" => "GET"
  | "K" => "KEYS"
  | "SC" => "SCAN"
  | "CL" => "CLEAR"
  | "S" => "STATUS"
  | "C" => "CAMPAIGN"
  | "H" => "HELP"
  | "E" => "EXIT"
  | other => other

/-- Commands of a single word; whatever follows them is ignored. -/
def singleWord (cmd : String) : Option ConsoleCommand :=
  match cmd with
  | "EXIT" => some exit
  | "HELP" => some help
  | "KEYS" => some keys
  | "SCAN" => some scan
  | "CLEAR" => some clear
  | "STATUS" => some status
  | "CAMPAIGN" => some campaign
  | _ => none

/-- Commands with arguments; `parts` are all words of the line. -/
def multiWord (cmd : String) (parts : List String) (allowPut : Bool) :
    Except String ConsoleCommand :=
  match cmd, parts with
  | "GET", [_, key] => .ok (get key)
  | "PUT", [_, key, value] =>
    if allowPut then .ok (put key value) else .error "PUT not allowed in this context"
  | "GET", _ => .error "GET requires exactly one argument: GET <key>"
  | "PUT", _ => .error "PUT requires exactly two arguments: PUT <key> <value>"
  | _, _ => .error ("invalid command. Try: PUT/p, GET/g, KEYS/k, SCAN/sc, CLEAR/cl, " ++
      "STATUS/s, CAMPAIGN/c, HELP/h, EXIT/e")

def parse (toUppercase : String → String) (line : String) (allowPut : Bool) :
    Except String ConsoleCommand :=
  let trimmed := trim line
  if trimmed = "" then .error "empty command"
  else
    match splitWhitespace trimmed with
    | [] => .error "empty command"
    | first :: rest =>
      let cmd := normalizedCmd (toUppercase first)
      match singleWord cmd with
      | some command => .ok command
      | none => multiWord cmd (first :: rest) allowPut

end ConsoleCommand

end Raft
