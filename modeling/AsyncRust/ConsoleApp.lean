/-
The terminal interface of a node (`bin/node.rs`).

`App` is the state that keys, log lines and status updates change; the screen is not
modelled, and what the node's handle returns is part of the event.  A `Session` is an
`App` with the line editor that its input line should be: nothing reads the editor.

* `App.handleKey`, `App.executeCommand` — a key, and the command of a line;
* `Session.step` — a key or another round of the loop of `run_tui`;
* `input_edits_iff` — the input line is a correct editor in a run iff every character
  typed in it is an ASCII character.
-/
import AsyncRust.Console
import AsyncRust.LineEditor
import AsyncRust.RaftWorker

namespace Raft

open LineEditor Runs
open Chat (trim)

/-! ### The application -/

/-- The codes that `handle_key` tells apart. -/
inductive KeyCode where
  | char (c : Char)
  | backspace
  | left
  | right
  | up
  | down
  | enter
  | esc
  | other
  deriving Repr

/-- What the calls of the `NodeHandle` return; an error by its text. -/
structure Answers where
  put : Except String String
  get : Except String (Option String)
  status : Except String NodeStatus
  campaign : Except String String
  shutdown : Except String Unit

/-- The fields that keys and the loop of `run_tui` read or write. -/
structure App where
  nodeId : ℕ
  input : String
  cursorPosition : ℕ
  outputLines : List String
  scrollOffset : ℕ
  lastOutputHeight : ℕ
  role : StateRole
  leaderId : ℕ
  term : ℕ
  shouldQuit : Bool
  deriving DecidableEq, Repr

/-- `usize::MAX`, on a machine of 64 bits. -/
def usizeMax : ℕ := 18446744073709551615

namespace App

def new (nodeId : ℕ) : App where
  nodeId := nodeId
  input := ""
  cursorPosition := 0
  outputLines := [s!"Node {nodeId} ready. Type HELP (or h) for commands.",
    "Commands: PUT/p, GET/g, KEYS/k, SCAN/sc, CLEAR/cl, STATUS/s, CAMPAIGN/c, HELP/h, EXIT/e",
    "Keyboard: Enter=submit, Ctrl-C/ESC=exit, Up/Down=scroll output", ""]
  scrollOffset := 0
  lastOutputHeight := 20
  role := .follower
  leaderId := 0
  term := 0
  shouldQuit := false

def push (app : App) (line : String) : App :=
  { app with outputLines := app.outputLines ++ [line] }

def isAtBottom (app : App) : Bool :=
  app.outputLines.length - app.lastOutputHeight ≤ app.scrollOffset

def scrollToBottom (app : App) : App := { app with scrollOffset := app.outputLines.length }

/-- `was_at_bottom` is what `is_at_bottom` returned before lines were added. -/
def stickToBottom (app : App) (wasAtBottom : Bool) : App :=
  if wasAtBottom then app.scrollToBottom else app

def drainLogs (app : App) (messages : List LogMessage) : App :=
  let lines := messages.map fun message =>
    match message with
    | .info msg => msg
    | .error msg => s!"ERROR: {msg}"
  { app with outputLines := app.outputLines ++ lines }.stickToBottom
    (!messages.isEmpty && app.isAtBottom)

def showStatus (app : App) (status : NodeStatus) : App :=
  { app with role := status.role, leaderId := status.leaderId, term := status.term }

def updateStatus (app : App) (answer : Except String NodeStatus) : App :=
  match answer with
  | .ok status => app.showStatus status
  | .error _ => app

def helpLines : List String :=
  ["Commands (case-insensitive):",
    "  PUT <key> <value>  (alias: p)   -- replicate via Raft",
    "  GET <key>          (alias: g)   -- read local value",
    "  KEYS               (alias: k)   -- list all keys",
    "  SCAN               (alias: sc)  -- display all key-value pairs",
    "  CLEAR              (alias: cl)  -- clear output window",
    "  STATUS             (alias: s)   -- show node state",
    "  CAMPAIGN           (alias: c)   -- force election",
    "  HELP               (alias: h)   -- show this message",
    "  EXIT               (alias: e)   -- shut down node"]

def showPairs (indent : String) (store : Std.TreeMap String String) : List String :=
  store.toList.map fun (k, v) => s!"{indent}{k} = {v}"

/-- The `match` of `execute_command`; an error leaves through `?`. -/
def runCommand (app : App) (answers : Answers) :
    Except String ConsoleCommand → Except String Unit × App
  | .ok (.put key _) =>
    match answers.put with
    | .ok newValue => (.ok (), app.push s!"OK: {key} = {newValue}")
    | .error err => (.ok (), app.push s!"ERROR: {err}")
  | .ok (.get key) =>
    match answers.get with
    | .error err => (.error err, app)
    | .ok (some value) => (.ok (), app.push s!"{key} = {value}")
    | .ok none => (.ok (), app.push s!"{key} not found")
  | .ok .keys =>
    match answers.status with
    | .error err => (.error err, app)
    | .ok status =>
      let lines := if status.store.isEmpty then ["No keys in store"] else status.store.keys
      (.ok (), { app with outputLines := app.outputLines ++ lines })
  | .ok .scan =>
    match answers.status with
    | .error err => (.error err, app)
    | .ok status =>
      let lines := if status.store.isEmpty then ["Store is empty"] else showPairs "" status.store
      (.ok (), { app with outputLines := app.outputLines ++ lines })
  | .ok .clear => (.ok (), { app with outputLines := [], scrollOffset := 0 })
  | .ok .status =>
    match answers.status with
    | .error err => (.error err, app)
    | .ok status =>
      let id := status.nodeId
      let term := status.term
      let role := status.role.debug
      let leader := status.leaderId
      let first := s!"Node {id} | Term: {term} | Role: {role} | Leader: {leader}"
      let lines := if status.store.isEmpty then ["  Store: empty"] else showPairs "  " status.store
      (.ok (), { app with outputLines := app.outputLines ++ first :: lines }.showStatus status)
  | .ok .campaign =>
    match answers.campaign with
    | .ok msg => (.ok (), app.push msg)
    | .error err => (.ok (), app.push s!"ERROR: {err}")
  | .ok .help => (.ok (), { app with outputLines := app.outputLines ++ helpLines })
  | .ok .exit =>
    let app := app.push "Shutting down..."
    match answers.shutdown with
    | .error err => (.error err, app)
    | .ok () => (.ok (), { app with shouldQuit := true })
  | .error err => (.ok (), app.push s!"ERROR: {err}")

def executeCommand (toUppercase : String → String) (app : App) (answers : Answers) :
    Except String Unit × App :=
  let input := trim app.input
  if input = "" then (.ok (), app)
  else
    let wasAtBottom := app.isAtBottom
    let app := app.push s!"> {input}"
    match app.runCommand answers (ConsoleCommand.parse toUppercase input true) with
    | (.error err, app) => (.error err, app)
    | (.ok (), app) =>
      (.ok (), { app.stickToBottom wasAtBottom with input := "", cursorPosition := 0 })

end App

/-- How `handle_key` ends. -/
inductive Outcome where
  | ok
  | failed (err : String)
  | panicked
  deriving DecidableEq, Repr

/-- `handle_key`: `String::insert` and `String::remove` take byte offsets, and the
position is moved by one. -/
def App.handleKey (toUppercase : String → String) (app : App) (answers : Answers) :
    KeyCode → Outcome × App
  | .char c =>
    match insertAt app.input app.cursorPosition c with
    | none => (.panicked, app)
    | some input => (.ok, { app with input, cursorPosition := app.cursorPosition + 1 })
  | .backspace =>
    if 0 < app.cursorPosition then
      let app := { app with cursorPosition := app.cursorPosition - 1 }
      match removeAt app.input app.cursorPosition with
      | none => (.panicked, app)
      | some input => (.ok, { app with input })
    else (.ok, app)
  | .left => (.ok, { app with cursorPosition := app.cursorPosition - 1 })
  | .right =>
    if app.cursorPosition < len app.input then
      (.ok, { app with cursorPosition := app.cursorPosition + 1 })
    else (.ok, app)
  | .up => (.ok, { app with scrollOffset := app.scrollOffset - 1 })
  | .down => (.ok, { app with scrollOffset := min (app.scrollOffset + 1) usizeMax })
  | .enter =>
    match app.executeCommand toUppercase answers with
    | (.ok (), app) => (.ok, app)
    | (.error err, app) => (.failed err, app)
  | .esc => (.ok, { app with shouldQuit := true })
  | .other => (.ok, app)

/-! ### Sessions -/

inductive ConsoleEvent where
  | key (code : KeyCode) (answers : Answers)
  | drainLogs (messages : List LogMessage)
  | updateStatus (answer : Except String NodeStatus)
  | draw (outputHeight : ℕ)

/-- The typed character is ASCII. -/
def ConsoleEvent.typesAscii : ConsoleEvent → Bool
  | .key (.char c) _ => c.toNat < 0x80
  | _ => true

/-- An `App` with the editor that its input line stands for, and how the loop was left
if it was. -/
structure Session where
  app : App
  editor : Editor
  ended : Option Outcome
  deriving DecidableEq, Repr

namespace Session

def start (nodeId : ℕ) : Session := ⟨.new nodeId, .empty, none⟩

/-- What a key means for the editor; `submitted` says that the line was a command which
was carried out. -/
def edit (e : Editor) (submitted : Bool) : KeyCode → Editor
  | .char c => e.insert c
  | .backspace => e.backspace
  | .left => e.left
  | .right => e.right
  | .enter => if submitted then .empty else e
  | _ => e

/-- The line of the editor is a command, and the calls that it makes succeed. -/
def submits (toUppercase : String → String) (s : Session) (answers : Answers) : Bool :=
  trim (String.ofList s.editor.text) ≠ "" &&
    (s.app.executeCommand toUppercase answers).1.toOption.isSome

/-- An error or a panic of `handle_key` ends the loop. -/
def step (toUppercase : String → String) (s : Session) (e : ConsoleEvent) : Option Session :=
  if s.ended.isSome then none
  else
    match e with
    | .key code answers =>
      let editor := edit s.editor (s.submits toUppercase answers) code
      match s.app.handleKey toUppercase answers code with
      | (.ok, app) => some { s with app, editor }
      | (outcome, app) => some ⟨app, editor, some outcome⟩
    | .drainLogs messages => some { s with app := s.app.drainLogs messages }
    | .updateStatus answer => some { s with app := s.app.updateStatus answer }
    | .draw outputHeight => some { s with app := { s.app with lastOutputHeight := outputHeight } }

/-- The input line is a correct editor: no key has panicked, and the input with its
position stands for the editor. -/
structure Edits (s : Session) : Prop where
  not_panicked : s.ended ≠ some .panicked
  represents : Represents s.app.input s.app.cursorPosition s.editor

/-- The position is one that `String::insert` and `String::remove` accept. -/
theorem Edits.position {s : Session} (h : s.Edits) :
    s.app.cursorPosition ≤ len s.app.input ∧
      isCharBoundary s.app.input s.app.cursorPosition = true :=
  ⟨le_len_of_isCharBoundary h.represents.isCharBoundary, h.represents.isCharBoundary⟩

/-! ### ASCII lines -/

/-- As long as only ASCII is typed, positions and characters are the same. -/
structure Ascii (s : Session) : Prop extends Edits s where
  ascii : ∀ c ∈ s.editor.text, c.utf8Size = 1

theorem utf8Size_eq_one_iff (c : Char) : c.utf8Size = 1 ↔ c.toNat < 0x80 := by
  rw [Char.utf8Size_eq_one_iff, UInt32.le_iff_toNat_le]
  exact Nat.lt_succ_iff.symm

variable {toUppercase : String → String} {s s' : Session} {answers : Answers}

/-- A command does not touch the input line. -/
theorem runCommand_frame (app : App) (answers : Answers) (command : Except String ConsoleCommand) :
    (app.runCommand answers command).2.input = app.input ∧
      (app.runCommand answers command).2.cursorPosition = app.cursorPosition := by
  unfold App.runCommand
  split
  all_goals first
    | exact ⟨rfl, rfl⟩
    | split <;> exact ⟨rfl, rfl⟩

/-- `execute_command` empties the input line if it carries out a command, and leaves it
as it is otherwise. -/
theorem executeCommand_cases (toUppercase : String → String) (app : App) (answers : Answers) :
    (trim app.input ≠ "" ∧ (app.executeCommand toUppercase answers).1 = .ok () ∧
      (app.executeCommand toUppercase answers).2.input = "" ∧
      (app.executeCommand toUppercase answers).2.cursorPosition = 0) ∨
    ((trim app.input = "" ∨ ∃ err, (app.executeCommand toUppercase answers).1 = .error err) ∧
      (app.executeCommand toUppercase answers).2.input = app.input ∧
      (app.executeCommand toUppercase answers).2.cursorPosition = app.cursorPosition) := by
  unfold App.executeCommand
  by_cases hblank : trim app.input = ""
  · rw [if_pos hblank]
    exact .inr ⟨.inl hblank, rfl, rfl⟩
  · rw [if_neg hblank]
    simp only
    split
    · rename_i err app' hrun
      obtain ⟨hinput, hcursor⟩ := hrun ▸ runCommand_frame _ _ _
      exact .inr ⟨.inr ⟨err, rfl⟩, hinput, hcursor⟩
    · exact .inl ⟨hblank, rfl, rfl, rfl⟩

theorem mem_edit {e : Editor} {submitted : Bool} {code : KeyCode} {c : Char}
    (h : c ∈ (edit e submitted code).text) : c ∈ e.text ∨ code = .char c := by
  rcases e with ⟨before, after⟩
  cases code with
  | char d =>
    simp only [edit, Editor.insert, Editor.text, List.mem_append, List.mem_singleton] at h ⊢
    rcases h with (h | rfl) | h
    · exact .inl (.inl h)
    · exact .inr rfl
    · exact .inl (.inr h)
  | backspace =>
    rcases List.mem_append.mp h with h | h
    · exact .inl (List.mem_append_left _ (List.dropLast_subset _ h))
    · exact .inl (List.mem_append_right _ h)
  | left =>
    rcases List.eq_nil_or_concat' before with rfl | ⟨before, d, rfl⟩
    · exact .inl h
    · exact .inl (by simpa [edit, Editor.left, Editor.text] using h)
  | right =>
    cases after with
    | nil => exact .inl h
    | cons d after => exact .inl (by simpa [edit, Editor.right, Editor.text] using h)
  | enter =>
    cases submitted with
    | false => exact .inl h
    | true => exact absurd h List.not_mem_nil
  | up => exact .inl h
  | down => exact .inl h
  | esc => exact .inl h
  | other => exact .inl h

/-- **A key on an ASCII line** does to the input what it does to the editor. -/
theorem Ascii.handleKey (h : s.Ascii) {code : KeyCode}
    (hcode : (ConsoleEvent.key code answers).typesAscii = true) :
    (s.app.handleKey toUppercase answers code).1 ≠ .panicked ∧
      Represents (s.app.handleKey toUppercase answers code).2.input
        (s.app.handleKey toUppercase answers code).2.cursorPosition
        (edit s.editor (s.submits toUppercase answers) code) := by
  have hrep := h.represents
  have hone : ∀ c ∈ s.editor.text, c.utf8Size = 1 := h.ascii
  cases code with
  | char c =>
    have hsize := (utf8Size_eq_one_iff c).mpr (by simpa [ConsoleEvent.typesAscii] using hcode)
    obtain ⟨input, hinsert, hrep'⟩ := hrep.insertAt c
    rw [hsize] at hrep'
    simp only [App.handleKey, hinsert]
    exact ⟨by simp, hrep'⟩
  | backspace =>
    rcases List.eq_nil_or_concat' s.editor.before with hbefore | ⟨before, c, hbefore⟩
    · -- at the start of the line
      have hzero : s.app.cursorPosition = 0 := by rw [hrep.cursor_eq, hbefore, byteLength_nil]
      simp only [App.handleKey, hzero, Nat.lt_irrefl, if_false, edit,
        Editor.backspace_of_nil hbefore]
      exact ⟨by simp, hzero ▸ hrep⟩
    · have hsize : c.utf8Size = 1 := hone c (by simp [Editor.text, hbefore])
      have hpos : 0 < s.app.cursorPosition := by
        rw [hrep.cursor_eq, hbefore]
        simp [hsize]
      obtain ⟨input, hremove, hrep'⟩ := hrep.removeAt hbefore
      rw [hsize] at hremove hrep'
      simp only [App.handleKey, if_pos hpos, hremove]
      exact ⟨by simp, hrep'⟩
  | left =>
    refine ⟨by simp [App.handleKey], ?_⟩
    rcases List.eq_nil_or_concat' s.editor.before with hbefore | ⟨before, c, hbefore⟩
    · have hzero : s.app.cursorPosition - 1 = s.app.cursorPosition := by
        rw [hrep.cursor_eq, hbefore, byteLength_nil]
      simp only [App.handleKey, edit, Editor.left_of_nil hbefore, hzero]
      exact hrep
    · have hsize : c.utf8Size = 1 := hone c (by simp [Editor.text, hbefore])
      have hleft := hrep.left hbefore
      rw [hsize] at hleft
      exact hleft
  | right =>
    have hlen : len s.app.input = s.app.cursorPosition + byteLength s.editor.after := by
      rw [len, hrep.text_eq, Editor.text, byteLength_append, hrep.cursor_eq]
    cases hafter : s.editor.after with
    | nil =>
      have hend : ¬ s.app.cursorPosition < len s.app.input := by
        rw [hlen, hafter]
        simp
      simp only [App.handleKey, if_neg hend, edit, Editor.right_of_nil hafter]
      exact ⟨by simp, hrep⟩
    | cons c after =>
      have hsize : c.utf8Size = 1 := hone c (by simp [Editor.text, hafter])
      have hlt : s.app.cursorPosition < len s.app.input := by
        rw [hlen, hafter, byteLength_cons]
        omega
      simp only [App.handleKey, if_pos hlt]
      exact ⟨by simp, hsize ▸ hrep.right hafter⟩
  | up => exact ⟨by simp [App.handleKey], hrep⟩
  | down => exact ⟨by simp [App.handleKey], hrep⟩
  | enter =>
    have hline : String.ofList s.editor.text = s.app.input := by
      rw [← hrep.text_eq, String.ofList_toList]
    rcases executeCommand_cases toUppercase s.app answers with
      ⟨hblank, hok, hinput, hcursor⟩ | ⟨hkept, hinput, hcursor⟩
    · have hsubmit : s.submits toUppercase answers = true := by
        simp [submits, hline, hblank, hok, Except.toOption]
      rcases hrun : s.app.executeCommand toUppercase answers with ⟨result, app⟩
      rw [hrun] at hok hinput hcursor
      obtain rfl : result = .ok () := hok
      simp only [App.handleKey, hrun, edit, hsubmit, if_true]
      exact ⟨by simp, hinput ▸ hcursor ▸ represents_empty⟩
    · have hsubmit : s.submits toUppercase answers = false := by
        rcases hkept with hblank | ⟨err, herr⟩
        · simp [submits, hline, hblank]
        · simp [submits, herr, Except.toOption]
      rcases hrun : s.app.executeCommand toUppercase answers with ⟨result, app⟩
      rw [hrun] at hinput hcursor
      simp only [App.handleKey, hrun, edit, hsubmit]
      cases result with
      | ok _ => exact ⟨by simp, hinput ▸ hcursor ▸ hrep⟩
      | error err => exact ⟨by simp, hinput ▸ hcursor ▸ hrep⟩
  | esc => exact ⟨by simp [App.handleKey], hrep⟩
  | other => exact ⟨by simp [App.handleKey], hrep⟩

/-- The steps of a session. -/
theorem step_cases {e : ConsoleEvent} (h : s.step toUppercase e = some s') :
    (∃ code answers, e = .key code answers ∧
      s'.app = (s.app.handleKey toUppercase answers code).2 ∧
      s'.editor = edit s.editor (s.submits toUppercase answers) code ∧
      (s'.ended = s.ended ∨ s'.ended = some (s.app.handleKey toUppercase answers code).1)) ∨
    (s'.app.input = s.app.input ∧ s'.app.cursorPosition = s.app.cursorPosition ∧
      s'.editor = s.editor ∧ s'.ended = s.ended ∧ e.typesAscii = true) := by
  unfold step at h
  split at h
  · cases h
  · cases e with
    | key code answers =>
      refine .inl ⟨code, answers, rfl, ?_⟩
      rcases hkey : s.app.handleKey toUppercase answers code with ⟨outcome, app⟩
      simp only [hkey] at h
      cases outcome <;> cases h
      · exact ⟨rfl, rfl, .inl rfl⟩
      · exact ⟨rfl, rfl, .inr rfl⟩
      · exact ⟨rfl, rfl, .inr rfl⟩
    | drainLogs messages =>
      cases h
      refine .inr ⟨?_, ?_, rfl, rfl, rfl⟩ <;>
      · simp only [App.drainLogs, App.stickToBottom]
        split <;> rfl
    | updateStatus answer =>
      cases h
      cases answer <;> exact .inr ⟨rfl, rfl, rfl, rfl, rfl⟩
    | draw outputHeight =>
      cases h
      exact .inr ⟨rfl, rfl, rfl, rfl, rfl⟩

theorem ascii_start (nodeId : ℕ) : (start nodeId).Ascii :=
  ⟨⟨by simp [start], represents_empty⟩, List.forall_mem_nil _⟩

theorem Ascii.step (h : s.Ascii) {e : ConsoleEvent} (he : e.typesAscii = true)
    (hstep : s.step toUppercase e = some s') : s'.Ascii := by
  rcases step_cases hstep with
    ⟨code, answers, rfl, happ, heditor, hended⟩ | ⟨hinput, hcursor, heditor, hended, -⟩
  · obtain ⟨hok, hrep⟩ := @Ascii.handleKey toUppercase s answers h code he
    refine ⟨⟨?_, happ ▸ heditor ▸ hrep⟩, fun c hc => ?_⟩
    · rcases hended with hended | hended
      · exact hended ▸ h.not_panicked
      · exact fun hpanic => hok (Option.some_inj.mp (hended.symm.trans hpanic))
    · rw [heditor] at hc
      rcases mem_edit hc with hc | rfl
      · exact h.ascii c hc
      · exact (utf8Size_eq_one_iff c).mpr (by simpa [ConsoleEvent.typesAscii] using he)
  · refine ⟨⟨hended ▸ h.not_panicked, ?_⟩, heditor ▸ h.ascii⟩
    rw [hinput, hcursor, heditor]
    exact h.represents

/-- After a character of more than one byte, the position is not that of the cursor. -/
theorem Ascii.not_edits (h : s.Ascii) {e : ConsoleEvent} (he : ¬ e.typesAscii = true)
    (hstep : s.step toUppercase e = some s') : ¬ s'.Edits := by
  intro hedits
  rcases step_cases hstep with ⟨code, answers, rfl, happ, heditor, -⟩ | ⟨-, -, -, -, hascii⟩
  · cases code with
    | char c =>
      have hsize : c.utf8Size ≠ 1 := fun hone =>
        he (by simpa [ConsoleEvent.typesAscii] using (utf8Size_eq_one_iff c).mp hone)
      obtain ⟨input, hinsert, hrep⟩ := h.represents.insertAt c
      have hcursor : s'.app.cursorPosition = s.app.cursorPosition + 1 := by
        rw [happ]
        simp only [App.handleKey, hinsert]
      have hone := hedits.represents.cursor_eq
      rw [hcursor, heditor] at hone
      have hmoved := hrep.cursor_eq
      simp only [edit] at hone
      omega
    | _ => exact he rfl
  · exact he hascii

end Session

/-- **The input line is a correct editor exactly on ASCII.**  In every run of keys, with
whatever the node answers and whatever else the loop does between them, no key panics and
the input with its position stands for the editor all along, iff every character that is
typed is an ASCII character. -/
theorem input_edits_iff (toUppercase : String → String) (nodeId : ℕ) (es : List ConsoleEvent) :
    Along (Session.step toUppercase) Session.Edits (.start nodeId) es ↔
      Meets (Session.step toUppercase) (fun _ e => e.typesAscii = true) (.start nodeId) es :=
  along_iff_meets (I := Session.Ascii) (fun _ h => h.toEdits)
    (fun _ _ _ h he hstep => h.step he hstep) (fun _ _ _ h he hstep => h.not_edits he hstep)
    (Session.ascii_start nodeId)

/-- Nothing is asked of the node here. -/
def noAnswers : Answers := ⟨.error "", .error "", .error "", .error "", .error ""⟩

/-- An `é` and an `a` are typed: the second key panics. -/
theorem accent_panics :
    ¬ Along (Session.step id) Session.Edits (.start 1)
      [.key (.char 'é') noAnswers, .key (.char 'a') noAnswers] := by
  have hrun : (run (Session.step id) (.start 1)
      [.key (.char 'é') noAnswers, .key (.char 'a') noAnswers]).map Session.ended =
      some (some .panicked) := by decide
  obtain ⟨s, hs, hended⟩ := Option.map_eq_some_iff.mp hrun
  exact fun hall => (hall.final hs).not_panicked hended

end Raft
