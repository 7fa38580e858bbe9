/-
What the terminal of a client shows of the messages that it is sent (`render_server_message`
and `write_stdout` of `client.rs`).

Nicknames and texts are printed as they are.  A line feed in one of them starts a new line,
and the words of the client's own lines can be a part of them.

* `length_printed` — how many lines a message is;
* `render_eq_iff` — which messages are shown alike;
* `announced_of_stdout` — what a line on standard output says of the messages.
-/
import AsyncRust.BrokerAttribution
import AsyncRust.ChatClient
import Mathlib.Data.List.Infix

namespace Chat

open Runs

/-! ### Lines -/

/-- What is written with a line feed behind it, as lines. -/
def terminalLines (line : String) : List String := (line.toList.splitOn '\n').map String.ofList

def Output.lines : Output → List String
  | .stdout line => terminalLines line
  | .stderr line => terminalLines line

/-- The lines that a message is printed as. -/
def printed (message : ServerToClient) : List String :=
  (renderServerMessage message).elim [] Output.lines

namespace ServerToClient

/-- The nicknames and the text. -/
def fields : ServerToClient → List String
  | welcome nickname => [nickname]
  | roster participants => participants
  | userJoined nickname => [nickname]
  | userLeft nickname => [nickname]
  | chat nickname text => [nickname, text]
  | error message => [message]

def lineFeeds (message : ServerToClient) : ℕ :=
  (message.fields.map fun field => field.toList.count '\n').sum

end ServerToClient

theorem length_splitOn {α : Type*} [DecidableEq α] (sep : α) (l : List α) :
    (l.splitOn sep).length = l.count sep + 1 := by
  induction l with
  | nil => rfl
  | cons a l ih =>
    rw [List.splitOn_cons_eq_if_modifyHead, List.count_cons]
    split
    · rw [List.length_cons, ih]
    · rw [List.length_modifyHead, ih, Nat.add_zero]

theorem length_terminalLines (line : String) :
    (terminalLines line).length = line.toList.count '\n' + 1 := by
  rw [terminalLines, List.length_map, length_splitOn]

/-- A line without line feeds. -/
theorem terminalLines_of_length {line : String} (h : (terminalLines line).length = 1) :
    terminalLines line = [line] := by
  rw [length_terminalLines, Nat.add_eq_right, List.count_eq_zero] at h
  rw [terminalLines, List.splitOn_eq_singleton h, List.map_singleton, String.ofList_toList]

theorem count_intercalate {α : Type*} [DecidableEq α] {a : α} {sep : List α} (hsep : a ∉ sep)
    (ls : List (List α)) : (sep.intercalate ls).count a = (ls.map fun l => l.count a).sum := by
  induction ls with
  | nil => rfl
  | cons l ls ih =>
    cases ls with
    | nil => simp
    | cons l' ls =>
      rw [List.intercalate_cons_cons, List.count_append, List.count_append, ih,
        List.count_eq_zero_of_not_mem hsep, Nat.add_zero]
      rfl

/-! ### Strings that overlap -/

section
variable {a b c d : String}

theorem append_eq_append_iff : a ++ b = c ++ d ↔
    (∃ rest, c = a ++ rest ∧ b = rest ++ d) ∨ ∃ rest, a = c ++ rest ∧ d = rest ++ b := by
  simp only [← String.toList_inj, String.toList_append, List.append_eq_append_iff]
  refine or_congr ?_ ?_ <;>
  · constructor
    · rintro ⟨rest, hrest⟩
      exact ⟨String.ofList rest, by simpa using hrest⟩
    · rintro ⟨rest, hrest⟩
      exact ⟨rest.toList, by simpa using hrest⟩

/-- No end of `a` is a beginning of `d`. -/
def NoOverlap (a d : String) : Prop := ∀ l ∈ a.toList.tails, l <+: d.toList → l = []

instance : Decidable (NoOverlap a d) :=
  inferInstanceAs (Decidable (∀ l ∈ a.toList.tails, l <+: d.toList → l = []))

theorem overlap_iff (h : NoOverlap a d) :
    a ++ b = c ++ d ↔ ∃ rest, c = a ++ rest ∧ b = rest ++ d := by
  rw [append_eq_append_iff, or_iff_left_iff_imp]
  rintro ⟨rest, rfl, rfl⟩
  have hnil : rest.toList = [] :=
    h _ (by simp [List.mem_tails]) (by simp)
  obtain rfl : rest = "" := String.toList_inj.mp hnil
  exact ⟨"", by simp, by simp⟩

theorem append_ne_append_of_suffix (h : ¬ b.toList <:+ d.toList) (h' : ¬ d.toList <:+ b.toList) :
    a ++ b ≠ c ++ d := by
  intro heq
  rcases append_eq_append_iff.mp heq with ⟨rest, -, rfl⟩ | ⟨rest, -, rfl⟩
  · exact h' (by simp)
  · exact h (by simp)

end

/-! ### Messages that are shown alike -/

section
variable {nickname nickname' text text' names : String} {participants : List String}

/-- The second nickname goes on where the text of the first one starts. -/
def Speaks (nickname text nickname' text' : String) : Prop :=
  ∃ rest, nickname' = nickname ++ "> " ++ rest ∧ text = rest ++ "> " ++ text'

/-- The nickname starts with the words of a line and `names` ends with those of a notice. -/
def Notifies (words ending nickname names : String) : Prop :=
  ∃ rest, nickname ++ " " = words ++ rest ∧ names = rest ++ ending

/-- Where the bracket behind a nickname can stand in the rest of the line. -/
theorem bracket_eq_iff {rest : String} : "> " ++ text = rest ++ ("> " ++ text') ↔
    rest = "" ∧ text = text' ∨ ∃ more, rest = "> " ++ more ∧ text = more ++ "> " ++ text' := by
  constructor
  · intro h
    have hlist : '>' :: ' ' :: text.toList = rest.toList ++ '>' :: ' ' :: text'.toList := by
      simpa using congrArg String.toList h
    rcases hrest : rest.toList with _ | ⟨first, _ | ⟨second, more⟩⟩
    · rw [hrest] at hlist
      refine .inl ⟨String.toList_inj.mp hrest, String.toList_inj.mp ?_⟩
      simpa using hlist
    · -- a blank would be the bracket
      rw [hrest] at hlist
      simp at hlist
    · rw [hrest] at hlist
      obtain ⟨rfl, rfl, hmore⟩ : '>' = first ∧ ' ' = second ∧
        text.toList = more ++ '>' :: ' ' :: text'.toList := by simpa using hlist
      refine .inr ⟨String.ofList more, String.toList_inj.mp ?_, String.toList_inj.mp ?_⟩
      · simpa using hrest
      · simpa using hmore
  · rintro (⟨rfl, rfl⟩ | ⟨more, rfl, rfl⟩)
    · exact String.empty_append.symm
    · simp only [String.append_assoc]

theorem chat_eq_iff : "<" ++ nickname ++ "> " ++ text = "<" ++ nickname' ++ "> " ++ text' ↔
    (nickname = nickname' ∧ text = text') ∨ Speaks nickname text nickname' text' ∨
      Speaks nickname' text' nickname text := by
  have hcut : "<" ++ nickname ++ "> " ++ text = "<" ++ nickname' ++ "> " ++ text' ↔
      nickname ++ ("> " ++ text) = nickname' ++ ("> " ++ text') := by
    simp only [String.append_assoc, String.append_right_inj]
  rw [hcut, append_eq_append_iff]
  simp only [bracket_eq_iff, Speaks]
  constructor
  · rintro (⟨rest, rfl, ⟨rfl, rfl⟩ | ⟨more, rfl, rfl⟩⟩ | ⟨rest, rfl, ⟨rfl, rfl⟩ | ⟨more, rfl, rfl⟩⟩)
    · exact .inl ⟨String.append_empty.symm, rfl⟩
    · exact .inr (.inl ⟨more, (String.append_assoc ..).symm, rfl⟩)
    · exact .inl ⟨String.append_empty, rfl⟩
    · exact .inr (.inr ⟨more, (String.append_assoc ..).symm, rfl⟩)
  · rintro (⟨rfl, rfl⟩ | ⟨rest, rfl, rfl⟩ | ⟨rest, rfl, rfl⟩)
    · exact .inl ⟨"", String.append_empty.symm, .inl ⟨rfl, rfl⟩⟩
    · exact .inl ⟨"> " ++ rest, String.append_assoc .., .inr ⟨rest, rfl, rfl⟩⟩
    · exact .inr ⟨"> " ++ rest, String.append_assoc .., .inr ⟨rest, rfl, rfl⟩⟩

theorem notice_eq_iff {words ending : String} (h : NoOverlap words ending) :
    "*** " ++ nickname ++ (" " ++ ending) = "*** " ++ words ++ names ↔
      Notifies words ending nickname names := by
  have hcut : "*** " ++ nickname ++ (" " ++ ending) = "*** " ++ words ++ names ↔
      words ++ names = (nickname ++ " ") ++ ending := by
    simp only [String.append_assoc, String.append_right_inj]
    exact eq_comm
  rw [hcut, overlap_iff h]
  rfl

/-- The two are not the same message, and are shown as the same. -/
def Confusable : ServerToClient → ServerToClient → Prop
  | .chat nickname text, .chat nickname' text' => Speaks nickname text nickname' text'
  | .roster participants, .roster participants' =>
    participants ≠ [] ∧ participants' ≠ [] ∧
      ", ".intercalate participants = ", ".intercalate participants'
  | .userJoined nickname, .welcome name =>
    Notifies "connected as " "joined the chat" nickname name
  | .userLeft nickname, .welcome name =>
    Notifies "connected as " "left the chat" nickname name
  | .userJoined nickname, .roster participants =>
    participants ≠ [] ∧ Notifies "currently online: " "joined the chat" nickname
      (", ".intercalate participants)
  | .userLeft nickname, .roster participants =>
    participants ≠ [] ∧ Notifies "currently online: " "left the chat" nickname
      (", ".intercalate participants)
  | _, _ => False

@[simp] theorem render_welcome : renderServerMessage (.welcome nickname) =
    some (.stdout ("*** connected as " ++ nickname)) := rfl

@[simp] theorem render_roster_nil : renderServerMessage (.roster []) = none := rfl

@[simp] theorem render_roster_cons :
    renderServerMessage (.roster (nickname :: participants)) =
      some (.stdout ("*** currently online: " ++ ", ".intercalate (nickname :: participants))) :=
  rfl

@[simp] theorem render_userJoined : renderServerMessage (.userJoined nickname) =
    some (.stdout ("*** " ++ nickname ++ " joined the chat")) := rfl

@[simp] theorem render_userLeft : renderServerMessage (.userLeft nickname) =
    some (.stdout ("*** " ++ nickname ++ " left the chat")) := rfl

@[simp] theorem render_chat : renderServerMessage (.chat nickname text) =
    some (.stdout ("<" ++ nickname ++ "> " ++ text)) := rfl

@[simp] theorem render_error : renderServerMessage (.error text) =
    some (.stderr ("!!! " ++ text)) := rfl

/-- **How many lines a message is.** -/
theorem length_printed (message : ServerToClient) : (printed message).length =
    if message = .roster [] then 0 else message.lineFeeds + 1 := by
  rcases message with nickname | (_ | ⟨first, rest⟩) | nickname | nickname | ⟨nickname, text⟩ | text
  case roster.nil => rfl
  case roster.cons =>
    have hcomma : '\n' ∉ ", ".toList := by decide
    have hnames := count_intercalate hcomma ((first :: rest).map String.toList)
    simp only [printed, render_roster_cons, Option.elim, Output.lines, length_terminalLines,
      String.toList_append, String.toList_intercalate, List.count_append, hnames]
    simp [ServerToClient.lineFeeds, ServerToClient.fields, Function.comp_def]
  all_goals
    simp [printed, Output.lines, length_terminalLines, ServerToClient.lineFeeds,
      ServerToClient.fields]

/-- A notice about a client, and a line for this one. -/
theorem render_notice_iff {m m' : ServerToClient} {words ending : String}
    (hoverlap : NoOverlap words ending)
    (h : renderServerMessage m = some (.stdout ("*** " ++ nickname ++ (" " ++ ending))))
    (h' : renderServerMessage m' = some (.stdout ("*** " ++ words ++ names))) :
    renderServerMessage m = renderServerMessage m' ↔ Notifies words ending nickname names := by
  rw [h, h', Option.some_inj, Output.stdout.injEq, notice_eq_iff hoverlap]

theorem userJoined_eq_welcome :
    renderServerMessage (.userJoined nickname) = renderServerMessage (.welcome names) ↔
      Confusable (.userJoined nickname) (.welcome names) :=
  render_notice_iff (by decide) rfl rfl

theorem userLeft_eq_welcome :
    renderServerMessage (.userLeft nickname) = renderServerMessage (.welcome names) ↔
      Confusable (.userLeft nickname) (.welcome names) :=
  render_notice_iff (by decide) rfl rfl

theorem userJoined_eq_roster :
    renderServerMessage (.userJoined nickname) =
        renderServerMessage (.roster (nickname' :: participants)) ↔
      Confusable (.userJoined nickname) (.roster (nickname' :: participants)) :=
  (render_notice_iff (by decide) rfl rfl).trans (and_iff_right (List.cons_ne_nil _ _)).symm

theorem userLeft_eq_roster :
    renderServerMessage (.userLeft nickname) =
        renderServerMessage (.roster (nickname' :: participants)) ↔
      Confusable (.userLeft nickname) (.roster (nickname' :: participants)) :=
  (render_notice_iff (by decide) rfl rfl).trans (and_iff_right (List.cons_ne_nil _ _)).symm

theorem joined_ne_left :
    "*** " ++ nickname ++ " joined the chat" ≠ "*** " ++ nickname' ++ " left the chat" :=
  append_ne_append_of_suffix (by decide) (by decide)

/-- **Which messages are shown alike.** -/
theorem render_eq_iff (m m' : ServerToClient) :
    renderServerMessage m = renderServerMessage m' ↔
      m = m' ∨ Confusable m m' ∨ Confusable m' m := by
  rcases m with nickname | (_ | ⟨first, rest⟩) | nickname | nickname | ⟨nickname, text⟩ | text <;>
  rcases m' with nickname' | (_ | ⟨first', rest'⟩) | nickname' | nickname' |
    ⟨nickname', text'⟩ | text'
  case userJoined.welcome => rw [userJoined_eq_welcome]; simp [Confusable]
  case userLeft.welcome => rw [userLeft_eq_welcome]; simp [Confusable]
  case userJoined.roster.cons => rw [userJoined_eq_roster]; simp [Confusable]
  case userLeft.roster.cons => rw [userLeft_eq_roster]; simp [Confusable]
  case welcome.userJoined => rw [eq_comm, userJoined_eq_welcome]; simp [Confusable]
  case welcome.userLeft => rw [eq_comm, userLeft_eq_welcome]; simp [Confusable]
  case roster.cons.userJoined => rw [eq_comm, userJoined_eq_roster]; simp [Confusable]
  case roster.cons.userLeft => rw [eq_comm, userLeft_eq_roster]; simp [Confusable]
  case userJoined.userLeft => simp [Confusable, joined_ne_left]
  case userLeft.userJoined => simp [Confusable, joined_ne_left.symm]
  case roster.cons.roster.cons =>
    rw [render_roster_cons, render_roster_cons, Option.some_inj, Output.stdout.injEq,
      String.append_right_inj]
    constructor
    · exact fun h => .inr (.inl ⟨List.cons_ne_nil _ _, List.cons_ne_nil _ _, h⟩)
    · rintro (h | ⟨-, -, h⟩ | ⟨-, -, h⟩)
      · rw [ServerToClient.roster.inj h]
      · exact h
      · exact h.symm
  case chat.chat =>
    rw [render_chat, render_chat, Option.some_inj, Output.stdout.injEq, chat_eq_iff,
      ServerToClient.chat.injEq]
    rfl
  -- the first letters of the lines differ, or they show one field
  all_goals simp [Confusable, ← String.toList_inj]

end

/-! ### The client -/

/-- The client has read this message. -/
def Client.Read (client : Client) (message : ServerToClient) : Prop :=
  .ok (some message) ∈ client.reading.results

/-- The lines on its standard output. -/
def Output.stdoutLines : Output → List String
  | .stdout line => terminalLines line
  | .stderr _ => []

def Client.stdout (client : Client) : List String := client.shown.flatMap Output.stdoutLines

/-- What the client says by itself. -/
def partings : List Output :=
  [.stdout "*** server closed the connection", .stdout "*** leaving chat"]

/-- All that is shown is a message that was read, or a parting line. -/
structure Client.ShowsRead (client : Client) : Prop where
  shown : ∀ output ∈ client.shown,
    (∃ m, client.Read m ∧ renderServerMessage m = some output) ∨ output ∈ partings
  showing : ∀ output, client.phase = .showing output →
    ∃ m, client.Read m ∧ renderServerMessage m = some output
  parting : ∀ output, client.phase = .parting output → output ∈ partings

section
variable {fromStr : String → Option ServerToClient} {client client' : Client} {e : ClientEvent}

theorem message_of_render {result : ReadResult ServerToClient} {output : Output}
    (h : handleServerMessage result = .render (some output)) :
    ∃ m, result = .ok (some m) ∧ renderServerMessage m = some output := by
  rcases result with err | _ | m
  · cases h
  · cases h
  · exact ⟨m, rfl, Served.render.inj h⟩

theorem mem_partings_of_finish {result : ReadResult ServerToClient} {output : Output}
    (h : handleServerMessage result = .finish output) : output ∈ partings := by
  rcases result with err | _ | m
  · cases h
  · cases h
    exact List.mem_cons_self
  · cases h

theorem mem_partings_of_typed {result : StdinResult} {output : Output}
    (h : handleStdinInput result = .finish (some output)) : output ∈ partings := by
  rcases result with err | input
  · cases h
  · rw [handleStdinInput] at h
    split at h
    · cases h
    · split at h
      · cases h
      · split at h
        · cases h
          simp [partings]
        · cases h

/-- Nothing is shown by a step that only reads. -/
theorem Client.ShowsRead.of_reads (h : client.ShowsRead) (hshown : client'.shown = client.shown)
    (hread : ∀ m, client.Read m → client'.Read m)
    (hshowing : ∀ output, client'.phase = .showing output →
      ∃ m, client'.Read m ∧ renderServerMessage m = some output)
    (hparting : ∀ output, client'.phase = .parting output → output ∈ partings) :
    client'.ShowsRead where
  shown output hmem := by
    rw [hshown] at hmem
    refine (h.shown output hmem).imp_left ?_
    rintro ⟨m, hm, hrender⟩
    exact ⟨m, hread m hm, hrender⟩
  showing := hshowing
  parting := hparting

theorem Client.ShowsRead.step (h : client.ShowsRead) (he : client.step fromStr e = some client') :
    client'.ShowsRead := by
  cases e with
  | serverArrive fill =>
    obtain rfl := Option.some_inj.mp he
    exact h.of_reads rfl (fun _ hm => hm) h.showing h.parting
  | stdinArrive fill =>
    obtain rfl := Option.some_inj.mp he
    exact h.of_reads rfl (fun _ hm => hm) h.showing h.parting
  | pollServer =>
    have hread : ∀ m, client.Read m →
        .ok (some m) ∈ (client.reading.poll (readMessage fromStr)).2.results :=
      fun _ hm => List.mem_append_left _ hm
    simp only [Client.step] at he
    split at he
    · rename_i hphase hresult
      obtain rfl := Option.some_inj.mp he
      exact h.of_reads rfl hread
        (fun output hshowing => absurd (hphase.symm.trans hshowing) (by simp)) h.parting
    · rename_i result hphase hresult
      have hnew : result ∈ (client.reading.poll (readMessage fromStr)).2.results :=
        List.mem_append_right _ (Option.mem_toList.mpr hresult)
      split at he <;> rename_i hserved <;> obtain rfl := Option.some_inj.mp he
      · exact h.of_reads rfl hread
          (fun output hshowing => absurd (hphase.symm.trans hshowing) (by simp)) h.parting
      · refine h.of_reads rfl hread ?_ (by simp)
        rintro output hshowing
        obtain ⟨m, rfl, hrender⟩ := message_of_render hserved
        obtain rfl := ClientPhase.showing.inj hshowing
        exact ⟨m, hnew, hrender⟩
      · refine h.of_reads rfl hread (by simp) ?_
        rintro output hparting
        obtain rfl := ClientPhase.parting.inj hparting
        exact mem_partings_of_finish hserved
      · exact h.of_reads rfl hread (by simp) (by simp)
    · cases he
  | pollStdin =>
    simp only [Client.step] at he
    split at he
    · obtain rfl := Option.some_inj.mp he
      exact h.of_reads rfl (fun _ hm => hm) h.showing h.parting
    · rename_i result hphase hresult
      have hread : ∀ m, client.Read m → .ok (some m) ∈ client.reading.cancel.results :=
        fun _ hm => hm
      split at he <;> rename_i htyped <;> obtain rfl := Option.some_inj.mp he
      · exact h.of_reads rfl hread
          (fun output hshowing => absurd (hphase.symm.trans hshowing) (by simp)) h.parting
      · exact h.of_reads rfl hread (by simp) (by simp)
      · exact h.of_reads rfl hread (by simp) (by simp)
      · refine h.of_reads rfl hread (by simp) ?_
        rintro output hparting
        obtain rfl := ClientPhase.parting.inj hparting
        exact mem_partings_of_typed htyped
      · exact h.of_reads rfl hread (by simp) (by simp)
    · cases he
  | ctrlC =>
    simp only [Client.step] at he
    split at he
    · obtain rfl := Option.some_inj.mp he
      exact h.of_reads rfl (fun _ hm => hm) (by simp) (by simp)
    · cases he
  | write ok =>
    cases hphase : client.phase <;> cases ok <;>
      simp only [Client.step, hphase, Option.some_inj, reduceCtorEq] at he <;> subst he
    case showing.true output =>
      refine ⟨fun other hmem => ?_, by simp, by simp⟩
      rcases List.mem_append.mp hmem with hmem | hmem
      · exact h.shown other hmem
      · obtain rfl := List.mem_singleton.mp hmem
        exact .inl (h.showing other hphase)
    case parting.true output =>
      refine ⟨fun other hmem => ?_, by simp, by simp⟩
      rcases List.mem_append.mp hmem with hmem | hmem
      · exact h.shown other hmem
      · obtain rfl := List.mem_singleton.mp hmem
        exact .inr (h.parting other hphase)
    -- the other writes show nothing
    all_goals exact h.of_reads rfl (fun _ hm => hm) (by simp) (by simp)
  | shutdown =>
    simp only [Client.step] at he
    split at he
    · obtain rfl := Option.some_inj.mp he
      exact h.of_reads rfl (fun _ hm => hm) (by simp) (by simp)
    · cases he

theorem shows_read {nickname : String}
    (h : Reachable (Client.step fromStr) (.new nickname) client) : client.ShowsRead :=
  h.invariant ⟨by simp [Client.new], by simp [Client.new], by simp [Client.new]⟩
    fun _ _ _ _ h he => h.step he

/-! ### What a line says -/

/-- The messages that tell what another client has done. -/
inductive Announces : ServerToClient → Prop
  | userJoined (nickname : String) : Announces (.userJoined nickname)
  | userLeft (nickname : String) : Announces (.userLeft nickname)
  | chat (nickname text : String) : Announces (.chat nickname text)

theorem ne_of_not_suffix {a b c : String} (h : ¬ b.toList <:+ c.toList) : a ++ b ≠ c := by
  rintro rfl
  exact h (by simp)

theorem not_mem_partings {m : ServerToClient} {output : Output} (h : Announces m)
    (hrender : renderServerMessage m = some output) : output ∉ partings := by
  rw [partings, List.mem_pair]
  cases h with
  | userJoined nickname =>
    obtain rfl := Option.some_inj.mp hrender
    rintro (hline | hline)
    · exact ne_of_not_suffix (by decide) (Output.stdout.inj hline)
    · exact ne_of_not_suffix (by decide) (Output.stdout.inj hline)
  | userLeft nickname =>
    obtain rfl := Option.some_inj.mp hrender
    rintro (hline | hline)
    · exact ne_of_not_suffix (by decide) (Output.stdout.inj hline)
    · exact ne_of_not_suffix (by decide) (Output.stdout.inj hline)
  | chat nickname text =>
    rw [render_chat, Option.some_inj] at hrender
    subst hrender
    simp [← String.toList_inj]

/-- **What a line says**: a line about another client comes from the message that tells it,
from one that is shown alike, or from one with line feeds. -/
theorem announced_of_stdout {nickname line : String} {announced : ServerToClient}
    (h : Reachable (Client.step fromStr) (.new nickname) client) (hannounces : Announces announced)
    (hrender : renderServerMessage announced = some (.stdout line)) (hline : line ∈ client.stdout) :
    ∃ m, client.Read m ∧ (m = announced ∨ Confusable m announced ∨ Confusable announced m ∨
      (0 < m.lineFeeds ∧ line ∈ printed m)) := by
  obtain ⟨output | _, hmem, hlines⟩ := List.mem_flatMap.mp hline
  case stderr => cases hlines
  rcases (shows_read h).shown _ hmem with ⟨m, hread, hm⟩ | hparting
  · refine ⟨m, hread, ?_⟩
    have hprinted : printed m = terminalLines output := by
      rw [printed, hm]
      rfl
    rcases Nat.eq_zero_or_pos m.lineFeeds with hfree | hfeeds
    · have hone : (terminalLines output).length = 1 := by
        rw [← hprinted, length_printed, hfree]
        refine if_neg ?_
        rintro rfl
        cases hm
      rw [Output.stdoutLines, terminalLines_of_length hone, List.mem_singleton] at hlines
      have halike := (render_eq_iff m announced).mp (by rw [hm, hrender, hlines])
      exact halike.imp_right fun hconfusable => hconfusable.imp_right .inl
    · exact .inr (.inr (.inr ⟨hfeeds, hprinted ▸ hlines⟩))
  · -- the client's own lines are not about others
    have hone : terminalLines output = [output] := by
      rcases List.mem_pair.mp hparting with h | h <;> obtain rfl := Output.stdout.inj h <;> decide
    rw [Output.stdoutLines, hone, List.mem_singleton] at hlines
    exact absurd hparting (not_mem_partings hannounces (hlines ▸ hrender))

end

/-- **What the terminal shows.**  A message is a line more than it has line feeds; two
messages are shown alike only in the ways of `Confusable`; and a line about another client
comes from the message that tells it, from one shown alike, or from one with line feeds. -/
theorem terminal_shows :
    (∀ message, (printed message).length =
      if message = .roster [] then 0 else message.lineFeeds + 1) ∧
    (∀ m m', renderServerMessage m = renderServerMessage m' ↔
      m = m' ∨ Confusable m m' ∨ Confusable m' m) ∧
    ∀ (fromStr : String → Option ServerToClient) (nickname : String) (client : Client),
      Reachable (Client.step fromStr) (.new nickname) client →
      ∀ announced line, Announces announced → renderServerMessage announced = some (.stdout line) →
        line ∈ client.stdout →
        ∃ m, client.Read m ∧ (m = announced ∨ Confusable m announced ∨ Confusable announced m ∨
          (0 < m.lineFeeds ∧ line ∈ printed m)) :=
  ⟨length_printed, render_eq_iff, fun _ _ _ h _ _ hannounces hrender hline =>
    announced_of_stdout h hannounces hrender hline⟩

/-- A chat of "bob" in the JSON of the protocol. -/
def bobsLine : String := "\x7b\"type\":\"chat\",\"nickname\":\"bob\",\"text\":\"hi\"\x7d"

/-- `serde_json::from_str` on this line. -/
def bobsFromStr (line : String) : Option ServerToClient :=
  if line = bobsLine then some (.chat "bob" "hi") else none

/-- A client that is sent the chat, and shows it. -/
def bobsScript : List ClientEvent :=
  [.write true, .serverArrive (.ofString (bobsLine ++ "\n")), .pollServer, .write true]

theorem terminal_shows_chat :
    ∃ client, run (Client.step bobsFromStr) (.new "alice") bobsScript = some client ∧
      client.stdout = ["<bob> hi"] ∧
      ∃ m, client.Read m ∧ (m = .chat "bob" "hi" ∨ Confusable m (.chat "bob" "hi") ∨
        Confusable (.chat "bob" "hi") m ∨ (0 < m.lineFeeds ∧ "<bob> hi" ∈ printed m)) := by
  have hrun : (run (Client.step bobsFromStr) (.new "alice") bobsScript).map Client.stdout =
      some ["<bob> hi"] := by decide
  obtain ⟨client, hclient, hstdout⟩ := Option.map_eq_some_iff.mp hrun
  have hline : "<bob> hi" ∈ client.stdout := by
    rw [hstdout]
    exact List.mem_cons_self
  exact ⟨client, hclient, hstdout,
    terminal_shows.2.2 _ _ client ⟨_, hclient⟩ _ _ (.chat "bob" "hi") rfl hline⟩

/-! ### Forged lines -/

/-- `serde_json::from_str` on the lines of the script. -/
def forgeFromStr (line : String) : Option ClientToServer :=
  if line = helloLine "joined the chat" then some (.hello "joined the chat")
  else if line = helloLine "connected as" then some (.hello "connected as")
  else if line = helloLine "connected as> b" then some (.hello "connected as> b")
  else if line = chatLine "b> hi" then some (.chat "b> hi")
  else if line = chatLine "hi" then some (.chat "hi")
  else if line = chatLine "hi\\n*** b left the chat" then some (.chat "hi\n*** b left the chat")
  else none

/-- Three clients join, the other two speak, and the first one is told. -/
def forgeScript : List Event :=
  joinScript 0 "joined the chat" 1 ++ joinScript 1 "connected as" 2 ++
    joinScript 2 "connected as> b" 2 ++ sendLine 1 (chatLine "b> hi") ++
    sendLine 2 (chatLine "hi") ++ sendLine 1 (chatLine "hi\\n*** b left the chat") ++
    (List.replicate 5 [Event.conn 0 .recv, .conn 0 (.write true)]).flatten

set_option maxRecDepth 10000 in
/-- The first client is told of a "b" who was never there, cannot tell the two speakers
apart, and sees its own greeting again when the second one joins. -/
theorem forged_lines :
    ∃ s conn messages, run (Broker.step forgeFromStr) .new forgeScript = some s ∧
      s.conns[0]? = some conn ∧ conn.written.map Written.message = messages ∧
      ¬ (∀ m ∈ messages, (printed m).length ≤ 1) ∧
      ¬ (∀ m ∈ messages, ∀ m' ∈ messages, m ≠ m' →
        renderServerMessage m ≠ renderServerMessage m') ∧
      ¬ ("*** b left the chat" ∈ messages.flatMap printed → .userLeft "b" ∈ messages) ∧
      renderServerMessage (.chat "connected as" "b> hi") =
        renderServerMessage (.chat "connected as> b" "hi") ∧
      renderServerMessage (.welcome "joined the chat") =
        renderServerMessage (.userJoined "connected as") := by
  have hrun : ((run (Broker.step forgeFromStr) .new forgeScript).bind fun s =>
      s.conns[0]?.map fun conn => conn.written.map Written.message) =
        some [.welcome "joined the chat", .userJoined "connected as",
          .userJoined "connected as> b", .chat "connected as" "b> hi",
          .chat "connected as> b" "hi", .chat "connected as" "hi\n*** b left the chat"] := by
    decide
  obtain ⟨s, hs, hconns⟩ := Option.bind_eq_some_iff.mp hrun
  obtain ⟨conn, hc, hmessages⟩ := Option.map_eq_some_iff.mp hconns
  exact ⟨s, conn, _, hs, hc, hmessages, by decide, by decide, by decide, by decide, by decide⟩

end Chat
