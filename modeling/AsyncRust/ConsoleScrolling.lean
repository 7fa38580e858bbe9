/-
Scrolling in the terminal interface (`render_ui` of `bin/node.rs`).

The output window has a border: of the `height` rows that it takes, one at the top and one
at the bottom are not for lines.  `rows` is the height of a `ListItem`; the list draws its
items from the first one down, as far as they fit.

* `App.renderUi` — the output window of a frame;
* `Session.sticky_iff` — new lines keep the newest one in view, or the view where it is, iff
  all lines fit into the window;
* `Session.scrollKeys_iff` — a key moves the view by one line iff the stored offset is not
  beyond the last that is drawn.
-/
import AsyncRust.ConsoleApp
import Mathlib.Algebra.BigOperators.Group.List.Basic

namespace Raft

open Runs
open Chat (trim)

variable {toUppercase : String → String} {rows : String → ℕ} {height : ℕ}

/-! ### The output window -/

/-- The items that a list without state draws. -/
def drawList (rows : String → ℕ) : ℕ → List String → List String
  | _, [] => []
  | height, line :: lines =>
    if rows line ≤ height then line :: drawList rows (height - rows line) lines else []

structure OutputWindow where
  /-- The index of the first line. -/
  first : ℕ
  drawn : List String
  deriving DecidableEq, Repr

/-- The line with this index is one of those drawn. -/
def OutputWindow.Shows (window : OutputWindow) (line : ℕ) : Prop :=
  window.first ≤ line ∧ line < window.first + window.drawn.length

namespace App

/-- The local `scroll_offset` of `render_ui`. -/
def firstShown (app : App) (outputHeight : ℕ) : ℕ :=
  min app.scrollOffset (app.outputLines.length - outputHeight)

def renderUi (rows : String → ℕ) (app : App) (outputHeight : ℕ) : App × OutputWindow :=
  let scrollOffset := app.firstShown outputHeight
  let visibleLines := (app.outputLines.drop scrollOffset).take outputHeight
  ({ app with lastOutputHeight := outputHeight },
    ⟨scrollOffset, drawList rows (outputHeight - 2) visibleLines⟩)

end App

/-! ### What is drawn -/

theorem drawList_isPrefix (lines : List String) : drawList rows height lines <+: lines := by
  induction lines generalizing height with
  | nil => exact List.prefix_rfl
  | cons line lines ih =>
    rw [drawList]
    split
    · exact (List.prefix_cons_inj line).mpr ih
    · exact List.nil_prefix

/-- All lines are drawn iff they fit. -/
theorem drawList_eq_iff {lines : List String} :
    drawList rows height lines = lines ↔ (lines.map rows).sum ≤ height := by
  induction lines generalizing height with
  | nil => simp [drawList]
  | cons line lines ih =>
    rw [drawList, List.map_cons, List.sum_cons]
    by_cases hfits : rows line ≤ height
    · rw [if_pos hfits, List.cons_inj_right, ih]
      omega
    · rw [if_neg hfits]
      refine ⟨fun h => absurd h (List.cons_ne_nil line lines).symm, fun h => ?_⟩
      omega

theorem length_le_sum (hrows : ∀ line, 0 < rows line) (lines : List String) :
    lines.length ≤ (lines.map rows).sum := by
  have hone : ∀ n ∈ lines.map rows, 1 ≤ n := List.forall_mem_map.mpr fun line _ => hrows line
  simpa using List.length_le_sum_of_one_le _ hone

namespace App

/-- With fewer lines than rows there is nothing to scroll. -/
theorem firstShown_of_le {app : App} (hle : app.outputLines.length ≤ height) :
    app.firstShown height = 0 := by
  rw [firstShown, Nat.sub_eq_zero_of_le hle, Nat.min_zero]

/-- The newest line is drawn iff all lines are, wherever the view is. -/
theorem shows_newest_iff (hrows : ∀ line, 0 < rows line) (hheight : 3 ≤ height) {app : App}
    (hne : app.outputLines ≠ []) :
    (app.renderUi rows height).2.Shows (app.outputLines.length - 1) ↔
      (app.outputLines.map rows).sum ≤ height - 2 := by
  have hpos : 0 < app.outputLines.length := List.length_pos_iff.mpr hne
  have hwhole : app.outputLines.length ≤ height →
      (app.outputLines.drop (app.firstShown height)).take height = app.outputLines := by
    intro hle
    rw [firstShown_of_le hle, List.drop_zero, List.take_of_length_le hle]
  constructor
  · rintro ⟨-, hlast⟩
    set first := app.firstShown height with hfirst
    set visible := (app.outputLines.drop first).take height with hvisible
    have hclamp : first ≤ app.outputLines.length - height := min_le_right _ _
    have hlength : visible.length = min height (app.outputLines.length - first) := by
      rw [hvisible, List.length_take, List.length_drop]
    have hdrawn : app.outputLines.length - 1 < first +
        (drawList rows (height - 2) visible).length := hlast
    have hinitial : drawList rows (height - 2) visible <+: visible := drawList_isPrefix visible
    have hall : drawList rows (height - 2) visible = visible :=
      hinitial.eq_of_length (by have := hinitial.length_le; omega)
    have hfits := drawList_eq_iff.mp hall
    -- the window is higher than its inner part, so all of the lines are visible
    have hfew := (length_le_sum hrows visible).trans hfits
    rwa [hwhole (by omega)] at hfits
  · intro hfits
    have hfew := (length_le_sum hrows app.outputLines).trans hfits
    have hdrawn : (app.renderUi rows height).2.drawn = app.outputLines := by
      rw [renderUi, hwhole (by omega)]
      exact drawList_eq_iff.mpr hfits
    refine ⟨?_, ?_⟩
    · exact (firstShown_of_le (by omega)).le.trans (Nat.zero_le _)
    · rw [hdrawn]
      omega

end App

/-! ### Lines that arrive -/

/-- What the command prints where nothing is printed yet but its echo; nothing if it fails,
or if it is `CLEAR`. -/
def commandLines (toUppercase : String → String) (app : App) (answers : Answers) :
    List String :=
  let input := trim app.input
  if input = "" then []
  else
    match { app with outputLines := [s!"> {input}"] }.runCommand answers
      (ConsoleCommand.parse toUppercase input true) with
    | (.error _, _) => []
    | (.ok (), app) => app.outputLines

def ConsoleEvent.newLines (toUppercase : String → String) (app : App) : ConsoleEvent → List String
  | .drainLogs messages => messages.map fun message =>
    match message with
    | .info msg => msg
    | .error msg => s!"ERROR: {msg}"
  | .key .enter answers => commandLines toUppercase app answers
  | _ => []

namespace App

/-- A command other than `CLEAR` prints the same behind whatever there is. -/
theorem runCommand_append (app : App) (lines : List String) (answers : Answers)
    {command : Except String ConsoleCommand} (hclear : command ≠ .ok .clear) :
    ({ app with outputLines := app.outputLines ++ lines }.runCommand answers command).1 =
        ({ app with outputLines := lines }.runCommand answers command).1 ∧
      ({ app with outputLines := app.outputLines ++ lines }.runCommand answers command).2.outputLines
        = app.outputLines ++
          ({ app with outputLines := lines }.runCommand answers command).2.outputLines ∧
      ({ app with outputLines := app.outputLines ++ lines }.runCommand
        answers command).2.scrollOffset = app.scrollOffset := by
  unfold runCommand
  split
  case h_5 => exact absurd rfl hclear
  all_goals
    first
    | exact ⟨rfl, List.append_assoc _ _ _, rfl⟩
    | split <;> first
      | exact ⟨rfl, rfl, rfl⟩
      | exact ⟨rfl, List.append_assoc _ _ _, rfl⟩

theorem runCommand_clear (app : App) (answers : Answers) :
    (app.runCommand answers (.ok .clear)) =
      (.ok (), { app with outputLines := [], scrollOffset := 0 }) := rfl

/-- Where the view goes when lines arrive. -/
theorem stickToBottom_scrollOffset (app : App) (wasAtBottom : Bool) :
    (app.stickToBottom wasAtBottom).scrollOffset =
      if wasAtBottom then app.outputLines.length else app.scrollOffset := by
  cases wasAtBottom <;> rfl

theorem stickToBottom_outputLines (app : App) (wasAtBottom : Bool) :
    (app.stickToBottom wasAtBottom).outputLines = app.outputLines := by
  cases wasAtBottom <;> rfl

/-- The lines `added` have arrived, and the view has followed them if it was at the bottom. -/
structure Follows (app app' : App) (added : List String) : Prop where
  lines : app'.outputLines = app.outputLines ++ added
  offset : added ≠ [] → app'.scrollOffset =
    if app.isAtBottom then app'.outputLines.length else app.scrollOffset

theorem Follows.of_eq {app app' : App} (h : app'.outputLines = app.outputLines) :
    Follows app app' [] :=
  ⟨h.trans (List.append_nil _).symm, fun h => absurd rfl h⟩

theorem follows_drainLogs (app : App) (messages : List LogMessage) :
    Follows app (app.drainLogs messages)
      ((ConsoleEvent.drainLogs messages).newLines toUppercase app) := by
  refine ⟨stickToBottom_outputLines _ _, fun hne => ?_⟩
  have hmessages : messages.isEmpty = false := by
    cases messages with
    | nil => exact absurd rfl hne
    | cons => rfl
  rw [drainLogs, stickToBottom_scrollOffset, stickToBottom_outputLines, hmessages]
  rfl

/-- `execute_command` fails, or the window has been cleared, or the lines of the command
arrive. -/
theorem executeCommand_lines {app app' : App} {answers : Answers} {result : Except String Unit}
    (h : app.executeCommand toUppercase answers = (result, app')) :
    result ≠ .ok () ∧ commandLines toUppercase app answers = [] ∨
      app'.outputLines = [] ∧ commandLines toUppercase app answers = [] ∨
      result = .ok () ∧ Follows app app' (commandLines toUppercase app answers) := by
  rw [executeCommand] at h
  by_cases hblank : trim app.input = ""
  · rw [if_pos hblank] at h
    cases h
    rw [commandLines, if_pos hblank]
    exact .inr (.inr ⟨rfl, .of_eq rfl⟩)
  · rw [if_neg hblank] at h
    rw [commandLines, if_neg hblank]
    simp only [push] at h ⊢
    by_cases hclear : ConsoleCommand.parse toUppercase (trim app.input) true = .ok .clear
    · rw [hclear, runCommand_clear] at h ⊢
      cases h
      exact .inr (.inl ⟨stickToBottom_outputLines _ _, rfl⟩)
    · have happend := runCommand_append app [s!"> {trim app.input}"] answers hclear
      rcases hshort : ({ app with outputLines := [s!"> {trim app.input}"] } : App).runCommand
        answers (ConsoleCommand.parse toUppercase (trim app.input) true) with ⟨ran', short⟩
      rcases hrun : ({ app with outputLines := app.outputLines ++ [s!"> {trim app.input}"] }
        : App).runCommand answers (ConsoleCommand.parse toUppercase (trim app.input) true)
        with ⟨ran'', ran⟩
      rw [hrun] at h happend
      rw [hshort] at happend
      obtain ⟨rfl, hlines, hoffset⟩ : ran'' = ran' ∧
        ran.outputLines = app.outputLines ++ short.outputLines ∧
        ran.scrollOffset = app.scrollOffset := happend
      cases ran'' with
      | error err =>
        cases h
        exact .inl ⟨by simp, rfl⟩
      | ok _ =>
        cases h
        refine .inr (.inr ⟨rfl, (stickToBottom_outputLines ran _).trans hlines, fun _ => ?_⟩)
        rw [← hoffset]
        exact (stickToBottom_scrollOffset ran _).trans
          (by rw [stickToBottom_outputLines])

theorem handleKey_outputLines (app : App) {answers : Answers} {code : KeyCode}
    (hcode : code ≠ .enter) :
    (app.handleKey toUppercase answers code).2.outputLines = app.outputLines := by
  cases code with
  | char c =>
    rw [handleKey]
    split <;> rfl
  | backspace =>
    rw [handleKey]
    by_cases hpos : 0 < app.cursorPosition
    · rw [if_pos hpos]
      simp only
      split <;> rfl
    · rw [if_neg hpos]
  | right =>
    rw [handleKey]
    split <;> rfl
  | enter => exact absurd rfl hcode
  | _ => rfl

theorem Follows.shows_newest_iff {app app' : App} {added : List String}
    (h : Follows app app' added) (hrows : ∀ line, 0 < rows line) (hheight : 3 ≤ height)
    (hne : added ≠ []) :
    (app'.renderUi rows height).2.Shows (app'.outputLines.length - 1) ↔
      ((app.outputLines ++ added).map rows).sum ≤ height - 2 := by
  rw [← h.lines]
  refine App.shows_newest_iff hrows hheight ?_
  rw [h.lines]
  exact List.append_ne_nil_of_right_ne_nil _ hne

/-- With new lines, the first line drawn stays the same iff `is_at_bottom` did not hold. -/
theorem Follows.first_eq_iff {app app' : App} {added : List String} (h : Follows app app' added)
    (hne : added ≠ []) (habove : app.scrollOffset < app.outputLines.length - height) :
    app'.firstShown height = app.firstShown height ↔ app.isAtBottom = false := by
  have hlength : app'.outputLines.length = app.outputLines.length + added.length := by
    rw [h.lines, List.length_append]
  have hoffset := h.offset hne
  have hpos := List.length_pos_iff.mpr hne
  rw [firstShown, firstShown]
  cases hbottom : app.isAtBottom with
  | false =>
    rw [hbottom, if_neg Bool.false_ne_true] at hoffset
    exact ⟨fun _ => rfl, fun _ => by omega⟩
  | true =>
    rw [hbottom, if_pos rfl] at hoffset
    exact ⟨fun heq => by omega, fun hfalse => absurd hfalse (by simp)⟩

end App

namespace Session

variable {s s' : Session} {e : ConsoleEvent}

/-- A step of the loop: it is left, or the window has been cleared, or new lines arrive. -/
theorem step_lines (h : s.step toUppercase e = some s') :
    s'.ended ≠ none ∧ e.newLines toUppercase s.app = [] ∨
      s'.app.outputLines = [] ∧ e.newLines toUppercase s.app = [] ∨
      s'.ended = none ∧ App.Follows s.app s'.app (e.newLines toUppercase s.app) := by
  unfold step at h
  split at h
  · cases h
  case isFalse hrunning =>
    have hended : s.ended = none := Option.not_isSome_iff_eq_none.mp hrunning
    cases e with
    | key code answers =>
      rcases hkey : s.app.handleKey toUppercase answers code with ⟨outcome, app⟩
      simp only [hkey] at h
      by_cases hcode : code = .enter
      · subst hcode
        rcases hrun : s.app.executeCommand toUppercase answers with ⟨result, app'⟩
        have hlines := App.executeCommand_lines hrun
        simp only [App.handleKey, hrun] at hkey
        cases result with
        | error err =>
          cases hkey
          cases h
          rcases hlines with ⟨-, hnone⟩ | ⟨-, hnone⟩ | ⟨hresult, -⟩
          · exact .inl ⟨by simp, hnone⟩
          · exact .inl ⟨by simp, hnone⟩
          · cases hresult
        | ok _ =>
          cases hkey
          cases h
          rcases hlines with ⟨hresult, -⟩ | hcleared | ⟨-, hfollows⟩
          · exact absurd rfl hresult
          · exact .inr (.inl hcleared)
          · exact .inr (.inr ⟨hended, hfollows⟩)
      · have hlines : (ConsoleEvent.key code answers).newLines toUppercase s.app = [] := by
          cases code <;> first | rfl | exact absurd rfl hcode
        rw [hlines]
        cases outcome with
        | ok =>
          cases h
          refine .inr (.inr ⟨hended, .of_eq ?_⟩)
          exact (congrArg (fun r => r.2.outputLines) hkey).symm.trans
            (App.handleKey_outputLines s.app hcode)
        | failed err =>
          cases h
          exact .inl ⟨by simp, rfl⟩
        | panicked =>
          cases h
          exact .inl ⟨by simp, rfl⟩
    | drainLogs messages =>
      cases h
      exact .inr (.inr ⟨hended, App.follows_drainLogs s.app messages⟩)
    | updateStatus answer =>
      cases h
      cases answer <;> exact .inr (.inr ⟨hended, .of_eq rfl⟩)
    | draw outputHeight =>
      cases h
      exact .inr (.inr ⟨hended, .of_eq rfl⟩)

/-- The view at the bottom stays there, and the newest line is drawn; any other view stays
where it is. -/
def Sticky (toUppercase : String → String) (rows : String → ℕ) (height : ℕ) (s : Session)
    (e : ConsoleEvent) : Prop :=
  ∀ s' added, s.step toUppercase e = some s' → s'.ended = none →
    s'.app.outputLines = s.app.outputLines ++ added → added ≠ [] →
      (s.app.outputLines.length - height ≤ s.app.scrollOffset →
        (s'.app.renderUi rows height).2.Shows (s'.app.outputLines.length - 1)) ∧
      (s.app.scrollOffset < s.app.outputLines.length - height →
        (s'.app.renderUi rows height).2.first = (s.app.renderUi rows height).2.first)

/-- All lines fit into the window if it is at the bottom; if it is not, then not for
`is_at_bottom` either, which measures by the height last drawn. -/
def Fits (toUppercase : String → String) (rows : String → ℕ) (height : ℕ) (s : Session)
    (e : ConsoleEvent) : Prop :=
  e.newLines toUppercase s.app ≠ [] →
    (s.app.outputLines.length - height ≤ s.app.scrollOffset →
      ((s.app.outputLines ++ e.newLines toUppercase s.app).map rows).sum ≤ height - 2) ∧
    (s.app.scrollOffset < s.app.outputLines.length - height → s.app.isAtBottom = false)

instance (s : Session) (e : ConsoleEvent) : Decidable (Fits toUppercase rows height s e) :=
  inferInstanceAs (Decidable (_ ≠ [] → (_ ≤ _ → _ ≤ _) ∧ (_ < _ → _ = false)))

theorem sticky_iff_fits (hrows : ∀ line, 0 < rows line) (hheight : 3 ≤ height)
    (hstep : s.step toUppercase e = some s') :
    Sticky toUppercase rows height s e ↔ Fits toUppercase rows height s e := by
  rcases step_lines hstep with ⟨hended, hnone⟩ | ⟨hcleared, hnone⟩ | ⟨hended, hfollows⟩
  · refine ⟨fun _ hne => absurd hnone hne, fun _ s'' added hstep' hrunning => ?_⟩
    rw [hstep, Option.some_inj] at hstep'
    exact absurd (hstep' ▸ hrunning) hended
  · refine ⟨fun _ hne => absurd hnone hne, fun _ s'' added hstep' _ hlines hne => ?_⟩
    rw [hstep, Option.some_inj] at hstep'
    rw [← hstep', hcleared] at hlines
    exact absurd (List.append_eq_nil_iff.mp hlines.symm).2 hne
  · set added := e.newLines toUppercase s.app with hadded
    have hview (hne : added ≠ []) :=
      and_congr
        (imp_congr_right fun _ : s.app.outputLines.length - height ≤ s.app.scrollOffset =>
          hfollows.shows_newest_iff hrows hheight hne)
        (imp_congr_right fun habove : s.app.scrollOffset < s.app.outputLines.length - height =>
          hfollows.first_eq_iff hne habove)
    constructor
    · exact fun hsticky hne => (hview hne).mp (hsticky s' added hstep hended hfollows.lines hne)
    · intro hfits s'' added' hstep' _ hlines hne
      rw [hstep, Option.some_inj] at hstep'
      subst hstep'
      rw [hfollows.lines, List.append_cancel_left_eq] at hlines
      subst hlines
      exact (hview hne).mpr (hfits hne)

/-- **Sticky scrolling**: in every run, each step keeps the newest line in view, or the view
where it is, iff at each step all lines fit into the window.  An item takes at least a row. -/
theorem sticky_iff (hrows : ∀ line, 0 < rows line) (hheight : 3 ≤ height) (nodeId : ℕ)
    (es : List ConsoleEvent) :
    Meets (step toUppercase) (Sticky toUppercase rows height) (start nodeId) es ↔
      Meets (step toUppercase) (Fits toUppercase rows height) (start nodeId) es :=
  meets_congr (fun _ _ _ hstep => sticky_iff_fits hrows hheight hstep) es (start nodeId)

theorem sticky_short_session :
    Meets (step id) (Sticky id (fun _ => 1) 20) (start 1)
      [.draw 20, .drainLogs [.info "Raft node started"], .key .up noAnswers] :=
  (sticky_iff (fun _ => Nat.one_pos) (by decide) 1 _).mpr (by decide)

/-- The first log line is the fifth; the window has five rows, three of them for lines. -/
theorem newest_behind_border :
    ¬ Meets (step id) (Sticky id (fun _ => 1) 5) (start 1)
      [.draw 5, .drainLogs [.info "Raft node started"]] := by
  intro hsticky
  have hlast := ((hsticky _ rfl).2 _ rfl).1
  exact absurd ((sticky_iff_fits (fun _ => Nat.one_pos) (by decide) rfl).mp hlast) (by decide)

/-! ### The scroll keys -/

/-- `Up` and `Down` move the view by one line, where there is one. -/
structure ScrollKeys (toUppercase : String → String) (rows : String → ℕ) (height : ℕ)
    (s : Session) : Prop where
  up : ∀ answers, 0 < (s.app.renderUi rows height).2.first →
    ((s.app.handleKey toUppercase answers .up).2.renderUi rows height).2.first =
      (s.app.renderUi rows height).2.first - 1
  down : ∀ answers, (s.app.renderUi rows height).2.first < s.app.outputLines.length - height →
    ((s.app.handleKey toUppercase answers .down).2.renderUi rows height).2.first =
      (s.app.renderUi rows height).2.first + 1

/-- The stored offset is one that is drawn, or there is nothing to scroll. -/
def OffsetDrawn (height : ℕ) (s : Session) : Prop :=
  s.app.scrollOffset ≤ s.app.outputLines.length - height ∨ s.app.outputLines.length ≤ height

instance : DecidablePred (OffsetDrawn height) := fun s =>
  inferInstanceAs (Decidable (_ ∨ s.app.outputLines.length ≤ height))

theorem scrollKeys_iff_offsetDrawn (hlen : s.app.outputLines.length ≤ usizeMax) :
    ScrollKeys toUppercase rows height s ↔ OffsetDrawn height s := by
  have hfirst : (s.app.renderUi rows height).2.first =
      min s.app.scrollOffset (s.app.outputLines.length - height) := rfl
  constructor
  · intro hkeys
    by_contra hbeyond
    rw [OffsetDrawn] at hbeyond
    have hup := hkeys.up noAnswers (by omega)
    -- the key is lost in the part of the offset that is not drawn
    have hlost : ((s.app.handleKey toUppercase noAnswers .up).2.renderUi rows height).2.first =
        min (s.app.scrollOffset - 1) (s.app.outputLines.length - height) := rfl
    omega
  · intro hdrawn
    rw [OffsetDrawn] at hdrawn
    refine ⟨fun answers hpos => ?_, fun answers hlt => ?_⟩
    · have hup : ((s.app.handleKey toUppercase answers .up).2.renderUi rows height).2.first =
          min (s.app.scrollOffset - 1) (s.app.outputLines.length - height) := rfl
      omega
    · have hdown : ((s.app.handleKey toUppercase answers .down).2.renderUi rows height).2.first =
          min (min (s.app.scrollOffset + 1) usizeMax) (s.app.outputLines.length - height) := rfl
      omega

/-- **The scroll keys** move the view in every state of a run iff the stored offset is one
that is drawn in every state of the run.  The length of a `Vec` is a `usize`. -/
theorem scrollKeys_iff (nodeId : ℕ) {es : List ConsoleEvent}
    (hlen : Along (step toUppercase) (fun s => s.app.outputLines.length ≤ usizeMax)
      (start nodeId) es) :
    Along (step toUppercase) (ScrollKeys toUppercase rows height) (start nodeId) es ↔
      Along (step toUppercase) (OffsetDrawn height) (start nodeId) es :=
  hlen.congr fun _ => scrollKeys_iff_offsetDrawn

theorem scrollKeys_short_session :
    Along (step id) (ScrollKeys id (fun _ => 1) 3) (start 1)
      [.draw 3, .key .down noAnswers, .key .up noAnswers] :=
  (scrollKeys_iff 1 (by decide)).mpr (by decide)

/-- After two log lines, the stored offset is 6 and the one that is drawn is 1. -/
theorem up_key_lost :
    ¬ Along (step id) (ScrollKeys id (fun _ => 1) 5) (start 1)
      [.draw 5, .drainLogs [.info "Raft node started", .info "Role changed"]] := by
  intro hkeys
  have hlast := ((hkeys.2 _ rfl).2 _ rfl).head
  exact absurd ((scrollKeys_iff_offsetDrawn (by decide)).mp hlast) (by decide)

end Session

end Raft
