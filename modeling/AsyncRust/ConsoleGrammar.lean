/-
The grammar of the console (`protocol.rs`).

A command is written as one of its spellings, in any mix of letter case, followed by its
arguments; the line has these words and any whitespace around them.

* `parse_of_written` — the parser accepts every such line, as that command;
* `eq_put_of_parse`, `eq_get_of_parse` — where it returns a `PUT` or a `GET`, the line has
  its words;
* `parse_false` — `allow_put` matters to `PUT` alone;
* `console_grammar` — the three together.
-/
import AsyncRust.Console
import AsyncRust.Words

namespace Raft

open Chat (isWhitespace trim)
open Words (IsWord Spaced words)

variable {toUppercase : String → String} {line word cmd : String}

/-! ### The words of a line -/

/-- The line has these words, with whitespace around and between them. -/
def HasWords (line : String) (parts : List String) : Prop :=
  Spaced isWhitespace (parts.map String.toList) line.toList

theorem splitWhitespace_eq (line : String) :
    splitWhitespace line = (words isWhitespace line.toList).map String.ofList := rfl

theorem splitWhitespace_trim (line : String) :
    splitWhitespace (trim line) = splitWhitespace line := by
  rw [splitWhitespace_eq, splitWhitespace_eq, trim, String.toList_ofList,
    Words.words_rdropWhile, Words.words_dropWhile]

theorem splitWhitespace_eq_iff {parts : List String} :
    splitWhitespace line = parts ↔ HasWords line parts := by
  rw [HasWords, ← Words.words_eq_iff, splitWhitespace_eq]
  constructor
  · rintro rfl
    rw [List.map_map]
    exact (List.map_id'' (fun l => String.toList_ofList) _).symm
  · intro h
    rw [h, List.map_map]
    exact List.map_id'' (fun s => String.ofList_toList) _

theorem HasWords.isWord {parts : List String} (h : HasWords line parts) (hmem : word ∈ parts) :
    IsWord isWhitespace word.toList :=
  Spaced.isWord h (List.mem_map_of_mem hmem)

namespace ConsoleCommand

variable {command : ConsoleCommand} {key value first : String} {rest : List String}
  {allowPut : Bool}

/-! ### How a command is written -/

def keyword : ConsoleCommand → String
  | put _ _ => "PUT"
  | get _ => "GET"
  | keys => "KEYS"
  | scan => "SCAN"
  | clear => "CLEAR"
  | status => "STATUS"
  | campaign => "CAMPAIGN"
  | exit => "EXIT"
  | help => "HELP"

/-- The alias that the documentation of the syntax gives. -/
def shortForm : ConsoleCommand → String
  | put _ _ => "P"
  | get _ => "G"
  | keys => "K"
  | scan => "SC"
  | clear => "CL"
  | status => "S"
  | campaign => "C"
  | exit => "E"
  | help => "H"

def spellings (command : ConsoleCommand) : List String := [command.keyword, command.shortForm]

def arguments : ConsoleCommand → List String
  | put key value => [key, value]
  | get key => [key]
  | _ => []

/-- `str::to_ascii_uppercase`. -/
def toAsciiUppercase (s : String) : String := String.ofList (s.toList.map Char.toUpper)

/-- What the documentation of `str::to_uppercase` says of ASCII text. -/
def UppercasesAscii (toUppercase : String → String) : Prop :=
  ∀ s : String, (∀ c ∈ s.toList, c.toNat < 0x80) → toUppercase s = toAsciiUppercase s

/-- `word` is one of the spellings in some mix of ASCII letter case. -/
def Spells (word : String) (command : ConsoleCommand) : Prop :=
  toAsciiUppercase word ∈ command.spellings

instance : Decidable (Spells word command) :=
  inferInstanceAs (Decidable (toAsciiUppercase word ∈ command.spellings))

def Written (line : String) (command : ConsoleCommand) : Prop :=
  ∃ word, Spells word command ∧ HasWords line (word :: command.arguments)

/-! ### The parser on the words of a line -/

theorem parse_of_no_words (h : splitWhitespace line = []) :
    parse toUppercase line allowPut = .error "empty command" := by
  rw [← splitWhitespace_trim] at h
  rw [parse, h]
  exact ite_self _

theorem parse_of_words (h : splitWhitespace line = first :: rest) :
    parse toUppercase line allowPut =
      ((singleWord (normalizedCmd (toUppercase first))).map Except.ok).getD
        (multiWord (normalizedCmd (toUppercase first)) (first :: rest) allowPut) := by
  rw [← splitWhitespace_trim] at h
  have hne : trim line ≠ "" := by
    intro hempty
    rw [hempty] at h
    exact List.cons_ne_nil first rest h.symm
  rw [parse, h]
  simp only [if_neg hne]
  cases singleWord (normalizedCmd (toUppercase first)) <;> rfl

theorem normalizedCmd_of_mem_spellings (h : cmd ∈ command.spellings) :
    normalizedCmd cmd = command.keyword := by
  rcases List.mem_pair.mp h with rfl | rfl <;> cases command <;> rfl

/-- Only its own spellings are expanded to a keyword. -/
theorem mem_spellings_of_normalizedCmd (h : normalizedCmd cmd = command.keyword) :
    cmd ∈ command.spellings := by
  unfold normalizedCmd at h
  rw [spellings, List.mem_pair]
  split at h <;> cases command <;> simp_all [keyword, shortForm]

/-- The keyword of a command and its arguments give the command back. -/
theorem dispatch_keyword (word : String) (command : ConsoleCommand) :
    ((singleWord command.keyword).map Except.ok).getD
      (multiWord command.keyword (word :: command.arguments) true) = .ok command := by
  cases command <;> rfl

theorem singleWord_ne_put : singleWord cmd ≠ some (put key value) := by
  unfold singleWord
  split <;> simp

theorem singleWord_ne_get : singleWord cmd ≠ some (get key) := by
  unfold singleWord
  split <;> simp

theorem put_of_multiWord {parts : List String}
    (h : multiWord cmd parts allowPut = .ok (put key value)) :
    cmd = "PUT" ∧ ∃ first, parts = [first, key, value] := by
  unfold multiWord at h
  split at h
  case h_1 => cases h
  case h_2 first _ _ =>
    cases allowPut with
    | true =>
      cases h
      exact ⟨rfl, first, rfl⟩
    | false => cases h
  case h_3 => cases h
  case h_4 => cases h
  case h_5 => cases h

theorem get_of_multiWord {parts : List String} (h : multiWord cmd parts allowPut = .ok (get key)) :
    cmd = "GET" ∧ ∃ first, parts = [first, key] := by
  unfold multiWord at h
  split at h
  case h_1 first _ =>
    cases h
    exact ⟨rfl, first, rfl⟩
  case h_2 => cases allowPut <;> cases h
  case h_3 => cases h
  case h_4 => cases h
  case h_5 => cases h

/-! ### Spellings -/

theorem toUpper_lt {c : Char} (h : c.toUpper.toNat < 0x80) : c.toNat < 0x80 := by
  by_cases hlower : 'a'.val ≤ c.val ∧ c.val ≤ 'z'.val
  · have hle : c.toNat ≤ 'z'.toNat := UInt32.le_iff_toNat_le.mp hlower.2
    exact lt_of_le_of_lt hle (by decide)
  · have hsame : c.toUpper = c := dif_neg hlower
    rwa [hsame] at h

theorem spellings_ascii (command : ConsoleCommand) :
    ∀ s ∈ command.spellings, ∀ c ∈ s.toList, c.toNat < 0x80 := by
  have hall : ∀ s ∈ command.spellings, (s.toList.all fun c => c.toNat < 0x80) = true := by
    cases command with
    | put | get =>
      rw [spellings, keyword, shortForm]
      decide
    | _ => decide
  exact fun s hs c hc => of_decide_eq_true (List.all_eq_true.mp (hall s hs) c hc)

/-- The spellings are ASCII, so the word is, and Unicode uppercasing treats it as ASCII. -/
theorem mem_spellings_of_spells (hascii : UppercasesAscii toUppercase) (h : Spells word command) :
    toUppercase word ∈ command.spellings := by
  have hword : ∀ c ∈ word.toList, c.toNat < 0x80 := by
    intro c hc
    refine toUpper_lt (spellings_ascii command _ h c.toUpper ?_)
    rw [toAsciiUppercase, String.toList_ofList]
    exact List.mem_map_of_mem hc
  rw [hascii word hword]
  exact h

theorem keyword_of_spells {other : ConsoleCommand} (h : Spells word command)
    (hother : Spells word other) : command.keyword = other.keyword := by
  rw [← normalizedCmd_of_mem_spellings h, normalizedCmd_of_mem_spellings hother]

/-! ### The parser meets the grammar -/

theorem parse_of_written (hascii : UppercasesAscii toUppercase) (h : Written line command) :
    parse toUppercase line true = .ok command := by
  obtain ⟨word, hspells, hwords⟩ := h
  rw [parse_of_words (splitWhitespace_eq_iff.mpr hwords),
    normalizedCmd_of_mem_spellings (mem_spellings_of_spells hascii hspells)]
  exact dispatch_keyword word command

/-- A command with arguments comes out of the second stage of the parser. -/
theorem multiWord_of_parse (hsingle : ∀ cmd, singleWord cmd ≠ some command)
    (h : parse toUppercase line allowPut = .ok command) :
    ∃ first rest, HasWords line (first :: rest) ∧
      multiWord (normalizedCmd (toUppercase first)) (first :: rest) allowPut = .ok command := by
  rcases hwords : splitWhitespace line with _ | ⟨first, rest⟩
  · rw [parse_of_no_words hwords] at h
    cases h
  · refine ⟨first, rest, splitWhitespace_eq_iff.mp hwords, ?_⟩
    rw [parse_of_words hwords] at h
    rcases hcmd : singleWord (normalizedCmd (toUppercase first)) with _ | single
    · rw [hcmd] at h
      exact h
    · rw [hcmd] at h
      cases h
      exact absurd hcmd (hsingle _)

theorem eq_put_of_parse (h : parse toUppercase line allowPut = .ok (put key value)) :
    ∃ word, toUppercase word ∈ ["PUT", "P"] ∧ HasWords line [word, key, value] := by
  obtain ⟨first, rest, hwords, hmulti⟩ :=
    multiWord_of_parse (fun _ => singleWord_ne_put) h
  obtain ⟨hcmd, word, hparts⟩ := put_of_multiWord hmulti
  cases hparts
  have hspelling : toUppercase first ∈ (put key value).spellings :=
    mem_spellings_of_normalizedCmd hcmd
  exact ⟨first, hspelling, hwords⟩

theorem eq_get_of_parse (h : parse toUppercase line allowPut = .ok (get key)) :
    ∃ word, toUppercase word ∈ ["GET", "G"] ∧ HasWords line [word, key] := by
  obtain ⟨first, rest, hwords, hmulti⟩ :=
    multiWord_of_parse (fun _ => singleWord_ne_get) h
  obtain ⟨hcmd, word, hparts⟩ := get_of_multiWord hmulti
  cases hparts
  have hspelling : toUppercase first ∈ (get key).spellings := mem_spellings_of_normalizedCmd hcmd
  exact ⟨first, hspelling, hwords⟩

/-- Every `PUT` becomes an error. -/
def forbidPut : Except String ConsoleCommand → Except String ConsoleCommand
  | .ok (put _ _) => .error "PUT not allowed in this context"
  | result => result

theorem multiWord_false (cmd : String) (parts : List String) :
    multiWord cmd parts false = forbidPut (multiWord cmd parts true) := by
  unfold multiWord
  split <;> rfl

theorem parse_false (toUppercase : String → String) (line : String) :
    parse toUppercase line false = forbidPut (parse toUppercase line true) := by
  rcases hwords : splitWhitespace line with _ | ⟨first, rest⟩
  · rw [parse_of_no_words hwords, parse_of_no_words hwords]
    rfl
  · rw [parse_of_words hwords, parse_of_words hwords]
    rcases hcmd : singleWord (normalizedCmd (toUppercase first)) with _ | single
    · exact multiWord_false _ _
    · cases single with
      | put key value => exact absurd hcmd singleWord_ne_put
      | _ => rfl

theorem parse_of_blank (hblank : HasWords line []) :
    parse toUppercase line allowPut = .error "empty command" :=
  parse_of_no_words (splitWhitespace_eq_iff.mpr hblank)

/-- **The grammar of the console**: the parser accepts every way to write a command, no two
commands share one, and a `PUT` or a `GET` comes from no other line. -/
theorem console_grammar (hascii : UppercasesAscii toUppercase) :
    (∀ line command, Written line command → parse toUppercase line true = .ok command) ∧
      (∀ word (command other : ConsoleCommand), Spells word command → Spells word other →
        command.keyword = other.keyword) ∧
      (∀ line allowPut key value, parse toUppercase line allowPut = .ok (put key value) →
        (∃ word, toUppercase word ∈ ["PUT", "P"] ∧ HasWords line [word, key, value]) ∧
          IsWord isWhitespace key.toList ∧ IsWord isWhitespace value.toList) ∧
      (∀ line allowPut key, parse toUppercase line allowPut = .ok (get key) →
        (∃ word, toUppercase word ∈ ["GET", "G"] ∧ HasWords line [word, key]) ∧
          IsWord isWhitespace key.toList) ∧
      (∀ line, parse toUppercase line false = forbidPut (parse toUppercase line true)) ∧
      ∀ line allowPut, HasWords line [] → ∃ e, parse toUppercase line allowPut = .error e := by
  refine ⟨fun line command => parse_of_written hascii,
    fun word command other => keyword_of_spells, ?_, ?_, parse_false toUppercase,
    fun line allowPut hblank => ⟨_, parse_of_blank hblank⟩⟩
  · intro line allowPut key value h
    obtain ⟨word, hword, hwords⟩ := eq_put_of_parse h
    exact ⟨⟨word, hword, hwords⟩, hwords.isWord (by simp), hwords.isWord (by simp)⟩
  · intro line allowPut key h
    obtain ⟨word, hword, hwords⟩ := eq_get_of_parse h
    exact ⟨⟨word, hword, hwords⟩, hwords.isWord (by simp)⟩

theorem parse_mixed_case :
    parse toAsciiUppercase "\tpUt  k v " true = .ok (put "k" "v") :=
  (console_grammar (fun _ _ => rfl : UppercasesAscii toAsciiUppercase)).1 _ _
    ⟨"pUt", by decide, splitWhitespace_eq_iff.mp (by decide)⟩

end ConsoleCommand

end Raft
