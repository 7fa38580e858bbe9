/-
Parts of a JSON text.

* `parse_isPrefix` — of the beginnings of a printed object only the whole is one;
* `quote_of_brace` — a brace and a quote next to each other, in a text that is escaped,
  stand at its end.
-/
import AsyncRust.JsonRecord
import Mathlib.Data.List.Infix

namespace Json

/-! ### Reading on -/

/-- Nothing is read off the empty text, and what was read is read again when more follows. -/
structure Extends {α : Type*} (read : List Char → Option (α × List Char)) : Prop where
  nil : read [] = none
  append : ∀ {cs x rest}, read cs = some (x, rest) →
    ∀ more, read (cs ++ more) = some (x, rest ++ more)

theorem unescapeOne_append {c x : Char} {rest rest' : List Char}
    (h : unescapeOne c rest = some (x, rest')) (more : List Char) :
    unescapeOne c (rest ++ more) = some (x, rest' ++ more) := by
  unfold unescapeOne at h ⊢
  split at h
  · rename_i hc
    rw [if_pos hc]
    cases rest with
    | nil => cases h
    | cons e rest =>
      rw [List.cons_append]
      dsimp only at h ⊢
      split at h
      · rename_i he
        rw [if_pos he]
        rcases rest with _ | ⟨h₁, _ | ⟨h₂, _ | ⟨h₃, _ | ⟨h₄, rest⟩⟩⟩⟩
        · cases h
        · cases h
        · cases h
        · cases h
        · obtain ⟨y, hy, hpair⟩ := Option.map_eq_some_iff.mp h
          obtain ⟨rfl, rfl⟩ := Prod.mk.inj hpair
          exact Option.map_eq_some_iff.mpr ⟨y, hy, rfl⟩
      · rename_i he
        rw [if_neg he]
        obtain ⟨y, hy, hpair⟩ := Option.map_eq_some_iff.mp h
        obtain ⟨rfl, rfl⟩ := Prod.mk.inj hpair
        exact Option.map_eq_some_iff.mpr ⟨y, hy, rfl⟩
  · rename_i hc
    rw [if_neg hc]
    split at h
    · cases h
    · rename_i hcontrol
      rw [if_neg hcontrol]
      obtain ⟨rfl, rfl⟩ := Prod.mk.inj (Option.some_inj.mp h)
      rfl

theorem unescape_append (more : List Char) : ∀ {fuel fuel' : ℕ} {cs xs rest : List Char},
    unescape fuel cs = some (xs, rest) → fuel ≤ fuel' →
      unescape fuel' (cs ++ more) = some (xs, rest ++ more) := by
  intro fuel
  induction fuel with
  | zero => intro fuel' cs xs rest h; cases h
  | succ fuel ih =>
    intro fuel' cs xs rest h hle
    obtain ⟨fuel', rfl⟩ := Nat.exists_eq_succ_of_ne_zero (Nat.ne_zero_of_lt hle)
    have hle := Nat.le_of_succ_le_succ hle
    cases cs with
    | nil => cases h
    | cons c cs =>
      rw [List.cons_append]
      rw [unescape] at h ⊢
      split at h
      · rename_i hc
        obtain ⟨rfl, rfl⟩ := Prod.mk.inj (Option.some_inj.mp h)
        exact if_pos hc
      · rename_i hc
        rw [if_neg hc]
        obtain ⟨⟨x, after⟩, hone, h⟩ := Option.bind_eq_some_iff.mp h
        obtain ⟨⟨ys, last⟩, hrest, h⟩ := Option.bind_eq_some_iff.mp h
        obtain ⟨rfl, rfl⟩ := Prod.mk.inj (Option.some_inj.mp h)
        rw [unescapeOne_append hone]
        simp only [Option.bind_eq_bind, Option.bind_some, ih hrest hle]
        rfl

theorem exists_quote_of_readText {cs : List Char} {x : String × List Char}
    (h : readText cs = some x) : ∃ tail, cs = '"' :: tail := by
  unfold readText at h
  split at h
  · exact ⟨_, rfl⟩
  · cases h

theorem extends_readText : Extends readText := by
  refine ⟨rfl, fun {cs s rest} h more => ?_⟩
  unfold readText at h
  split at h
  · rename_i cs
    obtain ⟨⟨xs, after⟩, hread, hpair⟩ := Option.map_eq_some_iff.mp h
    obtain ⟨rfl, rfl⟩ := Prod.mk.inj hpair
    rw [List.cons_append, readText]
    have hlen : cs.length + 1 ≤ (cs ++ more).length + 1 := by
      rw [List.length_append]
      omega
    rw [unescape_append more hread hlen]
    rfl
  · cases h

section
variable {α : Type*} {item : List Char → Option (α × List Char)} {close : Char}

theorem readMore_append (hitem : Extends item) (more : List Char) :
    ∀ {fuel fuel' : ℕ} {cs : List Char} {xs : List α} {rest : List Char},
      readMore item close fuel cs = some (xs, rest) → fuel ≤ fuel' →
        readMore item close fuel' (cs ++ more) = some (xs, rest ++ more) := by
  intro fuel
  induction fuel with
  | zero => intro fuel' cs xs rest h; cases h
  | succ fuel ih =>
    intro fuel' cs xs rest h hle
    obtain ⟨fuel', rfl⟩ := Nat.exists_eq_succ_of_ne_zero (Nat.ne_zero_of_lt hle)
    have hle := Nat.le_of_succ_le_succ hle
    cases cs with
    | nil => cases h
    | cons c cs =>
      rw [List.cons_append]
      rw [readMore] at h ⊢
      split at h
      · rename_i hc
        obtain ⟨rfl, rfl⟩ := Prod.mk.inj (Option.some_inj.mp h)
        exact if_pos hc
      · rename_i hc
        rw [if_neg hc]
        split at h
        · rename_i hcomma
          rw [if_pos hcomma]
          obtain ⟨⟨x, after⟩, hone, h⟩ := Option.bind_eq_some_iff.mp h
          obtain ⟨⟨ys, last⟩, hrest, h⟩ := Option.bind_eq_some_iff.mp h
          obtain ⟨rfl, rfl⟩ := Prod.mk.inj (Option.some_inj.mp h)
          rw [hitem.append hone]
          simp only [Option.bind_eq_bind, Option.bind_some, ih hrest hle]
          rfl
        · cases h

theorem extends_readItems (hitem : Extends item) : Extends (readItems item close) := by
  refine ⟨by simp [readItems, hitem.nil], fun {cs xs rest} h more => ?_⟩
  unfold readItems at h ⊢
  split at h
  · rename_i hhead
    obtain ⟨rfl, rfl⟩ := Prod.mk.inj (Option.some_inj.mp h)
    obtain ⟨tail, rfl⟩ := List.head?_eq_some_iff.mp hhead
    exact if_pos rfl
  · rename_i hhead
    obtain ⟨⟨x, after⟩, hone, h⟩ := Option.bind_eq_some_iff.mp h
    obtain ⟨⟨ys, last⟩, hrest, h⟩ := Option.bind_eq_some_iff.mp h
    obtain ⟨rfl, rfl⟩ := Prod.mk.inj (Option.some_inj.mp h)
    obtain ⟨c, cs, rfl⟩ : ∃ c tail, cs = c :: tail := by
      refine List.exists_cons_of_ne_nil ?_
      rintro rfl
      rw [hitem.nil] at hone
      cases hone
    have hhead' : (c :: cs ++ more).head? ≠ some close := hhead
    rw [if_neg hhead', hitem.append hone]
    have hlen : after.length + 1 ≤ (after ++ more).length + 1 := by
      rw [List.length_append]
      omega
    simp only [Option.bind_eq_bind, Option.bind_some, readMore_append hitem more hrest hlen]
    rfl

end

theorem extends_readValue : Extends readValue := by
  refine ⟨rfl, fun {cs value rest} h more => ?_⟩
  unfold readValue at h
  split at h
  · rename_i cs
    obtain ⟨⟨l, after⟩, hread, hpair⟩ := Option.map_eq_some_iff.mp h
    obtain ⟨rfl, rfl⟩ := Prod.mk.inj hpair
    rw [List.cons_append, readValue, (extends_readItems extends_readText).append hread]
    rfl
  · rename_i hbracket
    obtain ⟨⟨s, after⟩, hread, hpair⟩ := Option.map_eq_some_iff.mp h
    obtain ⟨rfl, rfl⟩ := Prod.mk.inj hpair
    obtain ⟨cs, rfl⟩ := exists_quote_of_readText hread
    change (readText ('"' :: cs ++ more)).map _ = _
    rw [extends_readText.append hread]
    rfl

theorem extends_readField : Extends readField := by
  refine ⟨rfl, fun {cs field rest} h more => ?_⟩
  obtain ⟨⟨key, after⟩, hkey, h⟩ := Option.bind_eq_some_iff.mp h
  dsimp only at h
  split at h
  · rename_i cs'
    obtain ⟨⟨value, last⟩, hvalue, hpair⟩ := Option.map_eq_some_iff.mp h
    obtain ⟨rfl, rfl⟩ := Prod.mk.inj hpair
    unfold readField
    rw [extends_readText.append hkey]
    simp only [Option.bind_eq_bind, Option.bind_some, List.cons_append]
    rw [extends_readValue.append hvalue]
    rfl
  · cases h

/-! ### Parts of an object -/

theorem readItems_of_parse {fields : List (String × Value)} {text : String}
    (h : parse text = some fields) :
    ∃ rest, text.toList = '{' :: rest ∧ readItems readField '}' rest = some (fields, []) := by
  unfold parse at h
  split at h
  · rename_i rest htext
    split at h
    · rename_i fields' hread
      obtain rfl := Option.some_inj.mp h
      exact ⟨rest, htext, hread⟩
    · cases h
  · cases h

/-- **No beginning of an object** but the whole is an object. -/
theorem parse_isPrefix {fields fields' : List (String × Value)} {part : String}
    (h : parse part = some fields') (hpre : part.toList <+: (print fields).toList) :
    part = print fields := by
  obtain ⟨rest, hpart, hread⟩ := readItems_of_parse h
  obtain ⟨rest', htext, hread'⟩ := readItems_of_parse (parse_print fields)
  obtain ⟨more, hmore⟩ := hpre
  have hrest : rest ++ more = rest' := by
    rw [hpart, htext, List.cons_append] at hmore
    exact (List.cons.inj hmore).2
  have hagain := (extends_readItems extends_readField).append hread more
  rw [hrest, hread'] at hagain
  obtain ⟨-, rfl⟩ := Prod.mk.inj (Option.some_inj.mp hagain)
  exact String.toList_inj.mp ((List.append_nil _).symm.trans hmore)

/-- A brace stands for itself. -/
theorem escapeChar_of_brace_mem {c : Char} (h : '{' ∈ escapeChar c) : escapeChar c = ['{'] := by
  have hhex : ∀ n < 0x20,
      '{' ∉ ['\\', 'u', '0', '0', hexDigit (n / 16), hexDigit (n % 16)] := by
    decide
  unfold escapeChar at h ⊢
  split_ifs at h ⊢ with h₁ h₂ h₃ h₄ h₅ h₆ h₇ hcontrol
  all_goals first
    | exact absurd h (by decide)
    | exact absurd h (hhex c.toNat ‹_›)
    | rw [List.mem_singleton.mp h]

/-- An escaped quote does not stand behind a brace. -/
theorem quote_of_brace {after : List Char} : ∀ (cs before : List Char),
    escape cs ++ ['"', '}'] = before ++ '{' :: '"' :: after → after = ['}'] := by
  intro cs
  induction cs with
  | nil =>
    intro before h
    have hmem : '{' ∈ before ++ '{' :: '"' :: after := by simp
    rw [← h] at hmem
    exact absurd hmem (by decide)
  | cons c cs ih =>
    intro before h
    rw [escape, List.flatMap_cons, List.append_assoc] at h
    rcases List.append_eq_append_iff.mp h with ⟨later, -, hlater⟩ | ⟨_ | ⟨b, bs⟩, hchar, hrest⟩
    · exact ih _ hlater
    · exact ih [] hrest.symm
    · -- the brace is the character itself, and the quote is the closing one
      obtain ⟨rfl, hquote⟩ := List.cons.inj hrest
      have hone := escapeChar_of_brace_mem (c := c) (by rw [hchar]; simp)
      rw [hone] at hchar
      obtain ⟨-, rfl⟩ : before = [] ∧ bs = [] := by
        rcases before with _ | ⟨b, before⟩
        · exact ⟨rfl, (List.cons.inj hchar).2.symm⟩
        · simp at hchar
      cases cs with
      | nil => exact (List.cons.inj hquote).2
      | cons d cs =>
        obtain ⟨a, tail, htail, ha, -⟩ :=
          exists_unescapeOne d (cs.flatMap escapeChar ++ ['"', '}'])
        change '"' :: after = (d :: cs).flatMap escapeChar ++ ['"', '}'] at hquote
        rw [List.flatMap_cons, List.append_assoc, htail] at hquote
        exact absurd (List.cons.inj hquote).1.symm ha

/-- **No part of an object** that has its braces in the last text alone, but the whole, is
an object with fields. -/
theorem parse_isInfix {fields fields' : List (String × Value)} {part : String}
    {front cs : List Char}
    (htext : (print fields).toList = '{' :: (front ++ (escape cs ++ ['"', '}'])))
    (hfront : '{' ∉ front) (h : parse part = some fields') (hne : fields' ≠ [])
    (hpart : part.toList <:+: (print fields).toList) : part = print fields := by
  obtain ⟨rest, hbrace, hread⟩ := readItems_of_parse h
  -- a field starts with a quote
  obtain ⟨tail, rfl⟩ : ∃ tail, rest = '"' :: tail := by
    unfold readItems at hread
    split at hread
    · exact absurd (Prod.mk.inj (Option.some_inj.mp hread)).1.symm hne
    · obtain ⟨_, hfield, -⟩ := Option.bind_eq_some_iff.mp hread
      obtain ⟨_, hkey, -⟩ := Option.bind_eq_some_iff.mp hfield
      exact exists_quote_of_readText hkey
  obtain ⟨before, behind, hinfix⟩ := hpart
  cases before with
  | nil => exact parse_isPrefix h ⟨behind, hinfix⟩
  | cons b before =>
    rw [htext, hbrace, List.cons_append, List.cons_append, List.append_assoc] at hinfix
    have hlate := (List.cons.inj hinfix).2.symm
    have hend : tail ++ behind = ['}'] := by
      rcases List.append_eq_append_iff.mp hlate with
        ⟨later, -, hlater⟩ | ⟨_ | ⟨a, as⟩, hearly, hrest⟩
      · exact quote_of_brace _ _ hlater
      · exact quote_of_brace _ [] hrest.symm
      · obtain ⟨rfl, -⟩ := List.cons.inj hrest
        exact absurd (by rw [hearly]; simp) hfront
    -- such an object ends within its first key
    rcases tail with _ | ⟨d, tail⟩
    · cases hread
    · obtain ⟨rfl, hnil⟩ := List.cons.inj hend
      obtain ⟨rfl, -⟩ := List.append_eq_nil_iff.mp hnil
      cases hread

end Json
