/-
The start of a node (`main` and `parse_peers` in `bin/node.rs`).

The peers are given as entries `id=addr`.  A node starts only if they map its own id to the
address that it listens on.

* `parsePeers` — the map, or the error of the first entry that is none;
* `parse_peers_iff` — which entries are accepted, and what they map;
* `nodeMain_eq_ok` — when a node is spawned, and with which map.
-/
import AsyncRust.RaftWorker

namespace Raft

variable {L : Library}

/-! ### The program -/

/-- The errors of `str::parse`, without a context. -/
def parseError (text : String) : Fault := .error [text]

/-- The digits that are left, after the number `n`. -/
def parseDigits : List Char → ℕ → Except Fault ℕ
  | [], n => .ok n
  | c :: cs, n =>
    if c.isDigit = false then .error (parseError "invalid digit found in string")
    else if 2 ^ 64 ≤ 10 * n + (c.toNat - '0'.toNat) then
      .error (parseError "number too large to fit in target type")
    else parseDigits cs (10 * n + (c.toNat - '0'.toNat))

/-- `str::parse` of a `u64`. -/
def parseU64 : List Char → Except Fault ℕ
  | [] => .error (parseError "cannot parse integer from empty string")
  | ['+'] => .error (parseError "invalid digit found in string")
  | '+' :: digits => parseDigits digits 0
  | digits => parseDigits digits 0

/-- `str::split_once` of a character. -/
def splitOnce (sep : Char) : List Char → Option (List Char × List Char)
  | [] => none
  | c :: cs =>
    if c = sep then some ([], cs) else (splitOnce sep cs).map fun parts => (c :: parts.1, parts.2)

def parsePeer (entry : String) : Except Fault (ℕ × String) :=
  match splitOnce '=' entry.toList with
  | none => .error (.error [s!"invalid peer entry '{entry}', expected id=addr"])
  | some (idStr, addr) => do
    let id ← context s!"invalid peer id in '{entry}'" (parseU64 idStr)
    pure (id, String.ofList addr)

/-- The loop of `parse_peers`. -/
def insertPeers : List String → Std.TreeMap ℕ String → Except Fault (Std.TreeMap ℕ String)
  | [], peers => pure peers
  | entry :: entries, peers => do
    let peer ← parsePeer entry
    insertPeers entries (peers.insert peer.1 peer.2)

def parsePeers (entries : List String) : Except Fault (Std.TreeMap ℕ String) := do
  let peers ← insertPeers entries ∅
  if peers.isEmpty then
    .error (.error ["at least one --peer entry is required (include self)"])
  else pure peers

/-- The arguments of the command line. -/
structure Args where
  id : ℕ
  listen : String
  peer : List String
  deriving DecidableEq, Repr

/-- `main`, up to the spawn of the node. -/
def nodeMain (L : Library) (args : Args) : Except Fault (Host L) := do
  let peers ← parsePeers args.peer
  if peers[args.id]? ≠ some args.listen then
    .error (.error [s!"self id {args.id} must map to listen addr {args.listen} via --peer entries"])
  else spawnNode L ⟨args.id, args.listen, peers⟩

/-! ### What is claimed of it -/

/-- The characters are the digits of `n`, maybe with a sign. -/
def IsNumeral (cs : List Char) (n : ℕ) : Prop :=
  ∃ digits, digits ≠ [] ∧ (∀ c ∈ digits, c.isDigit = true) ∧
    (cs = digits ∨ cs = '+' :: digits) ∧ Nat.ofDigitChars 10 digits 0 = n ∧ n < 2 ^ 64

def IsPeer (entry : String) (id : ℕ) (addr : String) : Prop :=
  ∃ idStr, entry = String.ofList idStr ++ "=" ++ addr ∧ IsNumeral idStr id

/-- No entry is for `id`. -/
def Unnamed (entries : List String) (id : ℕ) : Prop :=
  ∀ entry ∈ entries, ∀ addr, ¬ IsPeer entry id addr

/-- The last entry for `id` gives `addr`. -/
def Maps (entries : List String) (id : ℕ) (addr : String) : Prop :=
  ∃ before entry after, entries = before ++ entry :: after ∧ IsPeer entry id addr ∧
    Unnamed after id

/-- The error tells what is wrong with the entry. -/
def Blames (entry : String) (fault : Fault) : Prop :=
  fault = .error [s!"invalid peer entry '{entry}', expected id=addr"] ∨
    ∃ text, fault = .error [s!"invalid peer id in '{entry}'", text]

/-! ### Numbers -/

theorem le_ofDigitChars (cs : List Char) (n : ℕ) : n ≤ Nat.ofDigitChars 10 cs n := by
  induction cs generalizing n with
  | nil => exact Nat.le_of_eq Nat.ofDigitChars_nil.symm
  | cons c cs ih =>
    rw [Nat.ofDigitChars_cons]
    have hnext := ih (10 * n + (c.toNat - '0'.toNat))
    omega

theorem parseDigits_eq_ok {cs : List Char} {m : ℕ} : ∀ {n : ℕ}, n < 2 ^ 64 →
    (parseDigits cs n = .ok m ↔
      (∀ c ∈ cs, c.isDigit = true) ∧ Nat.ofDigitChars 10 cs n = m ∧ m < 2 ^ 64) := by
  induction cs with
  | nil =>
    intro n hn
    rw [parseDigits, Nat.ofDigitChars_nil, Except.ok.injEq]
    exact ⟨fun h => ⟨List.forall_mem_nil _, h, h ▸ hn⟩, fun h => h.2.1⟩
  | cons c cs ih =>
    intro n hn
    rw [parseDigits, List.forall_mem_cons, Nat.ofDigitChars_cons]
    by_cases hdigit : c.isDigit = true
    · rw [if_neg (by simp [hdigit])]
      by_cases hlarge : 2 ^ 64 ≤ 10 * n + (c.toNat - '0'.toNat)
      · rw [if_pos hlarge]
        refine ⟨fun h => (by cases h), fun ⟨_, hm, hlt⟩ => ?_⟩
        -- the number only grows
        have hle := le_ofDigitChars cs (10 * n + (c.toNat - '0'.toNat))
        omega
      · rw [if_neg hlarge, ih (Nat.lt_of_not_le hlarge)]
        simp [hdigit]
    · rw [if_pos (by simpa using hdigit)]
      exact ⟨fun h => (by cases h), fun h => absurd h.1.1 hdigit⟩

theorem parseU64_eq_ok {cs : List Char} {n : ℕ} : parseU64 cs = .ok n ↔ IsNumeral cs n := by
  have hzero : 0 < 2 ^ 64 := by decide
  have hplus : Char.isDigit '+' = false := rfl
  unfold parseU64
  split
  · refine ⟨fun h => (by cases h), ?_⟩
    rintro ⟨digits, hne, -, rfl | hcs, -⟩
    · exact absurd rfl hne
    · cases hcs
  · refine ⟨fun h => (by cases h), ?_⟩
    rintro ⟨digits, hne, hdigits, rfl | hcs, -⟩
    · exact absurd (hdigits '+' List.mem_cons_self) (by simp [hplus])
    · exact absurd (List.cons.inj hcs).2.symm hne
  · rename_i digits hsome
    rw [parseDigits_eq_ok hzero]
    constructor
    · rintro ⟨hdigits, hn, hlt⟩
      exact ⟨digits, fun hnil => hsome (by rw [hnil]), hdigits, .inr rfl, hn, hlt⟩
    · rintro ⟨digits', -, hdigits, rfl | hcs, hn, hlt⟩
      · exact absurd (hdigits '+' List.mem_cons_self) (by simp [hplus])
      · obtain rfl := (List.cons.inj hcs).2
        exact ⟨hdigits, hn, hlt⟩
  · rename_i hnil hsome hsign
    rw [parseDigits_eq_ok hzero]
    constructor
    · rintro ⟨hdigits, hn, hlt⟩
      exact ⟨cs, hnil, hdigits, .inl rfl, hn, hlt⟩
    · rintro ⟨digits, -, hdigits, rfl | rfl, hn, hlt⟩
      · exact ⟨hdigits, hn, hlt⟩
      · exact absurd rfl (hsign digits)

theorem parseDigits_error {cs : List Char} {fault : Fault} : ∀ {n : ℕ},
    parseDigits cs n = .error fault → ∃ text, fault = parseError text := by
  induction cs with
  | nil => intro n h; cases h
  | cons c cs ih =>
    intro n h
    rw [parseDigits] at h
    split_ifs at h
    · cases h
      exact ⟨_, rfl⟩
    · cases h
      exact ⟨_, rfl⟩
    · exact ih h

theorem parseU64_error {cs : List Char} {fault : Fault} (h : parseU64 cs = .error fault) :
    ∃ text, fault = parseError text := by
  unfold parseU64 at h
  split at h
  · cases h
    exact ⟨_, rfl⟩
  · cases h
    exact ⟨_, rfl⟩
  · exact parseDigits_error h
  · exact parseDigits_error h

/-! ### Entries -/

theorem splitOnce_eq_some {sep : Char} {cs : List Char} : ∀ {a b : List Char},
    splitOnce sep cs = some (a, b) ↔ cs = a ++ sep :: b ∧ sep ∉ a := by
  induction cs with
  | nil => intro a b; simp [splitOnce]
  | cons c cs ih =>
    intro a b
    rw [splitOnce]
    by_cases hc : c = sep
    · subst hc
      rw [if_pos rfl]
      cases a with
      | nil => simp
      | cons d a => simpa using fun hd _ hne => absurd hd hne
    · rw [if_neg hc, Option.map_eq_some_iff]
      cases a with
      | nil => simp [hc]
      | cons d a =>
        constructor
        · rintro ⟨⟨a', b'⟩, hsplit, hparts⟩
          simp only [Prod.mk.injEq, List.cons.injEq] at hparts
          obtain ⟨⟨rfl, rfl⟩, rfl⟩ := hparts
          obtain ⟨rfl, hsep⟩ := ih.mp hsplit
          exact ⟨rfl, by simpa using ⟨Ne.symm hc, hsep⟩⟩
        · rintro ⟨hcs, hsep⟩
          obtain ⟨rfl, rfl⟩ := List.cons.inj hcs
          exact ⟨(a, b), ih.mpr ⟨rfl, fun h => hsep (List.mem_cons_of_mem _ h)⟩, rfl⟩

/-- A numeral holds no separator. -/
theorem IsNumeral.notMem {cs : List Char} {n : ℕ} (h : IsNumeral cs n) : '=' ∉ cs := by
  obtain ⟨digits, -, hdigits, hcs, -⟩ := h
  have hsep : '=' ∉ digits := fun hmem => Bool.false_ne_true (hdigits '=' hmem)
  rcases hcs with rfl | rfl
  · exact hsep
  · simpa using hsep

theorem IsNumeral.unique {cs : List Char} {m n : ℕ} (hm : IsNumeral cs m) (hn : IsNumeral cs n) :
    m = n :=
  Except.ok.inj ((parseU64_eq_ok.mpr hm).symm.trans (parseU64_eq_ok.mpr hn))

theorem parsePeer_eq_ok {entry : String} {id : ℕ} {addr : String} :
    parsePeer entry = .ok (id, addr) ↔ IsPeer entry id addr := by
  unfold parsePeer
  split
  · rename_i hsplit
    refine ⟨fun h => (by cases h), ?_⟩
    rintro ⟨idStr, rfl, hid⟩
    have hsome : splitOnce '=' (String.ofList idStr ++ "=" ++ addr).toList =
        some (idStr, addr.toList) := splitOnce_eq_some.mpr ⟨by simp, hid.notMem⟩
    cases hsplit.symm.trans hsome
  · rename_i idStr rest hsplit
    obtain ⟨hentry, hsep⟩ := splitOnce_eq_some.mp hsplit
    rw [bind_eq_ok]
    constructor
    · rintro ⟨id', hid, hpure⟩
      cases hpure
      refine ⟨idStr, ?_, parseU64_eq_ok.mp (context_eq_ok.mp hid)⟩
      rw [← String.toList_inj, hentry]
      simp
    · rintro ⟨idStr', rfl, hid⟩
      have hsome : splitOnce '=' (String.ofList idStr' ++ "=" ++ addr).toList =
          some (idStr', addr.toList) := splitOnce_eq_some.mpr ⟨by simp, hid.notMem⟩
      cases hsplit.symm.trans hsome
      refine ⟨id, context_eq_ok.mpr (parseU64_eq_ok.mpr hid), ?_⟩
      rw [String.ofList_toList]
      rfl

theorem IsPeer.unique {entry : String} {id id' : ℕ} {addr addr' : String}
    (h : IsPeer entry id addr) (h' : IsPeer entry id' addr') : id = id' ∧ addr = addr' :=
  Prod.mk.inj (Except.ok.inj ((parsePeer_eq_ok.mpr h).symm.trans (parsePeer_eq_ok.mpr h')))

/-- An entry is refused with an error that names it. -/
theorem parsePeer_error {entry : String} {fault : Fault} (h : parsePeer entry = .error fault) :
    Blames entry fault ∧ ∀ id addr, ¬ IsPeer entry id addr := by
  refine ⟨?_, fun id addr hpeer => by cases h.symm.trans (parsePeer_eq_ok.mpr hpeer)⟩
  unfold parsePeer at h
  split at h
  · cases h
    exact .inl rfl
  · rename_i idStr addr hsplit
    rcases bind_eq_error.mp h with hid | ⟨id, -, hpure⟩
    · cases hparse : parseU64 idStr with
      | ok id => rw [hparse] at hid; cases hid
      | error parseFault =>
        rw [hparse] at hid
        cases hid
        obtain ⟨text, rfl⟩ := parseU64_error hparse
        exact .inr ⟨text, rfl⟩
    · cases hpure

/-! ### The map of the entries -/

theorem maps_cons {entry : String} {entries : List String} {id : ℕ} {addr : String} :
    Maps (entry :: entries) id addr ↔
      Maps entries id addr ∨ IsPeer entry id addr ∧ Unnamed entries id := by
  constructor
  · rintro ⟨before, last, after, hentries, hlast, hafter⟩
    rcases List.cons_eq_append_iff.mp hentries with ⟨rfl, h⟩ | ⟨before, rfl, rfl⟩
    · obtain ⟨rfl, rfl⟩ := List.cons.inj h
      exact .inr ⟨hlast, hafter⟩
    · exact .inl ⟨before, last, after, rfl, hlast, hafter⟩
  · rintro (⟨before, last, after, rfl, hlast, hafter⟩ | ⟨hentry, hentries⟩)
    · exact ⟨entry :: before, last, after, rfl, hlast, hafter⟩
    · exact ⟨[], entry, entries, rfl, hentry, hentries⟩

theorem unnamed_cons {entry : String} {entries : List String} {id : ℕ} :
    Unnamed (entry :: entries) id ↔ (∀ addr, ¬ IsPeer entry id addr) ∧ Unnamed entries id :=
  List.forall_mem_cons

theorem getElem?_insertPeers {entries : List String} : ∀ {peers peers' : Std.TreeMap ℕ String},
    insertPeers entries peers = .ok peers' →
      (∀ entry ∈ entries, ∃ id addr, IsPeer entry id addr) ∧
      ∀ id addr, peers'[id]? = some addr ↔
        Maps entries id addr ∨ peers[id]? = some addr ∧ Unnamed entries id := by
  induction entries with
  | nil =>
    intro peers peers' h
    cases h
    exact ⟨List.forall_mem_nil _, by simp [Maps, Unnamed]⟩
  | cons entry entries ih =>
    intro peers peers' h
    obtain ⟨⟨id, addr⟩, hpeer, hinsert⟩ := bind_eq_ok.mp h
    rw [parsePeer_eq_ok] at hpeer
    obtain ⟨hall, hlookup⟩ := ih hinsert
    refine ⟨List.forall_mem_cons.mpr ⟨⟨id, addr, hpeer⟩, hall⟩, fun id' addr' => ?_⟩
    rw [hlookup, maps_cons, unnamed_cons, Std.TreeMap.getElem?_insert, or_assoc]
    refine or_congr_right ?_
    by_cases hid : id = id'
    · -- the entry replaces what is in the map
      subst hid
      rw [if_pos (compare_eq_iff_eq.mpr rfl), Option.some.injEq]
      constructor
      · rintro ⟨rfl, hrest⟩
        exact .inl ⟨hpeer, hrest⟩
      · rintro (⟨haddr, hrest⟩ | ⟨-, hnone, -⟩)
        · exact ⟨(hpeer.unique haddr).2, hrest⟩
        · exact absurd hpeer (hnone addr)
    · rw [if_neg (fun h => hid (compare_eq_iff_eq.mp h))]
      constructor
      · rintro ⟨hpeers, hrest⟩
        exact .inr ⟨hpeers, fun addr'' hother => hid (hpeer.unique hother).1, hrest⟩
      · rintro (⟨hother, -⟩ | ⟨hpeers, -, hrest⟩)
        · exact absurd (hpeer.unique hother).1 hid
        · exact ⟨hpeers, hrest⟩

theorem insertPeers_error {entries : List String} {fault : Fault} :
    ∀ {peers : Std.TreeMap ℕ String}, insertPeers entries peers = .error fault →
      ∃ before entry after, entries = before ++ entry :: after ∧
        (∀ earlier ∈ before, ∃ id addr, IsPeer earlier id addr) ∧
        (∀ id addr, ¬ IsPeer entry id addr) ∧ Blames entry fault := by
  induction entries with
  | nil => intro peers h; cases h
  | cons entry entries ih =>
    intro peers h
    rcases bind_eq_error.mp h with hpeer | ⟨⟨id, addr⟩, hpeer, hinsert⟩
    · obtain ⟨hblames, hnone⟩ := parsePeer_error hpeer
      exact ⟨[], entry, entries, rfl, List.forall_mem_nil _, hnone, hblames⟩
    · obtain ⟨before, bad, after, rfl, hbefore, hbad⟩ := ih hinsert
      exact ⟨entry :: before, bad, after, rfl,
        List.forall_mem_cons.mpr ⟨⟨id, addr, parsePeer_eq_ok.mp hpeer⟩, hbefore⟩, hbad⟩

theorem insertPeers_empty {entries : List String} {peers : Std.TreeMap ℕ String}
    (h : insertPeers entries ∅ = .ok peers) :
    (∀ entry ∈ entries, ∃ id addr, IsPeer entry id addr) ∧
    (peers.isEmpty = true ↔ entries = []) ∧
    ∀ id addr, peers[id]? = some addr ↔ Maps entries id addr := by
  obtain ⟨hall, hlookup⟩ := getElem?_insertPeers h
  have hmaps : ∀ id addr, peers[id]? = some addr ↔ Maps entries id addr := by
    simpa using hlookup
  refine ⟨hall, ⟨fun hempty => ?_, ?_⟩, hmaps⟩
  · -- the last entry is in the map
    rcases List.eq_nil_or_concat' entries with hnil | ⟨before, last, hentries⟩
    · exact hnil
    · obtain ⟨id, addr, hlast⟩ := hall last (by simp [hentries])
      have hsome := (hmaps id addr).mpr
        ⟨before, last, [], hentries, hlast, List.forall_mem_nil _⟩
      have hmem : id ∈ peers := Std.TreeMap.mem_iff_isSome_getElem?.mpr (by simp [hsome])
      exact absurd hmem (Std.TreeMap.isEmpty_iff_forall_not_mem.mp hempty id)
  · rintro rfl
    cases h
    rfl

theorem parsePeers_eq_ok {entries : List String} {peers : Std.TreeMap ℕ String} :
    parsePeers entries = .ok peers ↔ insertPeers entries ∅ = .ok peers ∧ entries ≠ [] := by
  rw [parsePeers, bind_eq_ok]
  constructor
  · rintro ⟨peers', hinsert, h⟩
    split_ifs at h with hempty
    cases h
    exact ⟨hinsert, fun hnil => hempty ((insertPeers_empty hinsert).2.1.mpr hnil)⟩
  · rintro ⟨hinsert, hne⟩
    exact ⟨peers, hinsert, if_neg fun hempty => hne ((insertPeers_empty hinsert).2.1.mp hempty)⟩

theorem exists_parsePeers_iff {entries : List String} :
    (∃ peers, parsePeers entries = .ok peers) ↔
      entries ≠ [] ∧ ∀ entry ∈ entries, ∃ id addr, IsPeer entry id addr := by
  constructor
  · rintro ⟨peers, h⟩
    obtain ⟨hinsert, hne⟩ := parsePeers_eq_ok.mp h
    exact ⟨hne, (insertPeers_empty hinsert).1⟩
  · rintro ⟨hne, hall⟩
    cases hinsert : insertPeers entries ∅ with
    | ok peers => exact ⟨peers, parsePeers_eq_ok.mpr ⟨hinsert, hne⟩⟩
    | error fault =>
      obtain ⟨before, entry, after, rfl, -, hnone, -⟩ := insertPeers_error hinsert
      obtain ⟨id, addr, hpeer⟩ := hall entry (by simp)
      exact absurd hpeer (hnone id addr)

theorem getElem?_parsePeers {entries : List String} {peers : Std.TreeMap ℕ String}
    (h : parsePeers entries = .ok peers) (id : ℕ) (addr : String) :
    peers[id]? = some addr ↔ Maps entries id addr :=
  (insertPeers_empty (parsePeers_eq_ok.mp h).1).2.2 id addr

theorem parsePeers_error {entries : List String} {fault : Fault}
    (h : parsePeers entries = .error fault) :
    entries = [] ∧ fault = .error ["at least one --peer entry is required (include self)"] ∨
      ∃ before entry after, entries = before ++ entry :: after ∧
        (∀ earlier ∈ before, ∃ id addr, IsPeer earlier id addr) ∧
        (∀ id addr, ¬ IsPeer entry id addr) ∧ Blames entry fault := by
  rcases bind_eq_error.mp h with hinsert | ⟨peers, hinsert, h⟩
  · exact .inr (insertPeers_error hinsert)
  · split_ifs at h with hempty
    · cases h
      exact .inl ⟨(insertPeers_empty hinsert).2.1.mp hempty, rfl⟩
    · cases h

/-- **The peers of the command line**: they are accepted if there are any and each is `id=addr`
with a number as id; of several entries for an id the last one counts; and a refusal names the
first entry that is none. -/
theorem parse_peers_iff (entries : List String) :
    ((∃ peers, parsePeers entries = .ok peers) ↔
      entries ≠ [] ∧ ∀ entry ∈ entries, ∃ id addr, IsPeer entry id addr) ∧
    (∀ peers, parsePeers entries = .ok peers →
      ∀ id addr, peers[id]? = some addr ↔ Maps entries id addr) ∧
    ∀ fault, parsePeers entries = .error fault →
      entries = [] ∧ fault = .error ["at least one --peer entry is required (include self)"] ∨
      ∃ before entry after, entries = before ++ entry :: after ∧
        (∀ earlier ∈ before, ∃ id addr, IsPeer earlier id addr) ∧
        (∀ id addr, ¬ IsPeer entry id addr) ∧ Blames entry fault :=
  ⟨exists_parsePeers_iff, fun _ => getElem?_parsePeers, fun _ => parsePeers_error⟩

/-! ### The start of a node -/

/-- A node starts only if the map gives its own id the address that it listens on. -/
theorem nodeMain_eq_ok {args : Args} {s : Host L} :
    nodeMain L args = .ok s ↔ ∃ peers, parsePeers args.peer = .ok peers ∧
      Maps args.peer args.id args.listen ∧
      spawnNode L ⟨args.id, args.listen, peers⟩ = .ok s := by
  rw [nodeMain, bind_eq_ok]
  refine exists_congr fun peers => and_congr_right fun hpeers => ?_
  have hlookup := getElem?_parsePeers hpeers args.id args.listen
  split_ifs with hself
  · exact ⟨fun h => (by cases h), fun ⟨hmaps, _⟩ => absurd (hlookup.mpr hmaps) hself⟩
  · exact (and_iff_right (hlookup.mp (not_not.mp hself))).symm

end Raft
