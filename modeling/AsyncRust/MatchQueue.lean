/-
A queue in which the first that waits for a key is served.

Clients wait for keys, several of them possibly for one key.  A service of a key
answers the client that has waited longest for this key, if there is one.  The
clients that wait for a key form a line, and what becomes of a client is decided
by counting:

* `waiting_iff` — a client waits as long as at most as many services of its key
  came since its arrival as clients were in its line when it came;
* `answered_iff` — the first service beyond that is the one that answers it;
* `answers_unique` — and a service answers one client at most.

Services come whether or not somebody waits for them, so a client is served by
whichever service of its key comes next in its turn.
-/
import Mathlib.Data.List.Nodup

namespace MatchQueue

variable {κ ι : Type*}

/-- A client's arrival: how many services came before it, and how many clients
were then in its line. -/
structure Arrival (κ ι : Type*) where
  who : ι
  key : κ
  after : ℕ
  ahead : ℕ

/-- `waiting` is in the order of arrival; `answered` has the clients with the
position of the service that answered them. -/
structure Queue (κ ι : Type*) where
  waiting : List (ι × κ)
  served : List κ
  arrivals : List (Arrival κ ι)
  answered : List (ι × ℕ)

variable [DecidableEq κ]

/-- Those that wait for `key`, in their order. -/
def line (waiting : List (ι × κ)) (key : κ) : List ι :=
  (waiting.filter fun client => client.2 = key).map Prod.fst

namespace Queue

def empty : Queue κ ι := ⟨[], [], [], []⟩

def arrive (q : Queue κ ι) (who : ι) (key : κ) : Queue κ ι :=
  { q with
    waiting := q.waiting ++ [(who, key)]
    arrivals := q.arrivals ++ [⟨who, key, q.served.length, (line q.waiting key).length⟩] }

def serve (q : Queue κ ι) (key : κ) : Queue κ ι :=
  { q with
    waiting := q.waiting.eraseP fun client => client.2 = key
    served := q.served ++ [key]
    answered := q.answered ++
      (q.waiting.find? fun client => client.2 = key).toList.map fun client =>
        (client.1, q.served.length) }

end Queue

/-- The services of its key since a client's arrival. -/
def Arrival.services (a : Arrival κ ι) (served : List κ) : ℕ :=
  (served.drop a.after).count a.key

/-- The service at position `p` is the one whose turn is the client's: as many
services of its key as clients were ahead of it came between its arrival and
this one. -/
def Arrival.ServedAt (a : Arrival κ ι) (served : List κ) (p : ℕ) : Prop :=
  a.after ≤ p ∧ served[p]? = some a.key ∧ a.services (served.take p) = a.ahead

/-! ### Lines -/

theorem line_append (waiting : List (ι × κ)) (who : ι) (key key' : κ) :
    line (waiting ++ [(who, key)]) key' =
      line waiting key' ++ if key = key' then [who] else [] := by
  by_cases hkey : key = key' <;> simp [line, List.filter_append, hkey]

theorem line_head {front : List (ι × κ)} {key : κ} (hfront : line front key = []) (who : ι)
    (back : List (ι × κ)) : line (front ++ (who, key) :: back) key = who :: line back key := by
  have hfilter : front.filter (fun client => client.2 = key) = [] := List.map_eq_nil_iff.mp hfront
  simp only [line, List.filter_append, hfilter, List.nil_append]
  simp

/-- A service takes the head of its line, if there is one, and leaves the other
lines as they are. -/
theorem serve_cases (q : Queue κ ι) (key : κ) :
    (line q.waiting key = [] ∧ (q.serve key).waiting = q.waiting ∧
      (q.serve key).answered = q.answered) ∨
    ∃ who front back, q.waiting = front ++ (who, key) :: back ∧ line front key = [] ∧
      (q.serve key).waiting = front ++ back ∧
      (q.serve key).answered = q.answered ++ [(who, q.served.length)] := by
  cases hfind : q.waiting.find? fun client => client.2 = key with
  | none =>
    have hnone : ∀ client ∈ q.waiting, ¬ client.2 = key := by simpa using hfind
    refine .inl ⟨?_, List.eraseP_of_forall_not (by simpa using hnone), ?_⟩
    · simpa [line] using hnone
    · simp [Queue.serve, hfind]
  | some client =>
    obtain ⟨hclient, front, back, hwaiting, hfront⟩ := List.find?_eq_some_iff_append.mp hfind
    obtain ⟨who, key'⟩ := client
    obtain rfl : key' = key := by simpa using hclient
    refine .inr ⟨who, front, back, hwaiting, ?_, ?_, ?_⟩
    · simpa [line] using hfront
    · simp only [Queue.serve, hwaiting]
      rw [List.eraseP_append_right _ (by simpa using hfront), List.eraseP_cons_of_pos (by simp)]
    · simp [Queue.serve, hfind]

theorem line_serve (q : Queue κ ι) (key key' : κ) :
    line (q.serve key).waiting key' =
      if key = key' then (line q.waiting key').tail else line q.waiting key' := by
  rcases serve_cases q key with ⟨hempty, hwaiting, -⟩ | ⟨who, front, back, h, hfront, hwaiting, -⟩
  · rw [hwaiting]
    split
    · rename_i hkey
      rw [← hkey, hempty, List.tail_nil]
    · rfl
  · rw [hwaiting, h]
    by_cases hkey : key = key'
    · subst hkey
      have hback : line (front ++ back) key = line back key := by
        simpa [line] using hfront
      rw [if_pos rfl, line_head hfront, hback, List.tail_cons]
    · simp [line, hkey]

/-! ### Turns -/

section

variable {a : Arrival κ ι} {served : List κ} {p p' : ℕ}

theorem Arrival.ServedAt.lt_length (h : a.ServedAt served p) : p < served.length :=
  (List.getElem?_eq_some_iff.mp h.2.1).1

theorem Arrival.ServedAt.append (h : a.ServedAt served p) (more : List κ) :
    a.ServedAt (served ++ more) p := by
  have hlt := h.lt_length
  obtain ⟨hafter, hget, hcount⟩ := h
  refine ⟨hafter, ?_, ?_⟩
  · rw [List.getElem?_append_left hlt, hget]
  · rw [List.take_append_of_le_length (Nat.le_of_lt hlt), hcount]

/-- Services that are recorded with more than their keys. -/
theorem Arrival.services_map {σ : Type*} (a : Arrival κ ι) (f : σ → κ) (served : List σ) :
    a.services (served.map f) =
      ((served.drop a.after).filter fun service => f service = a.key).length := by
  rw [Arrival.services, ← List.map_drop, List.count, List.countP_map, List.countP_eq_length_filter]
  congr 1

/-- The services of a key up to and including one of them. -/
theorem services_take_succ (hafter : a.after ≤ p) (hget : served[p]? = some a.key) :
    a.services (served.take (p + 1)) = a.services (served.take p) + 1 := by
  obtain ⟨hlt, hget⟩ := List.getElem?_eq_some_iff.mp hget
  have hle : a.after ≤ (served.take p).length := by
    rw [List.length_take]
    omega
  rw [Arrival.services, ← List.take_append_getElem hlt, List.drop_append_of_le_length hle,
    List.count_append, hget]
  simp [Arrival.services]

theorem services_take_mono (h : p ≤ p') :
    a.services (served.take p) ≤ a.services (served.take p') :=
  ((List.take_prefix_take_left h).sublist.drop a.after).count_le a.key

/-- A client has one turn. -/
theorem Arrival.ServedAt.unique (h : a.ServedAt served p) (h' : a.ServedAt served p') :
    p = p' := by
  have hlt : ∀ {p p' : ℕ}, a.ServedAt served p → a.ServedAt served p' → ¬ p < p' := by
    intro p p' h h' hlt
    -- the earlier turn is one of the services before the later one
    have hsucc := services_take_succ h.1 h.2.1
    have hmono : a.services (served.take (p + 1)) ≤ _ := services_take_mono hlt
    have hahead := h.2.2
    have hahead' := h'.2.2
    omega
  exact Nat.le_antisymm (Nat.not_lt.mp (hlt h' h)) (Nat.not_lt.mp (hlt h h'))

/-- Its turn has come when more services came than clients were ahead of it. -/
theorem Arrival.ServedAt.ahead_lt (h : a.ServedAt served p) :
    a.ahead < a.services served := by
  have hsucc := services_take_succ h.1 h.2.1
  have hle : a.services (served.take (p + 1)) ≤ a.services served :=
    ((List.take_prefix (p + 1) served).sublist.drop a.after).count_le a.key
  have hahead := h.2.2
  omega

end

/-! ### The queue -/

namespace Queue

/-- What becomes of a client: either at most as many services of its key came
as clients were ahead of it, and it has moved up its line by one for each of
them, or it was answered in its turn. -/
def Fair (q : Queue κ ι) (a : Arrival κ ι) : Prop :=
  (a.services q.served ≤ a.ahead ∧
    (line q.waiting a.key)[a.ahead - a.services q.served]? = some a.who) ∨
    ∃ p, a.ServedAt q.served p ∧ (a.who, p) ∈ q.answered

/-- The invariant of a queue in which nobody arrives twice. -/
structure Fifo (q : Queue κ ι) : Prop where
  after_le : ∀ a ∈ q.arrivals, a.after ≤ q.served.length
  arrived : ∀ who ∈ q.waiting.map Prod.fst ++ q.answered.map Prod.fst,
    who ∈ q.arrivals.map Arrival.who
  distinct : (q.waiting.map Prod.fst ++ q.answered.map Prod.fst).Nodup
  ordered : (q.answered.map Prod.snd).Pairwise (· < ·)
  past : ∀ answer ∈ q.answered, answer.2 < q.served.length
  fair : ∀ a ∈ q.arrivals, q.Fair a

theorem fifo_empty : (empty : Queue κ ι).Fifo := by
  constructor <;> simp [empty]

variable {q : Queue κ ι}

theorem Fifo.arrive (h : q.Fifo) {who : ι} (hnew : who ∉ q.arrivals.map Arrival.who) (key : κ) :
    (q.arrive who key).Fifo where
  after_le := by
    intro a ha
    rcases List.mem_append.mp ha with ha | ha
    · exact h.after_le a ha
    · rw [List.mem_singleton.mp ha]
      exact Nat.le_refl _
  arrived := by
    intro who' hwho
    have := h.arrived who'
    simp only [Queue.arrive, List.map_append, List.mem_append] at hwho this ⊢
    rcases hwho with (hwho | hwho) | hwho
    · exact .inl (this (.inl hwho))
    · exact .inr hwho
    · exact .inl (this (.inr hwho))
  distinct := by
    have hwho : who ∉ q.waiting.map Prod.fst ++ q.answered.map Prod.fst :=
      fun hmem => hnew (h.arrived who hmem)
    have hperm : ((q.arrive who key).waiting.map Prod.fst ++ q.answered.map Prod.fst).Perm
        (who :: (q.waiting.map Prod.fst ++ q.answered.map Prod.fst)) := by
      simp only [Queue.arrive, List.map_append, List.map_cons, List.map_nil, List.append_assoc]
      exact List.perm_middle
    exact hperm.nodup_iff.mpr (List.nodup_cons.mpr ⟨hwho, h.distinct⟩)
  ordered := h.ordered
  past := h.past
  fair := by
    intro a ha
    rcases List.mem_append.mp ha with ha | ha
    · rcases h.fair a ha with ⟨hle, hget⟩ | hanswered
      · refine .inl ⟨hle, ?_⟩
        have hlt := (List.getElem?_eq_some_iff.mp hget).1
        rw [Queue.arrive, line_append]
        exact (List.getElem?_append_left hlt).trans hget
      · exact .inr hanswered
    · -- nobody was served since it came, and it is the last of its line
      rw [List.mem_singleton.mp ha]
      refine .inl ⟨?_, ?_⟩
      · simp [Arrival.services, Queue.arrive]
      · simp [Arrival.services, Queue.arrive, line_append]

theorem services_serve {a : Arrival κ ι} (hafter : a.after ≤ q.served.length) (key : κ) :
    a.services (q.serve key).served = a.services q.served + if key = a.key then 1 else 0 := by
  rw [Arrival.services, serve, List.drop_append_of_le_length hafter, List.count_append]
  by_cases hkey : key = a.key <;> simp [hkey, Arrival.services]

/-- Fairness of a service, to a client that it leaves or answers. -/
theorem Fair.serve {a : Arrival κ ι} (h : q.Fair a) (hafter : a.after ≤ q.served.length)
    (key : κ) : (q.serve key).Fair a := by
  rcases h with ⟨hle, hget⟩ | ⟨p, hturn, hanswered⟩
  · by_cases hkey : key = a.key
    · subst hkey
      rcases Nat.lt_or_eq_of_le hle with hlt | heq
      · -- it moves up
        refine .inl ⟨?_, ?_⟩
        · rw [services_serve hafter, if_pos rfl]
          exact hlt
        · rw [services_serve hafter, if_pos rfl, line_serve, if_pos rfl, List.getElem?_tail,
            Nat.sub_add_eq, Nat.sub_add_cancel (by omega), hget]
      · -- it is at the head of its line, and answered
        rw [← heq, Nat.sub_self] at hget
        right
        refine ⟨q.served.length, ⟨hafter, by simp [Queue.serve], ?_⟩, ?_⟩
        · rw [Queue.serve, List.take_left, ← heq]
        · rcases serve_cases q a.key with ⟨hempty, -⟩ | ⟨who, front, back, h, hfront, -, hanswered⟩
          · rw [hempty] at hget
            cases hget
          · rw [h, line_head hfront, List.getElem?_cons_zero] at hget
            cases hget
            rw [hanswered]
            exact List.mem_append_right _ (List.mem_singleton.mpr rfl)
    · refine .inl ⟨?_, ?_⟩
      · rw [services_serve hafter, if_neg hkey]
        exact hle
      · rw [services_serve hafter, if_neg hkey, line_serve, if_neg hkey]
        exact hget
  · exact .inr ⟨p, hturn.append [key], List.mem_append_left _ hanswered⟩

/-- A service moves a client from those that wait to those that are answered. -/
theorem serve_perm (q : Queue κ ι) (key : κ) :
    ((q.serve key).waiting.map Prod.fst ++ (q.serve key).answered.map Prod.fst).Perm
      (q.waiting.map Prod.fst ++ q.answered.map Prod.fst) := by
  rcases serve_cases q key with
    ⟨-, hwaiting, hanswered⟩ | ⟨who, front, back, h, -, hwaiting, hanswered⟩
  · rw [hwaiting, hanswered]
  · rw [hwaiting, hanswered, h]
    simp only [List.map_append, List.map_cons, List.map_nil, List.append_assoc, List.cons_append]
    rw [← List.append_assoc, ← List.append_assoc]
    refine (List.perm_append_singleton who _).trans ?_
    rw [List.append_assoc]
    exact List.perm_middle.symm

theorem Fifo.serve (h : q.Fifo) (key : κ) : (q.serve key).Fifo where
  after_le := by
    intro a ha
    rw [Queue.serve, List.length_append]
    exact Nat.le_trans (h.after_le a ha) (Nat.le_add_right _ _)
  arrived := fun who hwho => h.arrived who ((serve_perm q key).mem_iff.mp hwho)
  distinct := (serve_perm q key).nodup_iff.mpr h.distinct
  ordered := by
    rcases serve_cases q key with ⟨-, -, hanswered⟩ | ⟨who, _, _, -, -, -, hanswered⟩
    · rw [hanswered]
      exact h.ordered
    · rw [hanswered, List.map_append, List.pairwise_append]
      refine ⟨h.ordered, List.pairwise_singleton _ _, fun p hp p' hp' => ?_⟩
      obtain ⟨answer, hanswer, rfl⟩ := List.mem_map.mp hp
      rw [List.mem_singleton.mp hp']
      exact h.past answer hanswer
  past := by
    intro answer hanswer
    rw [Queue.serve, List.length_append]
    rcases serve_cases q key with ⟨-, -, hanswered⟩ | ⟨who, _, _, -, -, -, hanswered⟩
    · rw [hanswered] at hanswer
      exact Nat.lt_succ_of_lt (h.past answer hanswer)
    · rw [hanswered] at hanswer
      rcases List.mem_append.mp hanswer with hanswer | hanswer
      · exact Nat.lt_succ_of_lt (h.past answer hanswer)
      · rw [List.mem_singleton.mp hanswer]
        exact Nat.lt_succ_self _
  fair := fun a ha => (h.fair a ha).serve (h.after_le a ha) key

/-! ### What becomes of a client -/

variable {a : Arrival κ ι}

theorem Fifo.not_both (h : q.Fifo) {who : ι} {p : ℕ} (hwaiting : who ∈ q.waiting.map Prod.fst) :
    (who, p) ∉ q.answered := fun hanswered =>
  (List.nodup_append.mp h.distinct).2.2 who hwaiting who
    (List.mem_map.mpr ⟨(who, p), hanswered, rfl⟩) rfl

theorem mem_line {waiting : List (ι × κ)} {who : ι} {key : κ} :
    who ∈ line waiting key ↔ (who, key) ∈ waiting := by
  simp [line]

theorem mem_of_mem_line {waiting : List (ι × κ)} {who : ι} {key : κ}
    (h : who ∈ line waiting key) : who ∈ waiting.map Prod.fst :=
  List.mem_map.mpr ⟨(who, key), mem_line.mp h, rfl⟩

/-- Clients wait for the key that they came for. -/
theorem Fifo.waiting_key (h : q.Fifo) (ha : a ∈ q.arrivals) {key : κ}
    (hwaiting : (a.who, key) ∈ q.waiting) : key = a.key := by
  rcases h.fair a ha with ⟨-, hget⟩ | ⟨p, -, hanswered⟩
  · have hline := mem_line.mp (List.mem_of_getElem? hget)
    have hnodup := (List.nodup_append.mp h.distinct).1
    cases List.inj_on_of_nodup_map hnodup hwaiting hline rfl
    rfl
  · exact absurd hanswered (h.not_both (List.mem_map.mpr ⟨_, hwaiting, rfl⟩))

/-- **Who waits.**  A client waits as long as at most as many services of its
key came since its arrival as clients were then ahead of it. -/
theorem Fifo.waiting_iff (h : q.Fifo) (ha : a ∈ q.arrivals) :
    a.who ∈ q.waiting.map Prod.fst ↔ a.services q.served ≤ a.ahead := by
  rcases h.fair a ha with ⟨hle, hget⟩ | ⟨p, hturn, hanswered⟩
  · exact iff_of_true (mem_of_mem_line (List.mem_of_getElem? hget)) hle
  · refine iff_of_false (fun hwaiting => h.not_both hwaiting hanswered) ?_
    exact Nat.not_le.mpr hturn.ahead_lt

/-- **Who is answered, and when.**  A client is answered by the service whose
turn is its own, and by no other. -/
theorem Fifo.answered_iff (h : q.Fifo) (ha : a ∈ q.arrivals) {p : ℕ} :
    (a.who, p) ∈ q.answered ↔ a.ServedAt q.served p := by
  rcases h.fair a ha with ⟨hle, hget⟩ | ⟨p', hturn, hanswered⟩
  · refine iff_of_false (h.not_both (mem_of_mem_line (List.mem_of_getElem? hget))) ?_
    exact fun hturn => absurd hturn.ahead_lt (Nat.not_lt.mpr hle)
  · constructor
    · intro hp
      have heq := List.inj_on_of_nodup_map (List.nodup_append.mp h.distinct).2.1 hp hanswered rfl
      cases heq
      exact hturn
    · intro hturn'
      rw [hturn'.unique hturn]
      exact hanswered

/-- **One client a service.** -/
theorem Fifo.answers_unique (h : q.Fifo) {who who' : ι} {p : ℕ} (hwho : (who, p) ∈ q.answered)
    (hwho' : (who', p) ∈ q.answered) : who = who' := by
  have hnodup : (q.answered.map Prod.snd).Nodup := h.ordered.imp fun hlt => Nat.ne_of_lt hlt
  cases List.inj_on_of_nodup_map hnodup hwho hwho' rfl
  rfl

end Queue

end MatchQueue
