/-
A broadcast channel that keeps a bounded number of values.

Every value goes to every receiver; a receiver that falls more than `capacity`
values behind is told how many it lost and goes on with the oldest value still
kept:

* `recv_eq_some` — one delivery accounts for exactly the values it moves past;
* `Accounts` — a list of deliveries explains a run of the sent values: each
  value stands where it was sent, each gap where its values are missing;
* `places` — the positions at which the delivered values were sent.  They
  increase (`places_sortedLT`), so any two receivers see the values that both
  receive in the same order (`filter_mem_places_comm`).
-/
import Mathlib.Algebra.Order.Ring.Nat
import Mathlib.Data.List.Sort

namespace Broadcast

variable {α : Type*}

/-- All values sent so far, oldest first; the last `capacity` of them are kept. -/
structure Channel (α : Type*) where
  capacity : ℕ
  sent : List α
  deriving DecidableEq, Repr

/-- What a receiver gets: a value, or the number of values it has lost. -/
inductive Delivery (α : Type*) where
  | value (a : α)
  | lagged (skipped : ℕ)
  deriving DecidableEq, Repr

/-- Without a receiver the value is handed back. -/
def Channel.send (ch : Channel α) (receivers : ℕ) (a : α) : Except α (Channel α) :=
  if receivers = 0 then .error a else .ok { ch with sent := ch.sent ++ [a] }

/-- A new receiver, given by the position of the next value it expects: it gets
what is sent from now on. -/
def Channel.subscribe (ch : Channel α) : ℕ := ch.sent.length

/-- The next delivery to the receiver at position `next`, with its new
position; `none` when it has to wait. -/
def Channel.recv (ch : Channel α) (next : ℕ) : Option (Delivery α × ℕ) :=
  if next + ch.capacity < ch.sent.length then
    some (.lagged (ch.sent.length - ch.capacity - next), ch.sent.length - ch.capacity)
  else
    ch.sent[next]?.map fun a => (.value a, next + 1)

/-- The number of sent values a delivery moves past. -/
def Delivery.span : Delivery α → ℕ
  | .value _ => 1
  | .lagged skipped => skipped

def consumed (ds : List (Delivery α)) : ℕ := (ds.map Delivery.span).sum

@[simp] theorem consumed_nil : consumed ([] : List (Delivery α)) = 0 := rfl

@[simp] theorem consumed_append (ds ds' : List (Delivery α)) :
    consumed (ds ++ ds') = consumed ds + consumed ds' := by simp [consumed]

@[simp] theorem consumed_singleton (d : Delivery α) : consumed [d] = d.span := by
  simp [consumed]

/-- The values among the deliveries. -/
def values : List (Delivery α) → List α
  | [] => []
  | .value a :: ds => a :: values ds
  | .lagged _ :: ds => values ds

/-- A delivery as one message, where a gap of `k` values is told as `gap k`. -/
def Delivery.fill (gap : ℕ → α) : Delivery α → α
  | .value a => a
  | .lagged skipped => gap skipped

/-- Without a gap nothing is filled in. -/
theorem map_fill_eq_values (gap : ℕ → α) {ds : List (Delivery α)} (hgap : ∀ k, .lagged k ∉ ds) :
    ds.map (Delivery.fill gap) = values ds := by
  induction ds with
  | nil => rfl
  | cons d ds ih =>
    cases d with
    | value a => exact congrArg (a :: ·) (ih fun k hk => hgap k (List.mem_cons_of_mem _ hk))
    | lagged k => exact absurd List.mem_cons_self (hgap k)

/-! ### Accounting -/

/-- The deliveries explain the values `msgs`: in their order, without a value
too many or too few, up to the announced gaps. -/
inductive Accounts : List (Delivery α) → List α → Prop
  | nil : Accounts [] []
  | value {ds : List (Delivery α)} {msgs : List α} (a : α) :
      Accounts ds msgs → Accounts (.value a :: ds) (a :: msgs)
  | lagged {ds : List (Delivery α)} {msgs : List α} (gap : List α) :
      Accounts ds msgs → Accounts (.lagged gap.length :: ds) (gap ++ msgs)

theorem Accounts.append {ds ds' : List (Delivery α)} {msgs msgs' : List α}
    (h : Accounts ds msgs) (h' : Accounts ds' msgs') :
    Accounts (ds ++ ds') (msgs ++ msgs') := by
  induction h with
  | nil => exact h'
  | value a _ ih => exact .value a ih
  | lagged gap _ ih =>
    rw [List.append_assoc]
    exact .lagged gap ih

/-- Without a gap the values are all there. -/
theorem Accounts.values_eq {ds : List (Delivery α)} {msgs : List α} (h : Accounts ds msgs)
    (hgap : ∀ k, .lagged k ∉ ds) : values ds = msgs := by
  induction h with
  | nil => rfl
  | value a _ ih =>
    rw [values, ih fun k hk => hgap k (List.mem_cons_of_mem _ hk)]
  | lagged gap _ ih => exact absurd List.mem_cons_self (hgap gap.length)

theorem Accounts.mem {ds : List (Delivery α)} {msgs : List α} (h : Accounts ds msgs) {a : α}
    (ha : .value a ∈ ds) : a ∈ msgs := by
  induction h with
  | nil => exact absurd ha List.not_mem_nil
  | value b _ ih =>
    rcases List.mem_cons.mp ha with hab | ha
    · exact Delivery.value.inj hab ▸ List.mem_cons_self
    · exact List.mem_cons_of_mem _ (ih ha)
  | lagged gap _ ih =>
    rcases List.mem_cons.mp ha with hab | ha
    · exact absurd hab (by simp)
    · exact List.mem_append_right _ (ih ha)

/-- Nothing is delivered more often than it was sent. -/
theorem Accounts.count_le [DecidableEq α] {ds : List (Delivery α)} {msgs : List α}
    (h : Accounts ds msgs) (a : α) : ds.count (.value a) ≤ msgs.count a := by
  induction h with
  | nil => exact Nat.le_refl 0
  | value b _ ih =>
    simp only [List.count_cons, beq_iff_eq, Delivery.value.injEq]
    exact Nat.add_le_add_right ih _
  | lagged gap _ ih =>
    rw [List.count_cons_of_ne (by simp), List.count_append]
    exact ih.trans (Nat.le_add_left _ _)

/-- What is not delivered is in a gap. -/
theorem Accounts.mem_or_lagged {ds : List (Delivery α)} {msgs : List α} (h : Accounts ds msgs)
    {a : α} (ha : a ∈ msgs) : .value a ∈ ds ∨ ∃ k, .lagged k ∈ ds := by
  induction h with
  | nil => cases ha
  | value b _ ih =>
    rcases List.mem_cons.mp ha with rfl | ha
    · exact .inl List.mem_cons_self
    · rcases ih ha with hvalue | ⟨k, hk⟩
      · exact .inl (List.mem_cons_of_mem _ hvalue)
      · exact .inr ⟨k, List.mem_cons_of_mem _ hk⟩
  | lagged gap _ _ => exact .inr ⟨gap.length, List.mem_cons_self⟩

/-- **One delivery.**  It moves the receiver forward by its span, within what
has been sent, and accounts for the values it moves past. -/
theorem recv_eq_some {ch : Channel α} {next next' : ℕ} {d : Delivery α}
    (h : ch.recv next = some (d, next')) :
    next' = next + d.span ∧ next' ≤ ch.sent.length ∧
      Accounts [d] ((ch.sent.drop next).take d.span) := by
  unfold Channel.recv at h
  split at h
  · rename_i hlag
    obtain ⟨rfl, rfl⟩ := Prod.mk.inj (Option.some_inj.mp h)
    refine ⟨by simp only [Delivery.span]; omega, by omega, ?_⟩
    set gap := (ch.sent.drop next).take (ch.sent.length - ch.capacity - next) with hgap
    have hlen : gap.length = ch.sent.length - ch.capacity - next := by
      rw [hgap, List.length_take, List.length_drop]
      omega
    have hacc := Accounts.lagged gap (.nil (α := α))
    rw [List.append_nil, hlen] at hacc
    exact hacc
  · obtain ⟨a, ha, hd⟩ := Option.map_eq_some_iff.mp h
    obtain ⟨rfl, rfl⟩ := Prod.mk.inj hd
    obtain ⟨hlt, hget⟩ := List.getElem?_eq_some_iff.mp ha
    refine ⟨rfl, hlt, ?_⟩
    rw [List.drop_eq_getElem_cons hlt, hget]
    exact .value a .nil

theorem recv_eq_none {ch : Channel α} {next : ℕ} (h : ch.recv next = none) :
    ch.sent.length ≤ next := by
  unfold Channel.recv at h
  split at h
  · exact absurd h (by simp)
  · exact List.getElem?_eq_none_iff.mp (Option.map_eq_none_iff.mp h)

/-! ### Positions -/

/-- The positions of the delivered values, for deliveries that begin at
position `p`. -/
def places : ℕ → List (Delivery α) → List ℕ
  | _, [] => []
  | p, .value _ :: ds => p :: places (p + 1) ds
  | p, .lagged skipped :: ds => places (p + skipped) ds

theorem places_sublist_range' : ∀ (ds : List (Delivery α)) (p : ℕ),
    (places p ds).Sublist (List.range' p (consumed ds)) := by
  intro ds
  induction ds with
  | nil => intro p; exact List.nil_sublist _
  | cons d ds ih =>
    intro p
    cases d with
    | value a =>
      have hc : consumed (.value a :: ds) = consumed ds + 1 := by
        simp only [consumed, List.map_cons, List.sum_cons, Delivery.span]
        omega
      rw [hc, List.range'_succ]
      exact (ih (p + 1)).cons_cons p
    | lagged k =>
      have hc : consumed (.lagged k :: ds) = k + consumed ds := by
        simp only [consumed, List.map_cons, List.sum_cons, Delivery.span]
      rw [hc, ← List.range'_append_1]
      exact (ih (p + k)).trans (List.sublist_append_right _ _)

theorem places_sortedLT (ds : List (Delivery α)) (p : ℕ) : (places p ds).SortedLT :=
  ((List.pairwise_lt_range' (n := consumed ds)).sublist (places_sublist_range' ds p)).sortedLT

/-- **Same order.**  The positions that two receivers have in common come in
the same order for both. -/
theorem filter_mem_places_comm (ds ds' : List (Delivery α)) (p p' : ℕ) :
    (places p ds).filter (· ∈ places p' ds') = (places p' ds').filter (· ∈ places p ds) := by
  refine List.SortedLT.eq_of_mem_iff ?_ ?_ ?_
  · exact ((places_sortedLT ds p).pairwise.filter _).sortedLT
  · exact ((places_sortedLT ds' p').pairwise.filter _).sortedLT
  · intro n
    simp only [List.mem_filter, decide_eq_true_eq]
    exact and_comm

/-- The delivered values are the ones sent at their positions. -/
theorem map_getElem?_places {ds : List (Delivery α)} {msgs : List α}
    (h : Accounts ds msgs) : ∀ {all : List α} {p : ℕ}, msgs <+: all.drop p →
      (places p ds).map (all[·]?) = (values ds).map some := by
  induction h with
  | nil => intro all p _; rfl
  | @value ds msgs a _ ih =>
    rintro all p ⟨rest, hrest⟩
    have hp : all[p]? = some a := by
      rw [← List.head?_drop, ← hrest]
      rfl
    have htail : all.drop (p + 1) = msgs ++ rest := by
      rw [← List.tail_drop, ← hrest]
      rfl
    simp only [places, values, List.map_cons, hp]
    rw [ih ⟨rest, htail.symm⟩]
  | @lagged ds msgs gap _ ih =>
    rintro all p ⟨rest, hrest⟩
    -- a gap moves the position and delivers nothing
    have htail : all.drop (p + gap.length) = msgs ++ rest := by
      rw [← List.drop_drop, ← hrest, List.append_assoc, List.drop_left]
    simp only [places, values]
    exact ih ⟨rest, htail.symm⟩

theorem filterMap_getElem?_range' (all : List α) : ∀ (n p : ℕ),
    (List.range' p n).filterMap (all[·]?) = (all.drop p).take n := by
  intro n
  induction n with
  | zero => intro p; simp
  | succ n ih =>
    intro p
    rw [List.range'_succ]
    by_cases hp : p < all.length
    · rw [List.filterMap_cons_some (List.getElem?_eq_getElem hp), ih,
        List.drop_eq_getElem_cons hp, List.take_succ_cons]
    · rw [List.filterMap_cons_none (List.getElem?_eq_none_iff.mpr (by omega)), ih,
        List.drop_eq_nil_of_le (by omega), List.drop_eq_nil_of_le (by omega)]
      simp

/-- What is found at the positions of deliveries, in whatever the channel is
tagged with, is a part of all of it, in order. -/
theorem filterMap_places_sublist {β γ : Type*} (ds : List (Delivery α)) (p : ℕ)
    (all : List β) (f : β → Option γ) :
    ((places p ds).filterMap fun n => all[n]?.bind f).Sublist (all.filterMap f) := by
  have hsub := (places_sublist_range' ds p).filterMap (all[·]?)
  rw [filterMap_getElem?_range'] at hsub
  have hall : ((places p ds).filterMap (all[·]?)).Sublist all :=
    hsub.trans ((List.take_sublist _ _).trans (List.drop_sublist _ _))
  have := hall.filterMap f
  rwa [List.filterMap_filterMap] at this

end Broadcast
