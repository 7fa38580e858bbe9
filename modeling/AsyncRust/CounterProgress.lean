/-
The futures that share a counter come to their end, and do all that a tally can.

* `Inv.progress` — as long as a party has not returned, some step brings the parties nearer
  to it: the holder of the lock goes on, or anybody if there is none;
* `performs` — when nobody has the lock, any party with an operation left can be the next to
  perform one;
* `counter_refines` — every run of the parties is one of the tally, and the other way round.
-/
import AsyncRust.SharedCounter

namespace SharedCounter

open Runs Lists

/-- What a party has still to do in its round. -/
def Phase.left : Phase → ℕ
  | .suspended => 7
  | .looping => 6
  | .waiting => 5
  | .locked => 4
  | .loaded _ => 3
  | .stored => 2
  | .released => 1
  | .returned _ => 0

/-- What a party has still to do. -/
def Party.left (p : Party) : ℕ := 8 * (3 - p.count) + p.phase.left

def Phase.isReturned : Phase → Bool
  | .returned _ => true
  | _ => false

namespace State

variable {s s' : State} {i j : ℕ} {p p' q : Party} {e : Event} {types : List CounterType}
  {parties : List Party}

def left (s : State) : ℕ := (s.parties.map Party.left).sum

/-- Whoever has the lock or is in line for it is one of the parties; only a `CounterFuture`
polls without waiting. -/
structure Placed (s : State) : Prop where
  holder : ∀ i, s.holder = some i → i < s.parties.length
  waiters : ∀ i ∈ s.waiters, i < s.parties.length
  body : ∀ p ∈ s.parties, p.body = .counterFuture → p.phase ≠ .looping ∧ p.phase ≠ .waiting

theorem Placed.update {holder : Option ℕ} {waiters : List ℕ} {counter : Int32} (h : s.Placed)
    (hp : s.parties[i]? = some p) (hholder : holder = s.holder ∨ holder = some i ∨ holder = none)
    (hwaiters : ∀ k ∈ waiters, k = i ∨ k ∈ s.waiters)
    (hbody : p'.body = .counterFuture → p'.phase ≠ .looping ∧ p'.phase ≠ .waiting) :
    (State.mk counter holder waiters (s.parties.set i p')).Placed := by
  have hi := (List.getElem?_eq_some_iff.mp hp).1
  refine ⟨fun k hk => ?_, fun k hk => ?_, fun q hq => ?_⟩
  · rw [List.length_set]
    rcases hholder with rfl | rfl | rfl
    · exact h.holder k hk
    · exact Option.some_inj.mp hk ▸ hi
    · cases hk
  · rw [List.length_set]
    rcases hwaiters k hk with rfl | hk
    · exact hi
    · exact h.waiters k hk
  · rcases List.mem_or_eq_of_mem_set hq with hq | rfl
    · exact h.body q hq
    · exact hbody

theorem Placed.move (h : s.Placed) (hp : s.parties[i]? = some p) (hmove : Move s i p s') :
    s'.Placed := by
  have hbody := h.body p (List.mem_of_getElem? hp)
  have hsame : ∀ k ∈ s.waiters, k = i ∨ k ∈ s.waiters := fun _ => .inr
  cases hmove with
  | started hcount =>
    exact h.update hp (.inl rfl) hsame fun hfuture => by cases hcount.symm.trans hfuture
  | refused | loaded | stored | yielded | ready | finished =>
    refine h.update hp (.inl rfl) hsame fun hfuture => ?_
    first | exact hbody hfuture | simp
  | looped hcount =>
    exact h.update hp (.inl rfl) hsame fun hfuture => by cases hcount.symm.trans hfuture
  | acquired => exact h.update hp (.inr (.inl rfl)) hsame (by simp)
  | queued hphase =>
    refine h.update hp (.inl rfl) (fun k hk => ?_) fun hfuture => ?_
    · split at hk
      · exact .inr hk
      · rcases List.mem_append.mp hk with hk | hk
        · exact .inr hk
        · exact .inl (List.mem_singleton.mp hk)
    · rcases hphase with ⟨-, hphase⟩ | hphase
      · exact absurd hphase (hbody hfuture).1
      · exact absurd hphase (hbody hfuture).2
  | freed => exact h.update hp (.inr (.inr rfl)) hsame (by simp)
  | @handed j q hphase hj hq =>
    have hreleased : (s.update i { p with phase := .released }).Placed :=
      h.update hp (.inl rfl) hsame (by simp)
    exact hreleased.update hq (.inr (.inl rfl)) (fun k hk => .inr (List.mem_of_mem_erase hk))
      (hreleased.body q (List.mem_of_getElem? hq))

theorem placed_of_reachable (h : ∀ p ∈ parties, Spawned p)
    (hs : Reachable step (new parties) s) : s.Placed := by
  refine hs.invariant ⟨by simp [new], by simp [new], fun p hp _ => ?_⟩ fun _ _ _ _ ht hstep => ?_
  · rcases h p hp with hp | hp <;> rw [hp] <;> simp [Party.new]
  · obtain ⟨i, p, hp, hmove⟩ := step_cases hstep
    exact ht.move hp hmove

/-! ### Progress -/

@[simp] theorem step_turn (hp : s.parties[i]? = some p) : s.step (.turn i) = s.turn i p := by
  rw [step, hp, Option.bind_some]

theorem left_update_lt (hp : s.parties[i]? = some p) (hlt : p'.left < p.left) :
    ((s.parties.set i p').map Party.left).sum < s.left :=
  sum_map_set_lt hp hlt

/-- The holder of the lock goes on. -/
theorem Inv.holder_progress (h : s.Inv types) (hplaced : s.Placed) (hholder : s.holder = some i) :
    ∃ e s', s.step e = some s' ∧ s'.left < s.left := by
  obtain ⟨p, hp⟩ : ∃ p, s.parties[i]? = some p :=
    ⟨_, List.getElem?_eq_getElem (hplaced.holder i hholder)⟩
  rcases (h.fits i p hp).holder_iff.mp hholder with hsection | ⟨hphase, -⟩
  · cases hphase : p.phase with
    | locked =>
      refine ⟨.turn i, s.update i { p with phase := .loaded s.counter }, ?_, ?_⟩
      · rw [step_turn hp, turn, hphase]
      · exact left_update_lt hp (by simp [Party.left, Phase.left, hphase])
    | loaded counter =>
      refine ⟨.turn i, _, by rw [step_turn hp, turn, hphase], ?_⟩
      exact left_update_lt hp (by simp [Party.left, Phase.left, hphase])
    | stored =>
      have hlt : Party.left { p with phase := .released } < p.left := by
        simp [Party.left, Phase.left, hphase]
      have hdrop : ∀ next, s.step (.drop i next) = s.drop i p next := fun next => by
        rw [step, hp, Option.bind_some, if_pos hphase]
      cases hwaiters : s.waiters with
      | nil =>
        refine ⟨.drop i none, { s.update i { p with phase := .released } with holder := none }, ?_,
          left_update_lt hp hlt⟩
        rw [hdrop, State.drop]
        simp [hwaiters]
      | cons j rest =>
        have hj : j ∈ s.waiters := hwaiters ▸ List.mem_cons_self
        obtain ⟨q, hq⟩ : ∃ q, (s.update i { p with phase := .released }).parties[j]? = some q :=
          ⟨_, List.getElem?_eq_getElem ((hplaced.waiters j hj).trans_eq (List.length_set ..).symm)⟩
        refine ⟨.drop i (some j), { s.update i { p with phase := .released } with
          holder := some j, waiters := s.waiters.erase j }.update j { q with woken := true },
          ?_, ?_⟩
        · rw [hdrop, State.drop]
          simp only [hj, if_true, hq, Option.map_some]
        · -- who is woken has as much to do as before
          have hsame : (((s.parties.set i { p with phase := .released }).set j
              { q with woken := true }).map Party.left) =
                (s.parties.set i { p with phase := .released }).map Party.left :=
            map_set_eq hq rfl
          exact (congrArg List.sum hsame).trans_lt (left_update_lt hp hlt)
    | suspended | looping | waiting | released | returned value =>
      rw [hphase] at hsection
      cases hsection
  · -- it was handed the lock, and takes it
    rcases (h.counts i p hp).body with hbody | hbody
    · exact absurd hphase (hplaced.body p (List.mem_of_getElem? hp) hbody).2
    · refine ⟨.turn i, { s with holder := some i }.update i
        { p with phase := .locked, woken := false }, ?_, ?_⟩
      · rw [step_turn hp, turn, hphase]
        simp [hbody, lock, hholder]
      · exact left_update_lt hp (by simp [Party.left, Phase.left, hphase])

/-- When nobody has the lock, a party is neither in line for it nor has it. -/
theorem Inv.aside_of_free (h : s.Inv types) (hfree : s.holder = none)
    (hp : s.parties[i]? = some p) : p.phase.isAside = true := by
  have hnot : ¬ (p.phase.inSection = true ∨ p.phase = .waiting ∧ i ∉ s.waiters) := fun hor =>
    absurd (hfree.symm.trans ((h.fits i p hp).holder_iff.mpr hor)) (by simp)
  rw [h.free hfree] at hnot
  cases hphase : p.phase with
  | suspended | looping | released | returned value => rfl
  | locked | loaded counter | stored => exact absurd (.inl (by rw [hphase]; rfl)) hnot
  | waiting => exact absurd (.inr ⟨hphase, List.not_mem_nil⟩) hnot

/-- When nobody has the lock, any party that has not returned goes on. -/
theorem Inv.free_progress (h : s.Inv types) (hplaced : s.Placed) (hfree : s.holder = none)
    (hp : s.parties[i]? = some p) (hleft : p.phase.isReturned = false) :
    ∃ e s', s.step e = some s' ∧ s'.left < s.left := by
  have haside := h.aside_of_free hfree hp
  have hcounts := h.counts i p hp
  have hbounds := hcounts.bounds
  refine ⟨.turn i, ?_⟩
  rw [step_turn hp]
  cases hphase : p.phase <;> rw [hphase] at haside hleft hbounds
  case locked | loaded | stored | waiting => cases haside
  case returned => cases hleft
  case suspended =>
    rcases hcounts.body with hbody | hbody
    · refine ⟨_, by simp only [turn, hphase, hbody, tryLock, hfree, if_true]; rfl, ?_⟩
      exact left_update_lt hp (by simp [Party.left, Phase.left, hphase])
    · refine ⟨_, by simp only [turn, hphase, hbody]; rfl, ?_⟩
      exact left_update_lt hp (by simp [Party.left, Phase.left, hphase])
  case looping =>
    rcases hcounts.body with hbody | hbody
    · exact absurd hphase (hplaced.body p (List.mem_of_getElem? hp) hbody).1
    · by_cases hlt : p.count < 3
      · refine ⟨_, by simp only [turn, hphase, hbody, hlt, if_true, lock, hfree, true_or]; rfl, ?_⟩
        exact left_update_lt hp (by simp [Party.left, Phase.left, hphase])
      · refine ⟨_, by simp only [turn, hphase, hbody, hlt, if_false]; rfl, ?_⟩
        exact left_update_lt hp (by simp [Party.left, Phase.left, hphase])
  case released =>
    -- the round is over
    have hround : p.count < 3 := hbounds
    rcases hcounts.body with hbody | hbody
    · by_cases hlt : p.count + 1 < 3
      · refine ⟨_, by simp only [turn, hphase, hbody, hlt, if_true]; rfl, ?_⟩
        exact left_update_lt hp (by simp only [Party.left, Phase.left, hphase]; omega)
      · refine ⟨_, by simp only [turn, hphase, hbody, hlt, if_false]; rfl, ?_⟩
        exact left_update_lt hp (by simp only [Party.left, Phase.left, hphase]; omega)
    · refine ⟨_, by simp only [turn, hphase, hbody]; rfl, ?_⟩
      exact left_update_lt hp (by simp only [Party.left, Phase.left, hphase]; omega)

/-- **Progress**, as long as somebody has not returned. -/
theorem Inv.progress (h : s.Inv types) (hplaced : s.Placed)
    (hleft : ∃ p ∈ s.parties, p.phase.isReturned = false) :
    ∃ e s', s.step e = some s' ∧ s'.left < s.left := by
  cases hholder : s.holder with
  | some i => exact h.holder_progress hplaced hholder
  | none =>
    obtain ⟨p, hmem, hp⟩ := hleft
    obtain ⟨i, hi⟩ := List.mem_iff_getElem?.mp hmem
    exact h.free_progress hplaced hholder hi hp

/-- From every state some run leads to the end, where all have returned. -/
theorem completes (hspawned : ∀ p ∈ parties, Spawned p) (hfew : 3 * parties.length < 2 ^ 31)
    (hs : Reachable step (new parties) s) :
    ∃ s', Reachable step s s' ∧ ∀ p ∈ s'.parties, p.phase = .returned 3 := by
  have hprogress : ∀ t, Reachable step (new parties) t →
      ¬ (∀ p ∈ t.parties, p.phase.isReturned = true) →
        ∃ t', Reachable step t t' ∧ Reachable step (new parties) t' ∧ t'.left < t.left := by
    intro t ht hnot
    have hleft : ∃ p ∈ t.parties, p.phase.isReturned = false := by
      by_contra hall
      refine hnot fun p hp => Bool.not_eq_false _ ▸ fun hp' => hall ⟨p, hp, hp'⟩
    obtain ⟨e, t', hstep, hlt⟩ := (inv_of_reachable hspawned hfew ht).progress
      (placed_of_reachable hspawned ht) hleft
    exact ⟨t', (Reachable.refl t).tail hstep, ht.tail hstep, hlt⟩
  obtain ⟨s', hreach, hs', hdone⟩ := exists_done_of_progress left hprogress hs
  refine ⟨s', hreach, fun p hp => ?_⟩
  obtain ⟨i, hi⟩ := List.mem_iff_getElem?.mp hp
  have hbounds := ((inv_of_reachable hspawned hfew hs').counts i p hi).bounds
  have hreturned := hdone p hp
  cases hphase : p.phase <;> rw [hphase] at hreturned hbounds
  case returned value => rw [hbounds.1]
  all_goals cases hreturned

/-! ### The operations of a tally -/

/-- The holder of the lock, with nobody in line, performs its operation and drops the guard. -/
theorem run_locked (hp : s.parties[i]? = some p) (hphase : p.phase = .locked)
    (hnobody : s.waiters = []) :
    run step s [.turn i, .turn i, .drop i none] = some
      { s with
        counter := p.counterType.apply s.counter
        holder := none
        parties := s.parties.set i
          { p with phase := .released, completed := p.completed + 1 } } := by
  obtain ⟨hi, rfl⟩ := List.getElem?_eq_some_iff.mp hp
  simp [run, step, turn, State.drop, State.update, hphase, hnobody, hi]

/-- When nobody has the lock, a party with an operation left can take it. -/
theorem Inv.takes (h : s.Inv types) (hplaced : s.Placed) (hfree : s.holder = none)
    (hp : s.parties[i]? = some p) (hlt : p.completed < 3) :
    ∃ es p', p'.phase = .locked ∧ p'.counterType = p.counterType ∧
      p'.completed = p.completed ∧
      run step s es = some { s with holder := some i, parties := s.parties.set i p' } := by
  have haside := h.aside_of_free hfree hp
  have hcounts := h.counts i p hp
  have hbounds := hcounts.bounds
  have hcompleted := hcounts.completed
  have hwaits := hplaced.body p (List.mem_of_getElem? hp)
  obtain ⟨hi, rfl⟩ := List.getElem?_eq_some_iff.mp hp
  cases hphase : s.parties[i].phase <;> rw [hphase] at haside hbounds hcompleted
  case locked | loaded | stored | waiting => cases haside
  case returned value =>
    have hthree : s.parties[i].completed = 3 := hcompleted.trans hbounds.2
    omega
  case suspended =>
    rcases hcounts.body with hbody | hbody
    · refine ⟨[.turn i], { s.parties[i] with phase := .locked, woken := false }, rfl, rfl, rfl, ?_⟩
      simp [run, step, turn, tryLock, State.update, hphase, hbody, hfree, hi]
    · refine ⟨[.turn i, .turn i], { s.parties[i] with phase := .locked, woken := false },
        rfl, rfl, rfl, ?_⟩
      have hcount : s.parties[i].count < 3 := hbounds
      simp [run, step, turn, lock, State.update, hphase, hbody, hfree, hi, hcount]
  case looping =>
    rcases hcounts.body with hfuture | hbody
    · exact absurd hphase (hwaits hfuture).1
    · refine ⟨[.turn i], { s.parties[i] with phase := .locked, woken := false },
        rfl, rfl, rfl, ?_⟩
      have hcount : s.parties[i].count < 3 := hcompleted.symm.trans_lt hlt
      simp [run, step, turn, lock, State.update, hphase, hbody, hfree, hi, hcount]
  case released =>
    -- the round before is to be counted first
    have hcount : s.parties[i].count + 1 < 3 := hcompleted.symm.trans_lt hlt
    refine ⟨[.turn i, .turn i], { s.parties[i] with
      count := s.parties[i].count + 1, phase := .locked, woken := false }, rfl, rfl, rfl, ?_⟩
    rcases hcounts.body with hbody | hbody
    · simp [run, step, turn, tryLock, State.update, hphase, hbody, hfree, hi, hcount]
    · simp [run, step, turn, lock, State.update, hphase, hbody, hfree, hi, hcount]

/-- **Any operation can be the next** when nobody has the lock. -/
theorem performs (hspawned : ∀ p ∈ parties, Spawned p) (hfew : 3 * parties.length < 2 ^ 31)
    (hs : Reachable step (new parties) s) (hfree : s.holder = none) {t : Tally}
    (ht : s.tally.step i = some t) :
    ∃ s', Reachable step s s' ∧ s'.holder = none ∧ s'.tally = t := by
  have hinv := inv_of_reachable hspawned hfew hs
  obtain ⟨⟨type, n⟩, hd, hn⟩ := Option.bind_eq_some_iff.mp ht
  simp only at hn
  split at hn
  case isFalse => cases hn
  case isTrue hlt =>
    obtain ⟨p, hp, hdone⟩ := Option.map_eq_some_iff.mp ((List.getElem?_map ..).symm.trans hd)
    obtain ⟨rfl, rfl⟩ := Prod.mk.inj hdone
    obtain ⟨es, p', hphase, htype, hcompleted, htakes⟩ :=
      hinv.takes (placed_of_reachable hspawned hs) hfree hp hlt
    have hi := (List.getElem?_eq_some_iff.mp hp).1
    have hlocked := run_locked (s := { s with holder := some i, parties := s.parties.set i p' })
      (List.getElem?_set_self hi) hphase (hinv.free hfree)
    have hreach : Reachable step s _ := Reachable.trans ⟨es, htakes⟩ ⟨_, hlocked⟩
    refine ⟨_, hreach, rfl, ?_⟩
    -- on both sides the counter is the total of what was done
    have hvalue := (inv_of_reachable hspawned hfew (hs.trans hreach)).tally.value
    have htotal := (hinv.tally.step ht).value
    cases hn
    refine congrArg₂ Tally.mk (hvalue.trans (Eq.trans ?_ htotal.symm)) ?_
    · simp [tally, List.set_set, List.map_set, htype, hcompleted]
    · simp [tally, List.set_set, List.map_set, htype, hcompleted]

/-- Whatever a tally goes on to do, the parties can do. -/
theorem performs_run (hspawned : ∀ p ∈ parties, Spawned p) (hfew : 3 * parties.length < 2 ^ 31)
    (hs : Reachable step (new parties) s) (hfree : s.holder = none) {t : Tally}
    (ht : Reachable Tally.step s.tally t) :
    ∃ s', Reachable step s s' ∧ s'.holder = none ∧ s'.tally = t := by
  refine ht.invariant (I := fun t => ∃ s', Reachable step s s' ∧ s'.holder = none ∧ s'.tally = t)
    ⟨s, .refl s, hfree, rfl⟩ fun _ i t' _ hu hstep => ?_
  obtain ⟨u, hreach, hfree', rfl⟩ := hu
  obtain ⟨s', hreach', hlast⟩ := performs hspawned hfew (hs.trans hreach) hfree' hstep
  exact ⟨s', hreach.trans hreach', hlast⟩

/-- **The two are equivalent.**  In every run of `CounterFuture`s and tasks of `count`, the
counter is what the parties have done; who has returned has done three operations; a poll
that finds the lock taken changes nothing; and who has returned `Pending` will be woken.
All can come to their end.  The run is one of the tally, which does not tell the two kinds
apart, and whatever the tally goes on to do, the parties can do. -/
theorem counter_refines (hspawned : ∀ p ∈ parties, Spawned p)
    (hfew : 3 * parties.length < 2 ^ 31) (hs : Reachable step (new parties) s) :
    s.counter.toInt = (s.parties.map fun p => p.counterType.sign * (p.completed : ℤ)).sum ∧
      (∀ (i : ℕ) p value, s.parties[i]? = some p → p.phase = .returned value →
        value = 3 ∧ p.completed = value) ∧
      (∀ (i : ℕ) p s', s.parties[i]? = some p →
        p.phase = .suspended ∨ p.phase = .looping ∨ p.phase = .waiting →
        s.holder ≠ none → s.holder ≠ some i → s.turn i p = some s' →
          s'.counter = s.counter ∧ s'.holder = s.holder ∧
            (s'.parties.map fun p => (p.count, p.completed)) =
              s.parties.map fun p => (p.count, p.completed)) ∧
      (∀ (i : ℕ) p, s.parties[i]? = some p → p.phase = .suspended ∨ p.phase = .waiting →
        p.woken = true ∨ i ∈ s.waiters) ∧
      (∃ s', Reachable step s s' ∧ ∀ p ∈ s'.parties, p.phase = .returned 3) ∧
      Reachable Tally.step (.new (parties.map Party.counterType)) s.tally ∧
      (s.holder = none → ∀ t, Reachable Tally.step s.tally t →
        ∃ s', Reachable step s s' ∧ s'.holder = none ∧ s'.tally = t) := by
  have hinv := inv_of_reachable hspawned hfew hs
  refine ⟨?_, fun i p value hp hphase => ?_, fun i p s' => turn_of_taken, fun i p hp hphase => ?_,
    completes hspawned hfew hs, hinv.refines,
    fun hfree _ ht => performs_run hspawned hfew hs hfree ht⟩
  · have hvalue := hinv.tally.value
    rw [Tally.total, State.tally, List.map_map] at hvalue
    exact hvalue
  · have hcounts := hinv.counts i p hp
    have hbounds := hcounts.bounds
    have hcompleted := hcounts.completed
    rw [hphase] at hbounds hcompleted
    obtain ⟨rfl, hcount⟩ := hbounds
    exact ⟨rfl, hcompleted.trans hcount⟩
  · by_cases hqueued : i ∈ s.waiters
    · exact .inr hqueued
    · exact .inl ((hinv.fits i p hp).woken (hphase.imp_right fun hwaiting => ⟨hwaiting, hqueued⟩))

/-- A future and a task, which has to wait for the first operation of the future. -/
def twoParties : List Party := [.new .counterFuture .increment, .new (.count 3) .decrement]

theorem counter_refines_two :
    ∃ s, run step (new twoParties)
        [.turn 0, .turn 1, .turn 1, .turn 0, .turn 0, .drop 0 (some 1), .turn 0] = some s ∧
      s.holder = some 1 ∧ s.counter = 1 ∧
      s.counter.toInt = (s.parties.map fun p => p.counterType.sign * (p.completed : ℤ)).sum ∧
      ∃ s', Reachable step s s' ∧ ∀ p ∈ s'.parties, p.phase = .returned 3 := by
  have hrun : (run step (new twoParties)
      [.turn 0, .turn 1, .turn 1, .turn 0, .turn 0, .drop 0 (some 1), .turn 0]).map
        (fun s => (s.holder, s.counter)) = some (some 1, 1) := by decide
  obtain ⟨s, hs, hfacts⟩ := Option.map_eq_some_iff.mp hrun
  obtain ⟨hholder, hcounter⟩ := Prod.mk.inj hfacts
  have hspawned : ∀ p ∈ twoParties, Spawned p := by simp [twoParties, Spawned, Party.new]
  obtain ⟨hvalue, -, -, -, hend, -⟩ := counter_refines hspawned (by decide) ⟨_, hs⟩
  exact ⟨s, hs, hholder, hcounter, hvalue, hend⟩

end State

end SharedCounter
