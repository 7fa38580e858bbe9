/-
Runs of a step function with explicit choices.

A system is a partial step function `step : σ → ε → Option σ`; an event of
type `ε` carries every choice that the program does not make (who is scheduled,
what arrives, which write fails), and `none` means that the event cannot happen
in that state.  So a run is a list of events, and "for every interleaving" is
"for every list of events".

* `run_invariant` — what every step preserves holds at the end of every run;
* `run_history` — the same for what relates a state to the run that has led to it;
* `exists_done_of_progress` — what some run can always make smaller comes to its end;
* `collect` — what is recorded along a run;
* `run_invariant_of_meets` — the same when a step preserves it only under a
  condition on the state before the step and on the event;
* `along_iff_meets` — when breaking the condition once breaks the property,
  the condition is exact: the property holds all along a run iff every step of
  the run meets the condition.
-/
import Mathlib.Data.List.Induction
import Mathlib.Data.Option.Basic

namespace Runs

variable {σ ε : Type*}

/-- The state after the events `es`; `none` when one of them cannot happen. -/
def run (step : σ → ε → Option σ) : σ → List ε → Option σ
  | s, [] => some s
  | s, e :: es => (step s e).bind fun s' => run step s' es

/-- Every step of the run from `s` over `es` meets the condition `ok`; if an event
cannot happen, the run ends before it. -/
def Meets (step : σ → ε → Option σ) (ok : σ → ε → Prop) : σ → List ε → Prop
  | _, [] => True
  | s, e :: es => ∀ s', step s e = some s' → ok s e ∧ Meets step ok s' es

/-- A decidable condition can be checked along a run. -/
instance Meets.decidable (step : σ → ε → Option σ) (ok : σ → ε → Prop)
    [∀ s e, Decidable (ok s e)] : ∀ s es, Decidable (Meets step ok s es)
  | _, [] => isTrue trivial
  | s, e :: es =>
    match h : step s e with
    | none => isTrue fun s' hs' => absurd (h.symm.trans hs') (by simp)
    | some t =>
      have : Decidable (Meets step ok t es) := Meets.decidable step ok t es
      decidable_of_iff (ok s e ∧ Meets step ok t es)
        ⟨fun hok s' hs' => Option.some_inj.mp (h.symm.trans hs') ▸ hok, fun hok => hok t h⟩

/-- The property `P` holds in every state of the run from `s` over `es`. -/
def Along (step : σ → ε → Option σ) (P : σ → Prop) : σ → List ε → Prop
  | s, [] => P s
  | s, e :: es => P s ∧ ∀ s', step s e = some s' → Along step P s' es

instance Along.decidable (step : σ → ε → Option σ) (P : σ → Prop) [∀ s, Decidable (P s)] :
    ∀ s es, Decidable (Along step P s es)
  | s, [] => inferInstanceAs (Decidable (P s))
  | s, e :: es =>
    match h : step s e with
    | none => decidable_of_iff (P s)
        ⟨fun hs => ⟨hs, fun s' hs' => absurd (h.symm.trans hs') (by simp)⟩, fun hall => hall.1⟩
    | some t =>
      have : Decidable (Along step P t es) := Along.decidable step P t es
      decidable_of_iff (P s ∧ Along step P t es)
        ⟨fun hall => ⟨hall.1, fun s' hs' => Option.some_inj.mp (h.symm.trans hs') ▸ hall.2⟩,
          fun hall => ⟨hall.1, hall.2 t h⟩⟩

/-- What `f` finds at the steps of the run from `s` over `es`, in order. -/
def collect {α : Type*} (step : σ → ε → Option σ) (f : σ → ε → Option α) : σ → List ε → List α
  | _, [] => []
  | s, e :: es =>
    match step s e with
    | none => []
    | some s' => (f s e).toList ++ collect step f s' es

/-- Some run leads from `s` to `s'`. -/
def Reachable (step : σ → ε → Option σ) (s s' : σ) : Prop :=
  ∃ es, run step s es = some s'

variable {step : σ → ε → Option σ} {ok ok' : σ → ε → Prop} {P I : σ → Prop}

@[simp] theorem run_nil (s : σ) : run step s [] = some s := rfl

theorem run_cons_eq_some {s s' : σ} {e : ε} {es : List ε} :
    run step s (e :: es) = some s' ↔
      ∃ t, step s e = some t ∧ run step t es = some s' := by
  simp [run, Option.bind_eq_some_iff]

theorem run_append_eq_some {s s' : σ} : ∀ {es es' : List ε},
    run step s (es ++ es') = some s' ↔
      ∃ t, run step s es = some t ∧ run step t es' = some s' := by
  intro es
  induction es generalizing s with
  | nil => simp
  | cons e es ih =>
    intro es'
    rw [List.cons_append, run_cons_eq_some]
    simp only [ih, run_cons_eq_some]
    constructor
    · rintro ⟨t, ht, u, hu, hs'⟩
      exact ⟨u, ⟨t, ht, hu⟩, hs'⟩
    · rintro ⟨u, ⟨t, ht, hu⟩, hs'⟩
      exact ⟨t, ht, u, hu, hs'⟩

theorem Reachable.refl (s : σ) : Reachable step s s := ⟨[], rfl⟩

theorem Reachable.trans {s t u : σ} (h : Reachable step s t) (h' : Reachable step t u) :
    Reachable step s u := by
  obtain ⟨es, hes⟩ := h
  obtain ⟨es', hes'⟩ := h'
  exact ⟨es ++ es', run_append_eq_some.mpr ⟨t, hes, hes'⟩⟩

theorem Reachable.tail {s t u : σ} {e : ε} (h : Reachable step s t)
    (he : step t e = some u) : Reachable step s u :=
  h.trans ⟨[e], by simp [run, he]⟩

/-! ### Invariants -/

/-- What holds at the start and is preserved by every step that meets `ok`
holds at the end of every run whose steps all meet `ok`. -/
theorem run_invariant_of_meets
    (hstep : ∀ s e s', I s → ok s e → step s e = some s' → I s') :
    ∀ {es : List ε} {s s' : σ}, I s → Meets step ok s es →
      run step s es = some s' → I s' := by
  intro es
  induction es with
  | nil =>
    intro s s' hs _ h
    rw [run_nil, Option.some_inj] at h
    exact h ▸ hs
  | cons e es ih =>
    intro s s' hs hok h
    obtain ⟨t, ht, hrun⟩ := run_cons_eq_some.mp h
    obtain ⟨hok, hmeets⟩ := hok t ht
    exact ih (hstep s e t hs hok ht) hmeets hrun

theorem Meets.of_mem : ∀ {es : List ε}, (∀ e ∈ es, ∀ s, ok s e) → ∀ s, Meets step ok s es := by
  intro es
  induction es with
  | nil => exact fun _ _ => trivial
  | cons e es ih =>
    intro h s t _
    exact ⟨h e List.mem_cons_self s, ih (fun e he => h e (List.mem_cons_of_mem _ he)) t⟩

theorem Meets.of_forall (h : ∀ s e, ok s e) (es : List ε) (s : σ) : Meets step ok s es :=
  .of_mem (fun e _ s => h s e) s

theorem run_invariant (hstep : ∀ s e s', I s → step s e = some s' → I s')
    {es : List ε} {s s' : σ} (hs : I s) (h : run step s es = some s') : I s' := by
  have hmeets : Meets step (fun _ _ => True) s es := .of_forall (fun _ _ => trivial) es s
  exact run_invariant_of_meets (fun s e s' hs _ he => hstep s e s' hs he) hs hmeets h

/-- Invariants of reachable states, in the form in which the step lemmas may
use what is already known of reachable states. -/
theorem Reachable.invariant {s s' : σ} (h : Reachable step s s') (hs : I s)
    (hstep : ∀ t e t', Reachable step s t → I t → step t e = some t' → I t') :
    I s' := by
  obtain ⟨es, hes⟩ := h
  have hI : Reachable step s s' ∧ I s' :=
    run_invariant (I := fun t => Reachable step s t ∧ I t)
      (fun t e t' ⟨hr, ht⟩ he => ⟨hr.tail he, hstep t e t' hr ht he⟩)
      ⟨.refl s, hs⟩ hes
  exact hI.2

/-- **Progress.**  If some run makes `left` smaller as long as `done` does not hold, some run
leads to a state in which it does. -/
theorem exists_done_of_progress {done : σ → Prop} (left : σ → ℕ)
    (hprogress : ∀ s, I s → ¬ done s → ∃ s', Reachable step s s' ∧ I s' ∧ left s' < left s)
    {s : σ} (hs : I s) : ∃ s', Reachable step s s' ∧ I s' ∧ done s' := by
  generalize hn : left s = n
  induction n using Nat.strongRecOn generalizing s with
  | _ n ih =>
    by_cases hdone : done s
    · exact ⟨s, .refl s, hs, hdone⟩
    · obtain ⟨t, hreach, ht, hlt⟩ := hprogress s hs hdone
      obtain ⟨s', hreach', hs', hdone'⟩ := ih _ (hn ▸ hlt) ht rfl
      exact ⟨s', hreach.trans hreach', hs', hdone'⟩

/-- Invariants of a state and of the run that has led to it. -/
theorem run_history {J : List ε → σ → Prop} {s : σ} (hnil : J [] s)
    (hstep : ∀ es t e t', run step s es = some t → J es t → step t e = some t' →
      J (es ++ [e]) t') : ∀ {es : List ε} {s' : σ}, run step s es = some s' → J es s' := by
  intro es
  induction es using List.reverseRecOn with
  | nil =>
    intro s' h
    rw [run_nil, Option.some_inj] at h
    exact h ▸ hnil
  | append_singleton es e ih =>
    intro s' h
    obtain ⟨t, ht, hlast⟩ := run_append_eq_some.mp h
    obtain ⟨t', he, hnil⟩ := run_cons_eq_some.mp hlast
    rw [run_nil, Option.some_inj] at hnil
    exact hstep es t e s' ht (ih ht) (hnil ▸ he)

theorem collect_concat {α : Type*} {f : σ → ε → Option α} {e : ε} : ∀ {es : List ε} {s t u : σ},
    run step s es = some t → step t e = some u →
      collect step f s (es ++ [e]) = collect step f s es ++ (f t e).toList := by
  intro es
  induction es with
  | nil =>
    intro s t u h he
    obtain rfl := Option.some_inj.mp h
    simp [collect, he]
  | cons e' es ih =>
    intro s t u h he
    obtain ⟨s', hs', h⟩ := run_cons_eq_some.mp h
    rw [List.cons_append, collect, collect, hs']
    simp only
    rw [ih h he, List.append_assoc]

/-! ### Conditions on runs -/

/-- A condition that follows from an invariant of the steps that meet `ok`. -/
theorem Meets.of_invariant (hstep : ∀ s e s', I s → ok s e → step s e = some s' → I s')
    (h : ∀ s e, I s → ok s e → ok' s e) : ∀ {es : List ε} {s : σ},
    I s → Meets step ok s es → Meets step ok' s es := by
  intro es
  induction es with
  | nil => intro s _ _; trivial
  | cons e es ih =>
    intro s hs hok t ht
    exact ⟨h s e hs (hok t ht).1, ih (hstep s e t hs (hok t ht).1 ht) (hok t ht).2⟩

theorem Meets.mono {es : List ε} {s : σ} (h : ∀ s e, ok s e → ok' s e)
    (hok : Meets step ok s es) : Meets step ok' s es :=
  Meets.of_invariant (I := fun _ => True) (fun _ _ _ _ _ _ => trivial) (fun s e _ => h s e)
    trivial hok

theorem meets_congr (h : ∀ s e s', step s e = some s' → (ok s e ↔ ok' s e)) :
    ∀ (es : List ε) (s : σ), Meets step ok s es ↔ Meets step ok' s es := by
  intro es
  induction es with
  | nil => exact fun _ => Iff.rfl
  | cons e es ih =>
    exact fun s => forall_congr' fun t => imp_congr_right fun ht =>
      and_congr (h s e t ht) (ih t)

theorem Along.head {s : σ} {es : List ε} (h : Along step P s es) : P s := by
  cases es with
  | nil => exact h
  | cons e es => exact h.1

theorem Along.final : ∀ {es : List ε} {s s' : σ}, Along step P s es →
    run step s es = some s' → P s' := by
  intro es
  induction es with
  | nil =>
    intro s s' h hrun
    rw [run_nil, Option.some_inj] at hrun
    exact hrun ▸ h
  | cons e es ih =>
    intro s s' h hrun
    obtain ⟨t, ht, hrun⟩ := run_cons_eq_some.mp hrun
    exact ih (h.2 t ht) hrun

theorem Along.congr {Q R : σ → Prop} (h : ∀ s, P s → (Q s ↔ R s)) :
    ∀ {es : List ε} {s : σ}, Along step P s es → (Along step Q s es ↔ Along step R s es) := by
  intro es
  induction es with
  | nil => exact fun hP => h _ hP
  | cons e es ih =>
    exact fun hP => and_congr (h _ hP.1)
      (forall_congr' fun t => imp_congr_right fun ht => ih (hP.2 t ht))

theorem Meets.concat {e : ε} : ∀ {es : List ε} {s : σ}, Meets step ok s es →
    (∀ t, run step s es = some t → ok t e) → Meets step ok s (es ++ [e]) := by
  intro es
  induction es with
  | nil => exact fun _ he t ht => ⟨he _ rfl, trivial⟩
  | cons e' es ih =>
    intro s h he t ht
    exact ⟨(h t ht).1, ih (h t ht).2 fun u hu => he u (run_cons_eq_some.mpr ⟨t, ht, hu⟩)⟩

theorem Meets.of_concat {e : ε} : ∀ {es : List ε} {s : σ}, Meets step ok s (es ++ [e]) →
    Meets step ok s es ∧ ∀ t t', run step s es = some t → step t e = some t' → ok t e := by
  intro es
  induction es with
  | nil =>
    refine fun h => ⟨trivial, fun t t' hrun ht' => ?_⟩
    obtain rfl := Option.some_inj.mp hrun
    exact (h t' ht').1
  | cons e' es ih =>
    intro s h
    refine ⟨fun t ht => ⟨(h t ht).1, (ih (h t ht).2).1⟩, fun u u' hrun hu' => ?_⟩
    obtain ⟨t, ht, hrun⟩ := run_cons_eq_some.mp hrun
    exact (ih (h t ht).2).2 u u' hrun hu'

/-- Invariants of a state and of the run that has led to it, when steps preserve them only
under a condition. -/
theorem run_history_of_meets {J : List ε → σ → Prop} {s : σ} (hnil : J [] s)
    (hstep : ∀ es t e t', run step s es = some t → J es t → ok t e → step t e = some t' →
      J (es ++ [e]) t') {es : List ε} {s' : σ} (hok : Meets step ok s es)
    (h : run step s es = some s') : J es s' := by
  refine run_history (J := fun es s' => Meets step ok s es → J es s') (fun _ => hnil) ?_ h hok
  intro es t e t' hrun ht he hmeets
  exact hstep es t e t' hrun (ht hmeets.of_concat.1) (hmeets.of_concat.2 t t' hrun he) he

/-- If all steps of a run meet `ok`, a property that follows from an invariant
of such steps holds in every state of the run. -/
theorem along_of_meets (hP : ∀ s, I s → P s)
    (hstep : ∀ s e s', I s → ok s e → step s e = some s' → I s') :
    ∀ {es : List ε} {s : σ}, I s → Meets step ok s es → Along step P s es := by
  intro es
  induction es with
  | nil => intro s hs _; exact hP s hs
  | cons e es ih =>
    intro s hs hok
    exact ⟨hP s hs, fun t ht => ih (hstep s e t hs (hok t ht).1 ht) (hok t ht).2⟩

/-- What follows from an invariant holds all along every run. -/
theorem along_of_invariant (hP : ∀ s, I s → P s)
    (hstep : ∀ s e s', I s → step s e = some s' → I s') (es : List ε) {s : σ} (hs : I s) :
    Along step P s es := by
  have hmeets : Meets step (fun _ _ => True) s es := .of_forall (fun _ _ => trivial) es s
  exact along_of_meets hP (fun s e s' hs _ he => hstep s e s' hs he) hs hmeets

theorem Meets.and {ok₁ ok₂ : σ → ε → Prop} : ∀ {es : List ε} {s : σ}, Meets step ok₁ s es →
    Meets step ok₂ s es → Meets step (fun s e => ok₁ s e ∧ ok₂ s e) s es := by
  intro es
  induction es with
  | nil => exact fun _ _ => trivial
  | cons e es ih =>
    exact fun h₁ h₂ t ht => ⟨⟨(h₁ t ht).1, (h₂ t ht).1⟩, ih (h₁ t ht).2 (h₂ t ht).2⟩

theorem Meets.of_imp {p : Prop} {es : List ε} {s : σ} (h : p → Meets step ok s es) :
    Meets step (fun s e => p → ok s e) s es := by
  by_cases hp : p
  · exact (h hp).mono fun _ _ hok _ => hok
  · exact .of_forall (fun _ _ hp' => absurd hp' hp) es s

/-- **The condition is exact.**  In runs whose steps meet `pre`, `I` is preserved by steps
that meet `ok` and gives `P`, and a step that does not meet `ok` leads from `I` to a state
without `P`: then `P` holds all along such a run iff every step of it meets `ok`. -/
theorem along_iff_meets_of_meets {pre : σ → ε → Prop} (hP : ∀ s, I s → P s)
    (hstep : ∀ s e s', I s → pre s e → ok s e → step s e = some s' → I s')
    (hbad : ∀ s e s', I s → pre s e → ¬ ok s e → step s e = some s' → ¬ P s') :
    ∀ {es : List ε} {s : σ}, I s → Meets step pre s es →
      (Along step P s es ↔ Meets step ok s es) := by
  intro es
  induction es with
  | nil => exact fun hs _ => ⟨fun _ => trivial, fun _ => hP _ hs⟩
  | cons e es ih =>
    intro s hs hpre
    constructor
    · intro hall t ht
      have hok : ok s e := by
        by_contra hno
        exact hbad s e t hs (hpre t ht).1 hno ht (hall.2 t ht).head
      exact ⟨hok, (ih (hstep s e t hs (hpre t ht).1 hok ht) (hpre t ht).2).mp (hall.2 t ht)⟩
    · exact fun hok => along_of_meets hP (fun s e s' hs h he => hstep s e s' hs h.1 h.2 he) hs
        (hpre.and hok)

theorem along_iff_meets (hP : ∀ s, I s → P s)
    (hstep : ∀ s e s', I s → ok s e → step s e = some s' → I s')
    (hbad : ∀ s e s', I s → ¬ ok s e → step s e = some s' → ¬ P s')
    {es : List ε} {s : σ} (hs : I s) : Along step P s es ↔ Meets step ok s es := by
  have hmeets : Meets step (fun _ _ => True) s es := .of_forall (fun _ _ => trivial) es s
  exact along_iff_meets_of_meets hP (fun s e s' hs _ hok he => hstep s e s' hs hok he)
    (fun s e s' hs _ hok he => hbad s e s' hs hok he) hs hmeets

end Runs
