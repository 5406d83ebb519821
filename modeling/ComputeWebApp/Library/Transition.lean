import Mathlib.Data.Option.Basic
import Mathlib.Data.List.Basic

/-!
# Transition systems given by a partial step function

A system is a step function `step : σ → α → Option σ`: in state `s` the action `a` is
either not enabled (`none`) or leads to one next state.  Nondeterminism is in the choice
of the action, so an interleaving of several parties is a list of actions.

`Reachable.invariant` is the induction rule for safety, `Reachable.simulation` transports
reachability along a forward simulation, `exists_rest` and `length_le_of_run` are the rules for
termination, `Reachable.progress` is the one for ends that can be reached, and `restrict` leaves out
the steps that do not meet a condition, so that "in every run whose steps all meet the condition"
is reachability in the restricted system.
-/

namespace Transition

variable {σ τ α β : Type*}

/-- Take the actions one after the other; `none` when one of them is not enabled. -/
def run (step : σ → α → Option σ) : σ → List α → Option σ
  | s, [] => some s
  | s, a :: rest => (step s a).bind fun t => run step t rest

@[simp] theorem run_nil (step : σ → α → Option σ) (s : σ) : run step s [] = some s := rfl

theorem run_append (step : σ → α → Option σ) (s : σ) (first second : List α) :
    run step s (first ++ second) = (run step s first).bind fun t => run step t second := by
  induction first generalizing s with
  | nil => rfl
  | cons a rest ih =>
      simp only [List.cons_append, run, Option.bind_assoc]
      exact congrArg _ (funext ih)

/-- The states that some list of actions leads to. -/
inductive Reachable (step : σ → α → Option σ) (init : σ) : σ → Prop
  | initial : Reachable step init init
  | step {s t : σ} (a : α) : Reachable step init s → step s a = some t → Reachable step init t

/-- **Invariant rule.**  What holds initially and is kept by every step from a reachable
state holds in every reachable state. -/
theorem Reachable.invariant {step : σ → α → Option σ} {init : σ} {P : σ → Prop}
    (hinit : P init)
    (hstep : ∀ s a t, Reachable step init s → P s → step s a = some t → P t)
    {s : σ} (h : Reachable step init s) : P s := by
  induction h with
  | initial => exact hinit
  | step a hs ha ih => exact hstep _ a _ hs ih ha

theorem Reachable.trans {step : σ → α → Option σ} {init s t : σ}
    (hs : Reachable step init s) (ht : Reachable step s t) : Reachable step init t := by
  induction ht with
  | initial => exact hs
  | step a _ ha ih => exact ih.step a ha

theorem Reachable.of_run {step : σ → α → Option σ} {actions : List α} :
    ∀ {init s : σ}, run step init actions = some s → Reachable step init s := by
  induction actions with
  | nil =>
      intro init s h
      cases h
      exact .initial
  | cons a rest ih =>
      intro init s h
      obtain ⟨t, ht, hrest⟩ := Option.bind_eq_some_iff.mp h
      exact (Reachable.initial.step a ht).trans (ih hrest)

/-- A run that ends in a `good` state, by evaluation. -/
theorem Reachable.exists_of_run {step : σ → α → Option σ} {init : σ} {actions : List α}
    {good : σ → Bool} (h : (run step init actions).any good = true) :
    ∃ s, Reachable step init s ∧ good s = true := by
  obtain ⟨s, hrun, hgood⟩ := (Option.any_eq_true _ _).mp h
  exact ⟨s, .of_run hrun, hgood⟩

/-- **Forward simulation.**  If every step of the first system is matched by steps of the
second one (possibly none), then every reachable state is related to a reachable state. -/
theorem Reachable.simulation {step : σ → α → Option σ} {init : σ}
    {step' : τ → β → Option τ} {init' : τ} {R : σ → τ → Prop}
    (hinit : R init init')
    (hstep : ∀ s a t s', R s s' → Reachable step' init' s' → step s a = some t →
      ∃ t', R t t' ∧ Reachable step' s' t')
    {s : σ} (h : Reachable step init s) : ∃ s', R s s' ∧ Reachable step' init' s' := by
  induction h with
  | initial => exact ⟨init', hinit, .initial⟩
  | step a _ ha ih =>
      obtain ⟨s', hR, hs'⟩ := ih
      obtain ⟨t', hR', ht'⟩ := hstep _ a _ s' hR hs' ha
      exact ⟨t', hR', hs'.trans ht'⟩

/-- **Rest.**  A system whose steps make a measure smaller comes to rest. -/
theorem exists_rest {step : σ → α → Option σ} {measure : σ → ℕ}
    (hstep : ∀ s a t, step s a = some t → measure t < measure s) (s : σ) :
    ∃ t, Reachable step s t ∧ ∀ a, step t a = none := by
  induction hmeasure : measure s using Nat.strongRecOn generalizing s with
  | _ n ih =>
      by_cases hrest : ∀ a, step s a = none
      · exact ⟨s, .initial, hrest⟩
      · obtain ⟨a, ha⟩ := not_forall.mp hrest
        obtain ⟨t, ht⟩ := Option.ne_none_iff_exists'.mp ha
        obtain ⟨u, hu, hend⟩ := ih (measure t) (hmeasure ▸ hstep s a t ht) t rfl
        exact ⟨u, (Reachable.initial.step a ht).trans hu, hend⟩

/-- **Progress rule.**  When every state of `P` that is not in `Q` leads to one of `P` with a smaller
measure, every state of `P` leads to one of `Q`. -/
theorem Reachable.progress {step : σ → α → Option σ} {P Q : σ → Prop} (measure : σ → ℕ)
    (hstep : ∀ s, P s → ¬Q s → ∃ t, Reachable step s t ∧ P t ∧ measure t < measure s) {s : σ}
    (hs : P s) : ∃ t, Reachable step s t ∧ P t ∧ Q t := by
  induction hmeasure : measure s using Nat.strongRecOn generalizing s with
  | _ n ih =>
      by_cases hdone : Q s
      · exact ⟨s, .initial, hs, hdone⟩
      · obtain ⟨t, ht, hP, hlt⟩ := hstep s hs hdone
        obtain ⟨u, hu, hend⟩ := ih (measure t) (hmeasure ▸ hlt) hP rfl
        exact ⟨u, ht.trans hu, hend⟩

/-- Such a system takes a bounded number of steps, however they are chosen. -/
theorem length_le_of_run {step : σ → α → Option σ} {measure : σ → ℕ}
    (hstep : ∀ s a t, step s a = some t → measure t < measure s) {actions : List α} :
    ∀ {s t : σ}, run step s actions = some t → actions.length ≤ measure s := by
  induction actions with
  | nil => exact fun _ => Nat.zero_le _
  | cons a rest ih =>
      intro s t h
      obtain ⟨u, hu, hrest⟩ := Option.bind_eq_some_iff.mp h
      have hlt := hstep s a u hu
      have hle := ih hrest
      rw [List.length_cons]
      omega

/-- The same for the runs that start in an invariant. -/
theorem length_le_of_invariant {step : σ → α → Option σ} {P : σ → Prop} {measure : σ → ℕ}
    (hstep : ∀ s a t, P s → step s a = some t → P t ∧ measure t < measure s) {actions : List α} :
    ∀ {s t : σ}, P s → run step s actions = some t → actions.length ≤ measure s := by
  induction actions with
  | nil => exact fun _ _ => Nat.zero_le _
  | cons a rest ih =>
      intro s t hs h
      obtain ⟨u, hu, hrest⟩ := Option.bind_eq_some_iff.mp h
      obtain ⟨hkept, hlt⟩ := hstep s a u hs hu
      have hle := ih hkept hrest
      rw [List.length_cons]
      omega

/-- The system without the steps that do not meet `good`. -/
def restrict (good : σ → α → Prop) [∀ s a, Decidable (good s a)] (step : σ → α → Option σ) :
    σ → α → Option σ :=
  fun s a => if good s a then step s a else none

theorem restrict_eq_some {good : σ → α → Prop} [∀ s a, Decidable (good s a)]
    {step : σ → α → Option σ} {s t : σ} {a : α} :
    restrict good step s a = some t ↔ good s a ∧ step s a = some t := by
  unfold restrict
  split <;> simp_all

/-- A run of the restricted system is one of the whole system. -/
theorem run_of_restrict {good : σ → α → Prop} [∀ s a, Decidable (good s a)]
    {step : σ → α → Option σ} {actions : List α} :
    ∀ {s t : σ}, run (restrict good step) s actions = some t → run step s actions = some t := by
  induction actions with
  | nil => exact fun h => h
  | cons a rest ih =>
      intro s t h
      obtain ⟨u, hu, hrest⟩ := Option.bind_eq_some_iff.mp h
      rw [run, (restrict_eq_some.mp hu).2, Option.bind_some, ih hrest]

/-- **Runs that keep a property.**  When a step leads to a state with the property if and only if
it starts in one and meets the condition, then so does a run: all its steps meet the condition. -/
theorem run_restrict_iff {good : σ → α → Prop} [∀ s a, Decidable (good s a)]
    {step : σ → α → Option σ} {P : σ → Prop}
    (hstep : ∀ s a t, step s a = some t → (P t ↔ P s ∧ good s a)) {actions : List α} :
    ∀ {s t : σ}, run step s actions = some t →
      (P t ↔ P s ∧ run (restrict good step) s actions = some t) := by
  induction actions with
  | nil =>
      intro s t h
      cases h
      exact (and_iff_left rfl).symm
  | cons a rest ih =>
      intro s t h
      obtain ⟨u, hu, hrest⟩ := Option.bind_eq_some_iff.mp h
      rw [ih hrest, hstep s a u hu, and_assoc]
      refine and_congr_right fun _ => ?_
      show _ ↔ (restrict good step s a).bind _ = some t
      by_cases hgood : good s a
      · rw [restrict, if_pos hgood, hu]
        exact and_iff_right hgood
      · rw [restrict, if_neg hgood]
        exact iff_of_false (fun hboth => hgood hboth.1) nofun

/-- **Runs that keep a property in every state.**  When a step from a state with the property keeps
it if and only if it meets the condition, then so does a run: all its steps meet the condition. -/
theorem prefixes_restrict_iff {good : σ → α → Prop} [∀ s a, Decidable (good s a)]
    {step : σ → α → Option σ} {P : σ → Prop}
    (hstep : ∀ s a t, P s → step s a = some t → (P t ↔ good s a)) {actions : List α} :
    ∀ {s t : σ}, P s → run step s actions = some t →
      ((∀ front u, front <+: actions → run step s front = some u → P u) ↔
        run (restrict good step) s actions = some t) := by
  induction actions with
  | nil =>
      intro s t hs h
      refine iff_of_true (fun front u hfront hrun => ?_) h
      obtain rfl := List.prefix_nil.mp hfront
      cases hrun
      exact hs
  | cons a rest ih =>
      intro s t hs h
      obtain ⟨u, hu, hrest⟩ := Option.bind_eq_some_iff.mp h
      show _ ↔ (restrict good step s a).bind _ = some t
      by_cases hgood : good s a
      · rw [restrict, if_pos hgood, hu, Option.bind_some,
          ← ih ((hstep s a u hs hu).mpr hgood) hrest]
        constructor
        · intro hall front v hfront hrun
          refine hall (a :: front) v (List.cons_prefix_cons.mpr ⟨rfl, hfront⟩) ?_
          rw [run, hu, Option.bind_some, hrun]
        · intro hall front v hfront hrun
          cases front with
          | nil =>
              cases hrun
              exact hs
          | cons b front =>
              obtain ⟨rfl, hprefix⟩ := List.cons_prefix_cons.mp hfront
              rw [run, hu, Option.bind_some] at hrun
              exact hall front v hprefix hrun
      · -- the state after the first step is one of those that a run comes through
        rw [restrict, if_neg hgood]
        refine iff_of_false (fun hall => hgood ?_) nofun
        refine (hstep s a u hs hu).mp (hall [a] u ?_ ?_)
        · exact List.cons_prefix_cons.mpr ⟨rfl, List.nil_prefix⟩
        · rw [run, hu, Option.bind_some, run_nil]

end Transition
