import ComputeWebApp.Library.Transition
import Mathlib.Logic.Function.Basic

/-!
# A ring of workers

A source supplies items, workers take them and give them back, and a sink collects and stores
them.  A worker that finds the source closed and empty finishes; the sink lets it leave when all
that it gave is collected, and stops when every worker that joined has left.

Then every item has been stored (`stored_of_stopped`): nothing that a worker held or gave is
lost, because a worker leaves only with empty hands, and nothing is left at the source, because
at least one worker has seen it empty.
-/

namespace WorkerRing

open Transition

variable {ι ω : Type*}

/-- Where an item is. -/
inductive Place (ω : Type*)
  | waiting
  | supplied
  | held (w : ω)
  | given (w : ω)
  | collected
  | stored

inductive Status
  | absent
  | active
  | finished
  | gone
  deriving DecidableEq

structure Ring (ι ω : Type*) where
  place : ι → Place ω
  status : ω → Status
  closed : Bool
  stopped : Bool

inductive Action (ι ω : Type*)
  | supply (i : ι)
  | close
  | join (w : ω)
  | take (w : ω) (i : ι)
  | give (w : ω) (i : ι)
  | finish (w : ω)
  | collect (i : ι)
  | store (i : ι)
  | leave (w : ω)
  | stop

namespace Ring

def initial : Ring ι ω where
  place := fun _ => .waiting
  status := fun _ => .absent
  closed := false
  stopped := false

/-- What an action needs. -/
def Enabled (items : Set ι) (r : Ring ι ω) : Action ι ω → Prop
  | .supply i => i ∈ items ∧ r.place i = .waiting
  | .close => ∀ i ∈ items, r.place i ≠ .waiting
  | .join w => r.status w = .absent
  | .take w i => r.status w = .active ∧ r.place i = .supplied
  | .give w i => r.place i = .held w
  | .finish w =>
      r.status w = .active ∧ r.closed = true ∧ ∀ i, r.place i ≠ .supplied ∧ r.place i ≠ .held w
  | .collect i => ∃ w, r.place i = .given w
  | .store i => r.place i = .collected
  | .leave w => r.status w = .finished ∧ ∀ i, r.place i ≠ .given w
  | .stop =>
      (∀ w, r.status w = .absent ∨ r.status w = .gone) ∧ (∃ w, r.status w = .gone) ∧
        ∀ i, r.place i ≠ .collected

variable [DecidableEq ι] [DecidableEq ω]

def move (r : Ring ι ω) (i : ι) (place : Place ω) : Ring ι ω :=
  { r with place := Function.update r.place i place }

def become (r : Ring ι ω) (w : ω) (status : Status) : Ring ι ω :=
  { r with status := Function.update r.status w status }

omit [DecidableEq ω] in
theorem place_move (r : Ring ι ω) (i j : ι) (place : Place ω) :
    (r.move i place).place j = if j = i then place else r.place j :=
  Function.update_apply ..

omit [DecidableEq ω] in
/-- A move matters for the places that it goes from and to. -/
theorem place_move_iff (r : Ring ι ω) {i j : ι} {place destination : Place ω}
    (hfrom : r.place i ≠ place) (hto : destination ≠ place) :
    (r.move i destination).place j = place ↔ r.place j = place := by
  rw [place_move]
  rcases eq_or_ne j i with rfl | hne
  · rw [if_pos rfl]
    exact iff_of_false hto hfrom
  · rw [if_neg hne]

omit [DecidableEq ι] in
theorem status_become (r : Ring ι ω) (w w' : ω) (status : Status) :
    (r.become w status).status w' = if w' = w then status else r.status w' :=
  Function.update_apply ..

/-- What an action does. -/
def after (r : Ring ι ω) : Action ι ω → Ring ι ω
  | .supply i => r.move i .supplied
  | .close => { r with closed := true }
  | .join w => r.become w .active
  | .take w i => r.move i (.held w)
  | .give w i => r.move i (.given w)
  | .finish w => r.become w .finished
  | .collect i => r.move i .collected
  | .store i => r.move i .stored
  | .leave w => r.become w .gone
  | .stop => { r with stopped := true }

open Classical in
noncomputable def step (items : Set ι) (r : Ring ι ω) (action : Action ι ω) : Option (Ring ι ω) :=
  if r.Enabled items action then some (r.after action) else none

variable {items : Set ι} {r r' : Ring ι ω}

theorem step_eq_some {action : Action ι ω} :
    step items r action = some r' ↔ r.Enabled items action ∧ r' = r.after action := by
  unfold step
  split <;> simp_all [eq_comm]

theorem reachable_after {action : Action ι ω} (h : r.Enabled items action) :
    Reachable (step items) r (r.after action) :=
  Reachable.initial.step action (step_eq_some.mpr ⟨h, rfl⟩)

/-- Who may have what. -/
structure Safe (items : Set ι) (r : Ring ι ω) : Prop where
  closed : r.closed = true → ∀ i ∈ items, r.place i ≠ .waiting
  absent : ∀ w i, r.status w = .absent → r.place i ≠ .held w ∧ r.place i ≠ .given w
  finished : ∀ w, r.status w = .finished ∨ r.status w = .gone →
    r.closed = true ∧ ∀ i, r.place i ≠ .supplied ∧ r.place i ≠ .held w
  gone : ∀ w i, r.status w = .gone → r.place i ≠ .given w
  stopped : r.stopped = true → ∀ i ∈ items, r.place i = .stored

omit [DecidableEq ι] [DecidableEq ω] in
theorem initial_safe : (initial : Ring ι ω).Safe items where
  closed := by simp [initial]
  absent := by simp [initial]
  finished := by simp [initial]
  gone := by simp [initial]
  stopped := by simp [initial]

omit [DecidableEq ω] in
/-- An item goes on to a place that is not stored yet, or to the store. -/
theorem Safe.move (h : r.Safe items) {i : ι} {place : Place ω} (hwaiting : place ≠ .waiting)
    (hsupplied : place = .supplied → r.closed = false)
    (hheld : ∀ w, place = .held w → r.status w = .active)
    (hgiven : ∀ w, place = .given w → r.status w ≠ .absent ∧ r.status w ≠ .gone)
    (hstored : r.stopped = true → i ∈ items → place = .stored) : (r.move i place).Safe items where
  closed := by
    intro hclosed j hj
    by_cases hji : j = i
    · subst hji
      simpa [Ring.move] using hwaiting
    · simpa [Ring.move, hji] using h.closed hclosed j hj
  absent := by
    intro w j habsent
    change r.status w = .absent at habsent
    by_cases hji : j = i
    · subst hji
      simp only [Ring.move, Function.update_self]
      constructor
      · intro heq
        rw [hheld w heq] at habsent
        cases habsent
      · intro heq
        exact (hgiven w heq).1 habsent
    · simpa [Ring.move, hji] using h.absent w j habsent
  finished := by
    intro w hfinished
    change r.status w = .finished ∨ r.status w = .gone at hfinished
    obtain ⟨hclosed, hplace⟩ := h.finished w hfinished
    refine ⟨hclosed, fun j => ?_⟩
    by_cases hji : j = i
    · subst hji
      simp only [Ring.move, Function.update_self]
      constructor
      · intro heq
        rw [hsupplied heq] at hclosed
        cases hclosed
      · intro heq
        rw [hheld w heq] at hfinished
        simp at hfinished
    · simpa [Ring.move, hji] using hplace j
  gone := by
    intro w j hgone
    change r.status w = .gone at hgone
    by_cases hji : j = i
    · subst hji
      simp only [Ring.move, Function.update_self]
      exact fun heq => (hgiven w heq).2 hgone
    · simpa [Ring.move, hji] using h.gone w j hgone
  stopped := by
    intro hstopped j hj
    by_cases hji : j = i
    · subst hji
      simpa [Ring.move] using hstored hstopped hj
    · simpa [Ring.move, hji] using h.stopped hstopped j hj

omit [DecidableEq ι] in
/-- A worker changes its status. -/
theorem Safe.become (h : r.Safe items) {w : ω} {status : Status} (habsent : status ≠ .absent)
    (hfinished : status = .finished ∨ status = .gone →
      r.closed = true ∧ ∀ i, r.place i ≠ .supplied ∧ r.place i ≠ .held w)
    (hgone : status = .gone → ∀ i, r.place i ≠ .given w) : (r.become w status).Safe items where
  closed := h.closed
  absent := by
    intro w' i hstatus
    by_cases hw : w' = w
    · subst hw
      simp only [Ring.become, Function.update_self] at hstatus
      exact absurd hstatus habsent
    · exact h.absent w' i (by simpa [Ring.become, hw] using hstatus)
  finished := by
    intro w' hstatus
    by_cases hw : w' = w
    · subst hw
      simp only [Ring.become, Function.update_self] at hstatus
      exact hfinished hstatus
    · exact h.finished w' (by simpa [Ring.become, hw] using hstatus)
  gone := by
    intro w' i hstatus
    by_cases hw : w' = w
    · subst hw
      simp only [Ring.become, Function.update_self] at hstatus
      exact hgone hstatus i
    · exact h.gone w' i (by simpa [Ring.become, hw] using hstatus)
  stopped := h.stopped

theorem Safe.step (h : r.Safe items) {action : Action ι ω}
    (hstep : step items r action = some r') : r'.Safe items := by
  obtain ⟨henabled, rfl⟩ := step_eq_some.mp hstep
  have hstored : ∀ {i : ι}, r.place i ≠ .stored → r.stopped = true → i ∉ items :=
    fun hplace hstopped hi => hplace (h.stopped hstopped _ hi)
  cases action with
  | supply i =>
      obtain ⟨hi, hplace⟩ := henabled
      refine h.move (by simp) (fun _ => ?_) (by simp) (by simp)
        fun hstopped hi => absurd hi (hstored (by simp [hplace]) hstopped)
      by_contra hclosed
      exact h.closed (by simpa using hclosed) i hi hplace
  | close =>
      refine ⟨fun _ => henabled, h.absent, fun w hw => ⟨rfl, (h.finished w hw).2⟩, h.gone, h.stopped⟩
  | join w => exact h.become (by simp) (by simp) (by simp)
  | take w i =>
      refine h.move (by simp) (by simp) (fun w' heq => ?_) (by simp)
        fun hstopped hi => absurd hi (hstored (by simp [henabled.2]) hstopped)
      cases heq
      exact henabled.1
  | give w i =>
      change r.place i = .held w at henabled
      refine h.move (by simp) (by simp) (by simp) (fun w' heq => ?_)
        fun hstopped hi => absurd hi (hstored (by simp [henabled]) hstopped)
      cases heq
      exact ⟨fun habsent => (h.absent w i habsent).1 henabled,
        fun hgone => ((h.finished w (.inr hgone)).2 i).2 henabled⟩
  | finish w => exact h.become (by simp) (fun _ => henabled.2) (by simp)
  | collect i =>
      obtain ⟨w, hplace⟩ := henabled
      exact h.move (by simp) (by simp) (by simp) (by simp)
        fun hstopped hi => absurd hi (hstored (by simp [hplace]) hstopped)
  | store i => exact h.move (by simp) (by simp) (by simp) (by simp) fun _ _ => rfl
  | leave w => exact h.become (by simp) (fun _ => h.finished w (.inl henabled.1)) fun _ => henabled.2
  | stop =>
      -- a worker has gone, so that the ring is closed and all places but the store are empty
      obtain ⟨hleft, ⟨w, hgone⟩, hcollected⟩ := henabled
      refine ⟨h.closed, h.absent, h.finished, h.gone, fun _ i hi => ?_⟩
      obtain ⟨hclosed, hempty⟩ := h.finished w (.inr hgone)
      show r.place i = .stored
      cases hplace : r.place i with
      | waiting => exact absurd hplace (h.closed hclosed i hi)
      | supplied => exact absurd hplace (hempty i).1
      | held w' =>
          rcases hleft w' with habsent | hgone
          · exact absurd hplace (h.absent w' i habsent).1
          · exact absurd hplace ((h.finished w' (.inr hgone)).2 i).2
      | given w' =>
          rcases hleft w' with habsent | hgone
          · exact absurd hplace (h.absent w' i habsent).2
          · exact absurd hplace (h.gone w' i hgone)
      | collected => exact absurd hplace (hcollected i)
      | stored => rfl

theorem safe_of_reachable (h : Reachable (step items) initial r) : r.Safe items :=
  h.invariant initial_safe fun _ _ _ _ hsafe hstep => hsafe.step hstep

/-- **A stopped ring has stored every item.** -/
theorem stored_of_stopped (h : Reachable (step items) initial r) (hstopped : r.stopped = true) :
    ∀ i ∈ items, r.place i = .stored :=
  (safe_of_reachable h).stopped hstopped

end Ring

end WorkerRing
