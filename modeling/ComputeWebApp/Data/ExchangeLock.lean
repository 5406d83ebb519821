import ComputeWebApp.Library.ByteStream
import ComputeWebApp.Library.LockFile
import ComputeWebApp.Library.Transition

/-!
# The lock of an exchange file

`LockFile` of `DatasetExchangeFile` tries to create `<filename>.lock` until it is created or five
seconds have passed, and returns in both cases.  `UnlockFile` removes the file.  Any number of
processes work on one exchange file.

A process that gives up is inside with the lock file of another process, or with none, and
removes whatever is there when it leaves.  As long as no process gives up, the lock file is that
of the one process that is inside.
-/

namespace ComputeWebApp.Data.ExchangeLock

open Transition ByteStream LockFile

/-- Where a process is: before `LockFile`, in its loop, or between its return and `UnlockFile`. -/
inductive Stage
  | outside
  | locking
  | inside
  deriving DecidableEq, Repr

/-- `lockFile` is the process that has created the lock file, when it exists; `seen` is what a
process has read last. -/
structure State where
  lockFile : Option ℕ
  content : Bytes
  stage : ℕ → Stage
  seen : ℕ → Bytes

inductive Action
  | lock (p : ℕ)
  | tryCreate (p : ℕ)
  | giveUp (p : ℕ)
  | read (p : ℕ)
  | write (p : ℕ) (content : Bytes)
  | unlock (p : ℕ)
  deriving DecidableEq, Repr

def setStage (s : State) (p : ℕ) (stage : Stage) : State :=
  { s with stage := Function.update s.stage p stage }

def step (s : State) : Action → Option State
  | .lock p => if s.stage p = .outside then some (setStage s p .locking) else none
  | .tryCreate p =>
      if s.stage p = .locking then
        match s.lockFile with
        | none => some { setStage s p .inside with lockFile := some p }
        -- `open` fails, and the loop goes on after 10 ms
        | some _ => some s
      else none
  | .giveUp p =>
      -- `high_resolution_clock::now() < next` is false and `locked` too: an error is printed
      if s.stage p = .locking then some (setStage s p .inside) else none
  | .read p =>
      if s.stage p = .inside then some { s with seen := Function.update s.seen p s.content }
      else none
  | .write p content =>
      if s.stage p = .inside then some { s with content := content } else none
  | .unlock p =>
      if s.stage p = .inside then some { setStage s p .outside with lockFile := none } else none

def initial (content : Bytes) : State where
  lockFile := none
  content := content
  stage := fun _ => .outside
  seen := fun _ => []

/-- No `LockFile` reaches its deadline. -/
def InTime (_ : State) : Action → Prop
  | .giveUp _ => False
  | _ => True

instance (s : State) (a : Action) : Decidable (InTime s a) :=
  match a with
  | .giveUp _ => instDecidableFalse
  | .lock _ => instDecidableTrue
  | .tryCreate _ => instDecidableTrue
  | .read _ => instDecidableTrue
  | .write _ _ => instDecidableTrue
  | .unlock _ => instDecidableTrue

/-- The lock file is that of the process that is inside. -/
def Locked (s : State) : Prop :=
  Exclusive s.lockFile fun p => s.stage p = .inside

theorem stage_setStage_of_ne (s : State) {p other : ℕ} (stage : Stage) (h : other ≠ p) :
    (setStage s p stage).stage other = s.stage other :=
  Function.update_of_ne h _ _

theorem stage_setStage (s : State) (p : ℕ) (stage : Stage) :
    (setStage s p stage).stage p = stage :=
  Function.update_self ..

theorem Locked.step {s t : State} {a : Action} (h : Locked s) (hgood : InTime s a)
    (hstep : step s a = some t) : Locked t := by
  cases a with
  | lock p =>
      simp only [ExchangeLock.step] at hstep
      split at hstep
      · rename_i hstage
        cases hstep
        apply h.congr
        intro other
        by_cases heq : other = p
        · rw [heq, stage_setStage, hstage]
          simp
        · rw [stage_setStage_of_ne s _ heq]
      · cases hstep
  | tryCreate p =>
      simp only [ExchangeLock.step] at hstep
      split at hstep
      · split at hstep
        · -- the lock file is free, so that nobody is inside
          rename_i hfree
          cases hstep
          have hnone : Exclusive none fun p => s.stage p = .inside := hfree ▸ h
          apply hnone.create
          · exact stage_setStage s p _
          · intro other heq
            show (setStage s p .inside).stage other = .inside ↔ _
            rw [stage_setStage_of_ne s _ heq]
        · cases hstep
          exact h
      · cases hstep
  | giveUp p => exact hgood.elim
  | read p =>
      simp only [ExchangeLock.step] at hstep
      split at hstep
      · cases hstep
        exact h
      · cases hstep
  | write p content =>
      simp only [ExchangeLock.step] at hstep
      split at hstep
      · cases hstep
        exact h
      · cases hstep
  | unlock p =>
      simp only [ExchangeLock.step] at hstep
      split at hstep
      · rename_i hinside
        cases hstep
        apply h.remove hinside
        · show (setStage s p .outside).stage p ≠ .inside
          rw [stage_setStage]
          exact nofun
        · intro other heq
          show (setStage s p .outside).stage other = .inside ↔ _
          rw [stage_setStage_of_ne s _ heq]
      · cases hstep

/-- **Mutual exclusion** of the processes that work on one exchange file, and `UnlockFile` removes
its own lock file, in every run in which no `LockFile` gives up. -/
theorem exclusive_in_time {content : Bytes} {s : State}
    (h : Reachable (restrict InTime step) (initial content) s) :
    (∀ p q, s.stage p = .inside → s.stage q = .inside → p = q) ∧
      ∀ p t, step s (.unlock p) = some t → s.lockFile = some p := by
  have hlocked : Locked s :=
    h.invariant (P := Locked) (fun p => by simp [initial]) fun _ _ _ _ hinv hstep =>
      hinv.step (restrict_eq_some.mp hstep).1 (restrict_eq_some.mp hstep).2
  refine ⟨fun p q hp hq => hlocked.unique hp hq, fun p t hunlock => ?_⟩
  simp only [step] at hunlock
  split at hunlock
  · rename_i hinside
    exact (hlocked p).mp hinside
  · cases hunlock

/-- A second process waits for the first one. -/
theorem exclusive_in_time_two_processes :
    ∃ s, Reachable (restrict InTime step) (initial []) s ∧ s.stage 1 = .inside ∧
      s.seen 1 = [7] ∧ (∀ p q, s.stage p = .inside → s.stage q = .inside → p = q) ∧
      ∀ p t, step s (.unlock p) = some t → s.lockFile = some p := by
  obtain ⟨s, hreach, hend⟩ := Reachable.exists_of_run
    (show (run (restrict InTime step) (initial [])
        [.lock 0, .tryCreate 0, .lock 1, .tryCreate 1, .write 0 [7], .unlock 0, .tryCreate 1,
          .read 1]).any (fun s => decide (s.stage 1 = .inside ∧ s.seen 1 = [7])) = true by
      decide +kernel)
  obtain ⟨hinside, hseen⟩ := of_decide_eq_true hend
  exact ⟨s, hreach, hinside, hseen, exclusive_in_time hreach⟩

/-- Process 1 gives up while process 0 is inside, and removes the lock file of process 0. -/
theorem not_exclusive_after_giveUp :
    ∃ s t, Reachable step (initial []) s ∧ s.stage 0 = .inside ∧ s.stage 1 = .inside ∧
      s.lockFile = some 0 ∧ step s (.unlock 1) = some t ∧ t.stage 0 = .inside ∧
      t.lockFile = none := by
  obtain ⟨s, hreach, hend⟩ := Reachable.exists_of_run
    (show (run step (initial []) [.lock 0, .tryCreate 0, .lock 1, .tryCreate 1, .giveUp 1]).any
        (fun s => decide (s.stage 0 = .inside ∧ s.stage 1 = .inside ∧ s.lockFile = some 0 ∧
          (step s (.unlock 1)).any fun t => decide (t.stage 0 = .inside ∧ t.lockFile = none))) =
        true by decide +kernel)
  obtain ⟨hzero, hone, hlock, hnext⟩ := of_decide_eq_true hend
  obtain ⟨t, hunlock, hlast⟩ := (Option.any_eq_true _ _).mp hnext
  exact ⟨s, t, hreach, hzero, hone, hlock, hunlock, of_decide_eq_true hlast⟩

end ComputeWebApp.Data.ExchangeLock
