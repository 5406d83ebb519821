import ComputeWebApp.Library.LockFile
import ComputeWebApp.Library.Transition
import Mathlib.Data.List.Induction
import Mathlib.Data.List.Nodup

/-!
# Locked JSON files

The records of the processes and the list of the running ones are JSON files that several threads
and processes of the server change: `safely_update_json_file`, `write_json_file_with_lock` and
`read_json_file_with_lock` take the lock file, read the file, truncate it, write it, close the
lock file and unlink it, each in a step of its own.

The calls of one run are numbered, so that the order in which they create the lock file is a list
of numbers.  The call that is inside has created the last one, and what is in the file is told by
the order and by where this call is (`Within`).
-/

namespace ComputeWebApp.Api

open Transition LockFile

/-! ## Files and calls -/

/-- A file: it does not exist, holds no JSON, as when it is empty or half written, or holds
`data`. -/
inductive JsonFile (δ : Type)
  | missing
  | torn
  | valid (data : δ)
  deriving DecidableEq, Repr

/-- A call of `safely_update_json_file`, with its update method, of `write_json_file_with_lock` or
of `read_json_file_with_lock`. -/
inductive JsonCall (δ : Type)
  | update (updateMethod : δ → δ)
  | write (data : δ)
  | read (default : δ)

/-- How a call ends. -/
inductive Outcome (δ : Type)
  | finished
  | content (data : δ)
  | notFound
  deriving DecidableEq, Repr

namespace JsonCall

variable {δ : Type}

/-- What a call makes of the content. -/
def apply : JsonCall δ → δ → δ
  | update updateMethod, data => updateMethod data
  | write data, _ => data
  | read _, data => data

/-- How a call ends that finds the content `data`. -/
def outcome : JsonCall δ → δ → Outcome δ
  | read _, data => .content data
  | _, _ => .finished

end JsonCall

/-- Where a call is: before its first step; before `os.path.isfile`; in the loop of `lock_file`;
before it opens the file, before it truncates it and before it has written it; in `unlock_file`,
before the lock file is closed, looked for and unlinked; after it has returned.  In `stuck` it has
raised or reads again and again, with the lock. -/
inductive JsonStage (δ : Type)
  | idle
  | checking (default : δ)
  | locking
  | locked
  | writing (data : δ)
  | truncated (data : δ)
  | closing (outcome : Outcome δ)
  | testing (outcome : Outcome δ)
  | unlinking (outcome : Outcome δ)
  | stuck
  | returned (outcome : Outcome δ)
  deriving DecidableEq, Repr

namespace JsonStage

variable {δ : Type}

/-- Between `lock_file` and the end of `unlock_file`. -/
def inside : JsonStage δ → Bool
  | locked => true
  | writing _ => true
  | truncated _ => true
  | closing _ => true
  | testing _ => true
  | unlinking _ => true
  | stuck => true
  | _ => false

/-- Before `lock_file` has returned. -/
def waiting : JsonStage δ → Bool
  | idle => true
  | checking _ => true
  | locking => true
  | _ => false

end JsonStage

namespace LockedJson

/-! ## Steps -/

/-- `lockFile` is the call that has created the lock file, when it exists, and `acquired` are the
calls that have created it so far. -/
structure State (δ : Type) where
  file : JsonFile δ
  lockFile : Option ℕ := none
  stage : ℕ → JsonStage δ := fun _ => .idle
  acquired : List ℕ := []

section Step

variable {δ : Type}

def move (s : State δ) (c : ℕ) (stage : JsonStage δ) : State δ :=
  { s with stage := Function.update s.stage c stage }

/-- What a call does once it has the lock. -/
def opened (call : JsonCall δ) (file : JsonFile δ) : JsonStage δ :=
  match call, file with
  | .update _, .missing => .closing .notFound
  | .update updateMethod, .valid data => .writing (updateMethod data)
  -- a `JSONDecodeError` leaves `safely_update_json_file` with the lock
  | .update _, .torn => .stuck
  | .write data, _ => .writing data
  | .read _, .valid data => .closing (.content data)
  -- the file object is at its end: `json.load` fails again and again
  | .read _, .torn => .stuck
  | .read _, .missing => .stuck

/-- The next step of the call `c`. -/
def step (calls : ℕ → JsonCall δ) (s : State δ) (c : ℕ) : Option (State δ) :=
  match s.stage c with
  | .idle =>
      match calls c with
      | .read default => some (move s c (.checking default))
      | _ => some (move s c .locking)
  | .checking default =>
      match s.file with
      | .missing => some (move s c (.returned (.content default)))
      | _ => some (move s c .locking)
  | .locking =>
      match s.lockFile with
      | none =>
          some { move s c .locked with lockFile := some c, acquired := s.acquired ++ [c] }
      -- `os.open` raises, and the loop goes on after 0.2 s
      | some _ => some s
  | .locked => some (move s c (opened (calls c) s.file))
  | .writing data => some { move s c (.truncated data) with file := .torn }
  | .truncated data => some { move s c (.closing .finished) with file := .valid data }
  | .closing outcome => some (move s c (.testing outcome))
  | .testing outcome =>
      match s.lockFile with
      | none => some (move s c (.returned outcome))
      | some _ => some (move s c (.unlinking outcome))
  | .unlinking outcome =>
      match s.lockFile with
      | none => some (move s c .stuck)
      | some _ => some { move s c (.returned outcome) with lockFile := none }
  | .stuck => none
  | .returned _ => none

/-- The file holds `data`, and no call has begun. -/
def initial (data : δ) : State δ := { file := .valid data }

/-- The calls one after the other. -/
def applyAll (calls : ℕ → JsonCall δ) (order : List ℕ) (data : δ) : δ :=
  order.foldl (fun data c => (calls c).apply data) data

theorem applyAll_concat (calls : ℕ → JsonCall δ) (order : List ℕ) (c : ℕ) (data : δ) :
    applyAll calls (order ++ [c]) data = (calls c).apply (applyAll calls order data) := by
  rw [applyAll, List.foldl_append]
  rfl

theorem stage_move (s : State δ) (c : ℕ) (stage : JsonStage δ) : (move s c stage).stage c = stage :=
  Function.update_self ..

theorem stage_move_of_ne (s : State δ) {c other : ℕ} (stage : JsonStage δ) (h : other ≠ c) :
    (move s c stage).stage other = s.stage other :=
  Function.update_of_ne h _ _

end Step

/-! ## The order of the calls -/

section Inv

variable {δ : Type} {calls : ℕ → JsonCall δ} {data : δ} {s t : State δ} {c : ℕ}

/-- What is in the file while a call is inside that has found the content `before`. -/
def Within (call : JsonCall δ) (before : δ) : JsonStage δ → JsonFile δ → Prop
  | .locked, file => file = .valid before
  | .writing data, file =>
      file = .valid before ∧ data = call.apply before ∧ call.outcome before = .finished
  | .truncated data, file =>
      file = .torn ∧ data = call.apply before ∧ call.outcome before = .finished
  | .closing outcome, file =>
      file = .valid (call.apply before) ∧ outcome = call.outcome before
  | .testing outcome, file =>
      file = .valid (call.apply before) ∧ outcome = call.outcome before
  | .unlinking outcome, file =>
      file = .valid (call.apply before) ∧ outcome = call.outcome before
  | _, _ => False

structure Inv (calls : ℕ → JsonCall δ) (data : δ) (s : State δ) : Prop where
  exclusive : Exclusive s.lockFile fun c => (s.stage c).inside = true
  nodup : s.acquired.Nodup
  acquired : ∀ c, c ∈ s.acquired ↔ (s.stage c).waiting = false
  working : ∀ c, s.lockFile = some c → ∃ front, s.acquired = front ++ [c] ∧
    Within (calls c) (applyAll calls front data) (s.stage c) s.file
  quiet : s.lockFile = none → s.file = .valid (applyAll calls s.acquired data)
  returned : ∀ c outcome, s.stage c = .returned outcome →
    ∃ front, front ++ [c] <+: s.acquired ∧ outcome = (calls c).outcome (applyAll calls front data)

theorem inv_initial : Inv calls data (initial data) where
  exclusive := fun _ => by simp [initial, JsonStage.inside]
  nodup := List.nodup_nil
  acquired := fun _ => by simp [initial, JsonStage.waiting]
  working := fun _ hlock => by cases hlock
  quiet := fun _ => rfl
  returned := fun _ _ hstage => by cases hstage

/-- What the file holds, when it holds JSON, is what the calls have made of it up to some point of
their order. -/
theorem Inv.front (h : Inv calls data s) :
    s.file = .torn ∨ ∃ front, front <+: s.acquired ∧ s.file = .valid (applyAll calls front data) := by
  cases hlock : s.lockFile with
  | none => exact .inr ⟨_, List.prefix_rfl, h.quiet hlock⟩
  | some c =>
      obtain ⟨front, hacquired, hwithin⟩ := h.working c hlock
      have hbefore : front <+: s.acquired := ⟨[c], hacquired.symm⟩
      have hafter : applyAll calls s.acquired data = (calls c).apply (applyAll calls front data) := by
        rw [hacquired, applyAll_concat]
      cases hstage : s.stage c <;> rw [hstage] at hwithin
      case locked => exact .inr ⟨front, hbefore, hwithin⟩
      case writing => exact .inr ⟨front, hbefore, hwithin.1⟩
      case truncated => exact .inl hwithin.1
      case closing => exact .inr ⟨_, List.prefix_rfl, hafter ▸ hwithin.1⟩
      case testing => exact .inr ⟨_, List.prefix_rfl, hafter ▸ hwithin.1⟩
      case unlinking => exact .inr ⟨_, List.prefix_rfl, hafter ▸ hwithin.1⟩
      all_goals exact hwithin.elim

/-- A call that waits takes a step. -/
theorem Inv.wait (h : Inv calls data s) (hwaiting : (s.stage c).waiting = true)
    {stage : JsonStage δ} (hstage : stage.waiting = true) : Inv calls data (move s c stage) := by
  have hoff : ∀ stage : JsonStage δ, stage.waiting = true → stage.inside = false := by
    intro stage hw
    cases stage <;> first | rfl | cases hw
  have hinside : ∀ other, ((move s c stage).stage other).inside = (s.stage other).inside := by
    intro other
    by_cases heq : other = c
    · rw [heq, stage_move, hoff _ hstage, hoff _ hwaiting]
    · rw [stage_move_of_ne s _ heq]
  have hne : ∀ other, s.lockFile = some other → other ≠ c := by
    intro other hlock heq
    have hin := (h.exclusive other).mpr hlock
    rw [heq, hoff _ hwaiting] at hin
    cases hin
  refine ⟨h.exclusive.congr fun other => by rw [hinside other], h.nodup, fun other => ?_,
    fun other hlock => ?_, h.quiet, fun other outcome hreturned => ?_⟩
  · by_cases heq : other = c
    · rw [heq, stage_move, hstage, ← hwaiting]
      exact h.acquired c
    · rw [stage_move_of_ne s _ heq]
      exact h.acquired other
  · rw [stage_move_of_ne s _ (hne other hlock)]
    exact h.working other hlock
  · by_cases heq : other = c
    · rw [heq, stage_move] at hreturned
      rw [hreturned] at hstage
      cases hstage
    · rw [stage_move_of_ne s _ heq] at hreturned
      exact h.returned other outcome hreturned

/-- The lock file did not exist, and the call has created it. -/
theorem Inv.lock (h : Inv calls data s) (hwaiting : s.stage c = .locking)
    (hfree : s.lockFile = none) :
    Inv calls data { move s c .locked with lockFile := some c, acquired := s.acquired ++ [c] } where
  exclusive := by
    have hnone := h.exclusive
    rw [hfree] at hnone
    apply hnone.create
    · show ((move s c .locked).stage c).inside = true
      rw [stage_move]
      rfl
    · intro other heq
      show ((move s c .locked).stage other).inside = true ↔ _
      rw [stage_move_of_ne s _ heq]
  nodup := by
    have hnew : c ∉ s.acquired := by
      rw [h.acquired c, hwaiting]
      exact nofun
    simpa using h.nodup.concat hnew
  acquired := by
    intro other
    show _ ↔ ((move s c .locked).stage other).waiting = false
    by_cases heq : other = c
    · rw [heq, stage_move]
      simp [JsonStage.waiting]
    · rw [stage_move_of_ne s _ heq, ← h.acquired other]
      simp [heq]
  working := by
    intro other hlock
    cases hlock
    refine ⟨s.acquired, rfl, ?_⟩
    show Within _ _ ((move s c .locked).stage c) s.file
    rw [stage_move]
    exact h.quiet hfree
  quiet := by
    intro hnone
    cases hnone
  returned := by
    intro other outcome hreturned
    have hne : other ≠ c := by
      rintro rfl
      have hlocked : (move s other .locked).stage other = .returned outcome := hreturned
      rw [stage_move] at hlocked
      cases hlocked
    have hold : s.stage other = .returned outcome := by
      rw [← stage_move_of_ne s .locked hne]
      exact hreturned
    obtain ⟨front, hfront, houtcome⟩ := h.returned other outcome hold
    exact ⟨front, hfront.trans (List.prefix_append _ _), houtcome⟩

/-- The call that is inside takes a step and stays inside. -/
theorem Inv.work (h : Inv calls data s) (hlock : s.lockFile = some c) {stage : JsonStage δ}
    {file : JsonFile δ} (hstage : stage.inside = true)
    (hwithin : ∀ before, Within (calls c) before (s.stage c) s.file →
      Within (calls c) before stage file) :
    Inv calls data { move s c stage with file := file } where
  exclusive := by
    apply h.exclusive.congr
    intro other
    show ((move s c stage).stage other).inside = true ↔ _
    by_cases heq : other = c
    · rw [heq, stage_move]
      exact iff_of_true hstage ((h.exclusive c).mpr hlock)
    · rw [stage_move_of_ne s _ heq]
  nodup := h.nodup
  acquired := by
    intro other
    show other ∈ s.acquired ↔ ((move s c stage).stage other).waiting = false
    have hpast : ∀ stage : JsonStage δ, stage.inside = true → stage.waiting = false := by
      intro stage hin
      cases stage <;> first | rfl | cases hin
    by_cases heq : other = c
    · rw [heq, stage_move, h.acquired c]
      exact iff_of_true (hpast _ ((h.exclusive c).mpr hlock)) (hpast _ hstage)
    · rw [stage_move_of_ne s _ heq]
      exact h.acquired other
  working := by
    intro other hother
    obtain rfl : c = other := Option.some.inj (hlock.symm.trans hother)
    obtain ⟨front, hacquired, hbefore⟩ := h.working c hlock
    refine ⟨front, hacquired, ?_⟩
    show Within _ _ ((move s c stage).stage c) file
    rw [stage_move]
    exact hwithin _ hbefore
  quiet := by
    intro hnone
    rw [show s.lockFile = none from hnone] at hlock
    cases hlock
  returned := by
    intro other outcome hreturned
    have hne : other ≠ c := by
      rintro rfl
      have hnew : (move s other stage).stage other = .returned outcome := hreturned
      rw [stage_move] at hnew
      rw [hnew] at hstage
      cases hstage
    have hold : s.stage other = .returned outcome := by
      rw [← stage_move_of_ne s stage hne]
      exact hreturned
    exact h.returned other outcome hold

/-- The call that is inside unlinks the lock file. -/
theorem Inv.unlock (h : Inv calls data s) {outcome : Outcome δ}
    (hstage : s.stage c = .unlinking outcome) (hlock : s.lockFile = some c) :
    Inv calls data { move s c (.returned outcome) with lockFile := none } := by
  obtain ⟨front, hacquired, hwithin⟩ := h.working c hlock
  rw [hstage] at hwithin
  obtain ⟨hfile, houtcome⟩ := hwithin
  have hin : (s.stage c).inside = true := (h.exclusive c).mpr hlock
  refine ⟨?_, h.nodup, fun other => ?_, fun _ hother => (by cases hother), fun _ => ?_,
    fun other result hreturned => ?_⟩
  · refine h.exclusive.remove (k := c) hin ?_ fun other heq => ?_
    · show ¬((move s c (.returned outcome)).stage c).inside = true
      rw [stage_move]
      exact nofun
    · show ((move s c (.returned outcome)).stage other).inside = true ↔ _
      rw [stage_move_of_ne s _ heq]
  · show other ∈ s.acquired ↔ ((move s c (.returned outcome)).stage other).waiting = false
    by_cases heq : other = c
    · rw [heq, stage_move, h.acquired c, hstage]
      exact iff_of_true rfl rfl
    · rw [stage_move_of_ne s _ heq]
      exact h.acquired other
  · show s.file = _
    rw [hfile]
    show _ = JsonFile.valid (applyAll calls s.acquired data)
    rw [hacquired, applyAll_concat]
  · by_cases heq : other = c
    · have hnew : (move s c (.returned outcome)).stage other = .returned result := hreturned
      rw [heq, stage_move] at hnew
      cases hnew
      refine ⟨front, ?_, heq ▸ houtcome⟩
      rw [heq, ← hacquired]
      exact List.prefix_rfl
    · have hold : s.stage other = .returned result := by
        rw [← stage_move_of_ne s (.returned outcome) heq]
        exact hreturned
      exact h.returned other result hold

/-- A call that has found the content goes on as `Within` says. -/
theorem within_opened {call : JsonCall δ} {before : δ} :
    (opened call (.valid before)).inside = true ∧
      Within call before (opened call (.valid before)) (.valid before) := by
  cases call with
  | update updateMethod => exact ⟨rfl, rfl, rfl, rfl⟩
  | write data => exact ⟨rfl, rfl, rfl, rfl⟩
  | read default => exact ⟨rfl, rfl, rfl⟩

/-- **One step.** -/
theorem Inv.step (h : Inv calls data s) (hstep : step calls s c = some t) : Inv calls data t := by
  have hlock : (s.stage c).inside = true → s.lockFile = some c := (h.exclusive c).mp
  unfold LockedJson.step at hstep
  split at hstep
  case h_1 hstage =>
    split at hstep <;> cases hstep <;> exact h.wait (by rw [hstage]; rfl) rfl
  case h_2 hstage =>
    -- the file is never missing
    split at hstep
    · rename_i hmissing
      rcases h.front with hfile | ⟨_, _, hfile⟩ <;> rw [hfile] at hmissing <;> cases hmissing
    · cases hstep
      exact h.wait (by rw [hstage]; rfl) rfl
  case h_3 hstage =>
    split at hstep
    · rename_i hfree
      cases hstep
      exact h.lock hstage hfree
    · cases hstep
      exact h
  case h_4 hstage =>
    cases hstep
    -- the file holds what the calls before have left
    have hmine := hlock (by rw [hstage]; rfl)
    obtain ⟨front, -, hwithin⟩ := h.working c hmine
    rw [hstage] at hwithin
    have hfile : s.file = .valid (applyAll calls front data) := hwithin
    rw [hfile]
    refine h.work hmine within_opened.1 fun before hbefore => ?_
    rw [hstage] at hbefore
    have hsame : s.file = .valid before := hbefore
    rw [hfile] at hsame
    cases hsame
    rw [hfile]
    exact within_opened.2
  case h_5 written hstage =>
    cases hstep
    refine h.work (hlock (by rw [hstage]; rfl)) rfl fun before hbefore => ?_
    rw [hstage] at hbefore
    exact ⟨rfl, hbefore.2⟩
  case h_6 written hstage =>
    cases hstep
    refine h.work (hlock (by rw [hstage]; rfl)) rfl fun before hbefore => ?_
    rw [hstage] at hbefore
    exact ⟨congrArg _ hbefore.2.1, hbefore.2.2.symm⟩
  case h_7 outcome hstage =>
    cases hstep
    refine h.work (hlock (by rw [hstage]; rfl)) rfl fun before hbefore => ?_
    rw [hstage] at hbefore
    exact hbefore
  case h_8 outcome hstage =>
    have hmine := hlock (by rw [hstage]; rfl)
    rw [hmine] at hstep
    cases hstep
    refine h.work hmine rfl fun before hbefore => ?_
    rw [hstage] at hbefore
    exact hbefore
  case h_9 outcome hstage =>
    have hmine := hlock (by rw [hstage]; rfl)
    rw [hmine] at hstep
    cases hstep
    exact h.unlock hstage hmine
  case h_10 => cases hstep
  case h_11 => cases hstep

theorem reachable_inv (h : Reachable (LockedJson.step calls) (initial data) s) : Inv calls data s :=
  h.invariant inv_initial fun _ _ _ _ hinv hstep => hinv.step hstep

end Inv

end LockedJson

/-! ## The list of the running processes -/

/-- The update method of `add_running_process`. -/
def addRunning (processId : String) (processIds : List String) : List String :=
  if processId ∉ processIds then processIds ++ [processId] else processIds

/-- The update method of `remove_running_process`. -/
def removeRunning (processId : String) (processIds : List String) : List String :=
  if processId ∈ processIds then processIds.erase processId else processIds

theorem nodup_addRunning {processIds : List String} (h : processIds.Nodup) (processId : String) :
    (addRunning processId processIds).Nodup := by
  unfold addRunning
  split
  · rename_i hnew
    simpa using h.concat hnew
  · exact h

theorem nodup_removeRunning {processIds : List String} (h : processIds.Nodup)
    (processId : String) : (removeRunning processId processIds).Nodup := by
  unfold removeRunning
  split
  · exact h.erase processId
  · exact h

theorem mem_addRunning {owner processId : String} {processIds : List String} :
    processId ∈ addRunning owner processIds ↔ processId = owner ∨ processId ∈ processIds := by
  unfold addRunning
  split
  · rw [List.mem_append, List.mem_singleton, or_comm]
  · rename_i hlisted
    refine ⟨Or.inr, fun h => h.elim (fun heq => ?_) id⟩
    exact heq ▸ not_not.mp hlisted

theorem mem_removeRunning {owner processId : String} {processIds : List String}
    (h : processIds.Nodup) :
    processId ∈ removeRunning owner processIds ↔ processId ≠ owner ∧ processId ∈ processIds := by
  unfold removeRunning
  split
  · exact h.mem_erase_iff
  · rename_i hunlisted
    exact ⟨fun hmem => ⟨fun heq => hunlisted (heq ▸ hmem), hmem⟩, And.right⟩

/-- A call of `add_running_process`, of `remove_running_process`, or a locked read. -/
inductive RunningCall
  | add (processId : String)
  | remove (processId : String)
  | read
  deriving DecidableEq, Repr

def RunningCall.call : RunningCall → JsonCall (List String)
  | add processId => .update (addRunning processId)
  | remove processId => .update (removeRunning processId)
  | read => .read []

namespace LockedJson

theorem nodup_applyAll {processIds : List String} (h : processIds.Nodup) (calls : ℕ → RunningCall)
    (order : List ℕ) : (applyAll (fun c => (calls c).call) order processIds).Nodup := by
  induction order using List.reverseRecOn with
  | nil => exact h
  | append_singleton order c ih =>
      rw [applyAll_concat]
      cases calls c with
      | add processId => exact nodup_addRunning ih processId
      | remove processId => exact nodup_removeRunning ih processId
      | read => exact ih

/-- **Linearizability.**  At most one call is between `lock_file` and the end of `unlock_file`; each
call that has got the lock is once in the order of the acquisitions; when no call is inside, the
content is what the calls make of the first content in this order; a locked read has returned
the content after a front of the order; and a list that is changed by `add_running_process` and
`remove_running_process` has no id twice. -/
theorem linearizable :
    (∀ {δ : Type} (calls : ℕ → JsonCall δ) (data : δ) (s : State δ),
      Reachable (step calls) (initial data) s →
        (∀ c c', (s.stage c).inside = true → (s.stage c').inside = true → c = c') ∧
        s.acquired.Nodup ∧
        (∀ c, c ∈ s.acquired ↔ (s.stage c).waiting = false) ∧
        ((∀ c, (s.stage c).inside = false) → s.file = .valid (applyAll calls s.acquired data)) ∧
        (∀ c default outcome, calls c = .read default → s.stage c = .returned outcome →
          ∃ front, front ++ [c] <+: s.acquired ∧ outcome = .content (applyAll calls front data))) ∧
    ∀ (calls : ℕ → RunningCall) (processIds : List String) (s : State (List String)),
      processIds.Nodup → Reachable (step fun c => (calls c).call) (initial processIds) s →
        ∀ content, s.file = .valid content → content.Nodup := by
  constructor
  · intro δ calls data s hreach
    have h := reachable_inv hreach
    refine ⟨fun c c' hc hc' => h.exclusive.unique hc hc', h.nodup, h.acquired, fun hnone => ?_,
      fun c default outcome hcall hstage => ?_⟩
    · apply h.quiet
      cases hlock : s.lockFile with
      | none => rfl
      | some c =>
          have hin : (s.stage c).inside = true := (h.exclusive c).mpr hlock
          rw [hnone c] at hin
          cases hin
    · obtain ⟨front, hfront, houtcome⟩ := h.returned c outcome hstage
      rw [hcall] at houtcome
      exact ⟨front, hfront, houtcome⟩
  · intro calls processIds s hnodup hreach content hcontent
    rcases (reachable_inv hreach).front with hfile | ⟨front, -, hfile⟩
    · rw [hfile] at hcontent
      cases hcontent
    · rw [hfile] at hcontent
      cases hcontent
      exact nodup_applyAll hnodup calls front

/-- Two additions of one id and a read that waits for the second one. -/
def twoAdditions : ℕ → RunningCall
  | 0 => .add "a"
  | 1 => .add "a"
  | _ => .read

theorem linearizable_two_additions :
    ∃ s, Reachable (step fun c => (twoAdditions c).call) (initial []) s ∧
      s.stage 2 = .returned (.content ["a"]) ∧ s.acquired = [1, 0, 2] ∧
      (∃ front, front ++ [2] <+: s.acquired ∧
        Outcome.content ["a"] = .content (applyAll (fun c => (twoAdditions c).call) front [])) ∧
      ∀ content, s.file = .valid content → content.Nodup := by
  obtain ⟨s, hreach, hend⟩ := Reachable.exists_of_run
    (show (run (step fun c => (twoAdditions c).call) (initial [])
        ([0, 1, 1, 0, 1, 2, 1, 1, 2, 2, 1, 1, 0, 1] ++ List.replicate 7 0 ++
          List.replicate 5 2)).any
        (fun s => decide (s.stage 2 = .returned (.content ["a"]) ∧ s.acquired = [1, 0, 2])) =
        true by decide +kernel)
  obtain ⟨hreturned, hacquired⟩ := of_decide_eq_true hend
  obtain ⟨-, -, -, -, hread⟩ :=
    linearizable.1 (fun c => (twoAdditions c).call) [] s hreach
  exact ⟨s, hreach, hreturned, hacquired, hread 2 [] _ rfl hreturned,
    linearizable.2 twoAdditions [] s List.nodup_nil hreach⟩

end LockedJson

end ComputeWebApp.Api
