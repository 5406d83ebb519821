import ComputeWebApp.Upload.WriteServer

/-!
# The accounting of the write queues

A queue counts an item from `put` to `task_done`, and `join` returns when it counts none.  In any
run the count is the number of items in the queue, of the item that the worker has taken, and of
those that a worker has left without `task_done` (`Accounted`): once the queue is drained, `join`
returns if and only if there are none of the latter.

`task_done` stands in the `try`, and the `except` branch has none, so that every item is done
exactly once as long as each item finds what it needs (`Completing`).
-/

namespace ComputeWebApp.Api

open Transition

/-! ## Items that find what they need -/

/-- What an item needs of the files of its data. -/
def DataFiles.Completes (keepFilesOpen : Bool) (files : DataFiles) (item : Item) : Prop :=
  if item.isCreation = true then
    files.current.cached = false ∧ Api.Completes keepFilesOpen files.current item
  else Api.Completes keepFilesOpen files.seen item

instance (keepFilesOpen : Bool) (files : DataFiles) (item : Item) :
    Decidable (files.Completes keepFilesOpen item) :=
  inferInstanceAs (Decidable (if item.isCreation = true then _ else _))

theorem endingOf_eq_done {m : WorkerM Unit} {s : DataState} :
    endingOf (m s) = .done ↔ Returns m s := by
  cases hrun : m s with
  | ok _ t => exact iff_of_true rfl ⟨(), t, hrun⟩
  | error stop t =>
      refine iff_of_false ?_ (not_returns_of_error hrun)
      cases stop <;> exact nofun

theorem DataFiles.handle_done_iff (keepFilesOpen : Bool) (files : DataFiles) (item : Item) :
    (files.handle keepFilesOpen item).1 = .done ↔ files.Completes keepFilesOpen item := by
  unfold handle DataFiles.Completes
  by_cases hcreation : item.isCreation = true
  · rw [if_pos hcreation, if_pos hcreation]
    by_cases hcached : files.current.cached = true
    · rw [if_pos hcached, hcached]
      exact iff_of_false nofun fun h => nomatch h.1
    · rw [if_neg hcached, ← returns_handleItem_iff, ← endingOf_eq_done]
      exact (and_iff_right (by simpa using hcached)).symm
  · rw [if_neg hcreation, if_neg hcreation, ← returns_handleItem_iff, ← endingOf_eq_done]
    cases files.detached <;> rfl

namespace WriteState

/-- Every item that the write worker handles finds what it needs, and no `send` raises. -/
def Completing (config : WriteConfig) (s : WriteState) : WriteAction → Prop
  | .handle => ∀ queueItem ∈ s.busy,
      (s.files queueItem.dataId).Completes config.keepFilesOpen queueItem.item
  | .sendRaises => False
  | _ => True

instance (config : WriteConfig) (s : WriteState) (a : WriteAction) :
    Decidable (Completing config s a) :=
  match a with
  | .handle => inferInstanceAs (Decidable (∀ queueItem ∈ s.busy, _))
  | .sendRaises => instDecidableFalse
  | .put _ => instDecidableTrue
  | .remove _ => instDecidableTrue
  | .forward _ => instDecidableTrue
  | .receive => instDecidableTrue
  | .reply => instDecidableTrue
  | .take _ => instDecidableTrue

/-! ## The accounting -/

/-- Each item that a worker has left is done exactly once, and the write worker is not left in one
for ever. -/
structure DoneOnce (s : WriteState) : Prop where
  forwarded : ∀ entry ∈ s.forwarded, entry.2 = 1
  finished : ∀ entry ∈ s.finished, entry.2 = 1
  going : s.stuck = false

/-- The number of items that have been left without `task_done`. -/
def undone (entries : List (QueueItem × ℕ)) : ℕ := entries.countP fun entry => entry.2 = 0

/-- What the two queues count. -/
structure Accounted (s : WriteState) : Prop where
  front : s.frontUnfinished = s.front.length + s.forwarding.toList.length + undone s.forwarded
  queue : s.unfinished = s.queue.length + s.busy.toList.length + undone s.finished

section Step

variable {config : WriteConfig} {s t : WriteState} {a : WriteAction}

theorem undone_cons (queueItem : QueueItem) (calls : ℕ) (entries : List (QueueItem × ℕ)) :
    undone ((queueItem, calls) :: entries) = undone entries + if calls = 0 then 1 else 0 := by
  rw [undone, List.countP_cons]
  simp [undone]

theorem undone_eq_zero {entries : List (QueueItem × ℕ)} (h : ∀ entry ∈ entries, entry.2 = 1) :
    undone entries = 0 := by
  rw [undone, List.countP_eq_zero]
  intro entry hmem
  simp [h entry hmem]

/-- **Accounting.**  What a step adds to one place it takes from another one. -/
theorem Accounted.step (h : Accounted s) (hstep : s.step config a = some t) : Accounted t := by
  obtain ⟨hfront, hqueue⟩ := h
  cases a with
  | put queueItem =>
      cases hstep
      unfold put
      split
      · exact ⟨by simp only [List.length_append, List.length_singleton]; omega, hqueue⟩
      · exact ⟨hfront, by simp only [List.length_append, List.length_singleton]; omega⟩
  | remove dataId =>
      cases hstep
      exact ⟨hfront, hqueue⟩
  | forward position =>
      obtain ⟨hidle, queueItem, rest, hget, rfl⟩ := step_forward hstep
      have hlength := (PriorityQueue.perm_of_get hget).length_eq
      rw [hidle] at hfront
      refine ⟨?_, hqueue⟩
      simp only [List.length_cons, Option.toList_none, Option.toList_some, List.length_nil] at *
      omega
  | sendRaises =>
      obtain ⟨queueItem, hforwarding, -, rfl⟩ := step_sendRaises hstep
      rw [hforwarding] at hfront
      refine ⟨?_, hqueue⟩
      simp only [undone_cons, Option.toList_none, Option.toList_some, List.length_cons,
        List.length_nil, if_true] at *
      omega
  | receive =>
      obtain ⟨message, -, rfl⟩ := step_receive hstep
      exact ⟨hfront, by simp only [List.length_append, List.length_singleton]; omega⟩
  | reply =>
      obtain ⟨queueItem, hforwarding, -, -, rfl⟩ := step_reply hstep
      rw [hforwarding] at hfront
      refine ⟨?_, hqueue⟩
      simp only [undone_cons, Option.toList_none, Option.toList_some, List.length_cons,
        List.length_nil, Nat.one_ne_zero, if_false] at *
      omega
  | take position =>
      obtain ⟨hidle, queueItem, rest, hget, rfl⟩ := step_take hstep
      have hlength := (PriorityQueue.perm_of_get hget).length_eq
      rw [hidle] at hqueue
      refine ⟨hfront, ?_⟩
      simp only [List.length_cons, Option.toList_none, Option.toList_some, List.length_nil] at *
      omega
  | handle =>
      obtain ⟨-, queueItem, hbusy, rfl⟩ := step_handle hstep
      unfold leave
      rw [hbusy] at hqueue
      -- the item is done, it has raised an exception, or the worker stays at it
      split
      · refine ⟨hfront, ?_⟩
        simp only [undone_cons, Option.toList_none, Option.toList_some, List.length_cons,
          List.length_nil, Nat.one_ne_zero, if_false] at *
        omega
      · refine ⟨hfront, ?_⟩
        simp only [undone_cons, Option.toList_none, Option.toList_some, List.length_cons,
          List.length_nil, if_true] at *
        omega
      · exact ⟨hfront, by rw [← hbusy] at hqueue; exact hqueue⟩

/-- One step keeps every item done once if and only if its item finds what it needs. -/
theorem doneOnce_step_iff (hstep : s.step config a = some t) :
    DoneOnce t ↔ DoneOnce s ∧ Completing config s a := by
  cases a with
  | put queueItem =>
      cases hstep
      refine Iff.trans ?_ (and_iff_left trivial).symm
      unfold put
      split <;> exact ⟨fun h => ⟨h.forwarded, h.finished, h.going⟩,
        fun h => ⟨h.forwarded, h.finished, h.going⟩⟩
  | remove dataId =>
      cases hstep
      exact ⟨fun h => ⟨⟨h.forwarded, h.finished, h.going⟩, trivial⟩,
        fun h => ⟨h.1.forwarded, h.1.finished, h.1.going⟩⟩
  | forward position =>
      obtain ⟨-, queueItem, rest, -, rfl⟩ := step_forward hstep
      exact ⟨fun h => ⟨⟨h.forwarded, h.finished, h.going⟩, trivial⟩,
        fun h => ⟨h.1.forwarded, h.1.finished, h.1.going⟩⟩
  | sendRaises =>
      obtain ⟨queueItem, -, -, rfl⟩ := step_sendRaises hstep
      exact iff_of_false (fun h => absurd (h.forwarded _ List.mem_cons_self) Nat.zero_ne_one) And.right
  | receive =>
      obtain ⟨message, -, rfl⟩ := step_receive hstep
      exact ⟨fun h => ⟨⟨h.forwarded, h.finished, h.going⟩, trivial⟩,
        fun h => ⟨h.1.forwarded, h.1.finished, h.1.going⟩⟩
  | reply =>
      obtain ⟨queueItem, -, -, -, rfl⟩ := step_reply hstep
      exact ⟨fun h => ⟨⟨fun entry hmem => h.forwarded entry (List.mem_cons_of_mem _ hmem),
          h.finished, h.going⟩, trivial⟩,
        fun h => ⟨List.forall_mem_cons.mpr ⟨rfl, h.1.forwarded⟩, h.1.finished, h.1.going⟩⟩
  | take position =>
      obtain ⟨-, queueItem, rest, -, rfl⟩ := step_take hstep
      exact ⟨fun h => ⟨⟨h.forwarded, h.finished, h.going⟩, trivial⟩,
        fun h => ⟨h.1.forwarded, h.1.finished, h.1.going⟩⟩
  | handle =>
      obtain ⟨hstuck, queueItem, hbusy, rfl⟩ := step_handle hstep
      have hfinds : Completing config s .handle ↔
          ((s.files queueItem.dataId).handle config.keepFilesOpen queueItem.item).1 = .done := by
        rw [DataFiles.handle_done_iff]
        refine ⟨fun h => h queueItem hbusy, fun h other hother => ?_⟩
        rw [hbusy] at hother
        cases hother
        exact h
      rw [hfinds]
      unfold leave
      cases ((s.files queueItem.dataId).handle config.keepFilesOpen queueItem.item).1 with
      | done =>
          exact ⟨fun h => ⟨⟨h.forwarded,
              fun entry hmem => h.finished entry (List.mem_cons_of_mem _ hmem), hstuck⟩, rfl⟩,
            fun h => ⟨h.1.forwarded, List.forall_mem_cons.mpr ⟨rfl, h.1.finished⟩, hstuck⟩⟩
      | raised =>
          exact iff_of_false (fun h => absurd (h.finished _ List.mem_cons_self) Nat.zero_ne_one)
            fun h => nomatch h.2
      | spins => exact iff_of_false (fun h => nomatch h.going) fun h => nomatch h.2

end Step

/-- **Accounting of the write queues.**  In every run, with or without ZMQ, `task_done` is called
exactly once for each item that a worker takes and leaves, and no item holds the worker for ever,
if and only if every item finds what it needs.  Then the queues count nothing once they are
drained, so that `join` returns. -/
theorem task_done_once_iff {config : WriteConfig} {actions : List WriteAction} {s : WriteState}
    (hrun : run (step config) initial actions = some s) :
    (DoneOnce s ↔ run (restrict (Completing config) (step config)) initial actions = some s) ∧
      (DoneOnce s →
        (s.front = [] → s.forwarding = none → s.frontUnfinished = 0) ∧
          (s.queue = [] → s.busy = none → s.unfinished = 0)) := by
  have hinitial : DoneOnce initial := ⟨nofun, nofun, rfl⟩
  have haccounted : Accounted s :=
    (Reachable.of_run hrun).invariant (P := Accounted) ⟨rfl, rfl⟩
      fun _ _ _ _ h hstep => h.step hstep
  refine ⟨(run_restrict_iff (fun _ _ _ hstep => doneOnce_step_iff hstep) hrun).trans
    (and_iff_right hinitial), fun h => ⟨fun hfront hforwarding => ?_, fun hqueue hbusy => ?_⟩⟩
  · rw [haccounted.front, hfront, hforwarding, undone_eq_zero h.forwarded]
    rfl
  · rw [haccounted.queue, hqueue, hbusy, undone_eq_zero h.finished]
    rfl

/-- An item goes through the write process. -/
def throughZmq (queueItem : QueueItem) : List WriteAction :=
  [.put queueItem, .forward 0, .receive, .take 0, .handle, .reply]

/-- One pixel is created, posted again while its file is kept open, and uploaded. -/
def pixelTwice : List WriteAction :=
  throughZmq ⟨"pixel", 1, .creation onePixel⟩ ++ [.remove "pixel"] ++
    throughZmq ⟨"pixel", 1, .creation onePixel⟩ ++
    throughZmq ⟨"pixel", 1, .attributes [⟨"slice_000", .uploaded true⟩]⟩ ++
    throughZmq ⟨"pixel", 10, .body [0] [7, 8]⟩

theorem task_done_once_posted_twice :
    ∃ s, run (step ⟨true, true⟩) initial pixelTwice = some s ∧
      s.finished.map Prod.snd = [1, 1, 1, 1] ∧ s.frontUnfinished = 0 ∧ s.unfinished = 0 ∧
      (DoneOnce s ↔
        run (restrict (Completing ⟨true, true⟩) (step ⟨true, true⟩)) initial pixelTwice = some s) := by
  obtain ⟨s, hrun, hend⟩ := (Option.any_eq_true _ _).mp
    (show (run (step ⟨true, true⟩) initial pixelTwice).any (fun s => decide
      (s.finished.map Prod.snd = [1, 1, 1, 1] ∧ s.frontUnfinished = 0 ∧ s.unfinished = 0)) = true by
        decide +kernel)
  obtain ⟨hfinished, hfront, hqueue⟩ := of_decide_eq_true hend
  exact ⟨s, hrun, hfinished, hfront, hqueue, (task_done_once_iff hrun).1⟩

/-- A body for a group that is missing: the queue is drained, and `join` does not return. -/
theorem task_done_missing :
    ∃ s, run (step ⟨false, false⟩) initial
        [.put ⟨"pixel", 1, .creation onePixel⟩, .take 0, .handle,
          .put ⟨"pixel", 109, .body [99] [7, 8]⟩, .take 0, .handle] = some s ∧
      s.queue.length = 0 ∧ s.busy.isNone = true ∧ s.finished.map Prod.snd = [0, 1] ∧
      s.unfinished = 1 := by
  obtain ⟨s, hrun, hend⟩ := (Option.any_eq_true _ _).mp
    (show (run (step ⟨false, false⟩) initial
        [.put ⟨"pixel", 1, .creation onePixel⟩, .take 0, .handle,
          .put ⟨"pixel", 109, .body [99] [7, 8]⟩, .take 0, .handle]).any (fun s => decide
      (s.queue.length = 0 ∧ s.busy.isNone = true ∧ s.finished.map Prod.snd = [0, 1] ∧
        s.unfinished = 1)) = true by decide +kernel)
  exact ⟨s, hrun, of_decide_eq_true hend⟩

end WriteState

end ComputeWebApp.Api
