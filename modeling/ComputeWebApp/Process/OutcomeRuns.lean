import ComputeWebApp.Process.Outcome

/-!
# The thread of an outcome in the system

`Outcome` follows `run_process` as one function, `Runs` as the steps of a thread between those of
the requests, of other threads and of the programs.  Where nobody else makes a step, the two leave
the same files: each part of `run_process` has a lemma about the steps that it stands for, and
together they make `runProcess_reachable`.
-/

namespace ComputeWebApp.Api

open Transition

variable {system : ProcessState} {k : ℕ} {processId : String} {s t : ThreadState}

/-- The thread `k` of the system and its files are those of `s`. -/
structure Mirror (system : ProcessState) (k : ℕ) (processId : String) (s : ThreadState) :
    Prop where
  id : (system.runs k).processId = processId
  status : (system.runs k).status = s.status
  pid : (system.runs k).pid = s.pid
  record : system.records processId = some s.record
  running : system.running = s.running.processIds

/-- A step that changes the thread and no file. -/
theorem Mirror.setRun (h : Mirror system k processId s) {run : Run}
    (hid : run.processId = processId) (hstatus : run.status = t.status)
    (hpid : run.pid = t.pid) (hrecord : s.record = t.record) (hrunning : s.running = t.running) :
    Mirror (system.setRun k run) k processId t := by
  have hrun : (system.setRun k run).runs k = run := system.runs_setRun k run
  refine ⟨?_, ?_, ?_, ?_, ?_⟩
  · rw [hrun, hid]
  · rw [hrun, hstatus]
  · rw [hrun, hpid]
  · rw [← hrecord]
    exact h.record
  · rw [← hrunning]
    exact h.running

/-- A locked update of the thread. -/
theorem Mirror.writeRun (h : Mirror system k processId s) {run : Run} {write : Write}
    (hwrite : (system.runs k).write = some (run, write)) (hstatus : run.status = t.status)
    (hpid : run.pid = t.pid) (hrecord : write.record s.record = t.record)
    (hrunning : write.running s.running.processIds = t.running.processIds) :
    ∃ next, system.step (.writeRun k) = some next ∧ Mirror next k processId t ∧
      next.runs k = run ∧ next.os = system.os := by
  have hid : run.processId = processId := (ProcessState.Run.stage_write hwrite).2.trans h.id
  have hstep : system.step (.writeRun k) =
      some ((system.apply processId write).setRun k run) := by
    rw [ProcessState.step, hwrite, Option.map_some, ← hid]
  have hwritten : Mirror (system.apply processId write) k processId
      { s with record := t.record, running := t.running } := by
    refine ⟨h.id, h.status, h.pid, ?_, ?_⟩
    · rw [ProcessState.records_apply, h.record, Option.map_some, hrecord]
    · rw [← hrunning, ← h.running]
      rfl
  exact ⟨_, hstep, hwritten.setRun hid hstatus hpid rfl rfl, ProcessState.runs_setRun .., rfl⟩

/-- What precedes `Popen`. -/
theorem Mirror.start (h : Mirror system k processId s) (hstage : (system.runs k).stage = .begun) :
    ∃ next, Reachable ProcessState.step system next ∧ Mirror next k processId (s.start processId) ∧
      (next.runs k).stage = .listed ∧ (next.runs k).returnCode = (system.runs k).returnCode ∧
      next.os = system.os := by
  let begun : ThreadState := { s with status := .begun }.updateProcess
  have hwrite : (system.runs k).write =
      some ({ system.runs k with stage := .started, status := .begun },
        { record := fun _ => ⟨.begun, (system.runs k).pid⟩ }) := by
    rw [Run.write, hstage]
  obtain ⟨started, hstep, hmirror, hrun, hos⟩ := h.writeRun (t := begun) hwrite rfl h.pid
    (by rw [h.pid]; rfl) rfl
  have hadd : (started.runs k).write =
      some ({ started.runs k with stage := .listed },
        { running := addRunning (started.runs k).processId }) := by
    rw [Run.write, hrun]
  obtain ⟨next, hstep', hmirror', hrun', hos'⟩ := hmirror.writeRun (t := s.start processId) hadd
    hmirror.status hmirror.pid rfl (by rw [hmirror.id]; rfl)
  refine ⟨next, (Reachable.initial.step _ hstep).step _ hstep', hmirror', ?_, ?_, hos'.trans hos⟩
  · rw [hrun']
  · rw [hrun', hrun]

/-- The thread reads the output of its program, which is running. -/
structure Reads (system : ProcessState) (k pid : ℕ) : Prop where
  stage : (system.runs k).stage = .reading
  inner : (system.runs k).inner = some pid
  os : system.os pid = some ⟨some k, false⟩

/-- `Popen`, and the update with the pid. -/
theorem Mirror.launched (h : Mirror system k processId s)
    (hstage : (system.runs k).stage = .listed) {child : Child}
    (hos : system.os child.pid = none) :
    ∃ next, Reachable ProcessState.step system next ∧ Mirror next k processId (s.launched child) ∧
      Reads next k child.pid := by
  let run : Run := { system.runs k with
    stage := .launched, pid := some child.pid, inner := some child.pid }
  let launched := (system.setOs child.pid (some ⟨some k, false⟩)).setRun k run
  have hlaunch : system.step (.launch k child.pid) = some launched := if_pos ⟨hstage, hos⟩
  have hrun : launched.runs k = run := ProcessState.runs_setRun ..
  have hset : Mirror (system.setOs child.pid (some ⟨some k, false⟩)) k processId s :=
    ⟨h.id, h.status, h.pid, h.record, h.running⟩
  have hmirror : Mirror launched k processId { s with pid := some child.pid } :=
    hset.setRun h.id h.status rfl rfl rfl
  have hwrite : (launched.runs k).write = some ({ run with stage := .reading },
      { record := fun _ => ⟨run.status, run.pid⟩ }) := by
    rw [Run.write, hrun]
  obtain ⟨next, hstep, hmirror', hrun', hos'⟩ := hmirror.writeRun (t := s.launched child) hwrite
    h.status rfl (by rw [show run.status = s.status from h.status]; rfl) rfl
  refine ⟨next, (Reachable.initial.step _ hlaunch).step _ hstep, hmirror', ?_, ?_, ?_⟩
  · rw [hrun']
  · rw [hrun']
  · rw [hos']
    exact ProcessState.os_setOs ..

/-- The body of the loop, for a line that is read. -/
theorem Mirror.withLine (h : Mirror system k processId s) {pid : ℕ} (hreads : Reads system k pid)
    (line : String) :
    ∃ next, Reachable ProcessState.step system next ∧ Mirror next k processId (s.withLine line) ∧
      Reads next k pid := by
  let status := parsedLine s.status line
  let run : Run := { system.runs k with stage := .parsed, status := status }
  have hread : system.step (.readLine k (progressFound line) (errorsFound line)) =
      some (system.setRun k run) := by
    rw [ProcessState.step, if_pos hreads.stage, h.status]
    rfl
  have hrun : (system.setRun k run).runs k = run := ProcessState.runs_setRun ..
  have hmirror : Mirror (system.setRun k run) k processId { s with status := status } :=
    h.setRun h.id rfl h.pid rfl rfl
  have hwrite : ((system.setRun k run).runs k).write = some ({ run with stage := .reading },
      mergeStatus fun old => old.update status) := by
    rw [Run.write, hrun]
  obtain ⟨next, hstep, hmirror', hrun', hos⟩ := hmirror.writeRun (t := s.withLine line) hwrite
    rfl h.pid rfl rfl
  refine ⟨next, (Reachable.initial.step _ hread).step _ hstep, hmirror', ?_, ?_, ?_⟩
  · rw [hrun']
  · rw [hrun']
    exact hreads.inner
  · rw [hos]
    exact hreads.os

theorem Mirror.withLines (h : Mirror system k processId s) {pid : ℕ}
    (hreads : Reads system k pid) (lines : List String) :
    ∃ next, Reachable ProcessState.step system next ∧
      Mirror next k processId (lines.foldl ThreadState.withLine s) ∧ Reads next k pid := by
  induction lines generalizing system s with
  | nil => exact ⟨system, .initial, h, hreads⟩
  | cons line lines ih =>
      obtain ⟨handled, hline, hmirror, hreads'⟩ := h.withLine hreads line
      obtain ⟨next, hlines, hmirror', hreads''⟩ := ih hmirror hreads'
      exact ⟨next, hline.trans hlines, hmirror', hreads''⟩

/-- The program exits, a poll finds its return code, and the loop ends. -/
theorem Mirror.endLoop (h : Mirror system k processId s) {pid : ℕ}
    (hreads : Reads system k pid) (returnCode : ℤ) :
    ∃ next, Reachable ProcessState.step system next ∧ Mirror next k processId s ∧
      (next.runs k).stage = .ended ∧ (next.runs k).returnCode = returnCode := by
  let exited := system.setOs pid (some ⟨some k, true⟩)
  have hexit : system.step (.exit pid) = some exited := by
    rw [ProcessState.step, hreads.os]
    rfl
  let run : Run := { system.runs k with inner := none, returnCode := returnCode }
  let polled := (exited.setOs pid none).setRun k run
  have hpoll : exited.step (.poll k returnCode) = some polled := by
    have hinner : (exited.runs k).inner = some pid := hreads.inner
    have hended : (exited.os pid).any OsProcess.ended = true := by
      rw [ProcessState.os_setOs]
      rfl
    simp only [ProcessState.step, hinner]
    exact if_pos ⟨hreads.stage, hended⟩
  have hrun : polled.runs k = run := ProcessState.runs_setRun ..
  let left := polled.setRun k { run with stage := .ended }
  have hleave : polled.step (.endLoop k) = some left := by
    rw [ProcessState.step, hrun]
    exact if_pos ⟨hreads.stage, rfl⟩
  have hset : Mirror (exited.setOs pid none) k processId s :=
    ⟨h.id, h.status, h.pid, h.record, h.running⟩
  have hpolled : Mirror polled k processId s := hset.setRun h.id h.status h.pid rfl rfl
  have hmirror : Mirror left k processId s := hpolled.setRun h.id h.status h.pid rfl rfl
  refine ⟨left, ((Reachable.initial.step _ hexit).step _ hpoll).step _ hleave, hmirror, ?_, ?_⟩
  · rw [ProcessState.runs_setRun]
  · rw [ProcessState.runs_setRun]

/-- What follows the `try` block. -/
theorem Mirror.finish (h : Mirror system k processId s) (hstage : (system.runs k).stage = .ended) :
    ∃ next, Reachable ProcessState.step system next ∧
      Mirror next k processId (s.finish processId (system.runs k).returnCode) ∧
      (next.runs k).stage = .finished := by
  let returnCode := (system.runs k).returnCode
  let final := (s.finish processId returnCode).status
  have hfinal : (system.runs k).finalStatus = final := by
    rw [Run.finalStatus, h.status]
    rfl
  have hwrite : (system.runs k).write =
      some ({ system.runs k with stage := .finalized, status := final },
        { record := fun _ => ⟨final, (system.runs k).pid⟩ }) := by
    rw [Run.write, hstage, hfinal]
  obtain ⟨finalized, hstep, hmirror, hrun, -⟩ :=
    h.writeRun (t := { s with status := final }.updateProcess) hwrite rfl h.pid
      (by rw [h.pid]; rfl) rfl
  have hremove : (finalized.runs k).write =
      some ({ finalized.runs k with stage := .finished },
        { running := removeRunning (finalized.runs k).processId }) := by
    rw [Run.write, hrun]
  obtain ⟨next, hstep', hmirror', hrun', -⟩ :=
    hmirror.writeRun (t := s.finish processId returnCode) hremove hmirror.status hmirror.pid rfl
      (by rw [hmirror.id]; rfl)
  refine ⟨next, (Reachable.initial.step _ hstep).step _ hstep', hmirror', ?_⟩
  rw [hrun']

/-- The clause for a `FileNotFoundError` of `Popen`. -/
theorem Mirror.notFound (h : Mirror system k processId s)
    (hstage : (system.runs k).stage = .listed) (raised : Raised) :
    ∃ next, Reachable ProcessState.step system next ∧ Mirror next k processId (s.notFound raised) ∧
      (next.runs k).stage = .ended ∧ (next.runs k).returnCode = (system.runs k).returnCode := by
  let run : Run := { system.runs k with
    stage := .ended
    status := (s.notFound raised).status }
  have hfails : system.step (.launchFails k raised.text) = some (system.setRun k run) := by
    rw [ProcessState.step, if_pos hstage, h.status]
    rfl
  have hrun : (system.setRun k run).runs k = run := ProcessState.runs_setRun ..
  refine ⟨_, Reachable.initial.step _ hfails, h.setRun h.id rfl h.pid rfl rfl, ?_, ?_⟩
  · rw [hrun]
  · rw [hrun]

/-- **Every run of `runProcess` is a run of the system**, in which nothing but the thread and its
program makes a step.  `readline` does not raise a `FileNotFoundError`. -/
theorem runProcess_reachable {limits : Python.Limits} {launch : Except Raised Child}
    (h : Mirror system k processId s) (hstage : (system.runs k).stage = .begun)
    (hcode : (system.runs k).returnCode = -1)
    (hlaunch : ∀ child, launch = .ok child → system.os child.pid = none ∧
      ∀ raised ∈ child.fault, raised.kind ≠ .fileNotFoundError) :
    ∃ next, Reachable ProcessState.step system next ∧
      Mirror next k processId (runProcess limits processId launch [] s).2 ∧
      ((runProcess limits processId launch [] s).1 = none → (next.runs k).stage = .finished) := by
  obtain ⟨listed, hstart, hmirror, hlisted, hcode', hos'⟩ := h.start hstage
  cases launch with
  | error raised =>
      -- `Popen` raises
      have htry : tryRun limits (.error raised) ((s.start processId).meanwhile []) =
          (.error raised, s.start processId) := rfl
      rw [runProcess_of_error htry]
      by_cases hkind : raised.kind = .fileNotFoundError
      · obtain ⟨ended, hfails, hmirror, hended, hcode''⟩ := hmirror.notFound hlisted raised
        obtain ⟨next, hfinish, hmirror, hfinished⟩ := hmirror.finish hended
        rw [hcode'', hcode', hcode] at hmirror
        rw [if_pos hkind]
        exact ⟨next, (hstart.trans hfails).trans hfinish, hmirror, fun _ => hfinished⟩
      · rw [if_neg hkind]
        exact ⟨listed, hstart, hmirror, fun hnone => absurd hnone (Option.some_ne_none raised)⟩
  | ok child =>
      obtain ⟨hos, hkind⟩ := hlaunch child rfl
      obtain ⟨launched, hlaunched, hmirror, hreads⟩ := hmirror.launched hlisted (hos' ▸ hos)
      have hraises : ∀ {raised : Raised} {front : List String},
          raised.kind ≠ .fileNotFoundError →
          tryRun limits (.ok child) ((s.start processId).meanwhile []) = (.error raised,
            front.foldl ThreadState.withLine ((s.start processId).launched child)) →
          ∃ next, Reachable ProcessState.step system next ∧
            Mirror next k processId (runProcess limits processId (.ok child) [] s).2 ∧
            ((runProcess limits processId (.ok child) [] s).1 = none →
              (next.runs k).stage = .finished) := by
        intro raised front hother htry
        obtain ⟨handled, hlines, hmirror, -⟩ := hmirror.withLines hreads front
        rw [runProcess_of_error htry, if_neg hother]
        exact ⟨handled, (hstart.trans hlaunched).trans hlines, hmirror,
          fun hnone => absurd hnone (Option.some_ne_none raised)⟩
      by_cases hread : AllRead limits (child.lines.map Subtype.val)
      swap
      · -- `parse_log` raises
        obtain ⟨front, htry⟩ := tryRun_overlong (s := (s.start processId).meanwhile []) child hread
        exact hraises (by decide) htry
      cases hfault : child.fault with
      | none =>
          obtain ⟨handled, hlines, hmirror, hreads⟩ :=
            hmirror.withLines hreads (child.lines.map Subtype.val)
          obtain ⟨ended, hend, hmirror, hended, hcode''⟩ :=
            hmirror.endLoop hreads child.returnCode
          obtain ⟨next, hfinish, hmirror, hfinished⟩ := hmirror.finish hended
          rw [hcode''] at hmirror
          rw [runProcess_eq hfault hread]
          exact ⟨next, (((hstart.trans hlaunched).trans hlines).trans hend).trans hfinish, hmirror,
            fun _ => hfinished⟩
      | some raised => exact hraises (hkind raised hfault) (tryRun_of_fault hfault hread)

end ComputeWebApp.Api
