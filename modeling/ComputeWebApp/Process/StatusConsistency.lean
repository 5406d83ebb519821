import ComputeWebApp.Process.Runs

/-!
# The stored status of a process

Requests and threads overwrite or merge the status of a process in any order, a thread from its
own copy.  Every write of one of the two flags or of the errors writes all three, so that a stored
status is one that some write has made (`Status.Sound`).  A status that is running was written by a
thread that has its final update ahead (`StatusKept`), and this update ends with a status that is
not running.
-/

namespace ComputeWebApp.Api

open Transition

/-- Not running and done, and done only without errors. -/
structure Status.Sound (status : Status) : Prop where
  exclusive : ¬(status.running = true ∧ status.done = true)
  errors : status.done = true → status.errors = []

/-- The thread has begun, and its final update is ahead. -/
def RunStage.unfinal : RunStage → Bool
  | absent => false
  | finalized => false
  | finished => false
  | _ => true

/-- A thread: from its start to its end. -/
def RunStage.active : RunStage → Bool
  | absent => false
  | finished => false
  | _ => true

theorem RunStage.active_of_unfinal {stage : RunStage} (h : stage.unfinal = true) :
    stage.active = true := by
  cases stage <;> first | rfl | cases h

theorem Status.sound_of_not_done {status : Status} (h : status.done = false) : status.Sound :=
  ⟨fun hboth => by simp [h] at hboth, fun hdone => by simp [h] at hdone⟩

theorem Run.finalStatus_sound (run : Run) :
    run.finalStatus.Sound ∧ run.finalStatus.running = false := by
  refine ⟨⟨fun hboth => ?_, fun hdone => ?_⟩, rfl⟩
  · exact Bool.false_ne_true hboth.1
  · have hlength := of_decide_eq_true hdone
    exact List.length_eq_zero_iff.mp hlength

/-- **A write of a thread** leaves the record as it is, or writes a sound status, which is running
only if the final update is ahead. -/
theorem Run.write_status {run run' : Run} {write : Write} (h : run.write = some (run', write))
    (hcopy : run.stage.unfinal = true → run.status.done = false) :
    (run'.stage.unfinal = true → run'.status.done = false) ∧
      ((∀ record, write.record record = record) ∧
          (run.stage.unfinal = true → run'.stage.unfinal = true) ∨
        ∀ record, (write.record record).status.Sound ∧
          ((write.record record).status.running = true → run'.stage.unfinal = true)) := by
  unfold Run.write at h
  split at h
  case h_1 =>
    cases h
    exact ⟨fun _ => rfl, .inr fun _ => ⟨Status.sound_of_not_done rfl, fun _ => rfl⟩⟩
  case h_2 hstage =>
    cases h
    rw [hstage] at hcopy
    exact ⟨fun _ => hcopy rfl, .inl ⟨fun _ => rfl, fun _ => rfl⟩⟩
  case h_3 hstage =>
    cases h
    rw [hstage] at hcopy
    exact ⟨fun _ => hcopy rfl, .inr fun _ => ⟨Status.sound_of_not_done (hcopy rfl), fun _ => rfl⟩⟩
  case h_4 hstage =>
    cases h
    rw [hstage] at hcopy
    exact ⟨fun _ => hcopy rfl, .inr fun _ => ⟨Status.sound_of_not_done (hcopy rfl), fun _ => rfl⟩⟩
  case h_5 hstage =>
    cases h
    obtain ⟨hsound, hrunning⟩ := run.finalStatus_sound
    exact ⟨nofun, .inr fun _ =>
      ⟨hsound, fun hrun => absurd (hrunning.symm.trans hrun) Bool.false_ne_true⟩⟩
  case h_6 hstage =>
    cases h
    exact ⟨nofun, .inl ⟨fun _ => rfl, fun hunfinal => by simp [hstage, RunStage.unfinal] at hunfinal⟩⟩
  case h_7 => cases h

/-- A write of a request keeps a sound status, and lets none run that did not. -/
theorem Request.write_status {request request' : Request} {write : Write}
    (h : request.write = some (request', write)) (record : Record) (hsound : record.status.Sound) :
    (write.record record).status.Sound ∧
      ((write.record record).status.running = true → record.status.running = true) := by
  unfold Request.write at h
  split at h <;> cases h
  · exact ⟨⟨hsound.exclusive, hsound.errors⟩, fun hrun => hrun⟩
  · exact ⟨hsound, fun hrun => hrun⟩
  · exact ⟨⟨hsound.exclusive, hsound.errors⟩, fun hrun => hrun⟩
  · exact ⟨hsound, fun hrun => hrun⟩
  · exact ⟨Status.sound_of_not_done rfl, nofun⟩
  · exact ⟨Status.sound_of_not_done rfl, nofun⟩

namespace ProcessState

/-- A thread of the process has its final update ahead. -/
def Unfinal (s : ProcessState) (processId : String) : Prop :=
  ∃ k, (s.runs k).processId = processId ∧ (s.runs k).stage.unfinal = true

structure StatusKept (s : ProcessState) : Prop where
  copies : ∀ k, (s.runs k).stage.unfinal = true → (s.runs k).status.done = false
  records : ∀ processId, ∀ record ∈ s.records processId,
    record.status.Sound ∧ (record.status.running = true → s.Unfinal processId)

section Step

variable {s t : ProcessState}

/-- The records stay, and the threads go on. -/
theorem StatusKept.congr (h : StatusKept s) (hrecords : t.records = s.records)
    (hcopies : ∀ k, (t.runs k).stage.unfinal = true → (t.runs k).status.done = false)
    (hunfinal : ∀ k, (s.runs k).stage.unfinal = true →
      (t.runs k).processId = (s.runs k).processId ∧ (t.runs k).stage.unfinal = true) :
    StatusKept t := by
  refine ⟨hcopies, fun processId record hrecord => ?_⟩
  rw [hrecords] at hrecord
  obtain ⟨hsound, hrunning⟩ := h.records processId record hrecord
  refine ⟨hsound, fun hrun => ?_⟩
  obtain ⟨k, hk, hstage⟩ := hrunning hrun
  obtain ⟨hid, hahead⟩ := hunfinal k hstage
  exact ⟨k, hid.trans hk, hahead⟩

/-- One thread goes on, or begins. -/
theorem StatusKept.setRun (h : StatusKept s) {k : ℕ} {run : Run}
    (hcopy : run.stage.unfinal = true → run.status.done = false)
    (hunfinal : (s.runs k).stage.unfinal = true →
      run.processId = (s.runs k).processId ∧ run.stage.unfinal = true) :
    StatusKept (s.setRun k run) := by
  refine h.congr rfl (fun other hother => ?_) fun other hother => ?_
  · by_cases heq : other = k
    · rw [heq, runs_setRun] at hother ⊢
      exact hcopy hother
    · rw [runs_setRun_of_ne s run heq] at hother ⊢
      exact h.copies other hother
  · by_cases heq : other = k
    · rw [heq, runs_setRun]
      exact hunfinal (heq ▸ hother)
    · rw [runs_setRun_of_ne s run heq]
      exact ⟨rfl, hother⟩

theorem StatusKept.writeRequest (h : StatusKept s) {request request' : Request} {write : Write}
    (hwrite : request.write = some (request', write)) (processId : String) :
    StatusKept (s.apply processId write) := by
  refine ⟨h.copies, fun other record hrecord => ?_⟩
  by_cases heq : other = processId
  · subst heq
    rw [records_apply] at hrecord
    obtain ⟨old, hold, rfl⟩ := Option.map_eq_some_iff.mp hrecord
    obtain ⟨hsound, hrunning⟩ := h.records other old hold
    obtain ⟨hsound', hrunning'⟩ := Request.write_status hwrite old hsound
    exact ⟨hsound', fun hrun => hrunning (hrunning' hrun)⟩
  · rw [records_apply_of_ne s write heq] at hrecord
    exact h.records other record hrecord

theorem StatusKept.writeRun (h : StatusKept s) {k : ℕ} {run : Run} {write : Write}
    (hwrite : (s.runs k).write = some (run, write)) :
    StatusKept ((s.apply run.processId write).setRun k run) := by
  obtain ⟨hcopy, hrecord⟩ := Run.write_status hwrite (h.copies k)
  have hid : run.processId = (s.runs k).processId := (Run.stage_write hwrite).2
  rcases hrecord with ⟨hsame, hahead⟩ | hnew
  · have happly : StatusKept (s.apply run.processId write) := by
      refine h.congr ?_ h.copies fun other hother => ⟨rfl, hother⟩
      show Function.update s.records run.processId _ = s.records
      rw [show write.record = fun record => record from funext hsame, Option.map_id']
      exact Function.update_eq_self _ _
    exact happly.setRun hcopy fun hunfinal => ⟨hid, hahead hunfinal⟩
  · refine ⟨fun other hother => ?_, fun processId record hmem => ?_⟩
    · by_cases heq : other = k
      · rw [heq, runs_setRun] at hother ⊢
        exact hcopy hother
      · rw [runs_setRun_of_ne _ run heq] at hother ⊢
        exact h.copies other hother
    · by_cases heq : processId = run.processId
      · subst heq
        have hmem : record ∈ (s.apply run.processId write).records run.processId := hmem
        rw [records_apply] at hmem
        obtain ⟨old, -, rfl⟩ := Option.map_eq_some_iff.mp hmem
        refine ⟨(hnew old).1, fun hrun => ⟨k, ?_⟩⟩
        rw [runs_setRun]
        exact ⟨rfl, (hnew old).2 hrun⟩
      · have hmem : record ∈ (s.apply run.processId write).records processId := hmem
        rw [records_apply_of_ne s write heq] at hmem
        obtain ⟨hsound, hrunning⟩ := h.records processId record hmem
        refine ⟨hsound, fun hrun => ?_⟩
        obtain ⟨other, hother, hstage⟩ := hrunning hrun
        -- the thread that writes belongs to another process
        have hne : other ≠ k := by
          rintro rfl
          exact heq (hother.symm.trans hid.symm)
        refine ⟨other, ?_⟩
        rw [runs_setRun_of_ne _ run hne]
        exact ⟨hother, hstage⟩

theorem StatusKept.step {a : ProcessStep} (h : StatusKept s) (hnumbered : Numbered s)
    (hstep : s.step a = some t) : StatusKept t := by
  cases a with
  | post processId =>
      obtain ⟨-, rfl⟩ := step_post hstep
      refine ⟨h.copies, fun other record hrecord => ?_⟩
      by_cases heq : other = processId
      · have hnew : record = ⟨.posted, none⟩ := by
          rw [heq] at hrecord
          simpa using hrecord.symm
        rw [hnew]
        exact ⟨Status.sound_of_not_done rfl, nofun⟩
      · exact h.records other record (by simpa [heq] using hrecord)
  | request processId name =>
      obtain ⟨record, -, rfl⟩ := Option.map_eq_some_iff.mp hstep
      exact ⟨h.copies, h.records⟩
  | startThread r =>
      obtain ⟨hguard, rfl⟩ := step_startThread hstep
      have hrequest : StatusKept (s.setRequest r { s.requests r with stage := .finished }) :=
        ⟨h.copies, h.records⟩
      refine hrequest.setRun (fun _ => rfl) fun hunfinal => ?_
      -- there is no thread for a request that has not ended
      have hpresent : (s.runs r).stage ≠ .absent := by
        intro habsent
        have hunfinal : (s.runs r).stage.unfinal = true := hunfinal
        rw [habsent] at hunfinal
        cases hunfinal
      rw [hnumbered.runs r hpresent] at hguard
      cases hguard.2
  | signal r =>
      obtain ⟨-, hsignal⟩ := step_signal hstep
      rcases hsignal with rfl | ⟨pid, process, hpid, hprocess, rfl⟩
      · exact ⟨h.copies, h.records⟩
      · have hsend : StatusKept (s.send (s.requests r).name pid process) := by
          refine h.congr (s.send_frame _ pid process).1 (fun k hk => ?_) fun k hk => ?_
          · obtain ⟨suspended, hrun⟩ := s.runs_send (s.requests r).name pid process k
            rw [hrun] at hk ⊢
            exact h.copies k hk
          · obtain ⟨suspended, hrun⟩ := s.runs_send (s.requests r).name pid process k
            rw [hrun]
            exact ⟨rfl, hk⟩
        exact ⟨hsend.copies, hsend.records⟩
  | writeRequest r =>
      obtain ⟨⟨request, write⟩, hwrite, rfl⟩ := Option.map_eq_some_iff.mp hstep
      have happly := h.writeRequest hwrite request.processId
      exact ⟨happly.copies, happly.records⟩
  | writeRun k =>
      obtain ⟨⟨run, write⟩, hwrite, rfl⟩ := Option.map_eq_some_iff.mp hstep
      exact h.writeRun hwrite
  | launch k pid =>
      obtain ⟨hguard, rfl⟩ := step_launch hstep
      have hos : StatusKept (s.setOs pid (some ⟨some k, false⟩)) := ⟨h.copies, h.records⟩
      exact hos.setRun (fun _ => h.copies k (by rw [hguard.1]; rfl)) fun _ => ⟨rfl, rfl⟩
  | launchFails k message =>
      obtain ⟨hguard, rfl⟩ := step_launchFails hstep
      exact h.setRun (fun _ => h.copies k (by rw [hguard]; rfl)) fun _ => ⟨rfl, rfl⟩
  | readLine k progress errors =>
      obtain ⟨hguard, rfl⟩ := step_readLine hstep
      exact h.setRun (fun _ => h.copies k (by rw [hguard]; rfl)) fun _ => ⟨rfl, rfl⟩
  | poll k returnCode =>
      obtain ⟨pid, hinner, hguard, rfl⟩ := step_poll hstep
      have hos : StatusKept (s.setOs pid none) := ⟨h.copies, h.records⟩
      exact hos.setRun (fun _ => h.copies k (by rw [hguard.1]; rfl)) fun hunfinal =>
        ⟨rfl, hunfinal⟩
  | endLoop k =>
      obtain ⟨hguard, rfl⟩ := step_endLoop hstep
      exact h.setRun (fun _ => h.copies k (by rw [hguard.1]; rfl)) fun _ => ⟨rfl, rfl⟩
  | exit pid =>
      obtain ⟨process, -, rfl⟩ := Option.map_eq_some_iff.mp hstep
      exact ⟨h.copies, h.records⟩
  | spawn pid =>
      obtain ⟨-, rfl⟩ := step_spawn hstep
      exact ⟨h.copies, h.records⟩
  | vanish pid =>
      obtain ⟨_, -, rfl⟩ := step_vanish hstep
      exact ⟨h.copies, h.records⟩

end Step

theorem statusKept_initial : StatusKept initial :=
  ⟨nofun, fun _ _ h => by cases h⟩

/-- **Status consistency.**  In every state that requests, threads and programs can reach, a stored
status is not running and done, is done only without errors, and is not running when no thread of
the process is active. -/
theorem status_consistent {s : ProcessState} (h : Reachable step initial s) {processId : String}
    {record : Record} (hrecord : s.records processId = some record) :
    ¬(record.status.running = true ∧ record.status.done = true) ∧
      (record.status.done = true → record.status.errors = []) ∧
      ((∀ k, (s.runs k).processId = processId → (s.runs k).stage.active = false) →
        record.status.running = false) := by
  have hkept : Numbered s ∧ StatusKept s :=
    h.invariant (P := fun s => Numbered s ∧ StatusKept s) ⟨numbered_initial, statusKept_initial⟩
      fun _ _ _ _ hinv hstep => ⟨hinv.1.step hstep, hinv.2.step hinv.1 hstep⟩
  obtain ⟨hsound, hrunning⟩ := hkept.2.records processId record hrecord
  refine ⟨hsound.exclusive, hsound.errors, fun hnone => ?_⟩
  cases hrun : record.status.running with
  | false => rfl
  | true =>
      obtain ⟨k, hk, hstage⟩ := hrunning hrun
      have hactive := RunStage.active_of_unfinal hstage
      rw [hnone k hk] at hactive
      cases hactive

/-- Two runs of one process: the second one writes its status over that of the first one, which
has ended well. -/
theorem status_consistent_two_runs :
    ∃ s record, Reachable step initial s ∧ s.records "p" = some record ∧
      record.status = ⟨true, false, 30, ["e"], none⟩ ∧ (s.runs 0).stage = .finished ∧
      ¬(record.status.running = true ∧ record.status.done = true) ∧
      (record.status.done = true → record.status.errors = []) ∧
      ((∀ k, (s.runs k).processId = "p" → (s.runs k).stage.active = false) →
        record.status.running = false) := by
  obtain ⟨s, hreach, hend⟩ := Reachable.exists_of_run
    (show (run step initial
        [.post "p", .request "p" .start, .startThread 0, .writeRun 0, .writeRun 0, .launch 0 7,
          .request "p" .start, .startThread 1, .writeRun 1, .writeRun 1, .launch 1 8, .writeRun 1,
          .writeRun 0, .exit 7, .poll 0 0, .endLoop 0, .writeRun 0, .writeRun 0,
          .readLine 1 (some 30) ["e"], .writeRun 1]).any
        (fun s => decide ((s.records "p").any (fun record =>
          decide (record.status = ⟨true, false, 30, ["e"], none⟩)) = true ∧
          (s.runs 0).stage = .finished)) = true by decide +kernel)
  obtain ⟨hsome, hfinished⟩ := of_decide_eq_true hend
  obtain ⟨record, hrecord, hstatus⟩ := (Option.any_eq_true _ _).mp hsome
  exact ⟨s, record, hreach, hrecord, of_decide_eq_true hstatus, hfinished,
    status_consistent hreach hrecord⟩

end ProcessState

end ComputeWebApp.Api
