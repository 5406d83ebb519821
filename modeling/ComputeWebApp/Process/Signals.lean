import ComputeWebApp.Process.Programs

/-!
# Which program an action signals

`suspend`, `resume` and `stop` signal the pid of the record that they have read.  The pid of a run
stays in the record after the run has ended, and in the copies that threads and requests have
(`Remembers`); nothing but the operating system decides whether it is then the pid of another
process.

As long as no new process gets a pid that the record of another process is remembered with, a
remembered pid is that of a program of its own process or of none (`PidsOwned`).
-/

namespace ComputeWebApp.Api

open Transition

namespace ProcessState

/-- The pid is in the record of the process, or in a copy of it that will be used. -/
def Remembers (s : ProcessState) (processId : String) (pid : ℕ) : Prop :=
  (∃ record ∈ s.records processId, record.pid = some pid) ∨
    (∃ k < s.count, (s.runs k).processId = processId ∧ (s.runs k).stage.unfinal = true ∧
      (s.runs k).pid = some pid) ∨
    ∃ r < s.count, (s.requests r).processId = processId ∧ (s.requests r).stage = .chosen ∧
      (s.requests r).pid = some pid

instance (s : ProcessState) (processId : String) (pid : ℕ) :
    Decidable (s.Remembers processId pid) :=
  inferInstanceAs (Decidable ((∃ record ∈ s.records processId, _) ∨ (∃ k < s.count, _) ∨
    ∃ r < s.count, _))

/-- A new process of the operating system gets no pid that another process is remembered with. -/
def NoReuse (s : ProcessState) : ProcessStep → Prop
  | .launch k pid =>
      ∀ processId ∈ s.posted, processId ≠ (s.runs k).processId → ¬s.Remembers processId pid
  | .spawn pid => ∀ processId ∈ s.posted, ¬s.Remembers processId pid
  | _ => True

instance (s : ProcessState) (a : ProcessStep) : Decidable (NoReuse s a) :=
  match a with
  | .launch k pid => inferInstanceAs (Decidable
      (∀ processId ∈ s.posted, processId ≠ (s.runs k).processId → ¬s.Remembers processId pid))
  | .spawn pid => inferInstanceAs (Decidable (∀ processId ∈ s.posted, ¬s.Remembers processId pid))
  | .post _ => instDecidableTrue
  | .request _ _ => instDecidableTrue
  | .startThread _ => instDecidableTrue
  | .signal _ => instDecidableTrue
  | .writeRequest _ => instDecidableTrue
  | .writeRun _ => instDecidableTrue
  | .launchFails _ _ => instDecidableTrue
  | .readLine _ _ _ => instDecidableTrue
  | .poll _ _ => instDecidableTrue
  | .endLoop _ => instDecidableTrue
  | .exit _ => instDecidableTrue
  | .vanish _ => instDecidableTrue

/-- The process of the operating system that a request signals. -/
def target (s : ProcessState) (r : ℕ) : Option OsProcess :=
  (s.requests r).pid.bind s.os

/-! ## Posted processes -/

/-- The requests and the threads are those of posted processes. -/
structure Posted (s : ProcessState) : Prop where
  records : ∀ processId, (s.records processId).isSome = true → processId ∈ s.posted
  requests : ∀ r, (s.requests r).stage ≠ .absent → (s.requests r).processId ∈ s.posted
  runs : ∀ k, (s.runs k).stage ≠ .absent → (s.runs k).processId ∈ s.posted

/-! ## Remembered pids -/

/-- `Remembers`, without the bounds on the numbers. -/
def Holds (s : ProcessState) (processId : String) (pid : ℕ) : Prop :=
  (∃ record ∈ s.records processId, record.pid = some pid) ∨
    (∃ k, (s.runs k).processId = processId ∧ (s.runs k).stage.unfinal = true ∧
      (s.runs k).pid = some pid) ∨
    ∃ r, (s.requests r).processId = processId ∧ (s.requests r).stage = .chosen ∧
      (s.requests r).pid = some pid

section Holds

variable {s t : ProcessState} {processId : String} {pid : ℕ}

theorem Numbered.remembers_of_holds (hnumbered : Numbered s) (h : s.Holds processId pid) :
    s.Remembers processId pid := by
  rcases h with hrecord | ⟨k, hid, hstage, hpid⟩ | ⟨r, hid, hstage, hpid⟩
  · exact .inl hrecord
  · have hpresent : (s.runs k).stage ≠ .absent := by
      intro habsent
      rw [habsent] at hstage
      cases hstage
    have hk : k < s.count := hnumbered.requests k (by rw [hnumbered.runs k hpresent]; nofun)
    exact .inr (.inl ⟨k, hk, hid, hstage, hpid⟩)
  · exact .inr (.inr ⟨r, hnumbered.requests r (by rw [hstage]; nofun), hid, hstage, hpid⟩)

theorem Posted.mem_of_holds (h : Posted s) (hholds : s.Holds processId pid) :
    processId ∈ s.posted := by
  rcases hholds with ⟨record, hrecord, -⟩ | ⟨k, rfl, hstage, -⟩ | ⟨r, rfl, hstage, -⟩
  · exact h.records processId (Option.isSome_iff_exists.mpr ⟨record, hrecord⟩)
  · apply h.runs
    intro habsent
    rw [habsent] at hstage
    cases hstage
  · apply h.requests
    rw [hstage]
    nofun

theorem holds_setRun {k : ℕ} {run : Run} (h : (s.setRun k run).Holds processId pid) :
    s.Holds processId pid ∨
      run.processId = processId ∧ run.stage.unfinal = true ∧ run.pid = some pid := by
  rcases h with hrecord | ⟨other, hother⟩ | hrequest
  · exact .inl (.inl hrecord)
  · by_cases heq : other = k
    · rw [heq, runs_setRun] at hother
      exact .inr hother
    · rw [runs_setRun_of_ne s run heq] at hother
      exact .inl (.inr (.inl ⟨other, hother⟩))
  · exact .inl (.inr (.inr hrequest))

/-- A thread that goes on with the pid that it has. -/
theorem holds_of_setRun {k : ℕ} {run : Run} (h : (s.setRun k run).Holds processId pid)
    (hid : run.processId = (s.runs k).processId) (hpid : run.pid = (s.runs k).pid)
    (hstage : (s.runs k).stage.unfinal = true) : s.Holds processId pid := by
  rcases holds_setRun h with hold | ⟨hid', -, hpid'⟩
  · exact hold
  · exact .inr (.inl ⟨k, hid.symm.trans hid', hstage, hpid.symm.trans hpid'⟩)

theorem holds_setRequest {r : ℕ} {request : Request}
    (h : (s.setRequest r request).Holds processId pid) :
    s.Holds processId pid ∨
      request.processId = processId ∧ request.stage = .chosen ∧ request.pid = some pid := by
  rcases h with hrecord | hrun | ⟨other, hother⟩
  · exact .inl (.inl hrecord)
  · exact .inl (.inr (.inl hrun))
  · by_cases heq : other = r
    · rw [heq, requests_setRequest] at hother
      exact .inr hother
    · rw [requests_setRequest_of_ne s request heq] at hother
      exact .inl (.inr (.inr ⟨other, hother⟩))

/-- A write puts no new pid into a record, or the one that the process has a copy of. -/
theorem holds_apply {owner : String} {write : Write}
    (hwrite : ∀ record ∈ s.records owner, (write.record record).pid = record.pid ∨
      ∀ pid, (write.record record).pid = some pid → s.Holds owner pid)
    (h : (s.apply owner write).Holds processId pid) : s.Holds processId pid := by
  rcases h with ⟨record, hrecord, hpid⟩ | hrest
  · by_cases heq : processId = owner
    · subst heq
      rw [records_apply] at hrecord
      obtain ⟨old, hold, rfl⟩ := Option.map_eq_some_iff.mp hrecord
      rcases hwrite old hold with hsame | hcopy
      · exact .inl ⟨old, hold, hsame.symm.trans hpid⟩
      · exact hcopy pid hpid
    · rw [records_apply_of_ne s write heq] at hrecord
      exact .inl ⟨record, hrecord, hpid⟩
  · exact .inr hrest

theorem Run.write_pid {run run' : Run} {write : Write} (h : run.write = some (run', write)) :
    run'.pid = run.pid ∧ (run'.stage.unfinal = true → run.stage.unfinal = true) ∧
      ∀ record, (write.record record).pid = record.pid ∨
        run.stage.unfinal = true ∧ (write.record record).pid = run.pid := by
  unfold Run.write at h
  split at h
  case h_1 hstage => cases h; simp [hstage, RunStage.unfinal]
  case h_2 hstage => cases h; simp [hstage, RunStage.unfinal]
  case h_3 hstage => cases h; simp [hstage, RunStage.unfinal]
  case h_4 hstage => cases h; simp [hstage, RunStage.unfinal, mergeStatus]
  case h_5 hstage => cases h; simp [hstage, RunStage.unfinal]
  case h_6 hstage => cases h; simp [hstage, RunStage.unfinal]
  case h_7 => cases h

theorem Request.write_pid {request request' : Request} {write : Write}
    (h : request.write = some (request', write)) :
    request'.stage ≠ .chosen ∧ ∀ record, (write.record record).pid = record.pid := by
  unfold Request.write at h
  split at h <;> first
    | (cases h; exact ⟨nofun, fun _ => rfl⟩)
    | cases h

/-- A pid that is remembered was remembered before, or a program has just been launched with it. -/
theorem holds_step {a : ProcessStep} (hstep : s.step a = some t) (h : t.Holds processId pid) :
    s.Holds processId pid ∨ ∃ k, a = .launch k pid ∧ (s.runs k).processId = processId := by
  cases a with
  | post owner =>
      obtain ⟨-, rfl⟩ := step_post hstep
      rcases h with ⟨record, hrecord, hpid⟩ | hrest
      · by_cases heq : processId = owner
        · have hnew : record = ⟨.posted, none⟩ := by
            rw [heq] at hrecord
            simpa using hrecord.symm
          rw [hnew] at hpid
          cases hpid
        · exact .inl (.inl ⟨record, by simpa [heq] using hrecord, hpid⟩)
      · exact .inl (.inr hrest)
  | request owner name =>
      obtain ⟨record, hrecord, rfl⟩ := Option.map_eq_some_iff.mp hstep
      have hset : (s.setRequest s.count ⟨owner, name, .chosen, record.pid⟩).Holds processId pid := h
      rcases holds_setRequest hset with hold | ⟨rfl, -, hpid⟩
      · exact .inl hold
      · exact .inl (.inl ⟨record, hrecord, hpid⟩)
  | startThread r =>
      obtain ⟨hguard, rfl⟩ := step_startThread hstep
      rcases holds_setRun h with hold | ⟨hid, -, hpid⟩
      · rcases holds_setRequest hold with hold | ⟨-, hstage, -⟩
        · exact .inl hold
        · cases hstage
      · -- the thread has the pid of its request
        exact .inl (.inr (.inr ⟨r, hid, hguard.2, hpid⟩))
  | signal r =>
      have hset : ∀ (state : ProcessState) (request : Request), request.stage ≠ .chosen →
          (∀ {pid}, state.Holds processId pid → s.Holds processId pid) →
          (state.setRequest r request).Holds processId pid → s.Holds processId pid := by
        intro state request hstage hstate hholds
        rcases holds_setRequest hholds with hold | ⟨-, hchosen, -⟩
        · exact hstate hold
        · exact absurd hchosen hstage
      obtain ⟨-, hsignal⟩ := step_signal hstep
      rcases hsignal with rfl | ⟨signalled, process, hsignalled, hprocess, rfl⟩
      · exact .inl (hset s { s.requests r with stage := .finished } nofun (fun hold => hold) h)
      · refine .inl (hset (s.send (s.requests r).name signalled process)
          { s.requests r with stage := .signalled } nofun (fun hold => ?_) h)
        obtain ⟨hrecords, hrequests, -⟩ := s.send_frame (s.requests r).name signalled process
        rcases hold with hrecord | ⟨k, hk⟩ | hrequest
        · exact .inl (hrecords ▸ hrecord)
        · obtain ⟨suspended, hrun⟩ := s.runs_send (s.requests r).name signalled process k
          rw [hrun] at hk
          exact .inr (.inl ⟨k, hk⟩)
        · exact .inr (.inr (hrequests ▸ hrequest))
  | writeRequest r =>
      obtain ⟨⟨request, write⟩, hwrite, rfl⟩ := Option.map_eq_some_iff.mp hstep
      obtain ⟨hstage, hrecord⟩ := Request.write_pid hwrite
      rcases holds_setRequest h with hold | ⟨-, hchosen, -⟩
      · exact .inl (holds_apply (fun record _ => .inl (hrecord record)) hold)
      · exact absurd hchosen hstage
  | writeRun k =>
      obtain ⟨⟨run, write⟩, hwrite, rfl⟩ := Option.map_eq_some_iff.mp hstep
      obtain ⟨hpid, hunfinal, hrecord⟩ := Run.write_pid hwrite
      have hid : run.processId = (s.runs k).processId := (Run.stage_write hwrite).2
      rcases holds_setRun h with hold | ⟨rfl, hahead, hcopy⟩
      · refine .inl (holds_apply (fun record _ => ?_) hold)
        -- a record gets the pid that the thread remembers
        exact (hrecord record).imp_right fun hcopy pid hpid =>
          .inr (.inl ⟨k, hid.symm, hcopy.1, hcopy.2.symm.trans hpid⟩)
      · exact .inl (.inr (.inl ⟨k, hid.symm, hunfinal hahead, hpid.symm.trans hcopy⟩))
  | launch k launched =>
      obtain ⟨-, rfl⟩ := step_launch hstep
      rcases holds_setRun h with hold | ⟨hid, -, hpid⟩
      · exact .inl hold
      · cases hpid
        exact .inr ⟨k, rfl, hid⟩
  | launchFails k message =>
      obtain ⟨hguard, rfl⟩ := step_launchFails hstep
      exact .inl (holds_of_setRun h rfl rfl (by rw [hguard]; rfl))
  | readLine k progress errors =>
      obtain ⟨hguard, rfl⟩ := step_readLine hstep
      exact .inl (holds_of_setRun h rfl rfl (by rw [hguard]; rfl))
  | poll k returnCode =>
      obtain ⟨_, -, hguard, rfl⟩ := step_poll hstep
      exact .inl (holds_of_setRun h rfl rfl (by rw [hguard.1]; rfl))
  | endLoop k =>
      obtain ⟨hguard, rfl⟩ := step_endLoop hstep
      exact .inl (holds_of_setRun h rfl rfl (by rw [hguard.1]; rfl))
  | exit exited =>
      obtain ⟨process, -, rfl⟩ := Option.map_eq_some_iff.mp hstep
      exact .inl h
  | spawn spawned =>
      obtain ⟨-, rfl⟩ := step_spawn hstep
      exact .inl h
  | vanish vanished =>
      obtain ⟨_, -, rfl⟩ := step_vanish hstep
      exact .inl h

end Holds

/-! ## Posted processes stay posted -/

section Posted

variable {s t : ProcessState}

theorem Posted.setRun (h : Posted s) {k : ℕ} {run : Run}
    (hrun : run.processId ∈ s.posted) : Posted (s.setRun k run) := by
  refine ⟨h.records, h.requests, fun other hother => ?_⟩
  by_cases heq : other = k
  · rw [heq, runs_setRun]
    exact hrun
  · rw [runs_setRun_of_ne s run heq] at hother ⊢
    exact h.runs other hother

theorem Posted.setRequest (h : Posted s) {r : ℕ} {request : Request}
    (hrequest : request.processId ∈ s.posted) : Posted (s.setRequest r request) := by
  refine ⟨h.records, fun other hother => ?_, h.runs⟩
  by_cases heq : other = r
  · rw [heq, requests_setRequest]
    exact hrequest
  · rw [requests_setRequest_of_ne s request heq] at hother ⊢
    exact h.requests other hother

theorem Posted.apply (h : Posted s) (owner : String) (write : Write) :
    Posted (s.apply owner write) := by
  refine ⟨fun processId hsome => h.records processId ?_, h.requests, h.runs⟩
  by_cases heq : processId = owner
  · subst heq
    rwa [records_apply, Option.isSome_map] at hsome
  · rwa [records_apply_of_ne s write heq] at hsome

theorem Posted.step {a : ProcessStep} (h : Posted s) (hstep : s.step a = some t) : Posted t := by
  cases a with
  | post owner =>
      obtain ⟨-, rfl⟩ := step_post hstep
      refine ⟨fun processId hsome => ?_, fun r hr => List.mem_cons_of_mem _ (h.requests r hr),
        fun k hk => List.mem_cons_of_mem _ (h.runs k hk)⟩
      by_cases heq : processId = owner
      · exact heq ▸ List.mem_cons_self
      · exact List.mem_cons_of_mem _ (h.records processId (by simpa [heq] using hsome))
  | request owner name =>
      obtain ⟨record, hrecord, rfl⟩ := Option.map_eq_some_iff.mp hstep
      have hset := h.setRequest (r := s.count) (show
        (⟨owner, name, .chosen, record.pid⟩ : Request).processId ∈ s.posted from
        h.records owner (Option.isSome_iff_exists.mpr ⟨record, hrecord⟩))
      exact ⟨hset.records, hset.requests, hset.runs⟩
  | startThread r =>
      obtain ⟨hguard, rfl⟩ := step_startThread hstep
      have hmem := h.requests r (by rw [hguard.2]; nofun)
      have hset : Posted (s.setRequest r { s.requests r with stage := .finished }) :=
        h.setRequest hmem
      exact hset.setRun hmem
  | signal r =>
      obtain ⟨hguard, hsignal⟩ := step_signal hstep
      have hmem := h.requests r (by rw [hguard.2]; nofun)
      rcases hsignal with rfl | ⟨signalled, process, hsignalled, hprocess, rfl⟩
      · exact h.setRequest hmem
      · obtain ⟨hrecords, hrequests, -, -, hposted⟩ :=
          s.send_frame (s.requests r).name signalled process
        have hsend : Posted (s.send (s.requests r).name signalled process) := by
          refine ⟨fun processId hsome => ?_, fun other hother => ?_, fun k hk => ?_⟩
          · rw [hposted]
            exact h.records processId (hrecords ▸ hsome)
          · rw [hposted, hrequests]
            exact h.requests other (hrequests ▸ hother)
          · obtain ⟨suspended, hrun⟩ := s.runs_send (s.requests r).name signalled process k
            rw [hrun] at hk ⊢
            rw [hposted]
            exact h.runs k hk
        exact hsend.setRequest (hposted ▸ hmem)
  | writeRequest r =>
      obtain ⟨⟨request, write⟩, hwrite, rfl⟩ := Option.map_eq_some_iff.mp hstep
      obtain ⟨hpresent, -, hid⟩ := Request.stage_write hwrite
      exact (h.apply request.processId write).setRequest (hid ▸ h.requests r hpresent)
  | writeRun k =>
      obtain ⟨⟨run, write⟩, hwrite, rfl⟩ := Option.map_eq_some_iff.mp hstep
      obtain ⟨hpresent, hid⟩ := Run.stage_write hwrite
      exact (h.apply run.processId write).setRun (hid ▸ h.runs k hpresent)
  | launch k pid =>
      obtain ⟨hguard, rfl⟩ := step_launch hstep
      have hos : Posted (s.setOs pid (some ⟨some k, false⟩)) := ⟨h.records, h.requests, h.runs⟩
      exact hos.setRun (h.runs k (by rw [hguard.1]; nofun))
  | launchFails k message =>
      obtain ⟨hguard, rfl⟩ := step_launchFails hstep
      exact h.setRun (h.runs k (by rw [hguard]; nofun))
  | readLine k progress errors =>
      obtain ⟨hguard, rfl⟩ := step_readLine hstep
      exact h.setRun (h.runs k (by rw [hguard]; nofun))
  | poll k returnCode =>
      obtain ⟨pid, hinner, hguard, rfl⟩ := step_poll hstep
      have hos : Posted (s.setOs pid none) := ⟨h.records, h.requests, h.runs⟩
      exact hos.setRun (h.runs k (by rw [hguard.1]; nofun))
  | endLoop k =>
      obtain ⟨hguard, rfl⟩ := step_endLoop hstep
      exact h.setRun (h.runs k (by rw [hguard.1]; nofun))
  | exit pid =>
      obtain ⟨process, -, rfl⟩ := Option.map_eq_some_iff.mp hstep
      exact ⟨h.records, h.requests, h.runs⟩
  | spawn pid =>
      obtain ⟨-, rfl⟩ := step_spawn hstep
      exact ⟨h.records, h.requests, h.runs⟩
  | vanish pid =>
      obtain ⟨_, -, rfl⟩ := step_vanish hstep
      exact ⟨h.records, h.requests, h.runs⟩

end Posted

/-! ## Pids and programs -/

/-- A pid that is remembered is that of a program of its own process, or of none. -/
def PidsOwned (s : ProcessState) : Prop :=
  ∀ processId pid, s.Holds processId pid → ∀ process ∈ s.os pid,
    ∃ k, process.run = some k ∧ (s.runs k).processId = processId

theorem PidsOwned.step {s t : ProcessState} {a : ProcessStep} (h : PidsOwned s)
    (hnumbered : Numbered s) (hposted : Posted s) (hprograms : Programs s) (hgood : NoReuse s a)
    (hstep : s.step a = some t) : PidsOwned t := by
  intro processId pid hheld process hprocess
  have hkept : ∀ k, process.run = some k → (s.runs k).stage ≠ .absent →
      (s.runs k).processId = processId →
      ∃ k, process.run = some k ∧ (t.runs k).processId = processId :=
    fun k hrun hpresent hid => ⟨k, hrun, (processId_step hnumbered hstep hpresent).trans hid⟩
  rcases os_step hstep hprocess with ⟨old, hold, hsame⟩ | ⟨k, rfl, hrun⟩ | ⟨rfl, -⟩
  · -- the process was there before: nobody has just been launched with its pid
    have hheld' : s.Holds processId pid := by
      rcases holds_step hstep hheld with hheld | ⟨k, rfl, -⟩
      · exact hheld
      · rw [(step_launch hstep).1.2] at hold
        cases hold
    obtain ⟨k, hrun, hid⟩ := h processId pid hheld' old hold
    refine hkept k (hsame.trans hrun) (fun habsent => ?_) hid
    have hlooping := hprograms.looping hold hrun
    rw [habsent] at hlooping
    cases hlooping
  · have hlisted : (s.runs k).stage = .listed := (step_launch hstep).1.1
    refine hkept k hrun (by rw [hlisted]; nofun) ?_
    rcases holds_step hstep hheld with hheld | ⟨k', hlaunch, howner⟩
    · -- a process that is remembered with this pid is that of the thread
      by_contra hother
      exact hgood processId (hposted.mem_of_holds hheld) (fun heq => hother heq.symm)
        (hnumbered.remembers_of_holds hheld)
    · cases hlaunch
      exact howner
  · -- somebody else has started it, with a pid that is not remembered
    rcases holds_step hstep hheld with hheld | ⟨k, hlaunch, -⟩
    · exact absurd (hnumbered.remembers_of_holds hheld)
        (hgood processId (hposted.mem_of_holds hheld))
    · cases hlaunch

/-- **Actions signal their own run.**  In every run in which the operating system gives to a new
process no pid that another posted process is remembered with, an action signals no process, or a
program of its own process whose thread is active. -/
theorem signals_own_run {s : ProcessState} (h : Reachable (restrict NoReuse step) initial s)
    {r : ℕ} {t : ProcessState} (hsignal : s.step (.signal r) = some t) :
    ∀ process ∈ s.target r, ∃ k, process.run = some k ∧
      (s.runs k).processId = (s.requests r).processId ∧ (s.runs k).stage.active = true := by
  obtain ⟨-, -, hprograms, howned⟩ :
      Numbered s ∧ Posted s ∧ Programs s ∧ PidsOwned s :=
    h.invariant (P := fun s => Numbered s ∧ Posted s ∧ Programs s ∧ PidsOwned s)
      ⟨numbered_initial, ⟨nofun, fun _ h => absurd rfl h, fun _ h => absurd rfl h⟩,
        programs_initial, fun _ _ _ _ h => by cases h⟩
      fun s a t _ ⟨hnumbered, hposted, hprograms, howned⟩ hstep => by
        obtain ⟨hgood, hstep⟩ := restrict_eq_some.mp hstep
        exact ⟨hnumbered.step hstep, hposted.step hstep, hprograms.step hnumbered hstep,
          howned.step hnumbered hposted hprograms hgood hstep⟩
  intro process hprocess
  obtain ⟨pid, hpid, hos⟩ := Option.bind_eq_some_iff.mp hprocess
  have hchosen : (s.requests r).stage = .chosen := (step_signal hsignal).1.2
  obtain ⟨k, hrun, hid⟩ :=
    howned (s.requests r).processId pid (.inr (.inr ⟨r, rfl, hchosen, hpid⟩)) process hos
  exact ⟨k, hrun, hid, RunStage.active_of_looping (hprograms.looping hos hrun)⟩

/-- A process is started, and stopped while its program runs. -/
def startAndStop : List ProcessStep :=
  [.post "p", .request "p" .start, .startThread 0, .writeRun 0, .writeRun 0, .launch 0 7,
    .writeRun 0, .request "p" .stop]

theorem signals_own_run_stop :
    ∃ s t, Reachable (restrict NoReuse step) initial s ∧ s.step (.signal 1) = some t ∧
      s.target 1 = some ⟨some 0, false⟩ ∧ t.os 7 = some ⟨some 0, true⟩ ∧
      ∀ process ∈ s.target 1, ∃ k, process.run = some k ∧
        (s.runs k).processId = (s.requests 1).processId ∧ (s.runs k).stage.active = true := by
  obtain ⟨s, hreach, hend⟩ := Reachable.exists_of_run
    (show (run (restrict NoReuse step) initial startAndStop).any (fun s => decide (
        s.target 1 = some ⟨some 0, false⟩ ∧
        (s.step (.signal 1)).any (fun t => decide (t.os 7 = some ⟨some 0, true⟩)) = true)) =
        true by decide +kernel)
  obtain ⟨htarget, hnext⟩ := of_decide_eq_true hend
  obtain ⟨t, hsignal, hos⟩ := (Option.any_eq_true _ _).mp hnext
  exact ⟨s, t, hreach, hsignal, htarget, of_decide_eq_true hos, signals_own_run hreach hsignal⟩

/-- The run has ended, another process gets its pid, and `stop` kills it. -/
theorem signals_another_process :
    ∃ s t, Reachable step initial s ∧ (s.runs 0).stage = .finished ∧
      s.step (.signal 1) = some t ∧ s.target 1 = some ⟨none, false⟩ ∧
      t.os 7 = some ⟨none, true⟩ := by
  obtain ⟨s, hreach, hend⟩ := Reachable.exists_of_run
    (show (run step initial
        [.post "p", .request "p" .start, .startThread 0, .writeRun 0, .writeRun 0, .launch 0 7,
          .writeRun 0, .exit 7, .poll 0 0, .endLoop 0, .writeRun 0, .writeRun 0, .spawn 7,
          .request "p" .stop]).any (fun s => decide ((s.runs 0).stage = .finished ∧
            s.target 1 = some ⟨none, false⟩ ∧
            (s.step (.signal 1)).any (fun t => decide (t.os 7 = some ⟨none, true⟩)) = true)) =
        true by decide +kernel)
  obtain ⟨hfinished, htarget, hnext⟩ := of_decide_eq_true hend
  obtain ⟨t, hsignal, hos⟩ := (Option.any_eq_true _ _).mp hnext
  exact ⟨s, t, hreach, hfinished, hsignal, htarget, of_decide_eq_true hos⟩

end ProcessState

end ComputeWebApp.Api
