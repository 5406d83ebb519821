import ComputeWebApp.Process.StatusConsistency

/-!
# Threads and their programs

A program that a thread has launched is `inner_process` of this thread, from `Popen` until `poll`
has waited for it, and the thread is in its loop as long as it has a program (`Programs`).
-/

namespace ComputeWebApp.Api

open Transition

/-- `Popen` has returned, and the thread has not left its loop. -/
def RunStage.looping : RunStage → Bool
  | launched => true
  | reading => true
  | parsed => true
  | _ => false

theorem RunStage.active_of_looping {stage : RunStage} (h : stage.looping = true) :
    stage.active = true := by
  cases stage <;> first | rfl | cases h

theorem Run.write_inner {run run' : Run} {write : Write} (h : run.write = some (run', write)) :
    run'.inner = run.inner ∧ run'.suspended = run.suspended ∧
      (run.stage.looping = true → run'.stage.looping = true) := by
  unfold Run.write at h
  split at h
  case h_1 hstage => cases h; simp [hstage, RunStage.looping]
  case h_2 hstage => cases h; simp [hstage, RunStage.looping]
  case h_3 hstage => cases h; simp [hstage, RunStage.looping]
  case h_4 hstage => cases h; simp [hstage, RunStage.looping]
  case h_5 hstage => cases h; simp [hstage, RunStage.looping]
  case h_6 hstage => cases h; simp [hstage, RunStage.looping]
  case h_7 => cases h

namespace ProcessState

structure Programs (s : ProcessState) : Prop where
  inner : ∀ k, (s.runs k).inner.isSome = true → (s.runs k).stage.looping = true
  programs : ∀ pid, ∀ process ∈ s.os pid, ∀ k, process.run = some k → (s.runs k).inner = some pid

section Programs

variable {s t : ProcessState} {k pid : ℕ} {run : Run}

theorem Programs.looping (h : Programs s) {process : OsProcess} (hprocess : process ∈ s.os pid)
    (hrun : process.run = some k) : (s.runs k).stage.looping = true := by
  apply h.inner
  rw [h.programs pid process hprocess k hrun]
  rfl

/-- The programs stay those of their threads. -/
theorem Programs.congr (h : Programs s)
    (hos : ∀ pid, ∀ process ∈ t.os pid, ∃ old ∈ s.os pid, process.run = old.run)
    (hruns : ∀ k, (t.runs k).inner = (s.runs k).inner)
    (hstages : ∀ k, (t.runs k).inner.isSome = true → (s.runs k).stage.looping = true →
      (t.runs k).stage.looping = true) : Programs t := by
  refine ⟨fun k hsome => hstages k hsome (h.inner k (hruns k ▸ hsome)),
    fun pid process hprocess k hk => ?_⟩
  obtain ⟨old, hold, hrun⟩ := hos pid process hprocess
  exact (hruns k).trans (h.programs pid old hold k (hrun.symm.trans hk))

/-- A step of the server or of a client, in which no thread and no program takes part. -/
theorem Programs.same (h : Programs s) (hos : t.os = s.os) (hruns : t.runs = s.runs) : Programs t :=
  h.congr (fun _ process hprocess => ⟨process, hos ▸ hprocess, rfl⟩) (fun _ => by rw [hruns])
    fun _ _ hlooping => by rwa [hruns]

/-- A step of one thread that leaves its program. -/
theorem Programs.ofRun (h : Programs s) (hos : t.os = s.os)
    (hruns : t.runs = Function.update s.runs k run) (hinner : run.inner = (s.runs k).inner)
    (hstage : run.inner.isSome = true → (s.runs k).stage.looping = true →
      run.stage.looping = true) : Programs t := by
  refine h.congr (fun pid process hprocess => ⟨process, hos ▸ hprocess, rfl⟩) (fun other => ?_)
    fun other => ?_
  · by_cases heq : other = k
    · rw [hruns, heq, Function.update_self]
      exact hinner
    · rw [hruns, Function.update_of_ne heq]
  · by_cases heq : other = k
    · rw [hruns, heq, Function.update_self]
      exact hstage
    · rw [hruns, Function.update_of_ne heq]
      exact fun _ hlooping => hlooping

/-- A process of the operating system is gone. -/
theorem Programs.vanish (h : Programs s) (pid : ℕ) : Programs (s.setOs pid none) := by
  refine ⟨h.inner, fun pid' process hprocess => h.programs pid' process ?_⟩
  by_cases hpid : pid' = pid
  · rw [hpid, os_setOs] at hprocess
    cases hprocess
  · rwa [os_setOs_of_ne s _ hpid] at hprocess

theorem Programs.spawn (h : Programs s) (pid : ℕ) : Programs (s.setOs pid (some ⟨none, false⟩)) := by
  refine ⟨h.inner, fun pid' process hprocess k hrun => ?_⟩
  by_cases hpid : pid' = pid
  · rw [hpid, os_setOs] at hprocess
    cases hprocess
    cases hrun
  · rw [os_setOs_of_ne s _ hpid] at hprocess
    exact h.programs pid' process hprocess k hrun

/-- `Popen` returns, for a thread that has no program. -/
theorem Programs.launch (h : Programs s) (hstage : (s.runs k).stage = .listed)
    (hinner : run.inner = some pid) (hlooping : run.stage.looping = true) :
    Programs ((s.setOs pid (some ⟨some k, false⟩)).setRun k run) := by
  refine ⟨fun other hsome => ?_, fun pid' process hprocess other hrun => ?_⟩
  · by_cases heq : other = k
    · rw [heq, runs_setRun]
      exact hlooping
    · rw [runs_setRun_of_ne _ run heq] at hsome ⊢
      exact h.inner other hsome
  · by_cases hpid : pid' = pid
    · have hnew : process ∈ (s.setOs pid (some ⟨some k, false⟩)).os pid' := hprocess
      rw [hpid, os_setOs] at hnew
      cases hnew
      cases hrun
      rw [runs_setRun, hinner, hpid]
    · have hold : process ∈ (s.setOs pid (some ⟨some k, false⟩)).os pid' := hprocess
      rw [os_setOs_of_ne s _ hpid] at hold
      have hne : other ≠ k := by
        rintro rfl
        have hloop := h.looping hold hrun
        rw [hstage] at hloop
        cases hloop
      rw [runs_setRun_of_ne _ run hne]
      exact h.programs pid' process hold other hrun

/-- `poll` has waited for the program of the thread, which was the only one that it had. -/
theorem Programs.poll (h : Programs s) (hinner : (s.runs k).inner = some pid)
    (hnone : run.inner = none) : Programs ((s.setOs pid none).setRun k run) := by
  have hvanished := h.vanish pid
  refine ⟨fun other hsome => ?_, fun pid' process hprocess other hrun => ?_⟩
  · by_cases heq : other = k
    · rw [heq, runs_setRun, hnone] at hsome
      cases hsome
    · rw [runs_setRun_of_ne _ run heq] at hsome ⊢
      exact h.inner other hsome
  · have hold : process ∈ (s.setOs pid none).os pid' := hprocess
    have hsame := hvanished.programs pid' process hold other hrun
    have hne : other ≠ k := by
      rintro rfl
      have hpid : pid = pid' := Option.some.inj (hinner.symm.trans hsame)
      rw [← hpid, os_setOs] at hold
      cases hold
    rw [runs_setRun_of_ne _ run hne]
    exact hsame

theorem Programs.step {a : ProcessStep} (h : Programs s) (hnumbered : Numbered s)
    (hstep : s.step a = some t) : Programs t := by
  cases a with
  | post owner =>
      obtain ⟨-, rfl⟩ := step_post hstep
      exact h.same rfl rfl
  | request owner name =>
      obtain ⟨record, -, rfl⟩ := Option.map_eq_some_iff.mp hstep
      exact h.same rfl rfl
  | startThread r =>
      obtain ⟨hguard, rfl⟩ := step_startThread hstep
      -- the thread is new
      have habsent : (s.runs r).stage = .absent := by
        by_contra hpresent
        rw [hnumbered.runs r hpresent] at hguard
        cases hguard.2
      have hnone : (s.runs r).inner = none := by
        rw [← Option.not_isSome_iff_eq_none]
        intro hsome
        have hlooping := h.inner r hsome
        rw [habsent] at hlooping
        cases hlooping
      exact h.ofRun rfl rfl hnone.symm nofun
  | signal r =>
      obtain ⟨-, hsignal⟩ := step_signal hstep
      rcases hsignal with rfl | ⟨pid, process, hpid, hprocess, rfl⟩
      · exact h.same rfl rfl
      · refine h.congr (fun other left hleft => ?_) (fun k => ?_) fun k _ hlooping => ?_
        · exact s.os_send (s.requests r).name pid process hprocess other left hleft
        · obtain ⟨suspended, hrun⟩ := s.runs_send (s.requests r).name pid process k
          show ((s.send _ _ _).runs k).inner = _
          rw [hrun]
        · obtain ⟨suspended, hrun⟩ := s.runs_send (s.requests r).name pid process k
          show ((s.send _ _ _).runs k).stage.looping = true
          rw [hrun]
          exact hlooping
  | writeRequest r =>
      obtain ⟨⟨request, write⟩, hwrite, rfl⟩ := Option.map_eq_some_iff.mp hstep
      exact h.same rfl rfl
  | writeRun k =>
      obtain ⟨⟨run, write⟩, hwrite, rfl⟩ := Option.map_eq_some_iff.mp hstep
      obtain ⟨hinner, -, hlooping⟩ := Run.write_inner hwrite
      exact h.ofRun rfl rfl hinner fun _ => hlooping
  | launch k pid =>
      obtain ⟨hguard, rfl⟩ := step_launch hstep
      exact h.launch hguard.1 rfl rfl
  | launchFails k message =>
      obtain ⟨hguard, rfl⟩ := step_launchFails hstep
      refine h.ofRun rfl rfl rfl fun _ hlooping => ?_
      rw [hguard] at hlooping
      cases hlooping
  | readLine k progress errors =>
      obtain ⟨-, rfl⟩ := step_readLine hstep
      exact h.ofRun rfl rfl rfl fun _ _ => rfl
  | poll k returnCode =>
      obtain ⟨pid, hinner, -, rfl⟩ := step_poll hstep
      exact h.poll hinner rfl
  | endLoop k =>
      obtain ⟨hguard, rfl⟩ := step_endLoop hstep
      refine h.ofRun rfl rfl rfl fun hsome => ?_
      rw [show ({ s.runs k with stage := .ended } : Run).inner = none from hguard.2] at hsome
      cases hsome
  | exit pid =>
      obtain ⟨process, hprocess, rfl⟩ := Option.map_eq_some_iff.mp hstep
      refine h.congr (fun other left hleft => ?_) (fun _ => rfl) fun _ _ hlooping => hlooping
      by_cases heq : other = pid
      · rw [heq, os_setOs] at hleft
        cases hleft
        exact ⟨process, heq ▸ hprocess, rfl⟩
      · rw [os_setOs_of_ne s _ heq] at hleft
        exact ⟨left, hleft, rfl⟩
  | spawn pid =>
      obtain ⟨-, rfl⟩ := step_spawn hstep
      exact h.spawn pid
  | vanish pid =>
      obtain ⟨_, -, rfl⟩ := step_vanish hstep
      exact h.vanish pid

theorem programs_initial : Programs initial :=
  ⟨nofun, fun _ _ h => by cases h⟩

end Programs

/-! ## Who a process of the operating system is -/

section Step

variable {s t : ProcessState} {a : ProcessStep}

/-- A process of the operating system was there before, or a thread or somebody else has just
started it. -/
theorem os_step (hstep : s.step a = some t) {pid : ℕ} {process : OsProcess}
    (hprocess : process ∈ t.os pid) :
    (∃ old ∈ s.os pid, process.run = old.run) ∨ (∃ k, a = .launch k pid ∧ process.run = some k) ∨
      a = .spawn pid ∧ process.run = none := by
  have hset : ∀ (other : ℕ) (new : Option OsProcess), process ∈ (s.setOs other new).os pid →
      process ∈ s.os pid ∨ other = pid ∧ new = some process := by
    intro other new hmem
    by_cases heq : pid = other
    · rw [heq, os_setOs] at hmem
      exact .inr ⟨heq.symm, hmem⟩
    · rw [os_setOs_of_ne s new heq] at hmem
      exact .inl hmem
  cases a with
  | post owner =>
      obtain ⟨-, rfl⟩ := step_post hstep
      exact .inl ⟨process, hprocess, rfl⟩
  | request owner name =>
      obtain ⟨record, -, rfl⟩ := Option.map_eq_some_iff.mp hstep
      exact .inl ⟨process, hprocess, rfl⟩
  | startThread r =>
      obtain ⟨-, rfl⟩ := step_startThread hstep
      exact .inl ⟨process, hprocess, rfl⟩
  | signal r =>
      obtain ⟨-, hsignal⟩ := step_signal hstep
      rcases hsignal with rfl | ⟨signalled, old, hsignalled, hold, rfl⟩
      · exact .inl ⟨process, hprocess, rfl⟩
      · exact .inl (s.os_send (s.requests r).name signalled old hold pid process hprocess)
  | writeRequest r =>
      obtain ⟨_, -, rfl⟩ := Option.map_eq_some_iff.mp hstep
      exact .inl ⟨process, hprocess, rfl⟩
  | writeRun k =>
      obtain ⟨_, -, rfl⟩ := Option.map_eq_some_iff.mp hstep
      exact .inl ⟨process, hprocess, rfl⟩
  | launch k launched =>
      obtain ⟨-, rfl⟩ := step_launch hstep
      rcases hset launched _ hprocess with hold | ⟨rfl, hnew⟩
      · exact .inl ⟨process, hold, rfl⟩
      · cases hnew
        exact .inr (.inl ⟨k, rfl, rfl⟩)
  | launchFails k message =>
      obtain ⟨-, rfl⟩ := step_launchFails hstep
      exact .inl ⟨process, hprocess, rfl⟩
  | readLine k progress errors =>
      obtain ⟨-, rfl⟩ := step_readLine hstep
      exact .inl ⟨process, hprocess, rfl⟩
  | poll k returnCode =>
      obtain ⟨polled, hinner, -, rfl⟩ := step_poll hstep
      rcases hset polled none hprocess with hold | ⟨-, hnew⟩
      · exact .inl ⟨process, hold, rfl⟩
      · cases hnew
  | endLoop k =>
      obtain ⟨-, rfl⟩ := step_endLoop hstep
      exact .inl ⟨process, hprocess, rfl⟩
  | exit exited =>
      obtain ⟨old, hold, rfl⟩ := Option.map_eq_some_iff.mp hstep
      rcases hset exited _ hprocess with hsame | ⟨rfl, hnew⟩
      · exact .inl ⟨process, hsame, rfl⟩
      · -- the program has ended, and is of the same thread
        cases hnew
        exact .inl ⟨old, hold, rfl⟩
  | spawn spawned =>
      obtain ⟨-, rfl⟩ := step_spawn hstep
      rcases hset spawned _ hprocess with hold | ⟨rfl, hnew⟩
      · exact .inl ⟨process, hold, rfl⟩
      · cases hnew
        exact .inr (.inr ⟨rfl, rfl⟩)
  | vanish vanished =>
      obtain ⟨_, -, rfl⟩ := step_vanish hstep
      rcases hset vanished none hprocess with hold | ⟨-, hnew⟩
      · exact .inl ⟨process, hold, rfl⟩
      · cases hnew

/-- A thread stays one of its process. -/
theorem processId_step (hnumbered : Numbered s) (hstep : s.step a = some t) {k : ℕ}
    (hpresent : (s.runs k).stage ≠ .absent) : (t.runs k).processId = (s.runs k).processId := by
  have hset : ∀ (state : ProcessState) (other : ℕ) (run : Run), state.runs = s.runs →
      (other = k → run.processId = (s.runs k).processId) →
      ((state.setRun other run).runs k).processId = (s.runs k).processId := by
    intro state other run hruns hid
    by_cases heq : k = other
    · subst heq
      rw [runs_setRun]
      exact hid rfl
    · rw [runs_setRun_of_ne state run heq, hruns]
  cases a with
  | post owner =>
      obtain ⟨-, rfl⟩ := step_post hstep
      rfl
  | request owner name =>
      obtain ⟨record, -, rfl⟩ := Option.map_eq_some_iff.mp hstep
      rfl
  | startThread r =>
      obtain ⟨hguard, rfl⟩ := step_startThread hstep
      refine hset _ r _ rfl fun heq => ?_
      subst heq
      rw [hnumbered.runs r hpresent] at hguard
      cases hguard.2
  | signal r =>
      obtain ⟨-, hsignal⟩ := step_signal hstep
      rcases hsignal with rfl | ⟨pid, process, hpid, hprocess, rfl⟩
      · rfl
      · obtain ⟨suspended, hrun⟩ := s.runs_send (s.requests r).name pid process k
        show ((s.send _ _ _).runs k).processId = _
        rw [hrun]
  | writeRequest r =>
      obtain ⟨_, -, rfl⟩ := Option.map_eq_some_iff.mp hstep
      rfl
  | writeRun other =>
      obtain ⟨⟨run, write⟩, hwrite, rfl⟩ := Option.map_eq_some_iff.mp hstep
      refine hset _ other run rfl fun heq => ?_
      subst heq
      exact (Run.stage_write hwrite).2
  | launch other pid =>
      obtain ⟨-, rfl⟩ := step_launch hstep
      exact hset _ other _ rfl fun heq => heq ▸ rfl
  | launchFails other message =>
      obtain ⟨-, rfl⟩ := step_launchFails hstep
      exact hset _ other _ rfl fun heq => heq ▸ rfl
  | readLine other progress errors =>
      obtain ⟨-, rfl⟩ := step_readLine hstep
      exact hset _ other _ rfl fun heq => heq ▸ rfl
  | poll other returnCode =>
      obtain ⟨_, -, -, rfl⟩ := step_poll hstep
      exact hset _ other _ rfl fun heq => heq ▸ rfl
  | endLoop other =>
      obtain ⟨-, rfl⟩ := step_endLoop hstep
      exact hset _ other _ rfl fun heq => heq ▸ rfl
  | exit pid =>
      obtain ⟨_, -, rfl⟩ := Option.map_eq_some_iff.mp hstep
      rfl
  | spawn pid =>
      obtain ⟨-, rfl⟩ := step_spawn hstep
      rfl
  | vanish pid =>
      obtain ⟨_, -, rfl⟩ := step_vanish hstep
      rfl

end Step

end ProcessState

end ComputeWebApp.Api
