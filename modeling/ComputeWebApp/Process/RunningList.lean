import ComputeWebApp.Process.Programs

/-!
# The list of the running processes

The list `running_process_ids.json` is changed by the threads (at their start and at their end) and
by `suspend` and `resume`, each time after the fact that the change tells of.  A process *runs*
when a thread of it, between its `add_running_process` and its final update, has no suspended
program (`Running`).

Neither an end nor a suspension of one run looks for the other runs of the same process, and
`resume` does not look whether the run is still there.  The list is right as long as each update
of it that no other update is going to follow tells the truth when it is made (`Truthful`), as it
does when the actions come in order (`ComputeWebApp.Process.ActionOrder`).
-/

namespace ComputeWebApp.Api

open Transition

/-- Between `add_running_process` and the final update. -/
def RunStage.counted : RunStage → Bool
  | listed => true
  | launched => true
  | reading => true
  | parsed => true
  | ended => true
  | _ => false

/-- `Popen` has not returned. -/
def RunStage.early : RunStage → Bool
  | absent => true
  | begun => true
  | started => true
  | listed => true
  | _ => false

/-- A `suspend` or `resume` has sent its signal and is going to change the list. -/
def Request.updating (request : Request) : Bool :=
  match request.name, request.stage with
  | .suspend, .signalled => true
  | .suspend, .merged => true
  | .resume, .signalled => true
  | .resume, .merged => true
  | _, _ => false

namespace ProcessState

/-! ## Running processes -/

/-- The program of the thread is suspended: it has not ended, and was stopped last. -/
def suspended (s : ProcessState) (k : ℕ) : Bool :=
  (s.runs k).suspended && decide ((s.runs k).inner.bind s.os = some ⟨some k, false⟩)

/-- The thread counts for its process. -/
def Counts (s : ProcessState) (processId : String) (k : ℕ) : Prop :=
  (s.runs k).processId = processId ∧ (s.runs k).stage.counted = true ∧ s.suspended k = false

instance (s : ProcessState) (processId : String) (k : ℕ) : Decidable (s.Counts processId k) :=
  inferInstanceAs (Decidable (_ ∧ _))

/-- At least one thread counts. -/
def Running (s : ProcessState) (processId : String) : Prop := ∃ k < s.count, s.Counts processId k

instance (s : ProcessState) (processId : String) : Decidable (s.Running processId) :=
  inferInstanceAs (Decidable (∃ k < s.count, _))

/-- An update of the list is going to be made for the process. -/
def Pending (s : ProcessState) (processId : String) : Prop :=
  (∃ r < s.count, (s.requests r).processId = processId ∧ (s.requests r).updating = true) ∨
    ∃ k < s.count, (s.runs k).processId = processId ∧ (s.runs k).stage = .finalized

instance (s : ProcessState) (processId : String) : Decidable (s.Pending processId) :=
  inferInstanceAs (Decidable ((∃ r < s.count, _) ∨ ∃ k < s.count, _))

/-! ## Truthful updates -/

/-- A suspended program may end when another update is pending, or another thread counts. -/
def MayEnd (s : ProcessState) (process : OsProcess) : Prop :=
  ∀ k ∈ process.run, s.suspended k = true →
    s.Pending (s.runs k).processId ∨ s.Running (s.runs k).processId

instance (s : ProcessState) (process : OsProcess) : Decidable (s.MayEnd process) :=
  inferInstanceAs (Decidable (∀ k ∈ process.run, _))

/-- The last pending update of `suspend` or `resume` removes a process that does not run, or adds
one that runs. -/
def TruthfulRequest (s : ProcessState) (r : ℕ) : Prop :=
  (s.requests r).stage = .merged →
    (s.setRequest r { s.requests r with stage := .finished }).Pending (s.requests r).processId ∨
      ((s.requests r).name = .resume ↔ s.Running (s.requests r).processId)

instance (s : ProcessState) (r : ℕ) : Decidable (s.TruthfulRequest r) :=
  inferInstanceAs (Decidable (_ → _))

/-- The last pending update of a thread that ends removes a process that does not run. -/
def TruthfulRun (s : ProcessState) (k : ℕ) : Prop :=
  (s.runs k).stage = .finalized →
    (s.setRun k { s.runs k with stage := .finished }).Pending (s.runs k).processId ∨
      ¬s.Running (s.runs k).processId

instance (s : ProcessState) (k : ℕ) : Decidable (s.TruthfulRun k) :=
  inferInstanceAs (Decidable (_ → _))

/-- `suspend` and `resume` signal a program of their own process, and `stop` one that may end. -/
def TruthfulSignal (s : ProcessState) (r : ℕ) : Prop :=
  ∀ process ∈ (s.requests r).pid.bind s.os,
    if (s.requests r).name = .stop then s.MayEnd process
    else ∀ k ∈ process.run, (s.runs k).processId = (s.requests r).processId

instance (s : ProcessState) (r : ℕ) : Decidable (s.TruthfulSignal r) :=
  inferInstanceAs (Decidable (∀ process ∈ (s.requests r).pid.bind s.os, _))

def Truthful (s : ProcessState) : ProcessStep → Prop
  | .writeRequest r => s.TruthfulRequest r
  | .writeRun k => s.TruthfulRun k
  | .signal r => s.TruthfulSignal r
  | .exit pid => ∀ process ∈ s.os pid, s.MayEnd process
  | _ => True

instance (s : ProcessState) (a : ProcessStep) : Decidable (Truthful s a) :=
  match a with
  | .writeRequest r => inferInstanceAs (Decidable (s.TruthfulRequest r))
  | .writeRun k => inferInstanceAs (Decidable (s.TruthfulRun k))
  | .signal r => inferInstanceAs (Decidable (s.TruthfulSignal r))
  | .exit pid => inferInstanceAs (Decidable (∀ process ∈ s.os pid, s.MayEnd process))
  | .post _ => instDecidableTrue
  | .request _ _ => instDecidableTrue
  | .startThread _ => instDecidableTrue
  | .launch _ _ => instDecidableTrue
  | .launchFails _ _ => instDecidableTrue
  | .readLine _ _ _ => instDecidableTrue
  | .poll _ _ => instDecidableTrue
  | .endLoop _ => instDecidableTrue
  | .spawn _ => instDecidableTrue
  | .vanish _ => instDecidableTrue

/-- No action for the process is in progress, and no thread of it is before its
`add_running_process` or between its final update and its end. -/
def Quiescent (s : ProcessState) (processId : String) : Prop :=
  (∀ r < s.count, (s.requests r).processId = processId →
    (s.requests r).stage = .absent ∨ (s.requests r).stage = .finished) ∧
  ∀ k < s.count, (s.runs k).processId = processId →
    (s.runs k).stage = .absent ∨ (s.runs k).stage.counted = true ∨ (s.runs k).stage = .finished

instance (s : ProcessState) (processId : String) : Decidable (s.Quiescent processId) :=
  inferInstanceAs (Decidable (_ ∧ _))

/-! ## The same without bounds on the numbers -/

/-- `Pending`, without the bounds on the numbers. -/
def Updating (s : ProcessState) (processId : String) : Prop :=
  (∃ r, (s.requests r).processId = processId ∧ (s.requests r).updating = true) ∨
    ∃ k, (s.runs k).processId = processId ∧ (s.runs k).stage = .finalized

section Unbounded

variable {s t : ProcessState} {processId : String} {k : ℕ}

theorem Request.stage_of_updating {request : Request} (h : request.updating = true) :
    request.stage = .signalled ∨ request.stage = .merged := by
  unfold Request.updating at h
  split at h
  case h_1 hstage => exact .inl hstage
  case h_2 hstage => exact .inr hstage
  case h_3 hstage => exact .inl hstage
  case h_4 hstage => exact .inr hstage
  case h_5 => cases h

theorem Numbered.run_lt (h : Numbered s) (hstage : (s.runs k).stage ≠ .absent) : k < s.count :=
  h.requests k (by rw [h.runs k hstage]; nofun)

theorem Numbered.running_iff (h : Numbered s) :
    s.Running processId ↔ ∃ k, s.Counts processId k := by
  refine ⟨fun ⟨k, _, hk⟩ => ⟨k, hk⟩, fun ⟨k, hk⟩ => ⟨k, h.run_lt fun habsent => ?_, hk⟩⟩
  have hcounted := hk.2.1
  rw [habsent] at hcounted
  cases hcounted

theorem Updating.of_pending (h : s.Pending processId) : s.Updating processId :=
  h.imp (fun ⟨r, _, hr⟩ => ⟨r, hr⟩) fun ⟨k, _, hk⟩ => ⟨k, hk⟩

/-- Nothing is going to change the list for a quiescent process. -/
theorem Quiescent.not_updating (h : s.Quiescent processId) (hnumbered : Numbered s) :
    ¬s.Updating processId := by
  rintro (⟨r, hid, hupdating⟩ | ⟨k, hid, hstage⟩)
  · have hstages := Request.stage_of_updating hupdating
    have hr : r < s.count := hnumbered.requests r (by rcases hstages with h | h <;> rw [h] <;> nofun)
    rcases h.1 r hr hid with habsent | hfinished
    · rw [habsent] at hstages
      exact hstages.elim nofun nofun
    · rw [hfinished] at hstages
      exact hstages.elim nofun nofun
  · have hk : k < s.count := hnumbered.run_lt (by rw [hstage]; nofun)
    have hstages := h.2 k hk hid
    rw [hstage] at hstages
    exact hstages.elim nofun fun h => h.elim nofun nofun

end Unbounded

/-! ## What one change leaves -/

section Changes

variable {s t : ProcessState} {processId : String} {k pid : ℕ} {run : Run}

theorem Updating.setRequest {r : ℕ} {request : Request} (h : s.Updating processId)
    (hkept : (s.requests r).processId = processId → (s.requests r).updating = true →
      request.processId = processId ∧ request.updating = true) :
    (s.setRequest r request).Updating processId := by
  refine h.imp_left fun ⟨other, hid, hupdating⟩ => ⟨other, ?_⟩
  by_cases heq : other = r
  · subst heq
    rw [requests_setRequest]
    exact hkept hid hupdating
  · rw [requests_setRequest_of_ne s request heq]
    exact ⟨hid, hupdating⟩

theorem Updating.setRun (h : s.Updating processId)
    (hkept : (s.runs k).processId = processId → (s.runs k).stage ≠ .finalized) :
    (s.setRun k run).Updating processId := by
  refine h.imp_right fun ⟨other, hid, hstage⟩ => ⟨other, ?_⟩
  have hne : other ≠ k := by
    rintro rfl
    exact hkept hid hstage
  rw [runs_setRun_of_ne s run hne]
  exact ⟨hid, hstage⟩

theorem suspended_setOs {new : Option OsProcess} (hold : s.os pid ≠ some ⟨some k, false⟩)
    (hnew : new ≠ some ⟨some k, false⟩) : (s.setOs pid new).suspended k = s.suspended k := by
  unfold suspended
  show (_ && decide ((s.runs k).inner.bind (s.setOs pid new).os = _)) = _
  congr 2
  cases hinner : (s.runs k).inner with
  | none => rfl
  | some other =>
      by_cases heq : other = pid
      · subst heq
        show ((s.setOs other new).os other = _) = (s.os other = _)
        rw [os_setOs, eq_false hold, eq_false hnew]
      · show ((s.setOs pid new).os other = _) = (s.os other = _)
        rw [os_setOs_of_ne s new heq]

theorem suspended_of_setOs {new : Option OsProcess} (hnew : new ≠ some ⟨some k, false⟩)
    (h : (s.setOs pid new).suspended k = true) : s.suspended k = true := by
  obtain ⟨hflag, hprogram⟩ := Bool.and_eq_true_iff.mp h
  obtain ⟨other, hinner, hos⟩ := Option.bind_eq_some_iff.mp (of_decide_eq_true hprogram)
  have hne : other ≠ pid := by
    rintro rfl
    rw [os_setOs] at hos
    exact hnew hos
  rw [os_setOs_of_ne s new hne] at hos
  exact Bool.and_eq_true_iff.mpr ⟨hflag,
    decide_eq_true (Option.bind_eq_some_iff.mpr ⟨other, hinner, hos⟩)⟩

/-- A step of a thread that leaves its program, and does not suspend or continue it. -/
theorem suspended_setRun (hflag : run.suspended = (s.runs k).suspended)
    (hinner : run.inner = (s.runs k).inner) (other : ℕ) :
    (s.setRun k run).suspended other = s.suspended other := by
  unfold suspended
  by_cases heq : other = k
  · rw [heq, runs_setRun, hflag, hinner]
    rfl
  · rw [runs_setRun_of_ne s run heq]
    rfl

/-- The other threads count as before. -/
theorem counts_congr {other : ℕ} (hrun : t.runs other = s.runs other)
    (hsuspended : t.suspended other = s.suspended other) :
    t.Counts processId other ↔ s.Counts processId other := by
  unfold Counts
  rw [hrun, hsuspended]

end Changes

/-! ## The invariant -/

/-- The list is right for every process that no pending update is going to change it for. -/
structure Listed (s : ProcessState) : Prop where
  nodup : s.running.Nodup
  fresh : ∀ k, (s.runs k).stage.early = true → (s.runs k).suspended = false
  accurate : ∀ processId, ¬s.Updating processId →
    (processId ∈ s.running ↔ ∃ k, s.Counts processId k)

section Listed

variable {s t : ProcessState} {k pid : ℕ} {run : Run} {owner : String}

/-- A step that leaves the list. -/
theorem Listed.congr (h : Listed s) (hrunning : t.running = s.running)
    (hfresh : ∀ k, (t.runs k).stage.early = true → (t.runs k).suspended = false)
    (hupdating : ∀ processId, s.Updating processId → t.Updating processId)
    (hcounts : ∀ processId, ¬t.Updating processId →
      ((∃ k, t.Counts processId k) ↔ ∃ k, s.Counts processId k)) : Listed t := by
  refine ⟨hrunning ▸ h.nodup, hfresh, fun processId hsettled => ?_⟩
  rw [hrunning, hcounts processId hsettled]
  exact h.accurate processId fun hold => hsettled (hupdating processId hold)

/-- A step that leaves the threads and their programs as they are. -/
theorem Listed.same (h : Listed s) (hrunning : t.running = s.running) (hruns : t.runs = s.runs)
    (hsuspended : ∀ k, t.suspended k = s.suspended k)
    (hupdating : ∀ processId, s.Updating processId → t.Updating processId) : Listed t := by
  refine h.congr hrunning (fun k => ?_) hupdating fun processId _ => exists_congr fun k => ?_
  · rw [hruns]
    exact h.fresh k
  · exact counts_congr (congrFun hruns k) (hsuspended k)

/-- A step of a thread between two stages that both count, or both do not. -/
theorem Listed.setRun (h : Listed s) (hid : run.processId = (s.runs k).processId)
    (hcounted : run.stage.counted = (s.runs k).stage.counted)
    (hfinal : (s.runs k).stage ≠ .finalized)
    (hearly : run.stage.early = true → (s.runs k).stage.early = true)
    (hflag : run.suspended = (s.runs k).suspended)
    (hsuspended : (s.setRun k run).suspended k = s.suspended k) : Listed (s.setRun k run) := by
  refine h.congr rfl (fun other => ?_) (fun processId hold => ?_) fun processId _ =>
    exists_congr fun other => ?_
  · by_cases heq : other = k
    · rw [heq, runs_setRun, hflag]
      exact fun hstage => h.fresh k (hearly hstage)
    · rw [runs_setRun_of_ne s run heq]
      exact h.fresh other
  · exact hold.setRun fun _ => hfinal
  · by_cases heq : other = k
    · subst heq
      unfold Counts
      rw [runs_setRun, hid, hcounted, hsuspended]
    · have hrun := runs_setRun_of_ne s run heq
      refine counts_congr hrun ?_
      unfold suspended
      rw [hrun]
      rfl

/-- A step of a thread that has no part in its program. -/
theorem Listed.thread (h : Listed s) (hid : run.processId = (s.runs k).processId)
    (hcounted : run.stage.counted = (s.runs k).stage.counted)
    (hfinal : (s.runs k).stage ≠ .finalized)
    (hearly : run.stage.early = true → (s.runs k).stage.early = true)
    (hflag : run.suspended = (s.runs k).suspended) (hinner : run.inner = (s.runs k).inner) :
    Listed (s.setRun k run) :=
  h.setRun hid hcounted hfinal hearly hflag (suspended_setRun hflag hinner k)

/-- A step after which the list may be wrong, or has changed, for one process only. -/
theorem Listed.update (owner : String) (h : Listed s) (hnodup : t.running.Nodup)
    (hfresh : ∀ k, (t.runs k).stage.early = true → (t.runs k).suspended = false)
    (hlist : ∀ processId ≠ owner, (processId ∈ t.running ↔ processId ∈ s.running))
    (hupdating : ∀ processId ≠ owner, s.Updating processId → t.Updating processId)
    (hcounts : ∀ processId ≠ owner, ∀ k, t.Counts processId k ↔ s.Counts processId k)
    (howner : ¬t.Updating owner → (owner ∈ t.running ↔ ∃ k, t.Counts owner k)) : Listed t := by
  refine ⟨hnodup, hfresh, fun processId hsettled => ?_⟩
  by_cases heq : processId = owner
  · subst heq
    exact howner hsettled
  · rw [hlist processId heq, exists_congr (hcounts processId heq)]
    exact h.accurate processId fun hold => hsettled (hupdating processId heq hold)

theorem Listed.setRequest (h : Listed s) {r : ℕ} {request : Request}
    (hkept : (s.requests r).updating = true →
      request.processId = (s.requests r).processId ∧ request.updating = true) :
    Listed (s.setRequest r request) :=
  h.same rfl rfl (fun _ => rfl) fun _ hold => hold.setRequest fun hid hupdating =>
    ⟨(hkept hupdating).1.trans hid, (hkept hupdating).2⟩

/-- A change of the operating system's processes, in which no live program takes part. -/
theorem Listed.setOs (h : Listed s) {new : Option OsProcess}
    (hold : ∀ k, s.os pid ≠ some ⟨some k, false⟩) (hnew : ∀ k, new ≠ some ⟨some k, false⟩) :
    Listed (s.setOs pid new) :=
  h.same rfl rfl (fun k => suspended_setOs (hold k) (hnew k)) fun _ hupdating => hupdating

theorem Listed.apply (h : Listed s) {write : Write} (hlist : ∀ list, write.running list = list) :
    Listed (s.apply owner write) :=
  h.same (hlist s.running) rfl (fun _ => rfl) fun _ hupdating => hupdating

/-- `Popen` returns. -/
theorem Listed.launch (h : Listed s) (hstage : (s.runs k).stage = .listed) (hfree : s.os pid = none) :
    Listed ((s.setOs pid (some ⟨some k, false⟩)).setRun k
      { s.runs k with stage := .launched, pid := some pid, inner := some pid }) := by
  have hflag : (s.runs k).suspended = false := h.fresh k (by rw [hstage]; rfl)
  have hold : ∀ other, s.os pid ≠ some ⟨some other, false⟩ := fun other => by rw [hfree]; nofun
  refine h.congr rfl (fun other => ?_) (fun processId hupdating => ?_) fun processId _ =>
    exists_congr fun other => ?_
  · by_cases heq : other = k
    · rw [heq, runs_setRun]
      exact fun _ => hflag
    · rw [runs_setRun_of_ne _ _ heq]
      exact h.fresh other
  · have hset : (s.setOs pid (some ⟨some k, false⟩)).Updating processId := hupdating
    refine hset.setRun fun _ => ?_
    show (s.runs k).stage ≠ .finalized
    rw [hstage]
    nofun
  · by_cases heq : other = k
    · subst heq
      unfold Counts suspended
      rw [runs_setRun, hstage]
      simp [hflag, RunStage.counted]
    · have hrun := runs_setRun_of_ne (s.setOs pid (some ⟨some k, false⟩))
        { s.runs k with stage := .launched, pid := some pid, inner := some pid } heq
      refine counts_congr hrun ?_
      have hnew : some ⟨some k, false⟩ ≠ some (⟨some other, false⟩ : OsProcess) := by
        intro hsame
        cases hsame
        exact heq rfl
      rw [← suspended_setOs (hold other) hnew]
      unfold suspended
      rw [hrun]
      rfl

/-- A program ends. -/
theorem Listed.exit (h : Listed s) (hnumbered : Numbered s) {process : OsProcess}
    (hprocess : s.os pid = some process) (hgood : s.MayEnd process) :
    Listed (s.setOs pid (some { process with ended := true })) := by
  have hnew : ∀ k, some { process with ended := true } ≠ some (⟨some k, false⟩ : OsProcess) := by
    intro k hsame
    exact absurd (congrArg OsProcess.ended (Option.some.inj hsame)) nofun
  refine h.congr rfl h.fresh (fun _ hupdating => hupdating) fun processId hsettled =>
    ⟨fun ⟨k, hid, hcounted, hgoing⟩ => ?_, fun ⟨k, hid, hcounted, hgoing⟩ =>
      ⟨k, hid, hcounted, ?_⟩⟩
  · -- a thread that has counted, or one whose suspended program has ended
    cases hsuspended : s.suspended k with
    | false => exact ⟨k, hid, hcounted, hsuspended⟩
    | true =>
        have hprogram : process.run = some k := by
          by_contra hother
          have hold : s.os pid ≠ some ⟨some k, false⟩ := by
            rw [hprocess]
            intro hsame
            cases hsame
            exact hother rfl
          rw [suspended_setOs hold (hnew k), hsuspended] at hgoing
          cases hgoing
        rcases hgood k hprogram hsuspended with hpending | hrunning
        · rw [show (s.runs k).processId = processId from hid] at hpending
          exact absurd (Updating.of_pending hpending) hsettled
        · rw [show (s.runs k).processId = processId from hid] at hrunning
          exact hnumbered.running_iff.mp hrunning
  · rw [← Bool.not_eq_true]
    intro hended
    rw [suspended_of_setOs (hnew k) hended] at hgoing
    cases hgoing

/-- `suspend` or `resume` signals a program of its own process, and its update is pending then. -/
theorem Listed.signal (h : Listed s) {r : ℕ} {request : Request} (flag : Bool)
    (hlooping : (s.runs k).stage.looping = true) (hown : (s.runs k).processId = request.processId)
    (hbefore : (s.requests r).updating = false) (hafter : request.updating = true) :
    Listed ((s.setRun k { s.runs k with suspended := flag }).setRequest r request) := by
  have hfresh : ∀ other, ((s.setRun k { s.runs k with suspended := flag }).runs other).stage.early =
      true → ((s.setRun k { s.runs k with suspended := flag }).runs other).suspended = false := by
    intro other
    by_cases heq : other = k
    · rw [heq, runs_setRun]
      intro hearly
      cases hstage : (s.runs k).stage <;> simp [hstage, RunStage.looping, RunStage.early] at *
    · rw [runs_setRun_of_ne s _ heq]
      exact h.fresh other
  refine h.update request.processId h.nodup hfresh (fun _ _ => Iff.rfl)
    (fun processId hother hupdating => ?_) (fun processId hother other => ?_) fun hsettled => ?_
  · have hset : (s.setRun k { s.runs k with suspended := flag }).Updating processId := by
      refine hupdating.setRun fun _ hfinal => ?_
      rw [hfinal] at hlooping
      cases hlooping
    refine hset.setRequest fun _ hupdating => ?_
    rw [show (s.requests r).updating = true from hupdating] at hbefore
    cases hbefore
  · by_cases heq : other = k
    · refine iff_of_false (fun hcounts => ?_) fun hcounts => ?_
      · have hid := hcounts.1
        rw [heq, show ((s.setRun k _).setRequest r request).runs k = _ from runs_setRun s k _] at hid
        exact hother (hid.symm.trans hown)
      · exact hother (hcounts.1.symm.trans (heq ▸ hown))
    · have hrun := runs_setRun_of_ne s { s.runs k with suspended := flag } heq
      refine counts_congr hrun ?_
      unfold suspended
      rw [show ((s.setRun k _).setRequest r request).runs other = _ from hrun]
      rfl
  · exact absurd (.inl ⟨r, by rw [requests_setRequest], by rw [requests_setRequest, hafter]⟩) hsettled

/-! ## Updates of the list -/

/-- What a write of a thread does to the list. -/
theorem Run.write_running {run run' : Run} {write : Write} (h : run.write = some (run', write)) :
    run.stage ≠ .finalized ∧ run'.stage.counted = run.stage.counted ∧
        (run'.stage.early = true → run.stage.early = true) ∧
        (∀ list, write.running list = list) ∨
      run.stage = .started ∧ run'.stage = .listed ∧
        write.running = addRunning run.processId ∨
      run.stage = .ended ∧ run'.stage = .finalized ∧ (∀ list, write.running list = list) ∨
      run.stage = .finalized ∧ run' = { run with stage := .finished } ∧
        write.running = removeRunning run.processId := by
  unfold Run.write at h
  split at h
  case h_1 hstage => cases h; exact .inl (by simp [hstage, RunStage.counted, RunStage.early])
  case h_2 hstage => cases h; exact .inr (.inl ⟨hstage, rfl, rfl⟩)
  case h_3 hstage => cases h; exact .inl (by simp [hstage, RunStage.counted, RunStage.early])
  case h_4 hstage =>
      cases h
      exact .inl (by simp [hstage, RunStage.counted, RunStage.early, mergeStatus])
  case h_5 hstage => cases h; exact .inr (.inr (.inl ⟨hstage, rfl, fun _ => rfl⟩))
  case h_6 hstage => cases h; exact .inr (.inr (.inr ⟨hstage, rfl, rfl⟩))
  case h_7 => cases h

/-- A write of a thread that leaves the list of the other processes, and is right for its own. -/
theorem Listed.writeRun_of (h : Listed s) {write : Write} (hid : run.processId = (s.runs k).processId)
    (hflag : run.suspended = (s.runs k).suspended) (hinner : run.inner = (s.runs k).inner)
    (hearly : run.stage.early = true → (s.runs k).stage.early = true)
    (hnodup : (write.running s.running).Nodup)
    (hlist : ∀ processId ≠ run.processId,
      (processId ∈ write.running s.running ↔ processId ∈ s.running))
    (howner : ¬((s.apply run.processId write).setRun k run).Updating run.processId →
      (run.processId ∈ write.running s.running ↔
        ∃ other, ((s.apply run.processId write).setRun k run).Counts run.processId other)) :
    Listed ((s.apply run.processId write).setRun k run) := by
  refine h.update run.processId hnodup (fun other => ?_) hlist
    (fun processId hother hupdating => ?_) (fun processId hother other => ?_) howner
  · by_cases heq : other = k
    · rw [heq, runs_setRun, hflag]
      exact fun hstage => h.fresh k (hearly hstage)
    · rw [runs_setRun_of_ne _ run heq]
      exact h.fresh other
  · have hset : (s.apply run.processId write).Updating processId := hupdating
    exact hset.setRun fun hid' => absurd (hid'.symm.trans hid.symm) hother
  · have hsuspended := suspended_setRun (s := s.apply run.processId write) hflag hinner other
    by_cases heq : other = k
    · refine iff_of_false (fun hcounts => ?_) fun hcounts => ?_
      · rw [Counts, heq, runs_setRun] at hcounts
        exact hother hcounts.1.symm
      · exact hother (hcounts.1.symm.trans (heq ▸ hid.symm))
    · exact counts_congr (runs_setRun_of_ne _ run heq) hsuspended

theorem Listed.writeRun (h : Listed s) (hnumbered : Numbered s) (hgood : s.TruthfulRun k)
    {write : Write} (hwrite : (s.runs k).write = some (run, write)) :
    Listed ((s.apply run.processId write).setRun k run) := by
  have hid : run.processId = (s.runs k).processId := (Run.stage_write hwrite).2
  obtain ⟨hinner, hflag, -⟩ := Run.write_inner hwrite
  rcases Run.write_running hwrite with ⟨hfinal, hcounted, hearly, hlist⟩ | ⟨hstage, hstage', hlist⟩ |
    ⟨hstage, hstage', hlist⟩ | ⟨hstage, hrun, hlist⟩
  · exact (h.apply hlist).thread hid hcounted hfinal hearly hflag hinner
  · -- `add_running_process`: the thread has no program yet
    refine h.writeRun_of hid hflag hinner (fun _ => by rw [hstage]; rfl) ?_
      (fun processId hother => ?_)
      fun _ => ?_
    · rw [hlist]
      exact nodup_addRunning h.nodup _
    · rw [hlist, mem_addRunning, ← hid]
      exact or_iff_right hother
    · rw [hlist, mem_addRunning]
      refine iff_of_true (.inl hid) ⟨k, ?_⟩
      have hfalse : run.suspended = false := hflag.trans (h.fresh k (by rw [hstage]; rfl))
      simp [Counts, suspended, hfalse, hstage', RunStage.counted]
  · -- the final update: `remove_running_process` is pending
    refine h.writeRun_of hid hflag hinner (fun hearly => ?_) (by rw [hlist]; exact h.nodup)
      (fun _ _ => by rw [hlist]) fun hsettled => absurd (.inr ⟨k, ?_, ?_⟩) hsettled
    · rw [hstage'] at hearly
      cases hearly
    · rw [runs_setRun]
    · rw [runs_setRun, hstage']
  · -- `remove_running_process`: no other thread of the process may be running
    refine h.writeRun_of hid hflag hinner (fun hearly => ?_) ?_ (fun processId hother => ?_)
      fun hsettled => ?_
    · rw [hrun] at hearly
      cases hearly
    · rw [hlist]
      exact nodup_removeRunning h.nodup _
    · rw [hlist, mem_removeRunning h.nodup, ← hid]
      exact and_iff_right hother
    · rw [hlist, mem_removeRunning h.nodup, ← hid]
      refine iff_of_false (fun hlisted => hlisted.1 rfl) fun ⟨other, hcounts⟩ => ?_
      rcases hgood hstage with hpending | hidle
      · rw [← hid, ← hrun] at hpending
        exact hsettled (Updating.of_pending hpending)
      · rw [hnumbered.running_iff, ← hid] at hidle
        apply hidle
        refine ⟨other, ?_⟩
        have hne : other ≠ k := by
          rintro rfl
          have hcounted := hcounts.2.1
          rw [runs_setRun, hrun] at hcounted
          cases hcounted
        exact (counts_congr (runs_setRun_of_ne _ run hne)
          (suspended_setRun (s := s.apply run.processId write) hflag hinner other)).mp hcounts

/-- What a write of a request does to the list. -/
theorem Request.write_running {request request' : Request} {write : Write}
    (h : request.write = some (request', write)) :
    request'.updating = request.updating ∧ (∀ list, write.running list = list) ∨
      request.stage = .merged ∧ request' = { request with stage := .finished } ∧
        (request.name = .suspend ∧ write.running = removeRunning request.processId ∨
          request.name = .resume ∧ write.running = addRunning request.processId) := by
  unfold Request.write at h
  split at h
  case h_1 hname hstage =>
    cases h
    exact .inl ⟨by simp [Request.updating, hname, hstage], fun _ => rfl⟩
  case h_2 hname hstage => cases h; exact .inr ⟨hstage, rfl, .inl ⟨hname, rfl⟩⟩
  case h_3 hname hstage =>
    cases h
    exact .inl ⟨by simp [Request.updating, hname, hstage], fun _ => rfl⟩
  case h_4 hname hstage => cases h; exact .inr ⟨hstage, rfl, .inr ⟨hname, rfl⟩⟩
  case h_5 hname hstage =>
    cases h
    exact .inl ⟨by simp [Request.updating, hname], fun _ => rfl⟩
  case h_6 hname hstage =>
    cases h
    exact .inl ⟨by simp [Request.updating, hname], fun _ => rfl⟩
  case h_7 => cases h

theorem Listed.writeRequest (h : Listed s) (hnumbered : Numbered s) {r : ℕ} {request : Request}
    (hgood : s.TruthfulRequest r) {write : Write}
    (hwrite : (s.requests r).write = some (request, write)) :
    Listed ((s.apply request.processId write).setRequest r request) := by
  have hid : request.processId = (s.requests r).processId := (Request.stage_write hwrite).2.2
  rcases Request.write_running hwrite with ⟨hupdating, hlist⟩ | ⟨hstage, hrequest, haction⟩
  · refine (h.apply hlist).setRequest fun hbefore => ⟨hid, ?_⟩
    rw [hupdating]
    exact hbefore
  · have hnodup : (write.running s.running).Nodup := by
      rcases haction with ⟨-, hlist⟩ | ⟨-, hlist⟩ <;> rw [hlist]
      · exact nodup_removeRunning h.nodup _
      · exact nodup_addRunning h.nodup _
    refine h.update request.processId hnodup h.fresh (fun processId hother => ?_)
      (fun processId hother hupdating => ?_) (fun _ _ _ => Iff.rfl) fun hsettled => ?_
    · show processId ∈ write.running s.running ↔ _
      rcases haction with ⟨-, hlist⟩ | ⟨-, hlist⟩
      · rw [hlist, mem_removeRunning h.nodup, ← hid]
        exact and_iff_right hother
      · rw [hlist, mem_addRunning, ← hid]
        exact or_iff_right hother
    · have happly : (s.apply request.processId write).Updating processId := hupdating
      exact happly.setRequest fun hid' => absurd (hid'.symm.trans hid.symm) hother
    · -- no update is pending after this one, so it tells the truth
      show request.processId ∈ write.running s.running ↔ ∃ k, s.Counts request.processId k
      rcases hgood hstage with hpending | htrue
      · rw [← hid, ← hrequest] at hpending
        exact absurd (Updating.of_pending hpending) hsettled
      · rw [hnumbered.running_iff, ← hid] at htrue
        rw [← htrue]
        rcases haction with ⟨hname, hlist⟩ | ⟨hname, hlist⟩
        · rw [hlist, mem_removeRunning h.nodup, ← hid, hname]
          exact iff_of_false (fun hlisted => hlisted.1 rfl) nofun
        · rw [hlist, mem_addRunning, hname]
          exact iff_of_true (.inl hid) rfl

/-- A signal of `suspend`, `resume` or `stop`. -/
theorem Listed.send (h : Listed s) (hnumbered : Numbered s) (hprograms : Programs s) {r : ℕ}
    (hbefore : (s.requests r).updating = false) (hsignals : (s.requests r).name.signals = true)
    {process : OsProcess} (hprocess : s.os pid = some process)
    (hgood : if (s.requests r).name = .stop then s.MayEnd process
      else ∀ k ∈ process.run, (s.runs k).processId = (s.requests r).processId) :
    Listed ((s.send (s.requests r).name pid process).setRequest r
      { s.requests r with stage := .signalled }) := by
  have hrequest : ∀ {state : ProcessState} (request : Request), Listed state →
      state.requests = s.requests → Listed (state.setRequest r request) :=
    fun _ hstate hsame => hstate.setRequest fun hupdating => by
      rw [hsame, hbefore] at hupdating
      cases hupdating
  cases hname : (s.requests r).name with
  | start => rw [hname] at hsignals; cases hsignals
  | reset => rw [hname] at hsignals; cases hsignals
  | stop =>
      rw [hname, if_pos rfl] at hgood
      exact hrequest _ (h.exit hnumbered hprocess hgood) rfl
  | suspend =>
      rw [hname, if_neg nofun] at hgood
      cases hrun : process.run with
      | none =>
          have hsend : s.send .suspend pid process = s := by simp [ProcessState.send, hrun]
          rw [hsend]
          exact hrequest _ h rfl
      | some k =>
          have hsend : s.send .suspend pid process =
              s.setRun k { s.runs k with suspended := true } := by simp [ProcessState.send, hrun]
          rw [hsend]
          exact h.signal true (hprograms.looping hprocess hrun) (hgood k hrun) hbefore
            (by simp [Request.updating, hname])
  | resume =>
      rw [hname, if_neg nofun] at hgood
      cases hrun : process.run with
      | none =>
          have hsend : s.send .resume pid process = s := by simp [ProcessState.send, hrun]
          rw [hsend]
          exact hrequest _ h rfl
      | some k =>
          have hsend : s.send .resume pid process =
              s.setRun k { s.runs k with suspended := false } := by simp [ProcessState.send, hrun]
          rw [hsend]
          exact h.signal false (hprograms.looping hprocess hrun) (hgood k hrun) hbefore
            (by simp [Request.updating, hname])

theorem Listed.step {a : ProcessStep} (h : Listed s) (hnumbered : Numbered s)
    (hprograms : Programs s) (hgood : Truthful s a) (hstep : s.step a = some t) : Listed t := by
  cases a with
  | post processId =>
      obtain ⟨-, rfl⟩ := step_post hstep
      exact h.same rfl rfl (fun _ => rfl) fun _ hupdating => hupdating
  | request processId name =>
      obtain ⟨record, -, rfl⟩ := Option.map_eq_some_iff.mp hstep
      -- the number is new
      have habsent : (s.requests s.count).updating = false := by
        rw [← Bool.not_eq_true]
        intro hupdating
        have hstages := Request.stage_of_updating hupdating
        have hcount := hnumbered.requests s.count (by rcases hstages with h | h <;> rw [h] <;> nofun)
        exact Nat.lt_irrefl _ hcount
      refine h.same rfl rfl (fun _ => rfl) fun id hupdating => hupdating.setRequest fun _ hold => ?_
      rw [habsent] at hold
      cases hold
  | startThread r =>
      obtain ⟨hguard, rfl⟩ := step_startThread hstep
      have hrequest : Listed (s.setRequest r { s.requests r with stage := .finished }) :=
        h.setRequest fun hupdating => by simp [Request.updating, hguard.1] at hupdating
      -- the thread is new
      have habsent : (s.runs r).stage = .absent := by
        by_contra hpresent
        rw [hnumbered.runs r hpresent] at hguard
        cases hguard.2
      refine hrequest.congr rfl (fun k => ?_) (fun id hupdating => ?_) fun id _ =>
        exists_congr fun k => ?_
      · by_cases heq : k = r
        · rw [heq, runs_setRun]
          exact fun _ => rfl
        · rw [runs_setRun_of_ne _ _ heq]
          exact h.fresh k
      · refine hupdating.setRun fun _ => ?_
        show (s.runs r).stage ≠ .finalized
        rw [habsent]
        nofun
      · by_cases heq : k = r
        · subst heq
          refine iff_of_false (fun hcounts => ?_) fun hcounts => ?_
          · rw [Counts, runs_setRun] at hcounts
            cases hcounts.2.1
          · have hcounted : (s.runs k).stage.counted = true := hcounts.2.1
            rw [habsent] at hcounted
            cases hcounted
        · have hrun := runs_setRun_of_ne (s.setRequest r { s.requests r with stage := .finished })
            { processId := (s.requests r).processId, stage := .begun, pid := (s.requests r).pid } heq
          refine counts_congr hrun ?_
          unfold suspended
          rw [hrun]
          rfl
  | signal r =>
      obtain ⟨hguard, hsignal⟩ := step_signal hstep
      have hbefore : (s.requests r).updating = false := by simp [Request.updating, hguard.2]
      have hset : Listed (s.setRequest r { s.requests r with stage := .finished }) :=
        h.setRequest fun hupdating => by
          rw [hbefore] at hupdating
          cases hupdating
      rcases hsignal with rfl | ⟨pid, process, hpid, hprocess, rfl⟩
      · exact hset
      · have htruthful := hgood process (Option.bind_eq_some_iff.mpr ⟨pid, hpid, hprocess⟩)
        exact h.send hnumbered hprograms hbefore hguard.1 hprocess htruthful
  | writeRequest r =>
      obtain ⟨⟨request, write⟩, hwrite, rfl⟩ := Option.map_eq_some_iff.mp hstep
      exact h.writeRequest hnumbered hgood hwrite
  | writeRun k =>
      obtain ⟨⟨run, write⟩, hwrite, rfl⟩ := Option.map_eq_some_iff.mp hstep
      exact h.writeRun hnumbered hgood hwrite
  | launch k pid =>
      obtain ⟨hguard, rfl⟩ := step_launch hstep
      exact h.launch hguard.1 hguard.2
  | launchFails k message =>
      obtain ⟨hguard, rfl⟩ := step_launchFails hstep
      exact h.thread rfl (by rw [hguard]; rfl) (by rw [hguard]; nofun) nofun rfl rfl
  | readLine k progress errors =>
      obtain ⟨hguard, rfl⟩ := step_readLine hstep
      exact h.thread rfl (by rw [hguard]; rfl) (by rw [hguard]; nofun) nofun rfl rfl
  | poll k returnCode =>
      obtain ⟨pid, hinner, hguard, rfl⟩ := step_poll hstep
      have hended : ∀ other, s.os pid ≠ some ⟨some other, false⟩ := by
        intro other hlive
        rw [hlive] at hguard
        cases hguard.2
      have hos : Listed (s.setOs pid none) := h.setOs hended nofun
      refine hos.setRun rfl rfl ?_ id rfl ?_
      · show (s.runs k).stage ≠ .finalized
        rw [hguard.1]
        nofun
      · -- the program that has been waited for is gone
        have hgone : (s.runs k).inner.bind (s.setOs pid none).os = none := by
          rw [hinner]
          exact os_setOs s pid none
        unfold suspended
        rw [runs_setRun]
        show (_ && decide (none = _)) = (_ && decide ((s.runs k).inner.bind (s.setOs pid none).os = _))
        simp only [hgone]
        rfl
  | endLoop k =>
      obtain ⟨hguard, rfl⟩ := step_endLoop hstep
      exact h.thread rfl (by rw [hguard.1]; rfl) (by rw [hguard.1]; nofun) nofun rfl rfl
  | exit pid =>
      obtain ⟨process, hprocess, rfl⟩ := Option.map_eq_some_iff.mp hstep
      exact h.exit hnumbered hprocess (hgood process hprocess)
  | spawn pid =>
      obtain ⟨hfree, rfl⟩ := step_spawn hstep
      exact h.setOs (fun k => by rw [hfree]; nofun) nofun
  | vanish pid =>
      obtain ⟨_, hprocess, rfl⟩ := step_vanish hstep
      exact h.setOs (fun k => by rw [hprocess]; nofun) nofun

theorem listed_initial : Listed initial :=
  ⟨List.nodup_nil, fun _ _ => rfl, fun _ _ => iff_of_false nofun fun ⟨_, _, hcounted, _⟩ => by
    cases hcounted⟩

end Listed

/-- A quiescent process is in the list if and only if a thread of it is active whose program is not
suspended. -/
theorem Listed.mem_running_iff {s : ProcessState} (h : Listed s) (hnumbered : Numbered s)
    {processId : String} (hquiescent : s.Quiescent processId) :
    processId ∈ s.running ↔ ∃ k < s.count, (s.runs k).processId = processId ∧
      (s.runs k).stage.active = true ∧ s.suspended k = false := by
  rw [h.accurate processId (hquiescent.not_updating hnumbered), ← hnumbered.running_iff]
  refine exists_congr fun k => and_congr_right fun hk => and_congr_right fun hid =>
    and_congr_left fun _ => ?_
  -- an active thread of a quiescent process counts
  have hstages := hquiescent.2 k hk hid
  cases hstage : (s.runs k).stage <;> simp [hstage, RunStage.counted, RunStage.active] at *

end ProcessState

end ComputeWebApp.Api
