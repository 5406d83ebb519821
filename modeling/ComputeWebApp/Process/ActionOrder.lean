import ComputeWebApp.Process.RunningList

/-!
# Actions in order

The updates of the list of the running processes tell the truth as long as the actions come in
order (`Orderly`).  A process is started when no run of it is there.  `suspend` and `resume` meet
the program of such a run, and no request of the other name is on its way.  A suspended program
does not end, and a thread makes its final update when no `resume` is on its way.

Then there is one run for each process, and a request that is going to change the list has a run
whose program it has suspended or continued (`Alone`).
-/

namespace ComputeWebApp.Api

open Transition

/-- The thread has been started, and has not come to its end. -/
def RunStage.live : RunStage → Bool
  | absent => false
  | finished => false
  | _ => true

theorem RunStage.live_of_counted {stage : RunStage} (h : stage.counted = true) :
    stage.live = true := by
  cases stage <;> first | rfl | cases h

theorem RunStage.counted_of_looping {stage : RunStage} (h : stage.looping = true) :
    stage.counted = true := by
  cases stage <;> first | rfl | cases h

theorem RunStage.ne_absent_of_live {stage : RunStage} (h : stage.live = true) :
    stage ≠ .absent := by
  rintro rfl
  cases h

theorem Request.name_of_updating {request : Request} (h : request.updating = true) :
    request.name = .suspend ∨ request.name = .resume := by
  unfold Request.updating at h
  split at h
  case h_1 hname _ => exact .inl hname
  case h_2 hname _ => exact .inl hname
  case h_3 hname _ => exact .inr hname
  case h_4 hname _ => exact .inr hname
  case h_5 => cases h

theorem Request.name_write {request request' : Request} {write : Write}
    (h : request.write = some (request', write)) : request'.name = request.name := by
  unfold Request.write at h
  split at h <;> first
    | (cases h; rfl)
    | cases h

namespace ProcessState

/-! ## The order of the actions -/

/-- No run of the process is there. -/
def Idle (s : ProcessState) (processId : String) : Prop :=
  ∀ k < s.count, (s.runs k).processId = processId → (s.runs k).stage.live = false

/-- No request of that name is on its way from its signal to the list. -/
def NoneOf (s : ProcessState) (name : ActionName) (processId : String) : Prop :=
  ∀ r < s.count, (s.requests r).processId = processId → (s.requests r).updating = true →
    (s.requests r).name ≠ name

/-- A program of a run of the process, which has not ended. -/
def IsProgramOf (s : ProcessState) (process : OsProcess) (processId : String) : Prop :=
  process.ended = false ∧ ∃ k ∈ process.run, (s.runs k).processId = processId

/-- It is not the program of a run that is suspended. -/
def Unsuspended (s : ProcessState) (process : OsProcess) : Prop :=
  ∀ k ∈ process.run, s.suspended k = false

def OrderlySignal (s : ProcessState) (request : Request) (process : OsProcess) : Prop :=
  match request.name with
  | .suspend => s.IsProgramOf process request.processId ∧ s.NoneOf .resume request.processId
  | .resume => s.IsProgramOf process request.processId ∧ s.NoneOf .suspend request.processId
  | _ => s.Unsuspended process

def Orderly (s : ProcessState) : ProcessStep → Prop
  | .startThread r => s.Idle (s.requests r).processId
  | .signal r => ∀ process ∈ (s.requests r).pid.bind s.os, s.OrderlySignal (s.requests r) process
  | .writeRun k => (s.runs k).stage = .ended → s.NoneOf .resume (s.runs k).processId
  | .exit pid => ∀ process ∈ s.os pid, s.Unsuspended process
  | _ => True

section Decidable

variable (s : ProcessState)

instance (processId : String) : Decidable (s.Idle processId) :=
  inferInstanceAs (Decidable (∀ k < s.count, _))

instance (name : ActionName) (processId : String) : Decidable (s.NoneOf name processId) :=
  inferInstanceAs (Decidable (∀ r < s.count, _))

instance (process : OsProcess) (processId : String) : Decidable (s.IsProgramOf process processId) :=
  inferInstanceAs (Decidable (_ ∧ ∃ k ∈ process.run, _))

instance (process : OsProcess) : Decidable (s.Unsuspended process) :=
  inferInstanceAs (Decidable (∀ k ∈ process.run, _))

instance (request : Request) (process : OsProcess) : Decidable (s.OrderlySignal request process) := by
  unfold OrderlySignal
  split <;> infer_instance

instance (a : ProcessStep) : Decidable (Orderly s a) :=
  match a with
  | .startThread r => inferInstanceAs (Decidable (s.Idle (s.requests r).processId))
  | .signal r => inferInstanceAs (Decidable (∀ process ∈ (s.requests r).pid.bind s.os, _))
  | .writeRun k => inferInstanceAs (Decidable (_ → s.NoneOf .resume (s.runs k).processId))
  | .exit pid => inferInstanceAs (Decidable (∀ process ∈ s.os pid, s.Unsuspended process))
  | .post _ => instDecidableTrue
  | .request _ _ => instDecidableTrue
  | .writeRequest _ => instDecidableTrue
  | .launch _ _ => instDecidableTrue
  | .launchFails _ _ => instDecidableTrue
  | .readLine _ _ _ => instDecidableTrue
  | .poll _ _ => instDecidableTrue
  | .endLoop _ => instDecidableTrue
  | .spawn _ => instDecidableTrue
  | .vanish _ => instDecidableTrue

end Decidable

/-! ## One run for each process -/

/-- The run whose program the request has suspended or continued. -/
structure Concerns (s : ProcessState) (request : Request) (k : ℕ) : Prop where
  processId : (s.runs k).processId = request.processId
  counted : (s.runs k).stage.counted = true
  suspended : s.suspended k = true ↔ request.name = .suspend

structure Alone (s : ProcessState) : Prop where
  single : ∀ {j k : ℕ}, (s.runs j).stage.live = true → (s.runs k).stage.live = true →
    (s.runs j).processId = (s.runs k).processId → j = k
  pending : ∀ r, (s.requests r).updating = true → ∃ k, s.Concerns (s.requests r) k

section Alone

variable {s t : ProcessState} {k pid : ℕ} {run : Run}

theorem Concerns.of_eq {request : Request} (h : s.Concerns request k)
    (hid : (t.runs k).processId = (s.runs k).processId)
    (hcounted : (t.runs k).stage.counted = true) (hsuspended : t.suspended k = s.suspended k) :
    t.Concerns request k :=
  ⟨hid.trans h.processId, hcounted, hsuspended ▸ h.suspended⟩

/-- A suspended program has not been waited for. -/
theorem looping_of_suspended (hprograms : Programs s) (h : s.suspended k = true) :
    (s.runs k).stage.looping = true := by
  obtain ⟨-, hprogram⟩ := Bool.and_eq_true_iff.mp h
  obtain ⟨pid, hinner, -⟩ := Option.bind_eq_some_iff.mp (of_decide_eq_true hprogram)
  exact hprograms.inner k (by rw [hinner]; rfl)

theorem Alone.setRequest (h : Alone s) {r : ℕ} {request : Request}
    (hkept : request.updating = true → ∃ k, s.Concerns request k) :
    Alone (s.setRequest r request) := by
  refine ⟨h.single, fun other hupdating => ?_⟩
  by_cases heq : other = r
  · subst heq
    rw [requests_setRequest] at hupdating ⊢
    obtain ⟨k, hk⟩ := hkept hupdating
    exact ⟨k, hk.processId, hk.counted, hk.suspended⟩
  · rw [requests_setRequest_of_ne s request heq] at hupdating ⊢
    obtain ⟨k, hk⟩ := h.pending other hupdating
    exact ⟨k, hk.processId, hk.counted, hk.suspended⟩

/-- A request that is not going to change the list. -/
theorem Alone.settle (h : Alone s) (r : ℕ) {request : Request} (hsettled : request.updating = false) :
    Alone (s.setRequest r request) :=
  h.setRequest fun hupdating => absurd (hsettled.symm.trans hupdating) Bool.false_ne_true

theorem Alone.setOs (h : Alone s) {new : Option OsProcess}
    (hsame : ∀ request k, s.Concerns request k → (s.setOs pid new).suspended k = s.suspended k) :
    Alone (s.setOs pid new) := by
  refine ⟨h.single, fun r hupdating => ?_⟩
  obtain ⟨k, hk⟩ := h.pending r hupdating
  exact ⟨k, hk.of_eq rfl hk.counted (hsame _ k hk)⟩

/-- A step of one thread. -/
theorem Alone.setRun (h : Alone s) (hid : run.processId = (s.runs k).processId)
    (hlive : run.stage.live = true → (s.runs k).stage.live = true)
    (hkept : ∀ r, (s.requests r).updating = true → s.Concerns (s.requests r) k →
      run.stage.counted = true ∧ (s.setRun k run).suspended k = s.suspended k) :
    Alone (s.setRun k run) := by
  have hstages : ∀ j, ((s.setRun k run).runs j).processId = (s.runs j).processId ∧
      (((s.setRun k run).runs j).stage.live = true → (s.runs j).stage.live = true) := by
    intro j
    by_cases heq : j = k
    · subst heq
      rw [runs_setRun]
      exact ⟨hid, hlive⟩
    · rw [runs_setRun_of_ne s run heq]
      exact ⟨rfl, id⟩
  refine ⟨fun {i j} hi hj hsame => ?_, fun r hupdating => ?_⟩
  · rw [(hstages i).1, (hstages j).1] at hsame
    exact h.single ((hstages i).2 hi) ((hstages j).2 hj) hsame
  · obtain ⟨j, hj⟩ := h.pending r hupdating
    refine ⟨j, ?_⟩
    by_cases heq : j = k
    · subst heq
      obtain ⟨hcounted, hsuspended⟩ := hkept r hupdating hj
      refine hj.of_eq (hstages j).1 ?_ hsuspended
      rw [runs_setRun]
      exact hcounted
    · refine hj.of_eq (hstages j).1 ?_ ?_
      · rw [runs_setRun_of_ne s run heq]
        exact hj.counted
      · unfold suspended
        rw [runs_setRun_of_ne s run heq]
        rfl

/-- A step of a thread that counts before and after it, in which its program has no part. -/
theorem Alone.thread (h : Alone s) (hid : run.processId = (s.runs k).processId)
    (hcounted : (s.runs k).stage.counted = true) (hcounted' : run.stage.counted = true)
    (hflag : run.suspended = (s.runs k).suspended) (hinner : run.inner = (s.runs k).inner) :
    Alone (s.setRun k run) :=
  h.setRun hid (fun _ => RunStage.live_of_counted hcounted) fun _ _ _ =>
    ⟨hcounted', suspended_setRun hflag hinner k⟩

/-- A program ends that is not suspended. -/
theorem Alone.exit (h : Alone s) {process : OsProcess} (hprocess : s.os pid = some process)
    (hgood : s.Unsuspended process) : Alone (s.setOs pid (some { process with ended := true })) := by
  refine h.setOs fun _ k _ => ?_
  have hnew : some { process with ended := true } ≠ some (⟨some k, false⟩ : OsProcess) := by
    intro hsame
    exact absurd (congrArg OsProcess.ended (Option.some.inj hsame)) nofun
  cases hsuspended : s.suspended k with
  | false =>
      rw [← Bool.not_eq_true] at hsuspended ⊢
      exact fun hafter => hsuspended (suspended_of_setOs hnew hafter)
  | true =>
      rw [suspended_setOs ?_ hnew, hsuspended]
      intro hsame
      obtain rfl := Option.some.inj (hprocess.symm.trans hsame)
      rw [hgood k rfl] at hsuspended
      cases hsuspended

/-- `suspend` or `resume` changes the program of the one run of its process. -/
theorem Alone.signal (h : Alone s) (hprograms : Programs s) {r : ℕ} {request : Request}
    {process : OsProcess} (flag : Bool) (hprocess : s.os pid = some process)
    (hended : process.ended = false) (hrun : process.run = some k)
    (hown : (s.runs k).processId = request.processId)
    (hname : flag = true ↔ request.name = .suspend)
    (hothers : ∀ other, (s.requests other).processId = request.processId →
      (s.requests other).updating = true → (s.requests other).name = request.name) :
    Alone ((s.setRun k { s.runs k with suspended := flag }).setRequest r request) := by
  have hcounted : (s.runs k).stage.counted = true :=
    RunStage.counted_of_looping (hprograms.looping hprocess hrun)
  have hsuspended : (s.setRun k { s.runs k with suspended := flag }).suspended k = flag := by
    obtain ⟨_, ended⟩ := process
    cases hended
    cases hrun
    have hlive : (s.runs k).inner.bind s.os = some ⟨some k, false⟩ := by
      rw [hprograms.programs pid _ hprocess k rfl, Option.bind_some, hprocess]
    unfold suspended
    rw [runs_setRun]
    exact (congrArg (flag && ·) (decide_eq_true hlive)).trans (Bool.and_true flag)
  have hconcerns : ∀ other : Request, other.processId = request.processId →
      other.name = request.name →
      (s.setRun k { s.runs k with suspended := flag }).Concerns other k := by
    intro other hid hsame
    refine ⟨?_, ?_, ?_⟩
    · rw [runs_setRun, hid]
      exact hown
    · rw [runs_setRun]
      exact hcounted
    · rw [hsuspended, hname, hsame]
  have hstages : ∀ j, ((s.setRun k { s.runs k with suspended := flag }).runs j).processId =
      (s.runs j).processId ∧ ((s.setRun k { s.runs k with suspended := flag }).runs j).stage =
        (s.runs j).stage := by
    intro j
    by_cases heq : j = k
    · rw [heq, runs_setRun]
      exact ⟨rfl, rfl⟩
    · rw [runs_setRun_of_ne s _ heq]
      exact ⟨rfl, rfl⟩
  have hset : Alone (s.setRun k { s.runs k with suspended := flag }) := by
    refine ⟨fun {i j} hi hj hsame => ?_, fun other hupdating => ?_⟩
    · rw [(hstages i).2] at hi
      rw [(hstages j).2] at hj
      rw [(hstages i).1, (hstages j).1] at hsame
      exact h.single hi hj hsame
    · by_cases hid : (s.requests other).processId = request.processId
      · exact ⟨k, hconcerns _ hid (hothers other hid hupdating)⟩
      · -- a request of another process, with another run
        obtain ⟨j, hj⟩ := h.pending other hupdating
        have hne : j ≠ k := by
          rintro rfl
          exact hid (hj.processId.symm.trans hown)
        refine ⟨j, hj.of_eq (hstages j).1 ?_ ?_⟩
        · rw [(hstages j).2]
          exact hj.counted
        · unfold suspended
          rw [runs_setRun_of_ne s _ hne]
          rfl
  exact hset.setRequest fun _ => ⟨k, hconcerns request rfl rfl⟩

/-- A signal of `suspend`, `resume` or `stop`. -/
theorem Alone.send (h : Alone s) (hnumbered : Numbered s) (hprograms : Programs s) {r : ℕ}
    (hsignals : (s.requests r).name.signals = true) {process : OsProcess}
    (hprocess : s.os pid = some process) (hgood : s.OrderlySignal (s.requests r) process) :
    Alone ((s.send (s.requests r).name pid process).setRequest r
      { s.requests r with stage := .signalled }) := by
  have hothers : ∀ name other : ActionName, s.NoneOf other (s.requests r).processId →
      (∀ updating : ActionName, updating = .suspend ∨ updating = .resume → updating ≠ other →
        updating = name) →
      ∀ r', (s.requests r').processId = (s.requests r).processId →
        (s.requests r').updating = true → (s.requests r').name = name := by
    intro name other hnone hname r' hid hupdating
    have hstages := Request.stage_of_updating hupdating
    have hlt := hnumbered.requests r' (by rcases hstages with h | h <;> rw [h] <;> nofun)
    exact hname _ (Request.name_of_updating hupdating) (hnone r' hlt hid hupdating)
  cases hname : (s.requests r).name with
  | start => rw [hname] at hsignals; cases hsignals
  | reset => rw [hname] at hsignals; cases hsignals
  | stop =>
      simp only [OrderlySignal, hname] at hgood
      have hended : Alone (s.send .stop pid process) := h.exit hprocess hgood
      exact hended.settle r (by simp [Request.updating, hname])
  | suspend =>
      simp only [OrderlySignal, hname] at hgood
      obtain ⟨⟨hended, k, hrun, hown⟩, hnone⟩ := hgood
      have hsend : s.send .suspend pid process =
          s.setRun k { s.runs k with suspended := true } := by
        simp [ProcessState.send, Option.mem_def.mp hrun]
      rw [hsend]
      refine h.signal hprograms true hprocess hended hrun hown (by simp [hname]) ?_
      show ∀ other, _ → _ → (s.requests other).name = (s.requests r).name
      rw [hname]
      exact hothers .suspend .resume hnone fun updating hupdating hne =>
        hupdating.resolve_right hne
  | resume =>
      simp only [OrderlySignal, hname] at hgood
      obtain ⟨⟨hended, k, hrun, hown⟩, hnone⟩ := hgood
      have hsend : s.send .resume pid process =
          s.setRun k { s.runs k with suspended := false } := by
        simp [ProcessState.send, Option.mem_def.mp hrun]
      rw [hsend]
      refine h.signal hprograms false hprocess hended hrun hown (by simp [hname]) ?_
      show ∀ other, _ → _ → (s.requests other).name = (s.requests r).name
      rw [hname]
      exact hothers .resume .suspend hnone fun updating hupdating hne =>
        hupdating.resolve_left hne

/-- A new run of a process that has none. -/
theorem Alone.startThread (h : Alone s) (hnumbered : Numbered s) {processId : String}
    (habsent : (s.runs k).stage = .absent) (hid : run.processId = processId)
    (hidle : s.Idle processId) : Alone (s.setRun k run) := by
  have hother : ∀ j ≠ k, (s.runs j).stage.live = true → (s.runs j).processId ≠ processId := by
    intro j _ hlive hsame
    have hlt := hnumbered.run_lt (RunStage.ne_absent_of_live hlive)
    rw [hidle j hlt hsame] at hlive
    cases hlive
  refine ⟨fun {i j} hi hj hsame => ?_, fun r hupdating => ?_⟩
  · by_cases hik : i = k <;> by_cases hjk : j = k
    · exact hik.trans hjk.symm
    · rw [hik, runs_setRun, runs_setRun_of_ne s run hjk, hid] at hsame
      rw [runs_setRun_of_ne s run hjk] at hj
      exact absurd hsame.symm (hother j hjk hj)
    · rw [hjk, runs_setRun, runs_setRun_of_ne s run hik, hid] at hsame
      rw [runs_setRun_of_ne s run hik] at hi
      exact absurd hsame (hother i hik hi)
    · rw [runs_setRun_of_ne s run hik] at hi hsame
      rw [runs_setRun_of_ne s run hjk] at hj hsame
      exact h.single hi hj hsame
  · obtain ⟨j, hj⟩ := h.pending r hupdating
    have hne : j ≠ k := by
      rintro rfl
      have hcounted := hj.counted
      rw [habsent] at hcounted
      cases hcounted
    refine ⟨j, hj.of_eq ?_ ?_ ?_⟩
    · rw [runs_setRun_of_ne s run hne]
    · rw [runs_setRun_of_ne s run hne]
      exact hj.counted
    · unfold suspended
      rw [runs_setRun_of_ne s run hne]
      rfl

/-- A locked update of a thread. -/
theorem Alone.writeRun (h : Alone s) (hnumbered : Numbered s) (hprograms : Programs s)
    (hgood : (s.runs k).stage = .ended → s.NoneOf .resume (s.runs k).processId) {write : Write}
    (hwrite : (s.runs k).write = some (run, write)) :
    Alone ((s.apply run.processId write).setRun k run) := by
  obtain ⟨hpresent, hid⟩ := Run.stage_write hwrite
  obtain ⟨hinner, hflag, -⟩ := Run.write_inner hwrite
  have hlive : (s.runs k).stage.live = true := by
    unfold Run.write at hwrite
    split at hwrite <;> first
      | (rename_i hstage; rw [hstage]; rfl)
      | cases hwrite
  have happly : Alone (s.apply run.processId write) := ⟨h.single, fun r hupdating =>
    (h.pending r hupdating).imp fun _ hj => ⟨hj.processId, hj.counted, hj.suspended⟩⟩
  refine happly.setRun hid (fun _ => hlive) fun r hupdating hconcerns =>
    ⟨?_, suspended_setRun hflag hinner k⟩
  have hcounted : (s.runs k).stage.counted = true := hconcerns.counted
  rcases Run.write_running hwrite with ⟨-, hsame, -⟩ | ⟨hstage, -⟩ | ⟨hstage, -⟩ | ⟨hstage, -⟩
  · exact hsame.trans hcounted
  · rw [hstage] at hcounted
    cases hcounted
  · -- no `resume` is on its way, and after a `suspend` the program has not ended
    have hstages := Request.stage_of_updating hupdating
    have hlt := hnumbered.requests r (by
      rcases hstages with h | h <;> rw [show (s.requests r).stage = _ from h] <;> nofun)
    have hnot := hgood hstage r hlt hconcerns.processId.symm hupdating
    have hname : (s.requests r).name = .suspend :=
      (Request.name_of_updating hupdating).resolve_right hnot
    have hlooping := looping_of_suspended hprograms (hconcerns.suspended.mpr hname)
    rw [hstage] at hlooping
    cases hlooping
  · rw [hstage] at hcounted
    cases hcounted

/-- `Popen` returns, for a thread that has had no program. -/
theorem Alone.launch (h : Alone s) (hlisted : Listed s)
    (hstage : (s.runs k).stage = .listed) (hfree : s.os pid = none) :
    Alone ((s.setOs pid (some ⟨some k, false⟩)).setRun k
      { s.runs k with stage := .launched, pid := some pid, inner := some pid }) := by
  have hflag : (s.runs k).suspended = false := hlisted.fresh k (by rw [hstage]; rfl)
  have hos : Alone (s.setOs pid (some ⟨some k, false⟩)) := by
    refine h.setOs fun _ j _ => ?_
    by_cases heq : j = k
    · subst heq
      show ((s.runs j).suspended && _) = ((s.runs j).suspended && _)
      rw [hflag]
      rfl
    · refine suspended_setOs (by rw [hfree]; nofun) fun hsame => ?_
      cases hsame
      exact heq rfl
  refine hos.setRun rfl (fun _ => ?_) fun r _ _ => ⟨rfl, ?_⟩
  · show (s.runs k).stage.live = true
    rw [hstage]
    rfl
  · unfold suspended
    rw [runs_setRun]
    show ((s.runs k).suspended && _) = ((s.runs k).suspended && _)
    rw [hflag]
    rfl

/-- `poll` waits for a program that has ended. -/
theorem Alone.poll (h : Alone s) (hinner : (s.runs k).inner = some pid)
    (hstage : (s.runs k).stage = .reading) (hended : (s.os pid).any OsProcess.ended = true)
    (returnCode : ℤ) : Alone ((s.setOs pid none).setRun k
      { s.runs k with inner := none, returnCode := returnCode }) := by
  have hnot : ∀ j, s.os pid ≠ some ⟨some j, false⟩ := by
    intro j hlive
    rw [hlive] at hended
    cases hended
  have hos : Alone (s.setOs pid none) :=
    h.setOs fun _ j _ => suspended_setOs (hnot j) nofun
  refine hos.setRun rfl (fun _ => ?_) fun r _ _ => ⟨?_, ?_⟩
  · show (s.runs k).stage.live = true
    rw [hstage]
    rfl
  · show (s.runs k).stage.counted = true
    rw [hstage]
    rfl
  · have hgone : (s.runs k).inner.bind (s.setOs pid none).os = none := by
      rw [hinner]
      exact os_setOs s pid none
    unfold suspended
    rw [runs_setRun]
    show (_ && decide (none = _)) = (_ && decide ((s.runs k).inner.bind (s.setOs pid none).os = _))
    simp only [hgone]
    rfl

/-- **Step lemma.** -/
theorem Alone.step {a : ProcessStep} (h : Alone s) (hnumbered : Numbered s) (hprograms : Programs s)
    (hlisted : Listed s) (hgood : Orderly s a) (hstep : s.step a = some t) : Alone t := by
  cases a with
  | post processId =>
      obtain ⟨-, rfl⟩ := step_post hstep
      exact ⟨h.single, fun r hupdating =>
        (h.pending r hupdating).imp fun _ hk => ⟨hk.processId, hk.counted, hk.suspended⟩⟩
  | request processId name =>
      obtain ⟨record, -, rfl⟩ := Option.map_eq_some_iff.mp hstep
      have hset : Alone (s.setRequest s.count ⟨processId, name, .chosen, record.pid⟩) :=
        h.settle _ (by simp [Request.updating])
      exact ⟨hset.single, fun r hupdating =>
        (hset.pending r hupdating).imp fun _ hk => ⟨hk.processId, hk.counted, hk.suspended⟩⟩
  | startThread r =>
      obtain ⟨hguard, rfl⟩ := step_startThread hstep
      have hset : Alone (s.setRequest r { s.requests r with stage := .finished }) :=
        h.settle _ (by simp [Request.updating])
      have hnumbered' : Numbered (s.setRequest r { s.requests r with stage := .finished }) :=
        hnumbered.setRequest _ (by simp [hguard.2]) fun _ => rfl
      -- the thread is new
      have habsent : (s.runs r).stage = .absent := by
        by_contra hpresent
        rw [hnumbered.runs r hpresent] at hguard
        cases hguard.2
      exact hset.startThread hnumbered' habsent rfl hgood
  | signal r =>
      obtain ⟨hguard, hsignal⟩ := step_signal hstep
      rcases hsignal with rfl | ⟨pid, process, hpid, hprocess, rfl⟩
      · exact h.settle _ (by simp [Request.updating])
      · exact h.send hnumbered hprograms hguard.1 hprocess
          (hgood process (Option.bind_eq_some_iff.mpr ⟨pid, hpid, hprocess⟩))
  | writeRequest r =>
      obtain ⟨⟨request, write⟩, hwrite, rfl⟩ := Option.map_eq_some_iff.mp hstep
      have happly : Alone (s.apply request.processId write) := ⟨h.single, fun r hupdating =>
        (h.pending r hupdating).imp fun _ hk => ⟨hk.processId, hk.counted, hk.suspended⟩⟩
      refine happly.setRequest fun hupdating => ?_
      rcases Request.write_running hwrite with ⟨hsame, -⟩ | ⟨-, hrequest, -⟩
      · obtain ⟨k, hk⟩ := h.pending r (hsame.symm.trans hupdating)
        refine ⟨k, hk.processId.trans (Request.stage_write hwrite).2.2.symm, hk.counted, ?_⟩
        rw [Request.name_write hwrite]
        exact hk.suspended
      · rw [hrequest] at hupdating
        simp [Request.updating] at hupdating
  | writeRun k =>
      obtain ⟨⟨run, write⟩, hwrite, rfl⟩ := Option.map_eq_some_iff.mp hstep
      exact h.writeRun hnumbered hprograms hgood hwrite
  | launch k pid =>
      obtain ⟨hguard, rfl⟩ := step_launch hstep
      exact h.launch hlisted hguard.1 hguard.2
  | launchFails k message =>
      obtain ⟨hguard, rfl⟩ := step_launchFails hstep
      exact h.thread rfl (by rw [hguard]; rfl) rfl rfl rfl
  | readLine k progress errors =>
      obtain ⟨hguard, rfl⟩ := step_readLine hstep
      exact h.thread rfl (by rw [hguard]; rfl) rfl rfl rfl
  | poll k returnCode =>
      obtain ⟨pid, hinner, hguard, rfl⟩ := step_poll hstep
      exact h.poll hinner hguard.1 hguard.2 returnCode
  | endLoop k =>
      obtain ⟨hguard, rfl⟩ := step_endLoop hstep
      exact h.thread rfl (by rw [hguard.1]; rfl) rfl rfl rfl
  | exit pid =>
      obtain ⟨process, hprocess, rfl⟩ := Option.map_eq_some_iff.mp hstep
      exact h.exit hprocess (hgood process hprocess)
  | spawn pid =>
      obtain ⟨hfree, rfl⟩ := step_spawn hstep
      exact h.setOs fun _ k _ => suspended_setOs (by simp [hfree]) (by simp)
  | vanish pid =>
      obtain ⟨_, hprocess, rfl⟩ := step_vanish hstep
      exact h.setOs fun _ k _ => suspended_setOs (by simp [hprocess]) (by simp)

theorem alone_initial : Alone initial := ⟨nofun, nofun⟩

/-! ## What orderly actions tell of the list -/

theorem Counts.live {processId : String} (h : s.Counts processId k) :
    (s.runs k).stage.live = true :=
  RunStage.live_of_counted h.2.1

/-- The last update of a request is true of the one run of its process. -/
theorem Alone.truthfulRequest (h : Alone s) (hnumbered : Numbered s) {r : ℕ}
    (hwrite : (s.requests r).write.isSome = true) : s.TruthfulRequest r := by
  intro hmerged
  have hname : (s.requests r).updating = true := by
    unfold Request.write at hwrite
    unfold Request.updating
    rw [hmerged] at hwrite ⊢
    cases hname : (s.requests r).name <;> simp [hname] at hwrite ⊢
  obtain ⟨k, hk⟩ := h.pending r hname
  refine .inr ?_
  rw [hnumbered.running_iff]
  cases hsuspended : s.suspended k with
  | true =>
      -- the one run of the process does not count
      have hsuspend := hk.suspended.mp hsuspended
      refine iff_of_false (by rw [hsuspend]; nofun) fun ⟨j, hj⟩ => ?_
      obtain rfl := h.single hj.live (RunStage.live_of_counted hk.counted)
        (hj.1.trans hk.processId.symm)
      rw [hj.2.2] at hsuspended
      cases hsuspended
  | false =>
      have hresume : (s.requests r).name = .resume := by
        refine (Request.name_of_updating hname).resolve_left fun hsuspend => ?_
        rw [hk.suspended.mpr hsuspend] at hsuspended
        cases hsuspended
      exact iff_of_true hresume ⟨k, hk.processId, hk.counted, hsuspended⟩

/-- When the thread removes its process, no other run of it is there. -/
theorem Alone.truthfulRun (h : Alone s) (hnumbered : Numbered s) (k : ℕ) : s.TruthfulRun k := by
  intro hfinalized
  refine .inr ?_
  rw [hnumbered.running_iff]
  rintro ⟨j, hj⟩
  have hcounted := hj.2.1
  obtain rfl : j = k := h.single hj.live (by rw [hfinalized]; rfl) hj.1
  rw [hfinalized] at hcounted
  cases hcounted

theorem Unsuspended.mayEnd {process : OsProcess} (h : s.Unsuspended process) : s.MayEnd process := by
  intro k hrun hsuspended
  rw [h k hrun] at hsuspended
  cases hsuspended

theorem OrderlySignal.truthful {request : Request} {process : OsProcess}
    (h : s.OrderlySignal request process) :
    if request.name = .stop then s.MayEnd process
      else request.name.signals = true →
        ∀ k ∈ process.run, (s.runs k).processId = request.processId := by
  have hown : s.IsProgramOf process request.processId →
      ∀ k ∈ process.run, (s.runs k).processId = request.processId := by
    rintro ⟨-, j, hj, hid⟩ k hk
    obtain rfl := Option.some.inj (hj.symm.trans hk)
    exact hid
  unfold OrderlySignal at h
  cases hname : request.name with
  | suspend => rw [hname] at h; exact fun _ => hown h.1
  | resume => rw [hname] at h; exact fun _ => hown h.1
  | stop => rw [hname] at h; exact h.mayEnd
  | start => exact nofun
  | reset => exact nofun

/-- Orderly actions tell the truth. -/
theorem truthful_of_orderly {a : ProcessStep} (h : Alone s) (hnumbered : Numbered s)
    (hgood : Orderly s a) (hstep : s.step a = some t) : Truthful s a := by
  cases a with
  | writeRequest r =>
      obtain ⟨result, hwrite, -⟩ := Option.map_eq_some_iff.mp hstep
      exact h.truthfulRequest hnumbered (by rw [hwrite]; rfl)
  | writeRun k => exact h.truthfulRun hnumbered k
  | signal r =>
      intro process hprocess
      have htruthful := OrderlySignal.truthful (hgood process hprocess)
      split at htruthful
      · rwa [if_pos (by assumption)]
      · rw [if_neg (by assumption)]
        exact htruthful (step_signal hstep).1.1
  | exit pid => exact fun process hprocess => (hgood process hprocess).mayEnd
  | _ => trivial

end Alone

/-- **The running list is accurate.**  In every run of orderly actions a quiescent process is in the
list if and only if a thread of it is active whose program is not suspended. -/
theorem running_list_accurate {s : ProcessState}
    (h : Reachable (restrict Orderly step) initial s) {processId : String}
    (hquiescent : s.Quiescent processId) :
    processId ∈ s.running ↔ ∃ k < s.count, (s.runs k).processId = processId ∧
      (s.runs k).stage.active = true ∧ s.suspended k = false := by
  obtain ⟨hnumbered, -, hlisted, -⟩ : Numbered s ∧ Programs s ∧ Listed s ∧ Alone s :=
    h.invariant (P := fun s => Numbered s ∧ Programs s ∧ Listed s ∧ Alone s)
      ⟨numbered_initial, programs_initial, listed_initial, alone_initial⟩
      fun s a t _ ⟨hnumbered, hprograms, hlisted, halone⟩ hstep => by
        obtain ⟨hgood, hstep⟩ := restrict_eq_some.mp hstep
        have htruthful := truthful_of_orderly halone hnumbered hgood hstep
        exact ⟨hnumbered.step hstep, hprograms.step hnumbered hstep,
          hlisted.step hnumbered hprograms htruthful hstep,
          halone.step hnumbered hprograms hlisted hgood hstep⟩
  exact hlisted.mem_running_iff hnumbered hquiescent

/-- A run that is suspended, continued and comes to its end; its process is started again. -/
def startedAgain : List ProcessStep :=
  [.post "p", .request "p" .start, .startThread 0, .writeRun 0, .writeRun 0, .launch 0 7,
    .writeRun 0, .request "p" .suspend, .signal 1, .writeRequest 1, .writeRequest 1,
    .request "p" .resume, .signal 2, .writeRequest 2, .writeRequest 2, .exit 7, .poll 0 0,
    .endLoop 0, .writeRun 0, .writeRun 0, .request "p" .start, .startThread 3, .writeRun 3,
    .writeRun 3, .launch 3 8, .writeRun 3]

theorem running_list_accurate_started_again :
    ∃ s, Reachable (restrict Orderly step) initial s ∧ s.running = ["p"] ∧
      ("p" ∈ s.running ↔ ∃ k < s.count, (s.runs k).processId = "p" ∧
        (s.runs k).stage.active = true ∧ s.suspended k = false) := by
  obtain ⟨s, hreach, hend⟩ := Reachable.exists_of_run
    (show (run (restrict Orderly step) initial startedAgain).any (fun s => decide (
        s.running = ["p"] ∧ s.Quiescent "p")) = true by decide +kernel)
  obtain ⟨hrunning, hquiescent⟩ := of_decide_eq_true hend
  exact ⟨s, hreach, hrunning, running_list_accurate hreach hquiescent⟩

/-- Two starts of a process: its first program ends while the second one runs. -/
def twoStarts : List ProcessStep :=
  [.post "p", .request "p" .start, .startThread 0, .writeRun 0, .writeRun 0, .launch 0 7,
    .writeRun 0, .request "p" .start, .startThread 1, .writeRun 1, .writeRun 1, .launch 1 8,
    .writeRun 1, .exit 7, .poll 0 0, .endLoop 0, .writeRun 0, .writeRun 0]

/-- The end of the first run removes the process, whose second run is active. -/
theorem not_accurate_after_first_end :
    ∃ s, Reachable step initial s ∧ s.Quiescent "p" ∧ "p" ∉ s.running ∧
      (s.runs 1).processId = "p" ∧ (s.runs 1).stage = .reading ∧ s.suspended 1 = false := by
  obtain ⟨s, hreach, hend⟩ := Reachable.exists_of_run
    (show (run step initial twoStarts).any (fun s => decide (
        s.Quiescent "p" ∧ "p" ∉ s.running ∧ (s.runs 1).processId = "p" ∧
          (s.runs 1).stage = .reading ∧ s.suspended 1 = false)) = true by decide +kernel)
  exact ⟨s, hreach, of_decide_eq_true hend⟩

end ProcessState

end ComputeWebApp.Api
