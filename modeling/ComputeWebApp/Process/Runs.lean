import ComputeWebApp.Process.LockedJson
import Mathlib.Data.Int.Notation

/-!
# Actions and runs of processes

The action requests `start`, `suspend`, `resume`, `stop` and `reset` of `process_action.post`, the
`run_process` threads that `start` creates, and the programs that the threads launch.  The record
of a process and the list of the running processes are locked JSON files, and each update of one
of them is one step here (`LockedJson.linearizable`); everything else that a request, a thread or
the operating system does is a step too, so that requests and threads interleave in every way.

A request reads the record of its process once.  A thread has the record that its request has
read, changes this copy and writes it back (`update_process`), or merges its status into the
stored one (`update_process_status`).  Of a record the status and the pid are followed.

An exception that nothing catches (of `parse_log`, or of an update of a file) has no step of its
own: a thread that it ends is one that takes no further step, and counts as active for ever.
-/

namespace ComputeWebApp.Api

/-! ## Records -/

/-- `process['status']`; `suspended` is a key of it after the first suspend or resume. -/
structure Status where
  running : Bool
  done : Bool
  progress : ℕ
  errors : List String
  suspended : Option Bool := none
  deriving DecidableEq, Repr

/-- The status of `process.post`. -/
def Status.posted : Status := ⟨false, false, 0, [], none⟩

/-- The status with which `run_process` begins. -/
def Status.begun : Status := ⟨true, false, 0, [], none⟩

/-- `dict.update` with the status of a thread. -/
def Status.update (status new : Status) : Status :=
  { new with suspended := new.suspended.orElse fun _ => status.suspended }

/-- A stored process: `pid` is the entry of its private section. -/
structure Record where
  status : Status
  pid : Option ℕ
  deriving DecidableEq, Repr

/-- One locked update of the record and one of the list of running processes. -/
structure Write where
  record : Record → Record := fun record => record
  running : List String → List String := fun processIds => processIds

/-- `update_process_status` with some entries. -/
def mergeStatus (change : Status → Status) : Write where
  record := fun record => { record with status := change record.status }

/-! ## Threads -/

/-- Where `run_process` is: before its first `update_process`, before `add_running_process`, before
`Popen`, before the `update_process` with the pid, before it reads a line, before it merges the
status, after its loop, before `remove_running_process`, and at its end. -/
inductive RunStage
  | absent
  | begun
  | started
  | listed
  | launched
  | reading
  | parsed
  | ended
  | finalized
  | finished
  deriving DecidableEq, Repr

/-- A thread: its copy of the status and of the pid, and `inner_process` until `poll` has returned
its return code.  `suspended` tells whether the last signal that stops or continues the program
has stopped it. -/
structure Run where
  processId : String
  stage : RunStage := .absent
  status : Status := .posted
  pid : Option ℕ := none
  inner : Option ℕ := none
  returnCode : ℤ := -1
  suspended : Bool := false
  deriving DecidableEq, Repr

/-- `parse_log`, with what the two expressions have found in the line. -/
def parseLog (status : Status) (progress : Option ℕ) (errors : List String) : Status :=
  { status with progress := progress.getD status.progress, errors := status.errors ++ errors }

namespace Run

/-- `process['status']` at the end of `run_process`. -/
def finalStatus (run : Run) : Status :=
  let errors :=
    if run.returnCode ≠ 0 then run.status.errors ++ ["Bad return code : " ++ toString run.returnCode]
    else run.status.errors
  { run.status with running := false, done := decide (errors.length = 0), errors := errors }

/-- The next step of the thread, when it is a locked update. -/
def write (run : Run) : Option (Run × Write) :=
  match run.stage with
  | .begun =>
      some ({ run with stage := .started, status := .begun },
        { record := fun _ => ⟨.begun, run.pid⟩ })
  | .started =>
      some ({ run with stage := .listed }, { running := addRunning run.processId })
  | .launched =>
      some ({ run with stage := .reading }, { record := fun _ => ⟨run.status, run.pid⟩ })
  | .parsed =>
      some ({ run with stage := .reading }, mergeStatus fun status => status.update run.status)
  | .ended =>
      some ({ run with stage := .finalized, status := run.finalStatus },
        { record := fun _ => ⟨run.finalStatus, run.pid⟩ })
  | .finalized =>
      some ({ run with stage := .finished }, { running := removeRunning run.processId })
  | _ => none

end Run

/-! ## Requests -/

inductive ActionName
  | start
  | suspend
  | resume
  | stop
  | reset
  deriving DecidableEq, Repr

/-- The action sends a signal to the program. -/
def ActionName.signals : ActionName → Bool
  | suspend => true
  | resume => true
  | stop => true
  | _ => false

/-- Where a request is: it has read the record, has sent the signal, has merged the status, or has
ended. -/
inductive RequestStage
  | absent
  | chosen
  | signalled
  | merged
  | finished
  deriving DecidableEq, Repr

/-- A request with the pid of the record that it has read. -/
structure Request where
  processId : String
  name : ActionName
  stage : RequestStage := .absent
  pid : Option ℕ := none
  deriving DecidableEq, Repr

namespace Request

/-- The next step of the request, when it is a locked update. -/
def write (request : Request) : Option (Request × Write) :=
  match request.name, request.stage with
  | .suspend, .signalled =>
      some ({ request with stage := .merged },
        mergeStatus fun status => { status with suspended := some true })
  | .suspend, .merged =>
      some ({ request with stage := .finished }, { running := removeRunning request.processId })
  | .resume, .signalled =>
      some ({ request with stage := .merged },
        mergeStatus fun status => { status with suspended := some false })
  | .resume, .merged =>
      some ({ request with stage := .finished }, { running := addRunning request.processId })
  | .stop, .signalled =>
      some ({ request with stage := .finished },
        mergeStatus fun status => { status with done := false, running := false })
  | .reset, .chosen =>
      some ({ request with stage := .finished },
        mergeStatus fun status =>
          { status with running := false, done := false, progress := 0, errors := [] })
  | _, _ => none

end Request

/-! ## The system -/

/-- A process of the operating system: the thread that has launched it, if it is a program of the
server, and whether it has ended without having been waited for. -/
structure OsProcess where
  run : Option ℕ
  ended : Bool := false
  deriving DecidableEq, Repr

/-- Requests are numbered in their order, up to `count`, and the thread of a start action has the
number of its request. -/
structure ProcessState where
  posted : List String := []
  records : String → Option Record := fun _ => none
  running : List String := []
  count : ℕ := 0
  requests : ℕ → Request := fun _ => { processId := "", name := .reset }
  runs : ℕ → Run := fun _ => { processId := "" }
  os : ℕ → Option OsProcess := fun _ => none

inductive ProcessStep
  | post (processId : String)
  | request (processId : String) (name : ActionName)
  | startThread (r : ℕ)
  | signal (r : ℕ)
  | writeRequest (r : ℕ)
  | writeRun (k : ℕ)
  | launch (k pid : ℕ)
  | launchFails (k : ℕ) (message : String)
  | readLine (k : ℕ) (progress : Option ℕ) (errors : List String)
  | poll (k : ℕ) (returnCode : ℤ)
  | endLoop (k : ℕ)
  | exit (pid : ℕ)
  | spawn (pid : ℕ)
  | vanish (pid : ℕ)
  deriving DecidableEq, Repr

namespace ProcessState

def setRequest (s : ProcessState) (r : ℕ) (request : Request) : ProcessState :=
  { s with requests := Function.update s.requests r request }

def setRun (s : ProcessState) (k : ℕ) (run : Run) : ProcessState :=
  { s with runs := Function.update s.runs k run }

def setOs (s : ProcessState) (pid : ℕ) (process : Option OsProcess) : ProcessState :=
  { s with os := Function.update s.os pid process }

def apply (s : ProcessState) (processId : String) (write : Write) : ProcessState :=
  { s with
    records := Function.update s.records processId ((s.records processId).map write.record)
    running := write.running s.running }

/-- `ps_process.suspend`, `resume` or `kill`, for a pid that exists. -/
def send (s : ProcessState) (name : ActionName) (pid : ℕ) (process : OsProcess) : ProcessState :=
  match name, process.run with
  | .suspend, some k => s.setRun k { s.runs k with suspended := true }
  | .resume, some k => s.setRun k { s.runs k with suspended := false }
  | .stop, _ => s.setOs pid (some { process with ended := true })
  | _, _ => s

def step (s : ProcessState) : ProcessStep → Option ProcessState
  | .post processId =>
      -- the id is drawn at random, and is new
      if (s.records processId).isNone then
        some { s with
          posted := processId :: s.posted
          records := Function.update s.records processId (some ⟨.posted, none⟩) }
      else none
  | .request processId name =>
      (s.records processId).map fun record =>
        { s.setRequest s.count ⟨processId, name, .chosen, record.pid⟩ with count := s.count + 1 }
  | .startThread r =>
      let request := s.requests r
      if request.name = .start ∧ request.stage = .chosen then
        some ((s.setRequest r { request with stage := .finished }).setRun r
          { processId := request.processId, stage := .begun, pid := request.pid })
      else none
  | .signal r =>
      let request := s.requests r
      if request.name.signals = true ∧ request.stage = .chosen then
        match request.pid with
        | none => some (s.setRequest r { request with stage := .finished })
        | some pid =>
            match s.os pid with
            -- `psutil.NoSuchProcess`
            | none => some (s.setRequest r { request with stage := .finished })
            | some process =>
                some ((s.send request.name pid process).setRequest r
                  { request with stage := .signalled })
      else none
  | .writeRequest r =>
      (s.requests r).write.map fun (request, write) =>
        (s.apply request.processId write).setRequest r request
  | .writeRun k =>
      (s.runs k).write.map fun (run, write) => (s.apply run.processId write).setRun k run
  | .launch k pid =>
      let run := s.runs k
      if run.stage = .listed ∧ s.os pid = none then
        some ((s.setOs pid (some ⟨some k, false⟩)).setRun k
          { run with stage := .launched, pid := some pid, inner := some pid })
      else none
  | .launchFails k message =>
      let run := s.runs k
      if run.stage = .listed then
        some (s.setRun k { run with
          stage := .ended
          status := { run.status with
            errors := run.status.errors ++ ["FileNotFoundError : " ++ message] } })
      else none
  | .readLine k progress errors =>
      let run := s.runs k
      if run.stage = .reading then
        some (s.setRun k { run with
          stage := .parsed, status := parseLog run.status progress errors })
      else none
  | .poll k returnCode =>
      let run := s.runs k
      match run.inner with
      | none => none
      | some pid =>
          if run.stage = .reading ∧ (s.os pid).any OsProcess.ended = true then
            some ((s.setOs pid none).setRun k
              { run with inner := none, returnCode := returnCode })
          else none
  | .endLoop k =>
      let run := s.runs k
      if run.stage = .reading ∧ run.inner = none then
        some (s.setRun k { run with stage := .ended })
      else none
  | .exit pid => (s.os pid).map fun process => s.setOs pid (some { process with ended := true })
  | .spawn pid => if s.os pid = none then some (s.setOs pid (some ⟨none, false⟩)) else none
  | .vanish pid =>
      match s.os pid with
      | some ⟨none, _⟩ => some (s.setOs pid none)
      | _ => none

/-- The server has started. -/
def initial : ProcessState := {}

/-! ## What a step leaves -/

section Frames

variable (s : ProcessState)

@[simp] theorem runs_setRun (k : ℕ) (run : Run) : (s.setRun k run).runs k = run :=
  Function.update_self ..

theorem runs_setRun_of_ne {k other : ℕ} (run : Run) (h : other ≠ k) :
    (s.setRun k run).runs other = s.runs other :=
  Function.update_of_ne h _ _

@[simp] theorem requests_setRequest (r : ℕ) (request : Request) :
    (s.setRequest r request).requests r = request :=
  Function.update_self ..

theorem requests_setRequest_of_ne {r other : ℕ} (request : Request) (h : other ≠ r) :
    (s.setRequest r request).requests other = s.requests other :=
  Function.update_of_ne h _ _

@[simp] theorem os_setOs (pid : ℕ) (process : Option OsProcess) :
    (s.setOs pid process).os pid = process :=
  Function.update_self ..

theorem os_setOs_of_ne {pid other : ℕ} (process : Option OsProcess) (h : other ≠ pid) :
    (s.setOs pid process).os other = s.os other :=
  Function.update_of_ne h _ _

@[simp] theorem records_apply (processId : String) (write : Write) :
    (s.apply processId write).records processId = (s.records processId).map write.record :=
  Function.update_self ..

theorem records_apply_of_ne {processId other : String} (write : Write) (h : other ≠ processId) :
    (s.apply processId write).records other = s.records other :=
  Function.update_of_ne h _ _

end Frames

/-! ## What a step does -/

section Inversion

variable {s t : ProcessState}

theorem step_post {processId : String} (h : s.step (.post processId) = some t) :
    (s.records processId).isNone = true ∧ t = { s with
      posted := processId :: s.posted
      records := Function.update s.records processId (some ⟨.posted, none⟩) } := by
  simp only [step] at h
  split at h
  · rename_i hguard
    exact ⟨hguard, (Option.some.inj h).symm⟩
  · cases h

theorem step_startThread {r : ℕ} (h : s.step (.startThread r) = some t) :
    ((s.requests r).name = .start ∧ (s.requests r).stage = .chosen) ∧
      t = (s.setRequest r { s.requests r with stage := .finished }).setRun r
        { processId := (s.requests r).processId, stage := .begun, pid := (s.requests r).pid } := by
  simp only [step] at h
  split at h
  · rename_i hguard
    exact ⟨hguard, (Option.some.inj h).symm⟩
  · cases h

/-- A signal goes to a process that exists, or to none. -/
theorem step_signal {r : ℕ} (h : s.step (.signal r) = some t) :
    ((s.requests r).name.signals = true ∧ (s.requests r).stage = .chosen) ∧
      (t = s.setRequest r { s.requests r with stage := .finished } ∨
        ∃ pid process, (s.requests r).pid = some pid ∧ s.os pid = some process ∧
          t = (s.send (s.requests r).name pid process).setRequest r
            { s.requests r with stage := .signalled }) := by
  simp only [step] at h
  split at h
  · rename_i hguard
    refine ⟨hguard, ?_⟩
    split at h
    · exact .inl (Option.some.inj h).symm
    · rename_i pid hpid
      split at h
      · exact .inl (Option.some.inj h).symm
      · rename_i process hprocess
        exact .inr ⟨pid, process, hpid, hprocess, (Option.some.inj h).symm⟩
  · cases h

theorem step_launch {k pid : ℕ} (h : s.step (.launch k pid) = some t) :
    ((s.runs k).stage = .listed ∧ s.os pid = none) ∧
      t = (s.setOs pid (some ⟨some k, false⟩)).setRun k
        { s.runs k with stage := .launched, pid := some pid, inner := some pid } := by
  simp only [step] at h
  split at h
  · rename_i hguard
    exact ⟨hguard, (Option.some.inj h).symm⟩
  · cases h

theorem step_launchFails {k : ℕ} {message : String}
    (h : s.step (.launchFails k message) = some t) :
    (s.runs k).stage = .listed ∧ t = s.setRun k { s.runs k with
      stage := .ended
      status := { (s.runs k).status with
        errors := (s.runs k).status.errors ++ ["FileNotFoundError : " ++ message] } } := by
  simp only [step] at h
  split at h
  · rename_i hguard
    exact ⟨hguard, (Option.some.inj h).symm⟩
  · cases h

theorem step_readLine {k : ℕ} {progress : Option ℕ} {errors : List String}
    (h : s.step (.readLine k progress errors) = some t) :
    (s.runs k).stage = .reading ∧ t = s.setRun k { s.runs k with
      stage := .parsed, status := parseLog (s.runs k).status progress errors } := by
  simp only [step] at h
  split at h
  · rename_i hguard
    exact ⟨hguard, (Option.some.inj h).symm⟩
  · cases h

theorem step_poll {k : ℕ} {returnCode : ℤ} (h : s.step (.poll k returnCode) = some t) :
    ∃ pid, (s.runs k).inner = some pid ∧
      ((s.runs k).stage = .reading ∧ (s.os pid).any OsProcess.ended = true) ∧
      t = (s.setOs pid none).setRun k
        { s.runs k with inner := none, returnCode := returnCode } := by
  simp only [step] at h
  split at h
  · cases h
  · rename_i pid hinner
    split at h
    · rename_i hguard
      exact ⟨pid, hinner, hguard, (Option.some.inj h).symm⟩
    · cases h

theorem step_endLoop {k : ℕ} (h : s.step (.endLoop k) = some t) :
    ((s.runs k).stage = .reading ∧ (s.runs k).inner = none) ∧
      t = s.setRun k { s.runs k with stage := .ended } := by
  simp only [step] at h
  split at h
  · rename_i hguard
    exact ⟨hguard, (Option.some.inj h).symm⟩
  · cases h

theorem step_spawn {pid : ℕ} (h : s.step (.spawn pid) = some t) :
    s.os pid = none ∧ t = s.setOs pid (some ⟨none, false⟩) := by
  simp only [step] at h
  split at h
  · rename_i hguard
    exact ⟨hguard, (Option.some.inj h).symm⟩
  · cases h

theorem step_vanish {pid : ℕ} (h : s.step (.vanish pid) = some t) :
    ∃ ended, s.os pid = some ⟨none, ended⟩ ∧ t = s.setOs pid none := by
  simp only [step] at h
  split at h
  · rename_i ended hprocess
    exact ⟨ended, hprocess, (Option.some.inj h).symm⟩
  · cases h

end Inversion

/-! ## Numbers of requests and threads -/

/-- A request is numbered below `count`, and the request of a thread has ended. -/
structure Numbered (s : ProcessState) : Prop where
  requests : ∀ r, (s.requests r).stage ≠ .absent → r < s.count
  runs : ∀ k, (s.runs k).stage ≠ .absent → (s.requests k).stage = .finished

section Numbered

variable {s t : ProcessState}

theorem Numbered.setRun (h : Numbered s) {k : ℕ} {run : Run}
    (hrun : (s.runs k).stage ≠ .absent) : Numbered (s.setRun k run) := by
  refine ⟨h.requests, fun other hother => ?_⟩
  by_cases heq : other = k
  · exact heq ▸ h.runs k hrun
  · rw [runs_setRun_of_ne s run heq] at hother
    exact h.runs other hother

theorem Numbered.setRequest (h : Numbered s) {r : ℕ} (request : Request)
    (hrequest : (s.requests r).stage ≠ .absent)
    (hfinished : (s.requests r).stage = .finished → request.stage = .finished) :
    Numbered (s.setRequest r request) := by
  refine ⟨fun other hother => ?_, fun other hother => ?_⟩
  · by_cases heq : other = r
    · exact heq ▸ h.requests r hrequest
    · rw [requests_setRequest_of_ne s request heq] at hother
      exact h.requests other hother
  · have hold := h.runs other hother
    by_cases heq : other = r
    · rw [heq, requests_setRequest]
      exact hfinished (heq ▸ hold)
    · rwa [requests_setRequest_of_ne s request heq]

theorem Numbered.congr (h : Numbered s) (hrequests : t.requests = s.requests)
    (hruns : ∀ k, (t.runs k).stage = (s.runs k).stage) (hcount : t.count = s.count) :
    Numbered t := by
  refine ⟨fun r hr => ?_, fun k hk => ?_⟩
  · rw [hcount]
    exact h.requests r (hrequests ▸ hr)
  · rw [hrequests]
    exact h.runs k (hruns k ▸ hk)

end Numbered

/-! ## Signals -/

section Signals

variable (s : ProcessState) (name : ActionName) (pid : ℕ) (process : OsProcess)

/-- A signal changes the program, and nothing that the server keeps. -/
theorem send_frame :
    (s.send name pid process).records = s.records ∧
      (s.send name pid process).requests = s.requests ∧
      (s.send name pid process).running = s.running ∧
      (s.send name pid process).count = s.count ∧
      (s.send name pid process).posted = s.posted := by
  unfold send
  split <;> exact ⟨rfl, rfl, rfl, rfl, rfl⟩

theorem runs_send (k : ℕ) :
    ∃ suspended, (s.send name pid process).runs k = { s.runs k with suspended := suspended } := by
  have hset : ∀ (other : ℕ) (suspended : Bool), ∃ result,
      (s.setRun other { s.runs other with suspended := suspended }).runs k =
        { s.runs k with suspended := result } := by
    intro other suspended
    by_cases heq : k = other
    · subst heq
      exact ⟨suspended, runs_setRun s k _⟩
    · exact ⟨(s.runs k).suspended, runs_setRun_of_ne s _ heq⟩
  unfold send
  split
  · exact hset _ _
  · exact hset _ _
  · exact ⟨(s.runs k).suspended, rfl⟩
  · exact ⟨(s.runs k).suspended, rfl⟩

theorem os_send (hprocess : s.os pid = some process) (other : ℕ) :
    ∀ left ∈ (s.send name pid process).os other, ∃ old ∈ s.os other, left.run = old.run := by
  intro left hleft
  unfold send at hleft
  split at hleft
  · exact ⟨left, hleft, rfl⟩
  · exact ⟨left, hleft, rfl⟩
  · by_cases heq : other = pid
    · rw [heq, os_setOs] at hleft
      cases hleft
      exact ⟨process, heq ▸ hprocess, rfl⟩
    · rw [os_setOs_of_ne s _ heq] at hleft
      exact ⟨left, hleft, rfl⟩
  · exact ⟨left, hleft, rfl⟩

end Signals

section Numbered

variable {s t : ProcessState}

/-- Every write of a thread leaves a thread, and every write of a request a request that has not
ended before. -/
theorem Run.stage_write {run run' : Run} {write : Write} (h : run.write = some (run', write)) :
    run.stage ≠ .absent ∧ run'.processId = run.processId := by
  unfold Run.write at h
  split at h <;> first
    | (rename_i hstage; cases h; exact ⟨by simp [hstage], rfl⟩)
    | cases h

theorem Request.stage_write {request request' : Request} {write : Write}
    (h : request.write = some (request', write)) :
    request.stage ≠ .absent ∧ request.stage ≠ .finished ∧
      request'.processId = request.processId := by
  unfold Request.write at h
  split at h <;> first
    | (rename_i hstage; cases h; exact ⟨by simp [hstage], by simp [hstage], rfl⟩)
    | cases h

theorem Numbered.step {a : ProcessStep} (h : Numbered s) (hstep : s.step a = some t) :
    Numbered t := by
  cases a with
  | post processId =>
      obtain ⟨-, rfl⟩ := step_post hstep
      exact ⟨h.requests, h.runs⟩
  | request processId name =>
      obtain ⟨record, -, rfl⟩ := Option.map_eq_some_iff.mp hstep
      refine ⟨fun r hr => ?_, fun k hk => ?_⟩
      · show r < s.count + 1
        by_cases heq : r = s.count
        · omega
        · have hold := h.requests r (by rwa [← requests_setRequest_of_ne s _ heq])
          omega
      · -- the request of a thread has ended, so it is not the new one
        have hold := h.runs k hk
        have hne : k ≠ s.count := by
          rintro rfl
          exact absurd (h.requests s.count (by rw [hold]; nofun)) (Nat.lt_irrefl _)
        show ((s.setRequest s.count _).requests k).stage = .finished
        rwa [requests_setRequest_of_ne s _ hne]
  | startThread r =>
      obtain ⟨hguard, rfl⟩ := step_startThread hstep
      have hrequest := h.setRequest { s.requests r with stage := .finished }
        (by rw [hguard.2]; nofun) fun _ => rfl
      refine ⟨hrequest.requests, fun k hk => ?_⟩
      by_cases heq : k = r
      · subst heq
        show ((s.setRequest k _).requests k).stage = .finished
        rw [requests_setRequest]
      · refine hrequest.runs k ?_
        rwa [← runs_setRun_of_ne (s.setRequest r _) _ heq]
  | signal r =>
      obtain ⟨hguard, hsignal⟩ := step_signal hstep
      have hset : ∀ request : Request, Numbered (s.setRequest r request) := fun request =>
        h.setRequest request (by rw [hguard.2]; nofun) fun hfinished => by
          rw [hguard.2] at hfinished
          cases hfinished
      rcases hsignal with rfl | ⟨pid, process, hpid, hprocess, rfl⟩
      · exact hset _
      · obtain ⟨-, hrequests, -, hcount, -⟩ := s.send_frame (s.requests r).name pid process
        refine (hset { s.requests r with stage := .signalled }).congr ?_ (fun k => ?_) hcount
        · show Function.update (s.send _ _ _).requests r _ = Function.update s.requests r _
          rw [hrequests]
        · obtain ⟨suspended, hrun⟩ := s.runs_send (s.requests r).name pid process k
          show ((s.send _ _ _).runs k).stage = (s.runs k).stage
          rw [hrun]
  | writeRequest r =>
      obtain ⟨⟨request, write⟩, hwrite, rfl⟩ := Option.map_eq_some_iff.mp hstep
      obtain ⟨hpresent, hunfinished, -⟩ := Request.stage_write hwrite
      have happly : Numbered (s.apply request.processId write) := ⟨h.requests, h.runs⟩
      exact happly.setRequest _ hpresent fun hfinished => absurd hfinished hunfinished
  | writeRun k =>
      obtain ⟨⟨run, write⟩, hwrite, rfl⟩ := Option.map_eq_some_iff.mp hstep
      have happly : Numbered (s.apply run.processId write) := ⟨h.requests, h.runs⟩
      exact happly.setRun (Run.stage_write hwrite).1
  | launch k pid =>
      obtain ⟨hguard, rfl⟩ := step_launch hstep
      have hos : Numbered (s.setOs pid (some ⟨some k, false⟩)) := ⟨h.requests, h.runs⟩
      refine hos.setRun ?_
      show (s.runs k).stage ≠ .absent
      rw [hguard.1]
      nofun
  | launchFails k message =>
      obtain ⟨hguard, rfl⟩ := step_launchFails hstep
      exact h.setRun (by rw [hguard]; nofun)
  | readLine k progress errors =>
      obtain ⟨hguard, rfl⟩ := step_readLine hstep
      exact h.setRun (by rw [hguard]; nofun)
  | poll k returnCode =>
      obtain ⟨pid, hinner, hguard, rfl⟩ := step_poll hstep
      have hos : Numbered (s.setOs pid none) := ⟨h.requests, h.runs⟩
      refine hos.setRun ?_
      show (s.runs k).stage ≠ .absent
      rw [hguard.1]
      nofun
  | endLoop k =>
      obtain ⟨hguard, rfl⟩ := step_endLoop hstep
      exact h.setRun (by rw [hguard.1]; nofun)
  | exit pid =>
      obtain ⟨process, -, rfl⟩ := Option.map_eq_some_iff.mp hstep
      exact ⟨h.requests, h.runs⟩
  | spawn pid =>
      obtain ⟨-, rfl⟩ := step_spawn hstep
      exact ⟨h.requests, h.runs⟩
  | vanish pid =>
      obtain ⟨_, -, rfl⟩ := step_vanish hstep
      exact ⟨h.requests, h.runs⟩

theorem numbered_initial : Numbered initial :=
  ⟨fun _ h => absurd rfl h, fun _ h => absurd rfl h⟩

end Numbered

end ProcessState

end ComputeWebApp.Api
