import ComputeWebApp.Process.LogLine

/-!
# The outcome of a run

`run_process` from its first to its last line, for one thread.  The program that it launches prints
lines, ends its output, and exits at any moment; the loop reads a line and polls the program in
turns, and ends when a read has found the end of the output and the poll after it a return code.
So each line is handled, and the return code is the one of the program, unless a line has a progress
that `int` does not read (`run_outcome_iff`).  The conversion of the result file at the end of
`run_process` touches none of the files followed here.

The status and the list of running processes are set before `Popen` and reset after the loop.  In
between `run_process` catches a `FileNotFoundError` and nothing else (`failed_run_iff`).
-/

namespace ComputeWebApp.Api

/-! ## Programs and exceptions -/

/-- A line that `readline` returns before the end of the output. -/
abbrev OutputLine := { line : String // line ≠ "" }

/-- A program that is launched.  It has not exited yet at the first `polls` polls.  `fault` is what
`readline` raises after the lines, when the output goes on with bytes that it cannot decode. -/
structure Child where
  pid : ℕ
  lines : List OutputLine
  fault : Option Raised := none
  polls : ℕ
  returnCode : ℤ

/-- `inner_process.stdout.readline()`, with the lines that are left. -/
def Child.readline (child : Child) : List OutputLine → Except Raised (String × List OutputLine)
  | line :: rest => .ok (line.1, rest)
  | [] =>
      match child.fault with
      | some raised => .error raised
      | none => .ok ("", [])

/-- `inner_process.poll()`, when the program does not exit before so many more polls. -/
def Child.poll (child : Child) (polls : ℕ) : Option ℤ :=
  if polls = 0 then some child.returnCode else none

/-! ## The running processes -/

/-- The content of `running_process_ids.json`. -/
structure RunningIds where
  processIds : List String
  nodup : processIds.Nodup

namespace RunningIds

def add (running : RunningIds) (processId : String) : RunningIds :=
  ⟨addRunning processId running.processIds, nodup_addRunning running.nodup processId⟩

def remove (running : RunningIds) (processId : String) : RunningIds :=
  ⟨removeRunning processId running.processIds, nodup_removeRunning running.nodup processId⟩

/-- A call of another request. -/
def call (running : RunningIds) : RunningCall → RunningIds
  | .add processId => running.add processId
  | .remove processId => running.remove processId
  | .read => running

theorem not_mem_remove (running : RunningIds) (processId : String) :
    processId ∉ (running.remove processId).processIds := by
  intro hmem
  exact ((mem_removeRunning running.nodup).mp hmem).1 rfl

end RunningIds

/-! ## The thread -/

/-- `status` and `pid` are those of the thread's copy of the process; `record`, `running` and `log`
are the files.  `handled` is kept for the statements only: the lines that were parsed. -/
structure ThreadState where
  status : Status
  pid : Option ℕ
  record : Record
  running : RunningIds
  log : String := ""
  handled : List String := []

namespace ThreadState

def updateProcess (s : ThreadState) : ThreadState := { s with record := ⟨s.status, s.pid⟩ }

def updateProcessStatus (s : ThreadState) : ThreadState :=
  { s with record := { s.record with status := s.record.status.update s.status } }

/-- What precedes `Popen`. -/
def start (s : ThreadState) (processId : String) : ThreadState :=
  let s := { s with status := .begun }.updateProcess
  { s with running := s.running.add processId, log := "", handled := [] }

/-- Other requests call for the list of running processes. -/
def meanwhile (s : ThreadState) (calls : List RunningCall) : ThreadState :=
  { s with running := calls.foldl RunningIds.call s.running }

/-- The update after `Popen`. -/
def launched (s : ThreadState) (child : Child) : ThreadState :=
  { s with pid := some child.pid }.updateProcess

/-- The files after a line that has been parsed. -/
def withLine (s : ThreadState) (line : String) : ThreadState :=
  { s with
    status := parsedLine s.status line
    log := s.log ++ line
    handled := s.handled ++ [line] }.updateProcessStatus

variable (limits : Python.Limits)

/-- The body of the loop, for a line.  Nothing is written when `parse_log` raises. -/
def handle (s : ThreadState) (line : String) : Except Raised ThreadState :=
  (parseLogLine limits s.status line).map fun status =>
    { s with status := status, log := s.log ++ line, handled := s.handled ++ [line]
      }.updateProcessStatus

/-- The lines of a program up to one for which `parse_log` raises. -/
def handleAll : List String → ThreadState → Option Raised × ThreadState
  | [], s => (none, s)
  | line :: rest, s =>
      match s.handle limits line with
      | .error raised => (some raised, s)
      | .ok s => handleAll rest s

end ThreadState

theorem Child.length_readline {child : Child} {lines rest : List OutputLine} {line : String}
    (h : child.readline lines = .ok (line, rest)) :
    rest.length + (if line = "" then 0 else 1) = lines.length := by
  cases lines with
  | nil =>
      rw [readline] at h
      split at h
      · cases h
      · cases h
        rfl
  | cons first rest' =>
      obtain ⟨text, hne⟩ := first
      cases h
      rw [if_neg hne]
      rfl

theorem Child.pos_of_poll {child : Child} {polls : ℕ} (h : child.poll polls = none) :
    0 < polls := by
  rw [poll] at h
  split at h
  · cases h
  · omega

variable (limits : Python.Limits)

/-- The loop of `run_process`: the return code, or what `readline` or `parse_log` raises. -/
def readLoop (child : Child) (lines : List OutputLine) (polls : ℕ) (s : ThreadState) :
    Except Raised ℤ × ThreadState :=
  match hread : child.readline lines with
  | .error raised => (.error raised, s)
  | .ok (line, rest) =>
      if _ : line = "" then
        match hpoll : child.poll polls with
        | some returnCode => (.ok returnCode, s)
        | none =>
            have := Child.pos_of_poll hpoll
            have := Child.length_readline hread
            readLoop child rest (polls - 1) s
      else
        match s.handle limits line with
        | .error raised => (.error raised, s)
        | .ok s =>
            have := Child.length_readline hread
            readLoop child rest (polls - 1) s
termination_by lines.length + polls
decreasing_by
  · rw [if_pos (by assumption)] at *
    omega
  · rw [if_neg (by assumption)] at *
    omega

/-- The `try` block of `run_process`. -/
def tryRun (launch : Except Raised Child) (s : ThreadState) : Except Raised ℤ × ThreadState :=
  match launch with
  | .error raised => (.error raised, s)
  | .ok child => readLoop limits child child.lines child.polls (s.launched child)

namespace ThreadState

/-- The clause for a `FileNotFoundError`. -/
def notFound (s : ThreadState) (raised : Raised) : ThreadState :=
  { s with status := { s.status with
    errors := s.status.errors ++ ["FileNotFoundError : " ++ raised.text] } }

/-- What follows the `try` block. -/
def finish (s : ThreadState) (processId : String) (returnCode : ℤ) : ThreadState :=
  let run : Run := { processId, status := s.status, returnCode }
  let log :=
    if returnCode ≠ 0 then s.log ++ ("[ERROR Bad return code : " ++ toString returnCode ++ "]\n")
    else s.log
  let s := { s with status := run.finalStatus, log := log }.updateProcess
  { s with running := s.running.remove processId }

end ThreadState

/-- `run_process`, with what `Popen` does and the calls that other requests make for the list of
running processes in the meantime: the exception that ends the thread, and the files it leaves. -/
def runProcess (processId : String) (launch : Except Raised Child) (calls : List RunningCall)
    (s : ThreadState) : Option Raised × ThreadState :=
  match tryRun limits launch ((s.start processId).meanwhile calls) with
  | (.ok returnCode, s) => (none, s.finish processId returnCode)
  | (.error raised, s) =>
      if raised.kind = .fileNotFoundError then
        (none, (s.notFound raised).finish processId (-1))
      else (some raised, s)

/-! ## The loop -/

variable {limits : Python.Limits}

/-- `int` reads the progress of every line. -/
def AllRead (limits : Python.Limits) (lines : List String) : Prop :=
  ∀ line ∈ lines, ReadsProgress limits line

instance (limits : Python.Limits) (lines : List String) : Decidable (AllRead limits lines) :=
  inferInstanceAs (Decidable (∀ line ∈ lines, _))

namespace ThreadState

theorem handle_of_reads (s : ThreadState) {line : String} (h : ReadsProgress limits line) :
    s.handle limits line = .ok (s.withLine line) := by
  rw [handle, parseLogLine, if_pos h]
  rfl

theorem handle_of_not_reads (s : ThreadState) {line : String} (h : ¬ReadsProgress limits line) :
    s.handle limits line = .error tooManyDigits := by
  rw [handle, parseLogLine, if_neg h]
  rfl

theorem handleAll_of_allRead {lines : List String} (hlines : AllRead limits lines)
    (s : ThreadState) : s.handleAll limits lines = (none, lines.foldl withLine s) := by
  induction lines generalizing s with
  | nil => rfl
  | cons line lines ih =>
      obtain ⟨hline, hrest⟩ := List.forall_mem_cons.mp hlines
      rw [handleAll, s.handle_of_reads hline]
      exact ih hrest (s.withLine line)

/-- The lines are handled up to the first one that is not read. -/
theorem handleAll_overlong {lines : List String} (hlines : ¬AllRead limits lines)
    (s : ThreadState) : ∃ front, front <+: lines ∧
      s.handleAll limits lines = (some tooManyDigits, front.foldl withLine s) := by
  induction lines generalizing s with
  | nil => exact absurd (List.forall_mem_nil _) hlines
  | cons line lines ih =>
      rw [handleAll]
      by_cases hline : ReadsProgress limits line
      · have hrest : ¬AllRead limits lines := fun h => hlines (List.forall_mem_cons.mpr ⟨hline, h⟩)
        obtain ⟨front, hfront, hraised⟩ := ih hrest (s.withLine line)
        rw [s.handle_of_reads hline]
        exact ⟨line :: front, List.cons_prefix_cons.mpr ⟨rfl, hfront⟩, hraised⟩
      · rw [s.handle_of_not_reads hline]
        exact ⟨[], List.nil_prefix, rfl⟩

end ThreadState

section Loop

variable {child : Child} {s : ThreadState} {polls : ℕ}

theorem readLoop_of_error {lines : List OutputLine} {raised : Raised}
    (h : child.readline lines = .error raised) :
    readLoop limits child lines polls s = (.error raised, s) := by
  rw [readLoop]
  split
  next hread =>
      rw [h] at hread
      cases hread
      rfl
  next hread =>
      rw [h] at hread
      cases hread

theorem readLoop_of_ok {lines rest : List OutputLine} {line : String}
    (h : child.readline lines = .ok (line, rest)) :
    readLoop limits child lines polls s =
      if line = "" then
        match child.poll polls with
        | some returnCode => (.ok returnCode, s)
        | none => readLoop limits child rest (polls - 1) s
      else
        match s.handle limits line with
        | .error raised => (.error raised, s)
        | .ok s => readLoop limits child rest (polls - 1) s := by
  rw [readLoop]
  split
  next hread =>
      rw [h] at hread
      cases hread
  next hread =>
      rw [h] at hread
      cases hread
      by_cases hend : line = ""
      · simp only [hend, dite_true, if_true]
        cases hpoll : child.poll polls with
        | some returnCode => rfl
        | none => rfl
      · simp only [hend, dite_false, if_false]

theorem readLoop_cons (line : OutputLine) (lines : List OutputLine) :
    readLoop limits child (line :: lines) polls s =
      match s.handle limits line.1 with
      | .error raised => (.error raised, s)
      | .ok s => readLoop limits child lines (polls - 1) s := by
  rw [readLoop_of_ok rfl, if_neg line.2]

theorem readLoop_raises {raised : Raised} (h : child.fault = some raised) :
    readLoop limits child [] polls s = (.error raised, s) :=
  readLoop_of_error (by rw [Child.readline, h])

theorem readLoop_nil (h : child.fault = none) :
    readLoop limits child [] polls s = (.ok child.returnCode, s) := by
  have hread : child.readline [] = .ok ("", []) := by rw [Child.readline, h]
  induction polls with
  | zero =>
      rw [readLoop_of_ok hread]
      rfl
  | succ polls ih =>
      rw [readLoop_of_ok hread]
      exact ih

/-- How the loop ends when it has handled all lines. -/
def Child.outcome (child : Child) : Except Raised ℤ :=
  match child.fault with
  | some raised => .error raised
  | none => .ok child.returnCode

/-- Each line is handled once, in order, however many polls the program outlives. -/
theorem readLoop_eq (lines : List OutputLine) :
    readLoop limits child lines polls s =
      match s.handleAll limits (lines.map Subtype.val) with
      | (some raised, s) => (.error raised, s)
      | (none, s) => (child.outcome, s) := by
  induction lines generalizing polls s with
  | nil =>
      rw [List.map_nil, ThreadState.handleAll, Child.outcome]
      cases hfault : child.fault with
      | some raised => exact readLoop_raises hfault
      | none => exact readLoop_nil hfault
  | cons line lines ih =>
      rw [readLoop_cons, List.map_cons, ThreadState.handleAll]
      cases s.handle limits line.1 with
      | error raised => rfl
      | ok s => exact ih

end Loop

namespace ThreadState

theorem status_withLines (s : ThreadState) (lines : List String) :
    (lines.foldl withLine s).status = lines.foldl parsedLine s.status := by
  induction lines generalizing s with
  | nil => rfl
  | cons line lines ih => exact ih (s.withLine line)

theorem log_withLines (s : ThreadState) (lines : List String) :
    (lines.foldl withLine s).log = lines.foldl (· ++ ·) s.log := by
  induction lines generalizing s with
  | nil => rfl
  | cons line lines ih => exact ih (s.withLine line)

theorem handled_withLines (s : ThreadState) (lines : List String) :
    (lines.foldl withLine s).handled = s.handled ++ lines := by
  induction lines generalizing s with
  | nil => exact (List.append_nil _).symm
  | cons line lines ih =>
      rw [List.foldl_cons, ih, withLine, updateProcessStatus, List.append_assoc]
      rfl

/-- The thread is before its last update, and its record says so. -/
def Unfinished (s : ThreadState) : Prop :=
  s.status.running = true ∧ s.record.status.running = true

theorem Unfinished.withLines {s : ThreadState} (h : s.Unfinished) (lines : List String) :
    (lines.foldl withLine s).Unfinished := by
  induction lines generalizing s with
  | nil => exact h
  | cons line lines ih => exact ih ⟨h.1, h.1⟩

end ThreadState

/-! ## The end -/

/-- The message about a return code. -/
def badReturnCode (returnCode : ℤ) : List String :=
  if returnCode ≠ 0 then ["Bad return code : " ++ toString returnCode] else []

/-- The line about a return code that ends the log. -/
def badReturnCodeLine (returnCode : ℤ) : String :=
  if returnCode ≠ 0 then "[ERROR Bad return code : " ++ toString returnCode ++ "]\n" else ""

theorem ThreadState.status_finish (s : ThreadState) (processId : String) (returnCode : ℤ) :
    (s.finish processId returnCode).record.status =
      { s.status with
        running := false
        done := decide (s.status.errors ++ badReturnCode returnCode = [])
        errors := s.status.errors ++ badReturnCode returnCode } := by
  have herrors : (if returnCode ≠ 0 then
      s.status.errors ++ ["Bad return code : " ++ toString returnCode] else s.status.errors) =
        s.status.errors ++ badReturnCode returnCode := by
    rw [badReturnCode]
    split
    · rfl
    · rw [List.append_nil]
  simp only [finish, updateProcess, Run.finalStatus, herrors, List.length_eq_zero_iff]

theorem ThreadState.log_finish (s : ThreadState) (processId : String) (returnCode : ℤ) :
    (s.finish processId returnCode).log = s.log ++ badReturnCodeLine returnCode := by
  simp only [finish, updateProcess, badReturnCodeLine]
  split
  · rfl
  · rw [String.append_empty]

/-! ## Outcomes -/

section Outcomes

variable {processId : String} {calls : List RunningCall} {s : ThreadState}

/-- When every line is read, the outcome is that of the program. -/
theorem tryRun_of_allRead (child : Child) (hlines : AllRead limits (child.lines.map Subtype.val)) :
    tryRun limits (.ok child) s = (child.outcome,
      (child.lines.map Subtype.val).foldl ThreadState.withLine (s.launched child)) := by
  rw [tryRun, readLoop_eq, ThreadState.handleAll_of_allRead hlines]

/-- A run without an exception. -/
theorem runProcess_eq {child : Child} (hfault : child.fault = none)
    (hlines : AllRead limits (child.lines.map Subtype.val)) :
    runProcess limits processId (.ok child) calls s =
      (none, ((child.lines.map Subtype.val).foldl ThreadState.withLine
        (((s.start processId).meanwhile calls).launched child)).finish processId
          child.returnCode) := by
  rw [runProcess, tryRun_of_allRead child hlines, Child.outcome, hfault]

/-- A run with one. -/
theorem runProcess_of_error {launch : Except Raised Child} {raised : Raised} {t : ThreadState}
    (h : tryRun limits launch ((s.start processId).meanwhile calls) = (.error raised, t)) :
    runProcess limits processId launch calls s =
      if raised.kind = .fileNotFoundError then
        (none, (t.notFound raised).finish processId (-1))
      else (some raised, t) := by
  rw [runProcess, h]

/-- A line that is not read ends the loop, with the lines before it handled. -/
theorem tryRun_overlong (child : Child)
    (hlines : ¬AllRead limits (child.lines.map Subtype.val)) :
    ∃ front : List String, tryRun limits (.ok child) s =
      (.error tooManyDigits, front.foldl ThreadState.withLine (s.launched child)) := by
  obtain ⟨front, -, hraised⟩ := ThreadState.handleAll_overlong hlines (s.launched child)
  exact ⟨front, by rw [tryRun, readLoop_eq, hraised]⟩

/-- The lines are handled, and then `readline` raises. -/
theorem tryRun_of_fault {child : Child} {raised : Raised} (hfault : child.fault = some raised)
    (hlines : AllRead limits (child.lines.map Subtype.val)) :
    tryRun limits (.ok child) s = (.error raised,
      (child.lines.map Subtype.val).foldl ThreadState.withLine (s.launched child)) := by
  rw [tryRun_of_allRead child hlines, Child.outcome, hfault]

variable (processId calls s) in
/-- A line that is not read ends the thread. -/
theorem runProcess_overlong (child : Child)
    (hlines : ¬AllRead limits (child.lines.map Subtype.val)) :
    ∃ t, runProcess limits processId (.ok child) calls s = (some tooManyDigits, t) := by
  obtain ⟨front, htry⟩ := tryRun_overlong (s := (s.start processId).meanwhile calls) child hlines
  rw [runProcess_of_error htry, if_neg (by decide)]
  exact ⟨_, rfl⟩

end Outcomes

/-- The run ends without an exception, every line is handled once and in order, and the files tell
what the lines and the return code tell. -/
def EndsAsTold (processId : String) (lines : List String) (returnCode : ℤ) :
    Option Raised × ThreadState → Prop
  | (some _, _) => False
  | (none, t) =>
      t.handled = lines ∧
      t.record.status =
        { running := false
          done := decide (t.record.status.errors = [])
          progress := (lines.filterMap progressFound).getLast?.getD 0
          errors := lines.flatMap errorsFound ++ badReturnCode returnCode } ∧
      t.log = String.join lines ++ badReturnCodeLine returnCode ∧
      processId ∉ t.running.processIds

/-- **The outcome of a run** of a program whose output can be read is the one that its lines and its
return code tell, exactly when `int` reads the progress of every line. -/
theorem run_outcome_iff (limits : Python.Limits) (processId : String) (pid polls : ℕ)
    (lines : List OutputLine) (returnCode : ℤ) (calls : List RunningCall) (s : ThreadState) :
    EndsAsTold processId (lines.map Subtype.val) returnCode
        (runProcess limits processId (.ok { pid, lines, polls, returnCode }) calls s) ↔
      AllRead limits (lines.map Subtype.val) := by
  let child : Child := { pid, lines, polls, returnCode }
  let ready := ((s.start processId).meanwhile calls).launched child
  let read := (lines.map Subtype.val).foldl ThreadState.withLine ready
  by_cases hlines : AllRead limits (lines.map Subtype.val)
  swap
  · obtain ⟨t, hrun⟩ := runProcess_overlong processId calls s child hlines
    rw [hrun]
    exact iff_of_false id hlines
  have hrun : runProcess limits processId (.ok child) calls s =
      (none, read.finish processId returnCode) := runProcess_eq rfl hlines
  have hstatus : read.status = parseLog .begun
      ((lines.map Subtype.val).filterMap progressFound).getLast?
      ((lines.map Subtype.val).flatMap errorsFound) := by
    rw [ThreadState.status_withLines, foldl_parsedLine]
    rfl
  have hlog : read.log = String.join (lines.map Subtype.val) := ThreadState.log_withLines ready _
  refine iff_of_true ?_ hlines
  rw [hrun]
  refine ⟨?_, ?_, ?_, RunningIds.not_mem_remove _ _⟩
  · exact (ThreadState.handled_withLines ready _).trans (List.nil_append _)
  · rw [ThreadState.status_finish, hstatus]
    rfl
  · rw [ThreadState.log_finish, hlog]

theorem progressText_ne_empty (digits : List Char) :
    String.ofList (progressName ++ (' ' :: (digits ++ ['%']) ++ ']' :: ['\n'])) ≠ "" := by
  intro h
  have hnil := congrArg String.toList h
  rw [String.toList_ofList] at hnil
  simp [progressName] at hnil

/-- A progress of 5000 digits, more than `int` reads. -/
def overlongLine : OutputLine := ⟨_, progressText_ne_empty (List.replicate 5000 '1')⟩

theorem not_readsProgress_overlongLine : ¬ReadsProgress Python.cpython overlongLine.1 := by
  have hlength : (List.replicate 5000 '1').length = 5000 := List.length_replicate
  have hdigits : progressDigits overlongLine.1 = some (List.replicate 5000 '1') := by
    refine progressDigits_line String.toList_ofList (fun c hc => ?_) ?_
    · rw [List.eq_of_mem_replicate hc]
      decide
    · exact List.ne_nil_of_length_pos (by omega)
  intro hreads
  have hshort := hreads _ hdigits 4300 rfl
  omega

/-- A thread before its first run. -/
def ThreadState.posted : ThreadState where
  status := .posted
  pid := none
  record := ⟨.posted, none⟩
  running := ⟨[], List.nodup_nil⟩

/-- A progress of 5000 digits: the thread ends, and the process is running for ever. -/
theorem run_outcome_overlong :
    ¬EndsAsTold "3c6aa0280028951b" [overlongLine.1] 0
      (runProcess Python.cpython "3c6aa0280028951b"
        (.ok { pid := 4711, lines := [overlongLine], polls := 0, returnCode := 0 }) []
        .posted) := by
  have hlines : ¬AllRead Python.cpython ([overlongLine].map Subtype.val) :=
    fun h => not_readsProgress_overlongLine (h _ List.mem_cons_self)
  obtain ⟨t, hrun⟩ := runProcess_overlong "3c6aa0280028951b" [] .posted
    { pid := 4711, lines := [overlongLine], polls := 0, returnCode := 0 } hlines
  rw [hrun]
  exact id

/-- How launching or reading a program fails. -/
inductive Failure
  | popen (raised : Raised)
  | readline (child : Child) (raised : Raised)

namespace Failure

/-- What leaves the `try` block.  Before `readline` raises, `parse_log` may have raised for one of
the lines. -/
def raised (limits : Python.Limits) : Failure → Raised
  | popen raised => raised
  | readline child raised =>
      if AllRead limits (child.lines.map Subtype.val) then raised else tooManyDigits

/-- What `Popen` does. -/
def launch : Failure → Except Raised Child
  | popen raised => .error raised
  | readline child raised => .ok { child with fault := some raised }

end Failure

/-- The files do not show a run that is over as running. -/
def NoRunningTrace (processId : String) (s : ThreadState) : Prop :=
  s.record.status.running = false ∧ s.record.status.done = false ∧
    s.record.status.errors ≠ [] ∧ processId ∉ s.running.processIds

/-- **A run that fails leaves no running trace** exactly when it fails with a `FileNotFoundError`,
the only exception that `run_process` catches. -/
theorem failed_run_iff (limits : Python.Limits) (processId : String) (failure : Failure)
    (calls : List RunningCall) (s : ThreadState) :
    NoRunningTrace processId (runProcess limits processId failure.launch calls s).2 ↔
      (failure.raised limits).kind = .fileNotFoundError := by
  let ready := (s.start processId).meanwhile calls
  obtain ⟨t, htry, hunfinished⟩ :
      ∃ t, tryRun limits failure.launch ready = (.error (failure.raised limits), t) ∧
        t.Unfinished := by
    cases failure with
    | popen raised => exact ⟨ready, rfl, rfl, rfl⟩
    | readline child raised =>
        let faulty : Child := { child with fault := some raised }
        have hready : (ready.launched faulty).Unfinished := ⟨rfl, rfl⟩
        by_cases hlines : AllRead limits (child.lines.map Subtype.val)
        · rw [Failure.raised, if_pos hlines]
          have hfault : faulty.fault = some raised := rfl
          exact ⟨_, tryRun_of_fault hfault hlines, hready.withLines _⟩
        · rw [Failure.raised, if_neg hlines]
          obtain ⟨front, htry⟩ := tryRun_overlong (s := ready) faulty hlines
          exact ⟨_, htry, hready.withLines front⟩
  rw [runProcess_of_error htry]
  split
  · rename_i hcaught
    have herrors : (t.notFound (failure.raised limits)).status.errors ++ badReturnCode (-1) ≠ [] :=
      List.append_ne_nil_of_right_ne_nil _ (by decide)
    refine iff_of_true ⟨?_, ?_, ?_, RunningIds.not_mem_remove _ _⟩ hcaught
    · rw [ThreadState.status_finish]
    · rw [ThreadState.status_finish]
      exact decide_eq_false herrors
    · rw [ThreadState.status_finish]
      exact herrors
  · rename_i hraised
    refine iff_of_false (fun htrace => ?_) hraised
    have hrunning := htrace.1
    rw [hunfinished.2] at hrunning
    cases hrunning

/-- An executable without permission: the thread ends, and the process is running for ever. -/
theorem failed_run_keeps_running :
    ¬NoRunningTrace "3c6aa0280028951b" (runProcess Python.cpython "3c6aa0280028951b"
      (Failure.popen ⟨.permissionError, "[Errno 13] Permission denied"⟩).launch [] .posted).2 := by
  rintro ⟨hrunning, -⟩
  cases hrunning

end ComputeWebApp.Api
