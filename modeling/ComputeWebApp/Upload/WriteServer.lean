import ComputeWebApp.Library.PriorityQueue
import ComputeWebApp.Library.Transition
import ComputeWebApp.Upload.Completion

/-!
# The write worker of the server

The write queue holds items of any number of data.  Without ZMQ one write worker takes them from
there.  With ZMQ a front-end worker sends each of them, as a message of a JSON part and a binary
part, to the write process, whose main thread rebuilds the item and puts it to a second queue, for
a second worker.

`os.remove` of a file that the worker keeps open takes the name away and not the file: the worker
goes on with the file object of `open_files`, until a creation replaces it (`DataFiles`).
-/

namespace ComputeWebApp.Api

open ByteStream Transition

/-! ## Items and messages -/

/-- An item of the write queue, with the id of its data. -/
structure QueueItem where
  dataId : String
  priority : ℕ
  item : Item

/-- The JSON part of a message: a body is replaced by its length. -/
inductive JsonContent
  | creation (data : Creation)
  | body (groupIds : List ℕ) (length : ℕ)
  | attributes (entries : List AttributeEntry)

structure Message where
  dataId : String
  priority : ℕ
  content : JsonContent
  zbody : Bytes

/-- What `send` makes of an item; an item without a body has an empty binary part. -/
def QueueItem.message (queueItem : QueueItem) : Message :=
  match queueItem.item with
  | .creation data => ⟨queueItem.dataId, queueItem.priority, .creation data, []⟩
  | .body groupIds body => ⟨queueItem.dataId, queueItem.priority, .body groupIds body.length, body⟩
  | .attributes entries => ⟨queueItem.dataId, queueItem.priority, .attributes entries, []⟩

/-- The item that `target` puts to its queue. -/
def Message.queueItem (message : Message) : QueueItem :=
  match message.content with
  | .creation data => ⟨message.dataId, message.priority, .creation data⟩
  | .body groupIds _ => ⟨message.dataId, message.priority, .body groupIds message.zbody⟩
  | .attributes entries => ⟨message.dataId, message.priority, .attributes entries⟩

/-- Every item arrives unchanged, with its body and its priority. -/
@[simp] theorem QueueItem.queueItem_message (queueItem : QueueItem) :
    queueItem.message.queueItem = queueItem := by
  obtain ⟨dataId, priority, item⟩ := queueItem
  cases item <;> rfl

/-- `'post_time' in item` -/
def Item.isCreation : Item → Bool
  | .creation _ => true
  | _ => false

/-! ## The files of a data -/

/-- The file of the name `<data_id>.h5`, with marker and lock, and the file that `open_files` has
when it is another one, which has lost the name. -/
structure DataFiles where
  current : DataState := {}
  detached : Option DataState := none

/-- How the worker's `try` ends. -/
inductive Ending
  | done
  | raised
  | spins
  deriving DecidableEq, Repr

def endingOf : EStateM.Result Stop DataState Unit → Ending
  | .ok _ _ => .done
  | .error (.raised _) _ => .raised
  | .error .spins _ => .spins

namespace DataFiles

/-- `os.remove(filepath)` of `data.post`, when the file exists. -/
def remove (files : DataFiles) : DataFiles :=
  if files.current.h5.isNone then files
  else
    { current := { files.current with h5 := none, cached := false, isOpen := false }
      detached := if files.current.cached then some files.current else files.detached }

/-- What the worker's file functions work on: the file of `open_files` comes first, and marker
and lock go by their names. -/
def seen (files : DataFiles) : DataState :=
  match files.detached with
  | none => files.current
  | some old =>
      { old with
        marker := files.current.marker
        locked := files.current.locked
        clock := files.current.clock }

/-- The worker's `try` for an item of the data. -/
def handle (keepFilesOpen : Bool) (files : DataFiles) (item : Item) : Ending × DataFiles :=
  if item.isCreation then
    -- a file that is open cannot be created again
    if files.current.cached then (.raised, files)
    else
      let result := handleItem keepFilesOpen item files.current
      (endingOf result,
        ⟨stateOf result, if endingOf result = .done then none else files.detached⟩)
  else
    let result := handleItem keepFilesOpen item files.seen
    match files.detached with
    | none => (endingOf result, ⟨stateOf result, none⟩)
    | some _ =>
        (endingOf result,
          { current := { files.current with
              marker := (stateOf result).marker
              locked := (stateOf result).locked
              clock := (stateOf result).clock }
            detached := if (stateOf result).cached then some (stateOf result) else none })

theorem handle_creation {keepFilesOpen : Bool} {data : Creation} {t : DataState}
    (h : handleItem keepFilesOpen (.creation data) {} = .ok () t) :
    DataFiles.handle keepFilesOpen {} (.creation data) = (.done, ⟨t, none⟩) := by
  simp only [handle, h]
  rfl

theorem handle_value {keepFilesOpen : Bool} {item : Item} {s t : DataState}
    (hvalue : item.isCreation = false) (h : handleItem keepFilesOpen item s = .ok () t) :
    DataFiles.handle keepFilesOpen ⟨s, none⟩ item = (.done, ⟨t, none⟩) := by
  simp only [handle, hvalue, seen, h]
  rfl

end DataFiles

/-! ## The server -/

structure WriteConfig where
  useZmq : Bool
  useH5Swmr : Bool
  deriving DecidableEq, Repr

/-- Only the write process has `open_files`. -/
def WriteConfig.keepFilesOpen (config : WriteConfig) : Bool := config.useZmq && config.useH5Swmr

/-- `front` is the queue of the application with ZMQ, whose front-end worker holds `forwarding`;
`message` is on its way to the write process.  `queue` is the queue of the worker that writes, and
`busy` the item that it has taken; it waits in it for ever when it is `stuck`.  Each queue counts
its unfinished tasks.  `forwarded` and `finished` are the items that the two workers have left,
with the number of calls of `task_done` for each. -/
structure WriteState where
  front : List QueueItem := []
  frontUnfinished : ℕ := 0
  forwarding : Option QueueItem := none
  message : Option Message := none
  forwarded : List (QueueItem × ℕ) := []
  queue : List QueueItem := []
  unfinished : ℕ := 0
  busy : Option QueueItem := none
  stuck : Bool := false
  finished : List (QueueItem × ℕ) := []
  files : String → DataFiles := fun _ => {}

inductive WriteAction
  | put (queueItem : QueueItem)
  | remove (dataId : String)
  | forward (position : ℕ)
  | sendRaises
  | receive
  | reply
  | take (position : ℕ)
  | handle

namespace WriteState

/-- `write_queue.put` -/
def put (config : WriteConfig) (s : WriteState) (queueItem : QueueItem) : WriteState :=
  if config.useZmq then
    { s with front := s.front ++ [queueItem], frontUnfinished := s.frontUnfinished + 1 }
  else { s with queue := s.queue ++ [queueItem], unfinished := s.unfinished + 1 }

/-- What follows the worker's `try`. -/
def leave (s : WriteState) (queueItem : QueueItem) (result : Ending × DataFiles) : WriteState :=
  let t := { s with files := Function.update s.files queueItem.dataId result.2 }
  match result.1 with
  | .done =>
      { t with
        busy := none
        unfinished := s.unfinished - 1
        finished := (queueItem, 1) :: s.finished }
  | .raised => { t with busy := none, finished := (queueItem, 0) :: s.finished }
  | .spins => { t with stuck := true }

/-- `data.post` removes the file of a data. -/
def remove (s : WriteState) (dataId : String) : WriteState :=
  { s with files := Function.update s.files dataId (s.files dataId).remove }

def step (config : WriteConfig) (s : WriteState) : WriteAction → Option WriteState
  | .put queueItem => some (s.put config queueItem)
  | .remove dataId => some (s.remove dataId)
  | .forward position =>
      if s.forwarding = none then
        (PriorityQueue.get QueueItem.priority s.front position).map fun (queueItem, rest) =>
          { s with
            front := rest
            forwarding := some queueItem
            message := some queueItem.message }
      else none
  | .sendRaises =>
      match s.forwarding, s.message with
      | some queueItem, some _ =>
          some { s with
            forwarding := none
            message := none
            forwarded := (queueItem, 0) :: s.forwarded }
      | _, _ => none
  | .receive =>
      s.message.map fun message =>
        { s with
          message := none
          queue := s.queue ++ [message.queueItem]
          unfinished := s.unfinished + 1 }
  | .reply =>
      match s.forwarding, s.message with
      | some queueItem, none =>
          -- the reply to a creation waits for `write_queue.join()`
          if queueItem.item.isCreation ∧ s.unfinished ≠ 0 then none
          else some { s with
            forwarding := none
            frontUnfinished := s.frontUnfinished - 1
            forwarded := (queueItem, 1) :: s.forwarded }
      | _, _ => none
  | .take position =>
      if s.busy = none then
        (PriorityQueue.get QueueItem.priority s.queue position).map fun (queueItem, rest) =>
          { s with queue := rest, busy := some queueItem }
      else none
  | .handle =>
      if s.stuck then none
      else s.busy.map fun queueItem => s.leave queueItem
        ((s.files queueItem.dataId).handle config.keepFilesOpen queueItem.item)

def initial : WriteState := {}

section Put

variable (config : WriteConfig) (s : WriteState) (queueItem : QueueItem)

@[simp] theorem files_put : (s.put config queueItem).files = s.files := by
  unfold put
  split <;> rfl

@[simp] theorem busy_put : (s.put config queueItem).busy = s.busy := by
  unfold put
  split <;> rfl

@[simp] theorem finished_put : (s.put config queueItem).finished = s.finished := by
  unfold put
  split <;> rfl

end Put

/-! ## What a step does -/

section Inversion

variable {config : WriteConfig} {s t : WriteState} {position : ℕ}

theorem step_forward (h : s.step config (.forward position) = some t) :
    s.forwarding = none ∧ ∃ queueItem rest,
      PriorityQueue.get QueueItem.priority s.front position = some (queueItem, rest) ∧
        t = { s with
          front := rest
          forwarding := some queueItem
          message := some queueItem.message } := by
  simp only [step] at h
  split at h
  · rename_i hidle
    obtain ⟨⟨queueItem, rest⟩, hget, rfl⟩ := Option.map_eq_some_iff.mp h
    exact ⟨hidle, queueItem, rest, hget, rfl⟩
  · cases h

theorem step_sendRaises (h : s.step config .sendRaises = some t) :
    ∃ queueItem, s.forwarding = some queueItem ∧ s.message.isSome = true ∧
      t = { s with
        forwarding := none
        message := none
        forwarded := (queueItem, 0) :: s.forwarded } := by
  simp only [step] at h
  split at h
  · rename_i queueItem message hforwarding hmessage
    exact ⟨queueItem, hforwarding, by rw [hmessage]; rfl, (Option.some.inj h).symm⟩
  · cases h

theorem step_receive (h : s.step config .receive = some t) :
    ∃ message, s.message = some message ∧
      t = { s with
        message := none
        queue := s.queue ++ [message.queueItem]
        unfinished := s.unfinished + 1 } := by
  simp only [step] at h
  obtain ⟨message, hmessage, rfl⟩ := Option.map_eq_some_iff.mp h
  exact ⟨message, hmessage, rfl⟩

theorem step_reply (h : s.step config .reply = some t) :
    ∃ queueItem, s.forwarding = some queueItem ∧ s.message = none ∧
      (queueItem.item.isCreation = true → s.unfinished = 0) ∧
      t = { s with
        forwarding := none
        frontUnfinished := s.frontUnfinished - 1
        forwarded := (queueItem, 1) :: s.forwarded } := by
  simp only [step] at h
  split at h
  · rename_i queueItem hforwarding hmessage
    split at h
    · cases h
    · rename_i hjoin
      refine ⟨queueItem, hforwarding, hmessage, fun hcreation => ?_, (Option.some.inj h).symm⟩
      by_contra hunfinished
      exact hjoin ⟨hcreation, hunfinished⟩
  · cases h

theorem step_take (h : s.step config (.take position) = some t) :
    s.busy = none ∧ ∃ queueItem rest,
      PriorityQueue.get QueueItem.priority s.queue position = some (queueItem, rest) ∧
        t = { s with queue := rest, busy := some queueItem } := by
  simp only [step] at h
  split at h
  · rename_i hidle
    obtain ⟨⟨queueItem, rest⟩, hget, rfl⟩ := Option.map_eq_some_iff.mp h
    exact ⟨hidle, queueItem, rest, hget, rfl⟩
  · cases h

theorem step_handle (h : s.step config .handle = some t) :
    s.stuck = false ∧ ∃ queueItem, s.busy = some queueItem ∧
      t = s.leave queueItem
        ((s.files queueItem.dataId).handle config.keepFilesOpen queueItem.item) := by
  simp only [step] at h
  split at h
  · cases h
  · rename_i hstuck
    obtain ⟨queueItem, hbusy, rfl⟩ := Option.map_eq_some_iff.mp h
    exact ⟨by simpa using hstuck, queueItem, hbusy, rfl⟩

end Inversion

/-! ## Where the items are -/

/-- The items that the write worker has not left yet, but for one that it waits in for ever. -/
def pending (s : WriteState) : List QueueItem :=
  s.front ++ (s.message.map Message.queueItem).toList ++ s.queue ++
    if s.stuck then [] else s.busy.toList

/-- A message belongs to the item that the front-end worker holds, and the write worker waits in
an item that it has taken. -/
structure Placed (s : WriteState) : Prop where
  idle : s.forwarding = none → s.message = none
  stuck : s.stuck = true → s.busy.isSome = true

/-- Steps that take an item from one place to another one. -/
def moves : WriteAction → Bool
  | .forward _ => true
  | .receive => true
  | .reply => true
  | .take _ => true
  | _ => false

section Places

variable {config : WriteConfig} {s t : WriteState} {a : WriteAction}

theorem placed_initial : Placed initial := ⟨fun _ => rfl, fun h => absurd h Bool.false_ne_true⟩

theorem Placed.put (h : Placed s) (queueItem : QueueItem) : Placed (s.put config queueItem) := by
  unfold WriteState.put
  split
  · exact ⟨h.idle, h.stuck⟩
  · exact ⟨h.idle, h.stuck⟩

theorem Placed.step (h : Placed s) (hstep : s.step config a = some t) : Placed t := by
  cases a with
  | put queueItem =>
      cases hstep
      exact h.put queueItem
  | remove dataId =>
      cases hstep
      exact ⟨h.idle, h.stuck⟩
  | forward position =>
      obtain ⟨-, queueItem, rest, -, rfl⟩ := step_forward hstep
      exact ⟨fun hidle => absurd hidle (Option.some_ne_none _), h.stuck⟩
  | sendRaises =>
      obtain ⟨queueItem, -, -, rfl⟩ := step_sendRaises hstep
      exact ⟨fun _ => rfl, h.stuck⟩
  | receive =>
      obtain ⟨message, -, rfl⟩ := step_receive hstep
      exact ⟨fun _ => rfl, h.stuck⟩
  | reply =>
      obtain ⟨queueItem, -, hmessage, -, rfl⟩ := step_reply hstep
      exact ⟨fun _ => hmessage, h.stuck⟩
  | take position =>
      obtain ⟨-, queueItem, rest, -, rfl⟩ := step_take hstep
      exact ⟨h.idle, fun _ => rfl⟩
  | handle =>
      obtain ⟨hstuck, queueItem, hbusy, rfl⟩ := step_handle hstep
      unfold leave
      split
      · exact ⟨h.idle, fun hs => absurd (hstuck.symm.trans hs) Bool.false_ne_true⟩
      · exact ⟨h.idle, fun hs => absurd (hstuck.symm.trans hs) Bool.false_ne_true⟩
      · exact ⟨h.idle, fun _ => by rw [hbusy]; rfl⟩

theorem pending_put (queueItem : QueueItem) :
    (s.put config queueItem).pending.Perm (queueItem :: s.pending) := by
  unfold WriteState.put pending
  split
  · simp only [List.append_assoc, List.cons_append, List.nil_append]
    exact List.perm_middle
  · simp only [List.append_assoc, List.cons_append, List.nil_append]
    rw [← List.append_assoc, ← List.append_assoc]
    exact List.perm_middle.trans (by simp)

/-- **Moves.**  Nothing is lost or changed on the way to the write worker. -/
theorem step_moves (h : Placed s) (hstep : s.step config a = some t) (ha : moves a = true) :
    t.pending.Perm s.pending ∧ t.files = s.files ∧ t.finished = s.finished := by
  cases a with
  | put queueItem => cases ha
  | remove dataId => cases ha
  | sendRaises => cases ha
  | handle => cases ha
  | forward position =>
      obtain ⟨hidle, queueItem, rest, hget, rfl⟩ := step_forward hstep
      refine ⟨?_, rfl, rfl⟩
      have hfront := PriorityQueue.perm_of_get hget
      simp only [pending, h.idle hidle, Option.map_some, Option.map_none, Option.toList_some,
        Option.toList_none, List.append_nil, QueueItem.queueItem_message]
      exact ((List.perm_append_singleton _ _).trans hfront.symm).append_right _ |>.append_right _
  | receive =>
      obtain ⟨message, hmessage, rfl⟩ := step_receive hstep
      refine ⟨?_, rfl, rfl⟩
      simp only [pending, hmessage, Option.map_some, Option.map_none, Option.toList_some,
        Option.toList_none, List.append_nil, List.append_assoc]
      exact (List.perm_append_comm_assoc ..).append_left _
  | reply =>
      obtain ⟨queueItem, -, -, -, rfl⟩ := step_reply hstep
      exact ⟨.refl _, rfl, rfl⟩
  | take position =>
      obtain ⟨hidle, queueItem, rest, hget, rfl⟩ := step_take hstep
      refine ⟨?_, rfl, rfl⟩
      have hstuck : s.stuck = false := by
        cases hs : s.stuck with
        | false => rfl
        | true =>
            have hbusy := h.stuck hs
            rw [hidle] at hbusy
            cases hbusy
      have hqueue := PriorityQueue.perm_of_get hget
      simp only [pending, hidle, hstuck, Option.toList_none, Option.toList_some, List.append_nil,
        List.append_assoc, Bool.false_eq_true, if_false]
      exact (((List.perm_append_singleton _ _).trans hqueue.symm).append_left _).append_left _

/-- The worker leaves an item, or waits in it for ever; other data are left alone. -/
theorem pending_handle (hstep : s.step config .handle = some t) :
    ∃ queueItem, s.busy = some queueItem ∧ s.pending.Perm (queueItem :: t.pending) ∧
      t.files = Function.update s.files queueItem.dataId
        ((s.files queueItem.dataId).handle config.keepFilesOpen queueItem.item).2 := by
  obtain ⟨hstuck, queueItem, hbusy, rfl⟩ := step_handle hstep
  have hleft : (s.leave queueItem
      ((s.files queueItem.dataId).handle config.keepFilesOpen queueItem.item)).pending =
        s.front ++ (s.message.map Message.queueItem).toList ++ s.queue := by
    unfold leave
    split <;> simp [pending, hstuck]
  refine ⟨queueItem, hbusy, ?_, ?_⟩
  · rw [hleft]
    simp only [pending, hbusy, hstuck, Option.toList_some, Bool.false_eq_true, if_false]
    exact List.perm_append_singleton _ _
  · unfold leave
    split <;> rfl

theorem finished_handle {queueItem : QueueItem} (hbusy : s.busy = some queueItem)
    (hdone : ((s.files queueItem.dataId).handle config.keepFilesOpen queueItem.item).1 = .done)
    (hstep : s.step config .handle = some t) :
    t.finished = (queueItem, 1) :: s.finished ∧ t.busy = none := by
  obtain ⟨-, other, hother, rfl⟩ := step_handle hstep
  rw [hbusy] at hother
  cases hother
  unfold leave
  rw [hdone]
  exact ⟨rfl, rfl⟩

theorem pending_sendRaises (hstep : s.step config .sendRaises = some t) :
    t.pending.Subperm s.pending ∧ t.files = s.files := by
  obtain ⟨queueItem, -, -, rfl⟩ := step_sendRaises hstep
  refine ⟨?_, rfl⟩
  simp only [pending, Option.map_none, Option.toList_none, List.append_nil]
  refine List.Sublist.subperm ?_
  refine List.Sublist.append_right (List.Sublist.append_right ?_ _) _
  exact List.sublist_append_left _ _

end Places

end WriteState

end ComputeWebApp.Api
