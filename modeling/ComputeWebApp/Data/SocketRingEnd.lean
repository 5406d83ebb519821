import Mathlib.Algebra.BigOperators.Group.Finset.Basic
import Mathlib.Algebra.Order.BigOperators.Group.Finset
import ComputeWebApp.Data.SocketRingLive

/-!
# The ring of processes on sockets comes to its end

Every run of the ring with a given number of workers, at least one, is finite, and it stops only
when the supplier, the workers and the aggregator have all finished: no order of the steps leads
into a dead end.

That a run is finite is told by a measure of what is left to do, which every step makes smaller
(`Live.left_lt`).  A byte that the supplier has to send is weighted with all the steps that it
takes on its way: ten while the worker has not read it, nine in the variables of the worker, seven
on the way to the aggregator, six in the variables of the thread.

That a run does not stop before its end is told by what each party waits for: the supplier for its
first client, a worker for bytes of which its end id is the last, a thread for those of its worker,
the aggregator for an entry of the queue (`Live.ended_of_stuck`).

At the end every dataset is in the output data or in the queue of the aggregator, where it has
come too late.
-/

namespace ComputeWebApp.Data

open Transition OrderedMap ByteStream DatasetAggregatorServerSocket

/-! ## Readers -/

namespace Reader

variable {reader reader' : Reader} {unread unread' rest : Bytes} {item : Item} {cut : ℕ}

/-- A receive call takes at least one byte. -/
theorem length_receive_lt (hfits : reader.Fits)
    (h : reader.receive cut unread = some (reader', unread')) : unread'.length < unread.length := by
  have hcall : ∀ {size : ℕ} {bytes rest : Bytes}, 0 < size →
      ByteStream.receive unread size cut = some (bytes, rest) → rest.length < unread.length := by
    intro size bytes rest hsize hreceive
    have hne : unread ≠ [] := by
      rintro rfl
      cases hreceive
    obtain ⟨bytes', rest', hreceive', hsplit, hpos, -⟩ := receive_spec cut hne hsize
    obtain ⟨rfl, rfl⟩ : bytes = bytes' ∧ rest = rest' := by
      simpa using hreceive.symm.trans hreceive'
    rw [hsplit, List.length_append]
    omega
  obtain ⟨stage, vars⟩ := reader
  have hstage := hfits.stage
  cases stage with
  | id =>
      obtain ⟨⟨bytes, rest⟩, hreceive, heq⟩ := Option.map_eq_some_iff.mp h
      cases heq
      exact hcall (by decide) hreceive
  | length =>
      obtain ⟨⟨bytes, rest⟩, hreceive, heq⟩ := Option.map_eq_some_iff.mp h
      cases heq
      exact hcall (by decide) hreceive
  | payload received =>
      obtain ⟨⟨bytes, rest⟩, hreceive, heq⟩ := Option.map_eq_some_iff.mp h
      cases heq
      exact hcall (Nat.sub_pos_of_lt hstage.2.1) hreceive
  | whole => cases h

/-- A reader that is not at the end of its round has a receive call, when the bytes of an item are
there. -/
theorem exists_receive (hfits : reader.Fits) (hitem : item.Valid)
    (hbytes : reader.consumed ++ unread = item.bytes ++ rest) (hstage : reader.stage ≠ .whole) :
    ∃ cut, reader.WholeHeader cut unread ∧ (reader.receive cut unread).isSome = true := by
  obtain ⟨stage, vars⟩ := reader
  obtain ⟨hid, hlength, hfit⟩ := hfits
  dsimp only at hid hlength hfit hstage
  have hcall : ∀ size cut : ℕ, 0 < unread.length →
      (ByteStream.receive unread size cut).isSome = true := by
    intro size cut hpos
    unfold ByteStream.receive
    rw [if_neg (List.ne_nil_of_length_pos hpos)]
    rfl
  -- after an id that is not the end id comes the length of a dataset
  have hdataset : ∀ more, vars.id ++ more = item.bytes ++ rest → wordValue vars.id ≠ endId →
      ∃ buffer : Bytes, buffer.length < 2 ^ 32 ∧
        more = word 4 buffer.length ++ (buffer ++ rest) := by
    intro more hmore hne
    cases item with
    | dataset id buffer =>
        refine ⟨buffer, hitem.2, ?_⟩
        rw [Item.bytes, List.append_assoc, List.append_assoc] at hmore
        exact (List.append_inj hmore (by rw [hid, length_word])).2
    | endSignal =>
        have hend := (List.append_inj hmore (by rw [hid]; rfl)).1
        rw [hend] at hne
        exact absurd (by decide) hne
  cases stage with
  | id =>
      have hunread : unread = item.bytes ++ rest := hbytes
      have henough : 4 ≤ unread.length := by
        obtain ⟨more, hmore⟩ := item.bytes_eq_append
        rw [hunread, hmore]
        simp only [List.length_append, length_word]
        omega
      refine ⟨4, fun _ => ⟨le_rfl, henough⟩, ?_⟩
      simp only [receive, Option.isSome_map]
      exact hcall 4 4 (by omega)
  | length =>
      obtain ⟨buffer, -, hmore⟩ := hdataset unread hbytes hfit
      have henough : 4 ≤ unread.length := by
        rw [hmore]
        simp only [List.length_append, length_word]
        omega
      refine ⟨4, fun _ => ⟨le_rfl, henough⟩, ?_⟩
      simp only [receive, Option.isSome_map]
      exact hcall 4 4 (by omega)
  | payload received =>
      obtain ⟨hne, hlt, hbuffer⟩ := hfit
      have hconsumed : vars.id ++ ((vars.length ++ vars.buffer.take received) ++ unread) =
          item.bytes ++ rest := by
        rw [← hbytes, consumed]
        simp only [List.append_assoc]
      obtain ⟨buffer, hsize, hmore⟩ := hdataset _ hconsumed hne
      have hfield : vars.length = word 4 buffer.length := by
        rw [List.append_assoc] at hmore
        exact (List.append_inj hmore (by rw [hlength, length_word])).1
      have hvalue : wordValue vars.length = buffer.length := by
        rw [hfield, wordValue_word (by simpa using hsize)]
      have htotal := congrArg List.length hmore
      simp only [List.length_append, List.length_take, length_word, hlength, hbuffer] at htotal
      refine ⟨1, ?_, ?_⟩
      · intro hheader
        rcases hheader with h | h <;> cases h
      · simp only [receive, Option.isSome_map]
        exact hcall _ 1 (by omega)
  | whole => exact absurd rfl hstage

/-- At the end of its round a reader has read the first item. -/
theorem item_eq (hfits : reader.Fits) (hitem : item.Valid)
    (hbytes : reader.consumed ++ unread = item.bytes ++ rest) (hstage : reader.stage = .whole) :
    reader.item = item := by
  obtain ⟨hvalid, hconsumed⟩ := bytes_item hfits hstage
  rw [← hconsumed] at hbytes
  exact (Item.eq_of_append_eq hvalid hitem hbytes).1

end Reader

/-! ## What is left to do -/

/-- What is left of a registration, with a weight for the call of the callback. -/
def HandlerStage.left (callback : ℕ) : HandlerStage → ℕ
  | accepting => 0
  | testing _ _ => 4 + callback
  | inserting _ _ => 3 + callback
  | calling _ _ => 2 + callback
  | counting _ => 1

theorem SocketServer.left_handle {server server' : SocketServer} {effect : HandlerEffect}
    (hhandle : server.handle = some (server', effect)) (callback : ℕ) :
    server'.handler.left callback < server.handler.left callback ∧
      ∀ c id, effect = .called c id →
        server'.handler.left callback + callback < server.handler.left callback := by
  rcases handle_cases hhandle with ⟨c, id, hhandler, rfl, rfl⟩ | ⟨c, id, hhandler, rfl, rfl⟩ |
    ⟨c, id, hhandler, -, rfl⟩ | ⟨c, hhandler, rfl, rfl⟩ <;> rw [hhandler]
  · refine ⟨?_, fun _ _ h => by cases h⟩
    by_cases hstop : server.stopRegistering = true <;> simp [hstop, HandlerStage.left]
  · exact ⟨by simp [HandlerStage.left], fun _ _ h => by cases h⟩
  · simp only [HandlerStage.left]
    exact ⟨by omega, fun _ _ _ => by omega⟩
  · exact ⟨by simp [HandlerStage.left], fun _ _ h => by cases h⟩

namespace SocketSupplier

variable (files : Files) (input : DataSupplyState) (ids : ℕ)

/-- The client ids above `last`, when all are smaller than `ids`. -/
def cursorLeft (last : Option ℕ) : ℕ := ids - (last.map (· + 1)).getD 0

/-- The weight of buffers that have to be sent. -/
def framesLeft (frames : List Bytes) : ℕ := 10 * frames.flatten.length + frames.length

/-- What is left of `Run` after the datasets of the queue. -/
def stageLeft : SupplierStage → ℕ
  | .grabbing => 41 * ids + 4
  | .waiting _ frame => 41 * ids + 4 + framesLeft frame + 3 + ids
  | .collecting _ frame clientIds =>
      41 * ids + 4 + framesLeft frame + 2 + cursorLeft ids clientIds.getLast?
  | .sending _ _ left => 41 * ids + 4 + framesLeft left + 1
  | .ending => 41 * ids + 3
  | .stopping => 41 * ids + 2
  | .sweeping last => 41 * cursorLeft ids last + 1
  | .finished => 0

/-- What is left of a dataset of the queue. -/
def datasetLeft (i : ℕ) : ℕ := framesLeft ((frame files input i).getD []) + ids + 4

def left (supplier : SocketSupplier) : ℕ :=
  stageLeft ids supplier.stage + (supplier.datasetsToProvide.map (datasetLeft files input ids)).sum +
    supplier.server.handler.left 40

variable {files input ids} {supplier next : SocketSupplier}

theorem cursorLeft_lt {last : Option ℕ} {id : ℕ} (hahead : Ahead last id) (hid : id < ids) :
    cursorLeft ids (some id) < cursorLeft ids last := by
  cases last with
  | none =>
      simp only [cursorLeft, Option.map_some, Option.getD_some, Option.map_none, Option.getD_none]
      omega
  | some l =>
      have hlt := hahead l rfl
      simp only [cursorLeft, Option.map_some, Option.getD_some]
      omega

/-- A step of `Run` brings it nearer to its end, also with the bytes that it sends. -/
theorem left_run (hids : ∀ id ∈ supplier.server.clientSockets, id < ids)
    (hrun : supplier.run files input = some next) :
    (next.sent = supplier.sent ∧ next.left files input ids < supplier.left files input ids) ∨
      ∃ c bytes, next.sent = sendTo supplier.sent c bytes ∧
        next.left files input ids + 10 * bytes.length < supplier.left files input ids := by
  obtain ⟨server, stage, queue, returned, sent⟩ := supplier
  cases stage with
  | grabbing =>
      cases queue with
      | nil =>
          cases hrun
          refine .inl ⟨rfl, ?_⟩
          simp only [left, stageLeft]
          omega
      | cons i rest =>
          obtain ⟨frame', hframe, rfl⟩ := Option.map_eq_some_iff.mp hrun
          refine .inl ⟨rfl, ?_⟩
          simp only [left, stageLeft, List.map_cons, List.sum_cons, datasetLeft, hframe,
            Option.getD_some]
          omega
  | waiting i frame' =>
      simp only [SocketSupplier.run] at hrun
      split at hrun
      · cases hrun
      · cases hrun
        refine .inl ⟨rfl, ?_⟩
        simp only [left, stageLeft, cursorLeft, List.getLast?_nil, Option.map_none,
          Option.getD_none]
        omega
  | collecting i frame' clientIds =>
      simp only [SocketSupplier.run] at hrun
      split at hrun
      · rename_i id hnext
        cases hrun
        obtain ⟨hmem, hahead, -⟩ := next?_eq_some hnext
        have hlt := cursorLeft_lt hahead (hids id hmem)
        refine .inl ⟨rfl, ?_⟩
        simp only [left, stageLeft, List.getLast?_concat]
        omega
      · obtain ⟨c, -, rfl⟩ := Option.map_eq_some_iff.mp hrun
        refine .inl ⟨rfl, ?_⟩
        simp only [left, stageLeft]
        omega
  | sending i c frames =>
      cases frames with
      | nil =>
          cases hrun
          refine .inl ⟨rfl, ?_⟩
          simp only [left, stageLeft]
          omega
      | cons bytes frames =>
          cases hrun
          refine .inr ⟨c, bytes, rfl, ?_⟩
          simp only [left, stageLeft, framesLeft, List.flatten_cons, List.length_append,
            List.length_cons]
          omega
  | ending =>
      cases hrun
      refine .inl ⟨rfl, ?_⟩
      simp only [left, stageLeft, SocketServer.setRegistrationCallback]
      omega
  | stopping =>
      cases hrun
      refine .inl ⟨rfl, ?_⟩
      simp only [left, stageLeft, SocketServer.stopRegistration, cursorLeft, Option.map_none,
        Option.getD_none]
      omega
  | sweeping last =>
      simp only [SocketSupplier.run] at hrun
      split at hrun
      · rename_i id hnext
        obtain ⟨c, -, rfl⟩ := Option.map_eq_some_iff.mp hrun
        obtain ⟨hmem, hahead, -⟩ := next?_eq_some hnext
        have hlt := cursorLeft_lt hahead (hids id hmem)
        have hend : endFrame.length = 4 := rfl
        refine .inr ⟨c, endFrame, rfl, ?_⟩
        simp only [left, stageLeft, sendEnd, hend]
        omega
      · cases hrun
        refine .inl ⟨rfl, ?_⟩
        simp only [left, stageLeft]
        omega
  | finished => cases hrun

end SocketSupplier

/-- What is left of `DataAggregator::Run` for the entry that it is at. -/
def PullStage.stepsLeft : PullStage → ℕ
  | pulling => 2
  | popping => 1
  | erasing _ => 4
  | checking => 3
  | stopping => 1
  | adding _ => 3
  | left => 0

namespace SocketAggregator

def left (aggregator : SocketAggregator) : ℕ :=
  aggregator.stage.stepsLeft + 5 * aggregator.datasets.length + aggregator.server.handler.left 0

theorem left_run {setting : AggregatorSetting} {aggregator next : SocketAggregator}
    (hrun : aggregator.run setting = some next) : next.left < aggregator.left := by
  have hhandler := (run_frame hrun).handler
  unfold SocketAggregator.run at hrun
  unfold left
  rw [hhandler]
  cases hstage : aggregator.stage with
  | pulling =>
      simp only [hstage] at hrun
      split at hrun <;> cases hrun
      simp only [PullStage.stepsLeft]
      omega
  | popping =>
      simp only [hstage] at hrun
      split at hrun
      · cases hrun
      · rename_i c dataset rest hqueue
        cases hrun
        simp only [hqueue, List.length_cons]
        split <;> simp only [PullStage.stepsLeft] <;> omega
  | erasing clientId =>
      simp only [hstage] at hrun
      cases hrun
      simp only [PullStage.stepsLeft]
      omega
  | checking =>
      simp only [hstage] at hrun
      cases hrun
      dsimp only
      split <;> simp only [PullStage.stepsLeft] <;> omega
  | stopping =>
      simp only [hstage] at hrun
      cases hrun
      simp only [PullStage.stepsLeft]
      omega
  | adding dataset =>
      simp only [hstage] at hrun
      cases hrun
      simp only [PullStage.stepsLeft]
      omega
  | left =>
      simp only [hstage] at hrun
      cases hrun

/-- The datasets that are in the queue, as they would be added to the output data. -/
def leftBehind (setting : AggregatorSetting) (aggregator : SocketAggregator) : List Dataset :=
  (datasetsOf aggregator.datasets).map fun entry => outputDataset setting entry.2.1 entry.2.2

theorem datasetsOf_append (first second : List (ℕ × DatasetStruct)) :
    datasetsOf (first ++ second) = datasetsOf first ++ datasetsOf second := by
  rw [datasetsOf, List.filter_append, List.map_append, datasetsOf, datasetsOf]

end SocketAggregator

namespace Connection

/-- What is left of what a worker has pushed. -/
def left (connection : Connection) : ℕ :=
  6 * connection.consumed.length +
    7 * (connection.unread.length + connection.sending.flatten.length) + connection.sending.length

variable {files : Files} {moved : Bytes → Bytes} {connection connection' : Connection}
  {delivered : List Item} {dataset : Option DatasetStruct}

theorem left_push {id : ℕ} {pushed : Dataset} {frame : List Bytes}
    (hframe : datasetFrame files pushed id = .ok frame)
    (hact : connection.act files moved (.push id pushed) = some (connection', dataset)) :
    connection'.left = connection.left + 7 * frame.flatten.length + frame.length := by
  obtain ⟨-, hsending, -, -, frame', buffer, hframe', -, rfl⟩ := act_push_eq_some hact
  obtain rfl : frame' = frame := by simpa using hframe'.symm.trans hframe
  have hconsumed : consumed { connection with
      sending := frame', pushed := connection.pushed ++ [(id, buffer)] } = connection.consumed := rfl
  simp only [left, hsending, hconsumed, List.flatten_nil, List.length_nil]
  omega

theorem left_pushEnd (hact : connection.act files moved .pushEnd = some (connection', dataset)) :
    connection'.left = connection.left + 29 := by
  obtain ⟨-, hsending, -, rfl⟩ := act_pushEnd_eq_some hact
  have hconsumed : consumed { connection with sending := [endFrame], ended := true } =
      connection.consumed := rfl
  have hend : [endFrame].flatten.length = 4 := rfl
  simp only [left, hsending, hconsumed, hend, List.flatten_nil, List.length_nil, List.length_cons]
  omega

theorem left_send (hact : connection.act files moved .send = some (connection', dataset)) :
    connection'.left < connection.left := by
  obtain ⟨-, bytes, left, hsending, rfl⟩ := act_send_eq_some hact
  have hconsumed : consumed { connection with
      sending := left, unread := connection.unread ++ bytes } = connection.consumed := rfl
  simp only [Connection.left, hsending, hconsumed, List.flatten_cons, List.length_append,
    List.length_cons]
  omega

theorem left_receive {cut : ℕ} (h : connection.Delivering delivered)
    (hintact : connection.Intact files (.receive cut))
    (hact : connection.act files moved (.receive cut) = some (connection', dataset)) :
    connection'.left < connection.left := by
  obtain ⟨-, thread, reader, unread, hthread, hrunning, hreceive, rfl⟩ := act_receive_eq_some hact
  have hfits := h.reader thread hthread
  have hlt := Reader.length_receive_lt hfits hreceive
  have hkept := congrArg List.length
    (Reader.consumed_receive hfits (hintact thread hthread) hreceive).2
  rw [List.length_append, List.length_append] at hkept
  have hbefore : connection.consumed = thread.reader.consumed := by
    rw [Connection.consumed, hthread]
    simp [hrunning]
  have hafter : consumed { connection with
      thread := some { thread with reader := reader }, unread := unread } = reader.consumed := by
    simp [Connection.consumed, hrunning]
  simp only [left, hbefore, hafter]
  omega

/-- An entry of the queue stands for at least four bytes. -/
theorem left_enqueue (h : connection.Delivering delivered)
    (hact : connection.act files moved .enqueue = some (connection', dataset)) :
    connection'.left + 5 < connection.left := by
  obtain ⟨thread, hthread, hrunning, hstage, -, rfl⟩ := act_enqueue_eq_some hact
  have hlength : 4 ≤ thread.reader.consumed.length := by
    obtain ⟨-, hbytes⟩ := Reader.bytes_item (h.reader thread hthread) hstage
    obtain ⟨more, hmore⟩ := thread.reader.item.bytes_eq_append
    rw [← hbytes, hmore, List.length_append, length_word]
    omega
  have hbefore : connection.consumed = thread.reader.consumed := by
    rw [Connection.consumed, hthread]
    simp [hrunning]
  have hafter : consumed { connection with
      thread := some (if wordValue thread.reader.vars.id = endId then { thread with finished := true }
        else { thread with reader := thread.reader.again moved }) } = [] := by
    by_cases hend : wordValue thread.reader.vars.id = endId <;>
      simp [Connection.consumed, hend, hrunning, Reader.again, Reader.consumed]
  simp only [left, hbefore, hafter, List.length_nil]
  omega

end Connection

/-! ### Sums over the workers -/

section Sums

variable {f g : ℕ → ℕ} {n c d : ℕ}

theorem sum_range_change (hc : c < n) (hne : ∀ w, w ≠ c → g w = f w) :
    ∑ w ∈ Finset.range n, g w + f c = ∑ w ∈ Finset.range n, f w + g c := by
  have hmem : c ∈ Finset.range n := Finset.mem_range.mpr hc
  have hrest : ∑ w ∈ (Finset.range n).erase c, g w = ∑ w ∈ (Finset.range n).erase c, f w :=
    Finset.sum_congr rfl fun w hw => hne w (Finset.ne_of_mem_erase hw)
  rw [← Finset.add_sum_erase _ g hmem, ← Finset.add_sum_erase _ f hmem, hrest]
  omega

theorem sum_range_le (hne : ∀ w, w ≠ c → g w = f w) (hc : g c ≤ f c + d) :
    ∑ w ∈ Finset.range n, g w ≤ ∑ w ∈ Finset.range n, f w + d := by
  by_cases hlt : c < n
  · have hchange := sum_range_change hlt hne
    omega
  · have hsame : ∑ w ∈ Finset.range n, g w = ∑ w ∈ Finset.range n, f w :=
      Finset.sum_congr rfl fun w hw => hne w fun heq => hlt (heq ▸ Finset.mem_range.mp hw)
    omega

end Sums

namespace SocketRing

variable (ring : SocketRing) (workers : ℕ)

def WorkerStage.left : WorkerStage → ℕ
  | starting => 51
  | registered => 6
  | pulling => 1
  | pushing => 2
  | ending => 1
  | finished => 0

/-- What is left of the loop of a worker for what was sent to it. -/
def Worker.left (sent : List Bytes) (worker : Worker) : ℕ :=
  worker.stage.left + 9 * worker.reader.consumed.length +
    10 * (sent.flatten.length - worker.read)

/-- What is left of the ring with the first `workers` workers; there are fewer client ids than
`2 * workers + 2`. -/
def left (s : State) : ℕ :=
  s.supplier.left ring.setting.files ring.input (2 * workers + 2) + s.aggregator.left +
    ∑ w ∈ Finset.range workers,
      ((s.workers w).left (s.supplier.sent w) + (s.aggregator.connections w).left)

variable {ring workers} {s t : State} {w : ℕ}

theorem Worker.left_sendTo (worker : Worker) (sent : List Bytes) (bytes : Bytes) :
    worker.left (sent ++ [bytes]) ≤ worker.left sent + 10 * bytes.length := by
  simp only [Worker.left, List.flatten_append, List.flatten_singleton, List.length_append]
  omega

variable (workers) in
theorem sum_sendTo_le (s : State) (c : ℕ) (bytes : Bytes) :
    ∑ w ∈ Finset.range workers, ((s.workers w).left (sendTo s.supplier.sent c bytes w) +
        (s.aggregator.connections w).left) ≤
      ∑ w ∈ Finset.range workers, ((s.workers w).left (s.supplier.sent w) +
        (s.aggregator.connections w).left) + 10 * bytes.length := by
  refine sum_range_le (c := c) (fun w hw => ?_) ?_
  · rw [sendTo, Function.update_of_ne hw]
  · have hle := (s.workers c).left_sendTo (s.supplier.sent c) bytes
    rw [sendTo, Function.update_self]
    omega

variable (ring) in
theorem left_setWorker (hw : w < workers) (s : State) (worker : Worker) :
    left ring workers (setWorker s w worker) + (s.workers w).left (s.supplier.sent w) =
      left ring workers s + worker.left (s.supplier.sent w) := by
  have hchange := sum_range_change
    (f := fun w => (s.workers w).left (s.supplier.sent w) + (s.aggregator.connections w).left)
    (g := fun other => (Function.update s.workers w worker other).left (s.supplier.sent other) +
      (s.aggregator.connections other).left)
    hw fun other hother => by simp only [Function.update_of_ne hother]
  simp only [Function.update_self] at hchange
  simp only [left, setWorker]
  omega

/-- A step of a connection, with what it appends to the queue. -/
theorem left_connection (hw : w < workers) {action : ConnectionAction}
    (hstep : aggregatorStep ring s (.connection w action) = some t) :
    ∃ connection dataset, (s.aggregator.connections w).act ring.setting.files ring.setting.moved
        action = some (connection, dataset) ∧ t.workers = s.workers ∧ t.supplier = s.supplier ∧
      left ring workers t + (s.aggregator.connections w).left =
        left ring workers s + connection.left + 5 * dataset.toList.length := by
  obtain ⟨_, haggregator, rfl⟩ := Option.map_eq_some_iff.mp hstep
  obtain ⟨connection, dataset, hact, rfl⟩ := SocketAggregator.step_connection haggregator
  refine ⟨connection, dataset, hact, rfl, rfl, ?_⟩
  have hchange := sum_range_change
    (f := fun w => (s.workers w).left (s.supplier.sent w) + (s.aggregator.connections w).left)
    (g := fun other => (s.workers other).left (s.supplier.sent other) +
      (Function.update s.aggregator.connections w connection other).left)
    hw fun other hother => by simp only [Function.update_of_ne hother]
  simp only [Function.update_self] at hchange
  simp only [left, SocketAggregator.left, List.length_append, List.length_map]
  omega

/-! ### Every step leaves less -/

/-- The ids in the map of the supplier. -/
theorem Live.ids_lt (h : Live ring workers s) {id : ℕ}
    (hid : id ∈ s.supplier.server.clientSockets) : id < 2 * workers + 2 :=
  Nat.lt_succ_of_le ((h.parts.supplierIds.keys_le hid).trans h.placed.nextClientId_le)

theorem Live.left_supplierStep (h : Live ring workers s) {b : SocketSupplier.Action}
    (hb : b = .handle ∨ b = .run) (hstep : supplierStep ring s b = some t) :
    left ring workers t < left ring workers s := by
  obtain ⟨_, hsupplier, rfl⟩ := Option.map_eq_some_iff.mp hstep
  rcases hb with rfl | rfl
  · obtain ⟨⟨server, effect⟩, hhandle, rfl⟩ := Option.map_eq_some_iff.mp hsupplier
    obtain ⟨hless, hcalled⟩ := SocketServer.left_handle hhandle 40
    dsimp only at hless hcalled
    cases effect with
    | silent =>
        simp only [left, SocketSupplier.left]
        omega
    | counted =>
        simp only [left, SocketSupplier.left]
        omega
    | called c id =>
        have hend : endFrame.length = 4 := rfl
        have hless := hcalled c id rfl
        have hsum := sum_sendTo_le workers s c endFrame
        simp only [left, SocketSupplier.left, SocketSupplier.sendEnd]
        omega
  · obtain ⟨next, hrun, rfl⟩ := Option.map_eq_some_iff.mp hsupplier
    rcases SocketSupplier.left_run (fun id hid => h.ids_lt hid) hrun with ⟨hsent, hless⟩ |
      ⟨c, bytes, hsent, hless⟩
    · simp only [left, hsent]
      omega
    · have hsum := sum_sendTo_le workers s c bytes
      simp only [left, hsent]
      omega

theorem Live.left_aggregatorHandle (h : Live ring workers s)
    (hstep : aggregatorStep ring s .handle = some t) :
    left ring workers t < left ring workers s := by
  obtain ⟨_, haggregator, rfl⟩ := Option.map_eq_some_iff.mp hstep
  obtain ⟨⟨server, effect⟩, hhandle, rfl⟩ := Option.map_eq_some_iff.mp haggregator
  obtain ⟨hless, -⟩ := SocketServer.left_handle hhandle 0
  dsimp only at hless
  cases effect with
  | silent =>
      simp only [left, SocketAggregator.left]
      omega
  | counted =>
      simp only [left, SocketAggregator.left]
      omega
  | called c id =>
      -- the client that gets its thread has sent nothing that is received
      have hcalling : s.aggregator.server.handler = .calling c id := by
        rcases SocketServer.handle_cases hhandle with ⟨_, _, _, heffect, _⟩ | ⟨_, _, _, heffect, _⟩ |
          ⟨c', id', hhandler, heffect, _⟩ | ⟨_, _, heffect, _⟩
        · cases heffect
        · cases heffect
        · split at heffect <;> cases heffect
          exact hhandler
        · cases heffect
      obtain ⟨-, hthread, -⟩ := h.parts.sound.registering.handler c (by rw [hcalling]; rfl)
      have hnone : (s.aggregator.connections c).thread = none := Option.map_eq_none_iff.mp hthread
      have hsame : ∀ w, ((SocketAggregator.onClientRegistered ring.setting
          { s.aggregator with server := server } c id).connections w).left =
            (s.aggregator.connections w).left := by
        intro w
        by_cases hw : w = c
        · subst hw
          simp [SocketAggregator.onClientRegistered, Connection.left, Connection.consumed, hnone,
            Reader.consumed]
        · simp [SocketAggregator.onClientRegistered, Function.update_of_ne hw]
      simp only [left]
      simp only [hsame]
      simp only [SocketAggregator.left, SocketAggregator.onClientRegistered]
      omega

theorem length_datasetFrame {files : Files} {dataset : Dataset} {id : ℕ} {frame : List Bytes}
    (h : datasetFrame files dataset id = .ok frame) : frame.length = 3 := by
  unfold datasetFrame at h
  cases hsize : dataset.getSize files with
  | error e => simp [hsize, bind, Except.bind] at h
  | ok size =>
      cases hbuffer : dataset.retrieveBuffer files with
      | error e => simp [hsize, hbuffer, bind, Except.bind] at h
      | ok buffer =>
          simp only [hsize, hbuffer, bind, Except.bind, pure, Except.pure, Except.ok.injEq] at h
          rw [← h]
          rfl

theorem consumed_nextPull (reader : Reader) : (nextPull reader).consumed = [] := rfl

/-- A worker has more left of an item that it has pulled than its connection has of the same item. -/
theorem Live.left_push (h : Live ring workers s) {w : ℕ} (hw : w < workers)
    (hstep : SocketRing.step ring s (.push w) = some t) :
    left ring workers t < left ring workers s := by
  have hworking := h.parts.working w
  simp only [SocketRing.step] at hstep
  split at hstep
  · rename_i hguard
    obtain ⟨hpulling, hwhole⟩ := hguard
    obtain ⟨hvalid, hbytes⟩ := Reader.bytes_item hworking.reader hwhole
    have hlength : 4 ≤ (s.workers w).reader.consumed.length := by
      obtain ⟨more, hmore⟩ := (s.workers w).reader.item.bytes_eq_append
      rw [← hbytes, hmore, List.length_append, length_word]
      omega
    split at hstep
    · obtain ⟨middle, hmiddle, rfl⟩ := Option.map_eq_some_iff.mp hstep
      obtain ⟨connection, dataset, hact, hworkers, hsupplier, hleft⟩ := left_connection hw hmiddle
      obtain rfl := (Connection.act_pushEnd_eq_some hact).1
      have hconnection := Connection.left_pushEnd hact
      have hworker := left_setWorker ring hw middle
        { s.workers w with stage := .ending, reader := nextPull (s.workers w).reader }
      rw [hworkers, hsupplier] at hworker
      simp only [Worker.left, consumed_nextPull, hpulling, WorkerStage.left, List.length_nil,
        Option.toList_none] at hworker hleft
      omega
    · rename_i id buffer hitem
      obtain ⟨middle, hmiddle, rfl⟩ := Option.map_eq_some_iff.mp hstep
      obtain ⟨connection, entry, hact, hworkers, hsupplier, hleft⟩ := left_connection hw hmiddle
      obtain ⟨rfl, -, -, -, frame, content, hframe, hcontent, -⟩ :=
        Connection.act_push_eq_some hact
      obtain rfl := retrieveBuffer_retainBuffer hworking.data hcontent
      rw [hitem] at hvalid hbytes
      have hconnection := Connection.left_push hframe hact
      rw [flatten_datasetFrame hframe hcontent hvalid.2, hbytes, length_datasetFrame hframe]
        at hconnection
      have hworker := left_setWorker ring hw middle
        { s.workers w with
          stage := .pushing
          reader := nextPull (s.workers w).reader
          dataset := ((s.workers w).dataset.setId (datasetName id)).retainBuffer content
          pulled := (s.workers w).pulled ++ [(id, content)] }
      rw [hworkers, hsupplier] at hworker
      simp only [Worker.left, consumed_nextPull, hpulling, WorkerStage.left, List.length_nil,
        Option.toList_none] at hworker hleft
      omega
  · cases hstep

/-- The steps of a connection in which the worker does not push. -/
theorem Live.left_connectionStep (h : Live ring workers s) {w : ℕ} (hw : w < workers)
    {action : ConnectionAction} (hquiet : action = .send ∨ action = .enqueue ∨ ∃ cut,
      action = .receive cut ∧
        (s.aggregator.connections w).Intact ring.setting.files (.receive cut))
    (hstep : aggregatorStep ring s (.connection w action) = some t) :
    left ring workers t < left ring workers s := by
  obtain ⟨connection, dataset, hact, -, -, hleft⟩ := left_connection hw hstep
  have hdelivering := h.parts.sound.delivered w
  rcases hquiet with rfl | rfl | ⟨cut, rfl, hintact⟩
  · have hless := Connection.left_send hact
    obtain rfl := (Connection.act_send_eq_some hact).1
    rw [Option.toList_none, List.length_nil] at hleft
    omega
  · have hless := Connection.left_enqueue hdelivering hact
    have hone : dataset.toList.length ≤ 1 := by cases dataset <;> simp
    omega
  · have hless := Connection.left_receive hdelivering hintact hact
    obtain rfl := (Connection.act_receive_eq_some hact).1
    rw [Option.toList_none, List.length_nil] at hleft
    omega

/-- **Every step of the ring leaves less to do.** -/
theorem Live.left_lt (h : Live ring workers s) {a : Action} (ha : a.Of workers)
    (hstep : SocketRing.step ring s a = some t) : left ring workers t < left ring workers s := by
  cases a with
  | supplierHandle => exact h.left_supplierStep (.inl rfl) hstep
  | supplierRun => exact h.left_supplierStep (.inr rfl) hstep
  | aggregatorHandle => exact h.left_aggregatorHandle hstep
  | aggregatorRun =>
      obtain ⟨_, haggregator, rfl⟩ := Option.map_eq_some_iff.mp hstep
      obtain ⟨next, hrun, rfl⟩ := Option.map_eq_some_iff.mp haggregator
      have hless := SocketAggregator.left_run hrun
      dsimp only at hless
      simp only [left, (SocketAggregator.run_frame hrun).connections]
      omega
  | threadEnqueue w => exact h.left_connectionStep (ha w rfl) (.inr (.inl rfl)) hstep
  | send w => exact h.left_connectionStep (ha w rfl) (.inl rfl) hstep
  | threadReceive w cut =>
      simp only [SocketRing.step] at hstep
      split at hstep
      · rename_i hintact
        exact h.left_connectionStep (ha w rfl) (.inr (.inr ⟨cut, rfl, hintact⟩)) hstep
      · cases hstep
  | connectSupplier w =>
      simp only [SocketRing.step] at hstep
      split at hstep
      · rename_i hstarting
        obtain ⟨middle, hmiddle, rfl⟩ := Option.map_eq_some_iff.mp hstep
        obtain ⟨_, hsupplier, rfl⟩ := Option.map_eq_some_iff.mp hmiddle
        obtain ⟨server, haccept, rfl⟩ := Option.map_eq_some_iff.mp hsupplier
        obtain ⟨hhandler, -, rfl⟩ := SocketServer.accept_eq_some haccept
        have hworker := left_setWorker ring (ha w rfl) s
          { s.workers w with stage := .registered }
        dsimp only at hhandler
        simp only [left, setWorker, Worker.left, hstarting, WorkerStage.left, SocketSupplier.left,
          hhandler, HandlerStage.left] at hworker ⊢
        omega
      · cases hstep
  | connectAggregator w =>
      simp only [SocketRing.step] at hstep
      split at hstep
      · rename_i hregistered
        obtain ⟨middle, hmiddle, rfl⟩ := Option.map_eq_some_iff.mp hstep
        obtain ⟨_, haggregator, rfl⟩ := Option.map_eq_some_iff.mp hmiddle
        obtain ⟨server, haccept, rfl⟩ := Option.map_eq_some_iff.mp haggregator
        obtain ⟨hhandler, -, rfl⟩ := SocketServer.accept_eq_some haccept
        have hworker := left_setWorker ring (ha w rfl) s
          { s.workers w with stage := .pulling }
        dsimp only at hhandler
        simp only [left, setWorker, Worker.left, hregistered, WorkerStage.left,
          SocketAggregator.left, hhandler, HandlerStage.left] at hworker ⊢
        omega
      · cases hstep
  | receive w cut =>
      simp only [SocketRing.step] at hstep
      split at hstep
      · rename_i hguard
        obtain ⟨⟨reader, rest⟩, hreceive, rfl⟩ := Option.map_eq_some_iff.mp hstep
        have hworking := h.parts.working w
        have hless := Reader.length_receive_lt hworking.reader hreceive
        have hkept := congrArg List.length
          (Reader.consumed_receive hworking.reader hguard.2 hreceive).2
        have hworker := left_setWorker ring (ha w rfl) s
          { s.workers w with
            reader := reader
            read := (s.supplier.sent w).flatten.length - rest.length }
        rw [List.length_append, List.length_append] at hkept
        simp only [unread, List.length_drop] at hless hkept
        simp only [Worker.left] at hworker
        dsimp only
        omega
      · cases hstep
  | push w => exact h.left_push (ha w rfl) hstep
  | finishPush w =>
      simp only [SocketRing.step] at hstep
      split at hstep
      · split at hstep
        · rename_i hpushing
          cases hstep
          have hworker := left_setWorker ring (ha w rfl) s { s.workers w with stage := .pulling }
          simp only [Worker.left, hpushing, WorkerStage.left] at hworker
          omega
        · rename_i hending
          cases hstep
          have hworker := left_setWorker ring (ha w rfl) s { s.workers w with stage := .finished }
          simp only [Worker.left, hending, WorkerStage.left] at hworker
          omega
        · cases hstep
      · cases hstep

/-! ## No dead end -/

variable (ring) in
/-- The content of every input dataset can be retrieved and is not empty: a worker that receives an
empty dataset has nothing to push. -/
def Readable : Prop :=
  ∀ i < ring.input.datasets.length, ∃ content, ring.content i = some content ∧ content ≠ []

variable (ring workers) in
/-- No step is possible. -/
def Stuck (s : State) : Prop := ∀ a : Action, a.Of workers → SocketRing.step ring s a = none

theorem Readable.frame (hreadable : ring.Readable) {i : ℕ} (hi : i < ring.input.datasets.length) :
    (SocketSupplier.frame ring.setting.files ring.input i).isSome = true := by
  obtain ⟨content, hcontent, -⟩ := hreadable i hi
  obtain ⟨dataset, hdataset, hbuffer⟩ := Option.bind_eq_some_iff.mp hcontent
  have hok : dataset.retrieveBuffer ring.setting.files = .ok content := by
    cases h : dataset.retrieveBuffer ring.setting.files with
    | error e => simp [h, Except.toOption] at hbuffer
    | ok value => simpa [h, Except.toOption] using hbuffer
  rw [SocketSupplier.frame, hdataset, Option.bind_some]
  simp [datasetFrame, Dataset.getSize_of_retrieveBuffer hok, hok, bind, Except.bind, pure,
    Except.pure, Except.toOption]

theorem accepting_of_handle {server : SocketServer} (h : server.handle = none) :
    server.handler = .accepting := by
  unfold SocketServer.handle at h
  split at h <;> first | assumption | cases h

/-- The items that are not at the front of a stream that has an end, when the end is not there. -/
theorem exists_next {front items : List Item} (hfront : front <+: items)
    (hend : .endSignal ∈ items) (hnone : .endSignal ∉ front) :
    ∃ first rest, items = front ++ first :: rest := by
  obtain ⟨rest, rfl⟩ := hfront
  cases rest with
  | nil => exact absurd (by simpa using hend) hnone
  | cons first rest => exact ⟨first, rest, rfl⟩

variable (ring) in
/-- What is sent to a worker when the supplier has finished. -/
def itemsTo (returned : List (ℕ × ℕ)) (ends : ℕ → ℕ) (w : ℕ) : List Item :=
  (pushedTo returned w).map ring.inputItem ++ List.replicate (ends w) .endSignal

theorem sent_of_finished (hshort : ring.Short) {supplier : SocketSupplier} {begun : ℕ → List Bytes}
    {ends : ℕ → ℕ}
    (h : SocketSupplier.Supplied ring.setting.files ring.input begun ends supplier)
    (hfinished : supplier.stage = .finished) (w : ℕ) :
    (∀ item ∈ ring.itemsTo supplier.returned ends w, item.Valid) ∧
      (supplier.sent w).flatten = (ring.itemsTo supplier.returned ends w).flatMap Item.bytes := by
  obtain ⟨hvalid, hflatten⟩ := flatten_framesTo hshort w h.frames
  have hbegun : begun w = [] := by
    have hbegun := h.begun
    rw [hfinished] at hbegun
    exact hbegun w
  refine ⟨fun item hitem => ?_, ?_⟩
  · rcases List.mem_append.mp hitem with hitem | hitem
    · obtain ⟨i, hi, rfl⟩ := List.mem_map.mp hitem
      exact hvalid i hi
    · rw [List.eq_of_mem_replicate hitem]
      trivial
  · rw [h.sent w, hbegun, List.append_nil, List.flatten_append, hflatten, flatten_endFrames,
      itemsTo, List.flatMap_append]

/-- The datasets that were sent are those of the input. -/
theorem mem_range_of_pushedTo {supplier : SocketSupplier} {begun : ℕ → List Bytes} {ends : ℕ → ℕ}
    (h : SocketSupplier.Supplied ring.setting.files ring.input begun ends supplier) {w i : ℕ}
    (hi : i ∈ pushedTo supplier.returned w) : i < ring.input.datasets.length := by
  have horder := h.order
  rw [ring.input.datasetsToProvide_eq.1] at horder
  obtain ⟨push, hpush, rfl⟩ := List.mem_map.mp hi
  refine List.mem_range.mp (horder ▸ List.mem_append_left _ ?_)
  exact List.mem_map_of_mem (List.mem_filter.mp hpush).1

/-- A dataset with a buffer can be pushed. -/
theorem isSome_push (files : Files) {connection : Connection} (dataset : Dataset) {id : ℕ}
    {buffer : Bytes} (hsending : connection.sending = []) (hended : connection.ended = false)
    (hid : id < endId) (hbuffer : buffer ≠ []) :
    (connection.push files id (dataset.retainBuffer buffer)).isSome = true := by
  simp [Connection.push, hsending, hended, hid, datasetFrame, Dataset.getSize, Dataset.retrieveBuffer,
    Dataset.retainBuffer, hbuffer, bind, Except.bind, pure, Except.pure]

theorem of_server {a : Action} (ha : a.worker? = none) : a.Of workers := by
  intro w hw
  rw [ha] at hw
  cases hw

theorem of_worker {a : Action} {w : ℕ} (ha : a.worker? = some w) (hw : w < workers) :
    a.Of workers := by
  intro other hother
  rw [ha] at hother
  cases hother
  exact hw

section Stuck

variable (hlive : Live ring workers s) (hstuck : Stuck ring workers s)

include hstuck

theorem supplier_accepting_of_stuck : s.supplier.server.handler = .accepting := by
  have hnone := hstuck .supplierHandle (of_server rfl)
  simp only [SocketRing.step, supplierStep, SocketSupplier.step, Option.map_eq_none_iff] at hnone
  exact accepting_of_handle hnone

theorem aggregator_accepting_of_stuck : s.aggregator.server.handler = .accepting := by
  have hnone := hstuck .aggregatorHandle (of_server rfl)
  simp only [SocketRing.step, aggregatorStep, SocketAggregator.step,
    Option.map_eq_none_iff] at hnone
  exact accepting_of_handle hnone

include hlive

/-- Every worker has registered with both servers. -/
theorem registered_of_stuck {w : ℕ} (hw : w < workers) :
    (s.workers w).stage ≠ .starting ∧ (s.workers w).stage ≠ .registered := by
  have hstarted : (s.workers w).stage ≠ .starting := by
    intro hstarting
    have hfresh : w ∉ s.supplier.server.accepted := fun hmem =>
      (hlive.placed.supplier w).mp hmem hstarting
    have hnone := hstuck (.connectSupplier w) (of_worker rfl hw)
    simp [SocketRing.step, supplierStep, SocketSupplier.step, SocketServer.accept, hstarting, hfresh,
      supplier_accepting_of_stuck hstuck] at hnone
  refine ⟨hstarted, fun hregistered => ?_⟩
  have hfresh : w ∉ s.aggregator.server.accepted := fun hmem =>
    ((hlive.placed.aggregator w).mp hmem).2 hregistered
  have hnone := hstuck (.connectAggregator w) (of_worker rfl hw)
  simp [SocketRing.step, aggregatorStep, SocketAggregator.step, SocketServer.accept, hregistered,
    hfresh, aggregator_accepting_of_stuck hstuck] at hnone

/-- The supplier waits only for its first client, and every worker is one. -/
theorem supplier_finished_of_stuck (hreadable : ring.Readable) (hpos : 0 < workers) :
    s.supplier.stage = .finished := by
  obtain ⟨begun, ends, hsupplied, hanswered⟩ := hlive.parts.supplied
  have hnone := hstuck .supplierRun (of_server rfl)
  simp only [SocketRing.step, supplierStep, SocketSupplier.step, Option.map_eq_none_iff,
    SocketSupplier.run] at hnone
  cases hstage : s.supplier.stage with
  | grabbing =>
      simp only [hstage] at hnone
      cases hqueue : s.supplier.datasetsToProvide with
      | nil => simp [hqueue] at hnone
      | cons i rest =>
          have hi : i < ring.input.datasets.length := by
            have horder := hsupplied.order
            rw [ring.input.datasetsToProvide_eq.1, hqueue] at horder
            exact List.mem_range.mp (horder ▸ by simp)
          have hframe := hreadable.frame hi
          simp only [hqueue, Option.map_eq_none_iff] at hnone
          rw [hnone] at hframe
          cases hframe
  | waiting i frame =>
      simp only [hstage] at hnone
      have haccepted := (hlive.placed.supplier 0).mpr (registered_of_stuck hlive hstuck hpos).1
      have hholds := hanswered.registered 0 haccepted (by
        simp [supplier_accepting_of_stuck hstuck, HandlerStage.unanswered])
      rcases hholds with hends | ⟨id, hid⟩
      · have hset := hsupplied.ends 0 hends
        rw [hstage] at hset
        cases hset
      · split at hnone
        · rename_i hempty
          rw [getElem?_of_isEmpty hempty] at hid
          cases hid
        · cases hnone
  | collecting i frame clientIds =>
      obtain ⟨hempty, hids⟩ := hlive.parts.addressed.collecting i frame clientIds hstage
      simp only [hstage] at hnone
      split at hnone
      · cases hnone
      · rename_i hnext
        -- the ids of all clients are collected
        have hne : clientIds ≠ [] := by
          rintro rfl
          obtain ⟨id, hid⟩ := Std.TreeMap.isEmpty_eq_false_iff_exists_mem.mp hempty
          exact next?_eq_none hnext id hid (by simp [Ahead])
        have hlt : i % clientIds.length < clientIds.length :=
          Nat.mod_lt _ (List.length_pos_of_ne_nil hne)
        have hmem := hids _ (List.getElem_mem hlt)
        rw [Std.TreeMap.mem_iff_isSome_getElem?, Option.isSome_iff_exists] at hmem
        obtain ⟨c, hc⟩ := hmem
        simp [List.getElem?_eq_getElem hlt, hc] at hnone
  | sending i c frames =>
      simp only [hstage] at hnone
      cases frames <;> simp at hnone
  | ending => simp [hstage] at hnone
  | stopping => simp [hstage] at hnone
  | sweeping last =>
      simp only [hstage] at hnone
      split at hnone
      · rename_i id hnext
        have hmem := (next?_eq_some hnext).1
        rw [Std.TreeMap.mem_iff_isSome_getElem?, Option.isSome_iff_exists] at hmem
        obtain ⟨c, hc⟩ := hmem
        simp [hc] at hnone
      · cases hnone
  | finished => rfl

/-- The supplier has sent the end id to every worker. -/
theorem ends_of_stuck {ends : ℕ → ℕ}
    (hanswered : SocketSupplier.Answered ends s.supplier)
    (hfinished : s.supplier.stage = .finished) {w : ℕ} (hw : w < workers) : ends w ≠ 0 := by
  have hsupplier := supplier_accepting_of_stuck hstuck
  have haccepted := (hlive.placed.supplier w).mpr (registered_of_stuck hlive hstuck hw).1
  rcases hanswered.registered w haccepted (by
      simp [hsupplier, HandlerStage.unanswered]) with hends | ⟨id, hid⟩
  · exact hends
  · rcases hanswered.swept id w hid (by rw [hfinished]; trivial) with hends | ⟨_, hcalling⟩
    · exact hends
    · rw [hsupplier] at hcalling
      cases hcalling

/-- A worker in `PullDataset` has an item to read, the last one being the end. -/
theorem exists_item_of_stuck (hshort : ring.Short) (hreadable : ring.Readable) {w : ℕ}
    (hw : w < workers) (hpulling : (s.workers w).stage = .pulling) :
    ∃ (first : Item) (rest : Bytes), first.Valid ∧
      (s.workers w).reader.consumed ++ unread s w = first.bytes ++ rest ∧
      ∀ id buffer, first = .dataset id buffer → id < endId ∧ buffer ≠ [] := by
  have hfinished := supplier_finished_of_stuck hlive hstuck hreadable (Nat.zero_lt_of_lt hw)
  have hworking := hlive.parts.working w
  obtain ⟨begun, ends, hsupplied, hanswered⟩ := hlive.parts.supplied
  have hends := ends_of_stuck hlive hstuck hanswered hfinished hw
  obtain ⟨hvalid, hsent⟩ := sent_of_finished hshort hsupplied hfinished w
  -- the end id is not among the items that were pulled
  have hitems : (s.workers w).items = (s.workers w).pulled.map fun push =>
      Item.dataset push.1 push.2 := by
    rw [Worker.items, hpulling]
    exact List.append_nil _
  have hfront : (s.workers w).items <+: ring.itemsTo s.supplier.returned ends w :=
    prefix_of_flatMap_bytes hworking.valid hvalid ⟨_, hworking.bytes.trans hsent⟩
  obtain ⟨first, rest, hsplit⟩ := exists_next hfront
    (List.mem_append_right _ (List.mem_replicate.mpr ⟨hends, rfl⟩)) (by rw [hitems]; simp)
  have hmem : first ∈ ring.itemsTo s.supplier.returned ends w := by
    rw [hsplit]
    simp
  refine ⟨first, rest.flatMap Item.bytes, hvalid first hmem, ?_, ?_⟩
  · have htotal := hworking.bytes.trans hsent
    rw [hsplit, List.flatMap_append, List.flatMap_cons] at htotal
    exact List.append_cancel_left htotal
  · rintro id buffer rfl
    rcases List.mem_append.mp hmem with hmem | hmem
    · obtain ⟨i, hi, heq⟩ := List.mem_map.mp hmem
      have hlt := mem_range_of_pushedTo hsupplied hi
      obtain ⟨content, hcontent, hne⟩ := hreadable i hlt
      rw [inputItem, hcontent, Option.getD_some] at heq
      cases heq
      exact ⟨ring.input.lt_endId hlt, hne⟩
    · cases List.eq_of_mem_replicate hmem

/-- What a worker has pulled it can push. -/
theorem not_pulling_of_stuck (hshort : ring.Short) (hreadable : ring.Readable) {w : ℕ}
    (hw : w < workers) : (s.workers w).stage ≠ .pulling := by
  intro hpulling
  obtain ⟨first, rest, hvalid, hbytes, hinput⟩ :=
    exists_item_of_stuck hlive hstuck hshort hreadable hw hpulling
  have hworking := hlive.parts.working w
  have haccepted := (hlive.placed.aggregator w).mpr (registered_of_stuck hlive hstuck hw)
  by_cases hwhole : (s.workers w).reader.stage = .whole
  · have hitem := Reader.item_eq hworking.reader hvalid hbytes hwhole
    have hsending : (s.aggregator.connections w).sending = [] :=
      hlive.placed.quiet w (by simp [hpulling]) (by simp [hpulling])
    have hopen : (s.aggregator.connections w).ended = false := by
      rw [hworking.ended, hpulling]
      rfl
    have hnone := hstuck (.push w) (of_worker rfl hw)
    simp only [SocketRing.step, hpulling, hwhole, and_self, if_true, hitem] at hnone
    cases first with
    | endSignal =>
        simp [aggregatorStep, SocketAggregator.step, haccepted, Connection.act, Connection.pushEnd,
          hsending, hopen] at hnone
    | dataset id buffer =>
        obtain ⟨hid, hbuffer⟩ := hinput id buffer rfl
        obtain ⟨connection, hpush⟩ := Option.isSome_iff_exists.mp
          (isSome_push ring.setting.files ((s.workers w).dataset.setId (datasetName id)) hsending
            hopen hid hbuffer)
        simp [aggregatorStep, SocketAggregator.step, haccepted, Connection.act, hpush] at hnone
  · obtain ⟨cut, hheader, hreceive⟩ :=
      Reader.exists_receive hworking.reader hvalid hbytes hwhole
    obtain ⟨next, hnext⟩ := Option.isSome_iff_exists.mp hreceive
    have hnone := hstuck (.receive w cut) (of_worker rfl hw)
    simp [SocketRing.step, hpulling, hheader, hnext] at hnone

theorem sending_of_stuck {w : ℕ} (hw : w < workers) :
    (s.aggregator.connections w).sending = [] := by
  cases hsending : (s.aggregator.connections w).sending with
  | nil => rfl
  | cons bytes left =>
      have haccepted := (hlive.placed.aggregator w).mpr (registered_of_stuck hlive hstuck hw)
      have hnone := hstuck (.send w) (of_worker rfl hw)
      simp [SocketRing.step, aggregatorStep, SocketAggregator.step, haccepted, Connection.act,
        Connection.send, hsending] at hnone

theorem worker_finished_of_stuck (hshort : ring.Short) (hreadable : ring.Readable) {w : ℕ}
    (hw : w < workers) : (s.workers w).stage = .finished := by
  obtain ⟨hstarting, hregistered⟩ := registered_of_stuck hlive hstuck hw
  have hsending := sending_of_stuck hlive hstuck hw
  have hnone := hstuck (.finishPush w) (of_worker rfl hw)
  cases hstage : (s.workers w).stage with
  | starting => exact absurd hstage hstarting
  | registered => exact absurd hstage hregistered
  | pulling => exact absurd hstage (not_pulling_of_stuck hlive hstuck hshort hreadable hw)
  | pushing => simp [SocketRing.step, hsending, hstage] at hnone
  | ending => simp [SocketRing.step, hsending, hstage] at hnone
  | finished => rfl

/-- A thread waits for the end of its worker. -/
theorem delivered_of_stuck (hshort : ring.Short) (hreadable : ring.Readable) {w : ℕ}
    (hw : w < workers) :
    (s.aggregator.connections w).ended = true ∧
      SocketAggregator.itemsFrom (s.aggregator.pulled ++ s.aggregator.datasets) w =
        (s.aggregator.connections w).items := by
  have hended : (s.aggregator.connections w).ended = true := by
    rw [(hlive.parts.working w).ended, worker_finished_of_stuck hlive hstuck hshort hreadable hw]
    rfl
  have hdelivering := hlive.parts.sound.delivered w
  have haccepted := (hlive.placed.aggregator w).mpr (registered_of_stuck hlive hstuck hw)
  have hsending := sending_of_stuck hlive hstuck hw
  obtain ⟨thread, hthread⟩ := Option.isSome_iff_exists.mp (hlive.parts.closing.started w haccepted
    (by simp [aggregator_accepting_of_stuck hstuck, HandlerStage.unanswered]))
  have hiff := hlive.parts.closing.finished w thread hthread
  refine ⟨hended, ?_⟩
  by_cases hend : .endSignal ∈
      SocketAggregator.itemsFrom (s.aggregator.pulled ++ s.aggregator.datasets) w
  · exact (Connection.eq_items_of_endSignal_mem hdelivering.isFront hend).1
  · exfalso
    have hrunning : thread.finished = false :=
      Bool.eq_false_of_not_eq_true fun hfinished => hend (hiff.mp hfinished)
    obtain ⟨first, rest, hsplit⟩ := exists_next hdelivering.isFront
      (by rw [Connection.items, hended]; simp) hend
    have hvalid : first.Valid := hdelivering.items_valid first (by rw [hsplit]; simp)
    have hbytes : thread.reader.consumed ++ (s.aggregator.connections w).unread =
        first.bytes ++ rest.flatMap Item.bytes := by
      have htotal := hdelivering.bytes
      rw [hsplit, List.flatMap_append, List.flatMap_cons, hsending] at htotal
      simpa [Connection.consumed, hthread, hrunning] using htotal
    by_cases hwhole : thread.reader.stage = .whole
    · have hnone := hstuck (.threadEnqueue w) (of_worker rfl hw)
      simp [SocketRing.step, aggregatorStep, SocketAggregator.step, haccepted, Connection.act,
        Connection.enqueue, hthread, hrunning, hwhole] at hnone
    · obtain ⟨cut, hheader, hreceive⟩ :=
        Reader.exists_receive (hdelivering.reader thread hthread) hvalid hbytes hwhole
      obtain ⟨next, hnext⟩ := Option.isSome_iff_exists.mp hreceive
      have hintact : (s.aggregator.connections w).Intact ring.setting.files (.receive cut) := by
        intro other hother
        rw [hthread] at hother
        cases hother
        exact hheader
      have hnone := hstuck (.threadReceive w cut) (of_worker rfl hw)
      simp [SocketRing.step, hintact, aggregatorStep, SocketAggregator.step, haccepted,
        Connection.act, Connection.receive, hthread, hrunning, hnext] at hnone

theorem thread_finished_of_stuck (hshort : ring.Short) (hreadable : ring.Readable) {w : ℕ}
    (hw : w < workers) :
    (s.aggregator.connections w).thread.any ClientThread.finished = true := by
  obtain ⟨hended, hdelivered⟩ := delivered_of_stuck hlive hstuck hshort hreadable hw
  have haccepted := (hlive.placed.aggregator w).mpr (registered_of_stuck hlive hstuck hw)
  obtain ⟨thread, hthread⟩ := Option.isSome_iff_exists.mp (hlive.parts.closing.started w haccepted
    (by simp [aggregator_accepting_of_stuck hstuck, HandlerStage.unanswered]))
  rw [hthread, Option.any_some]
  refine (hlive.parts.closing.finished w thread hthread).mpr ?_
  rw [hdelivered, Connection.items, hended]
  simp

/-- The aggregator waits for an entry of its queue, unless it has left. -/
theorem aggregator_left_of_stuck (hshort : ring.Short) (hreadable : ring.Readable)
    (hpos : 0 < workers) : s.aggregator.stage = .left := by
  have hclosing := hlive.parts.closing
  have hnone := hstuck .aggregatorRun (of_server rfl)
  simp only [SocketRing.step, aggregatorStep, SocketAggregator.step, Option.map_eq_none_iff,
    SocketAggregator.run] at hnone
  cases hstage : s.aggregator.stage with
  | pulling =>
      simp only [hstage] at hnone
      split at hnone
      · rename_i hqueue
        -- every end was pulled, so that no client is left in the map
        have hpulled : ∀ w < workers,
            .endSignal ∈ SocketAggregator.itemsFrom s.aggregator.pulled w := by
          intro w hw
          obtain ⟨hended, hdelivered⟩ := delivered_of_stuck hlive hstuck hshort hreadable hw
          rw [hqueue, List.append_nil] at hdelivered
          rw [hdelivered, Connection.items, hended]
          simp
        rcases hclosing.opened (.inl (by simp [hstage])) with hempty | hnothing
        · obtain ⟨id, hid⟩ := Std.TreeMap.isEmpty_eq_false_iff_exists_mem.mp hempty
          rw [Std.TreeMap.mem_iff_isSome_getElem?, Option.isSome_iff_exists] at hid
          obtain ⟨c, hc⟩ := hid
          obtain ⟨hinserted, -, hend⟩ := hclosing.mapped id c hc
          have haccepted := hlive.parts.sound.registering.inserted c hinserted
          have hwithin := hlive.placed.within c ((hlive.placed.aggregator c).mp haccepted).1
          exact absurd (hpulled c hwithin) (hend (by simp [hstage]))
        · exact absurd (hpulled 0 hpos) (hnothing 0)
      · cases hnone
  | popping =>
      simp only [hstage] at hnone
      split at hnone
      · exact absurd (by assumption) (hclosing.popping hstage)
      · cases hnone
  | erasing clientId => simp [hstage] at hnone
  | checking => simp [hstage] at hnone
  | stopping => simp [hstage] at hnone
  | adding dataset => simp [hstage] at hnone
  | left => rfl

/-- What the supplier has sent to a worker is in the output data or in the queue. -/
theorem entries_of_stuck (hshort : ring.Short) (hreadable : ring.Readable) (w : ℕ) :
    (SocketAggregator.itemsFrom (s.aggregator.pulled ++ s.aggregator.datasets) w).filterMap
        Item.dataset? =
      (pushedTo s.supplier.returned w).map fun i => (i, (ring.content i).getD []) := by
  obtain ⟨begun, ends, hsupplied, -⟩ := hlive.parts.supplied
  by_cases hw : w < workers
  · obtain ⟨-, hdelivered⟩ := delivered_of_stuck hlive hstuck hshort hreadable hw
    have hworking := hlive.parts.working w
    have hended : (s.workers w).stage.ended = true := by
      rw [worker_finished_of_stuck hlive hstuck hshort hreadable hw]
      rfl
    rw [hdelivered, Connection.filterMap_items, hworking.pushed]
    exact (pulled_of_ended hshort hsupplied hworking hended).2
  · -- the worker has not started
    have hsupplier : w ∉ s.supplier.server.accepted := fun hmem =>
      hw (hlive.placed.within w ((hlive.placed.supplier w).mp hmem))
    have haggregator : w ∉ s.aggregator.server.accepted := fun hmem =>
      hw (hlive.placed.within w ((hlive.placed.aggregator w).mp hmem).1)
    have hnone : pushedTo s.supplier.returned w = [] := by
      rw [pushedTo, List.map_eq_nil_iff, List.filter_eq_nil_iff]
      intro push hpush hpushed
      exact hsupplier (of_decide_eq_true hpushed ▸ hlive.parts.addressed.returned push hpush)
    have hthread : (s.aggregator.connections w).threadId = none :=
      Option.eq_none_iff_forall_not_mem.mpr fun id hid =>
        haggregator (hlive.parts.sound.registering.threads w id hid).1
    rw [hnone, hlive.parts.sound.holding.itemsFrom_eq_nil hthread]
    rfl

/-- **Nothing is lost**: what is not in the output data is in the queue. -/
theorem stored_of_stuck (hshort : ring.Short) (hreadable : ring.Readable) (hpos : 0 < workers) :
    (s.aggregator.output ++ s.aggregator.leftBehind ring.setting).Perm
      ((List.range ring.input.datasets.length).map ring.outputDataset) := by
  have hfinished := supplier_finished_of_stuck hlive hstuck hreadable hpos
  have hleft := aggregator_left_of_stuck hlive hstuck hshort hreadable hpos
  obtain ⟨begun, ends, hsupplied, -⟩ := hlive.parts.supplied
  have hreturned : s.supplier.returned.map Prod.fst =
      List.range ring.input.datasets.length := by
    have horder := hsupplied.order
    rw [hsupplied.provided (SupplierStage.looped_of_callbackSet (by rw [hfinished]; rfl)),
      ring.input.datasetsToProvide_eq.1, hfinished] at horder
    simpa [SupplierStage.pushing] using horder
  have hperm : (SocketAggregator.datasetsOf (s.aggregator.pulled ++ s.aggregator.datasets)).Perm
      (s.supplier.returned.map fun push => (push.2, push.1, (ring.content push.1).getD [])) := by
    refine perm_of_filter_source fun w => ?_
    calc ((SocketAggregator.datasetsOf (s.aggregator.pulled ++ s.aggregator.datasets)).filter
          fun entry => entry.1 = w).map Prod.snd
        = (SocketAggregator.itemsFrom (s.aggregator.pulled ++ s.aggregator.datasets) w).filterMap
            Item.dataset? :=
          SocketAggregator.pulledFrom_eq
            { s.aggregator with pulled := s.aggregator.pulled ++ s.aggregator.datasets } w
      _ = (pushedTo s.supplier.returned w).map fun i => (i, (ring.content i).getD []) :=
          entries_of_stuck hlive hstuck hshort hreadable w
      _ = _ := by
          rw [pushedTo, List.filter_map, List.map_map, List.map_map]
          rfl
  have hadded := hlive.parts.sound.added
  rw [SocketAggregator.Added, hleft] at hadded
  have houtput : s.aggregator.output = (SocketAggregator.datasetsOf s.aggregator.pulled).map
      fun entry => SocketAggregator.outputDataset ring.setting entry.2.1 entry.2.2 := by
    simpa [PullStage.pending] using hadded
  rw [houtput, SocketAggregator.leftBehind, ← List.map_append, ← SocketAggregator.datasetsOf_append,
    ← hreturned, List.map_map]
  refine (hperm.map _).trans (List.Perm.of_eq ?_)
  rw [List.map_map]
  rfl

end Stuck

/-! ## Every run -/

theorem stuck_of_stepOf (h : ∀ a, stepOf ring workers s a = none) : Stuck ring workers s := by
  intro a ha
  have hnone := h a
  rwa [stepOf, restrict, if_pos ha] at hnone

/-- **Every run comes to its end**: it takes a bounded number of steps, and where no step is left the
supplier, the workers, their receive threads and the aggregator have finished, each dataset being
once in the output data or in the queue of the aggregator. -/
theorem every_run_ends (hshort : ring.Short) (hreadable : ring.Readable) (hpos : 0 < workers)
    (hfew : 2 * workers + 2 < 2 ^ 32) :
    (∃ bound, ∀ actions s, run (stepOf ring workers) (initial ring) actions = some s →
      actions.length ≤ bound) ∧
    ∀ s, Reachable (stepOf ring workers) (initial ring) s →
      (∀ a, stepOf ring workers s a = none) →
      s.supplier.stage = .finished ∧ s.aggregator.stage = .left ∧
        (∀ w < workers, (s.workers w).stage = .finished ∧
          (s.aggregator.connections w).thread.any ClientThread.finished = true) ∧
        (s.aggregator.output ++ s.aggregator.leftBehind ring.setting).Perm
          ((List.range ring.input.datasets.length).map ring.outputDataset) := by
  constructor
  · refine ⟨left ring workers (initial ring), fun actions s hrun => ?_⟩
    refine length_le_of_invariant (P := Live ring workers) (fun s a t hlive hstep => ?_)
      live_initial hrun
    obtain ⟨ha, hstep⟩ := restrict_eq_some.mp hstep
    exact ⟨hlive.step hfew ha hstep, hlive.left_lt ha hstep⟩
  · intro s hreach hrest
    have hlive := reachable_live hfew hreach
    have hstuck := stuck_of_stepOf hrest
    refine ⟨supplier_finished_of_stuck hlive hstuck hreadable hpos,
      aggregator_left_of_stuck hlive hstuck hshort hreadable hpos, fun w hw => ⟨?_, ?_⟩,
      stored_of_stuck hlive hstuck hshort hreadable hpos⟩
    · exact worker_finished_of_stuck hlive hstuck hshort hreadable hw
    · exact thread_finished_of_stuck hlive hstuck hshort hreadable hw

variable (ring) in
theorem exists_end (hfew : 2 * workers + 2 < 2 ^ 32) :
    ∃ s, Reachable (stepOf ring workers) (initial ring) s ∧
      ∀ a, stepOf ring workers s a = none := by
  obtain ⟨s, hreach, -, hrest⟩ := Reachable.progress (P := Live ring workers)
    (Q := fun s => ∀ a, stepOf ring workers s a = none) (left ring workers)
    (fun s hlive hmore => by
      obtain ⟨a, ha⟩ := not_forall.mp hmore
      obtain ⟨t, ht⟩ := Option.ne_none_iff_exists'.mp ha
      obtain ⟨hof, hstep⟩ := restrict_eq_some.mp ht
      exact ⟨t, Reachable.initial.step a ht, hlive.step hfew hof hstep,
        hlive.left_lt hof hstep⟩) live_initial
  exact ⟨s, hreach, hrest⟩

theorem readable_oneByteRing : oneByteRing.Readable := by
  intro i hi
  obtain rfl : i = 0 := Nat.lt_one_iff.mp hi
  exact ⟨[9], by decide, by decide⟩

theorem every_run_ends_one_byte :
    ∃ s, Reachable (stepOf oneByteRing 2) (initial oneByteRing) s ∧
      (∀ a, stepOf oneByteRing 2 s a = none) ∧ s.supplier.stage = .finished ∧
      s.aggregator.stage = .left ∧ (s.workers 0).stage = .finished ∧
      (s.workers 1).stage = .finished ∧
      (s.aggregator.output ++ s.aggregator.leftBehind oneByteRing.setting).Perm
        [oneByteRing.outputDataset 0] := by
  obtain ⟨s, hreach, hrest⟩ := exists_end oneByteRing (show 2 * 2 + 2 < 2 ^ 32 by decide)
  obtain ⟨-, hends⟩ := every_run_ends (show oneByteRing.Short by decide) readable_oneByteRing
    (show 0 < 2 by decide) (by decide)
  obtain ⟨hsupplier, haggregator, hworkers, hperm⟩ := hends s hreach hrest
  exact ⟨s, hreach, hrest, hsupplier, haggregator, (hworkers 0 (by decide)).1,
    (hworkers 1 (by decide)).1, hperm⟩

end SocketRing

end ComputeWebApp.Data
