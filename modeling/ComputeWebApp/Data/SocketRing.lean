import ComputeWebApp.Data.AggregatorDrain
import ComputeWebApp.Data.SupplierServerSocket

/-!
# The ring of processes on sockets

A `DataSupplier` on a `DatasetSupplierServerSocket` and a `DataAggregator` on a
`DatasetAggregatorServerSocket` in one process, and any number of workers.  A worker registers
with the supplier and then with the aggregator; it pulls a dataset from the supplier and pushes
it to the aggregator until it pulls the end id, and then pushes its own.  Worker `w` has the
connection `w` to both servers.

The ring is made of the two systems `SocketSupplier` and `SocketAggregator`, which share
`next_client_id`; the clients of both are the workers.  The messages of a connection arrive
whole: a receive call for a header field returns the field.

This module is the system; what is in the output data at the end is in
`ComputeWebApp.Data.SocketRingDelivery`.
-/

namespace ComputeWebApp.Data

open Transition ByteStream

/-- The input data and the setting of the aggregator, whose files are those of every party. -/
structure SocketRing where
  input : DataSupplyState
  setting : AggregatorSetting

namespace SocketRing

/-- Where the loop of a worker is: before `Connect` to each of the servers, in `PullDataset`, in
`PushDataset`, in `PushEndSignal`, or after it. -/
inductive WorkerStage
  | starting
  | registered
  | pulling
  | pushing
  | ending
  | finished
  deriving DecidableEq, Repr

/-- `reader` are the variables that the worker receives into, `dataset` is the variable of its
loop, `read` the number of bytes that it has read from the supplier, and `pulled` are the
datasets that it has pulled. -/
structure Worker where
  stage : WorkerStage := .starting
  reader : Reader
  dataset : Dataset := {}
  read : ℕ := 0
  pulled : List (ℕ × Bytes) := []

structure State where
  nextClientId : ℕ
  supplier : SocketSupplier
  aggregator : SocketAggregator
  workers : ℕ → Worker

inductive Action
  | supplierHandle
  | supplierRun
  | aggregatorHandle
  | aggregatorRun
  | threadReceive (w cut : ℕ)
  | threadEnqueue (w : ℕ)
  | connectSupplier (w : ℕ)
  | connectAggregator (w : ℕ)
  | receive (w cut : ℕ)
  | push (w : ℕ)
  | send (w : ℕ)
  | finishPush (w : ℕ)
  deriving DecidableEq, Repr

/-- The next call of `PullDataset`, which has a new `length`. -/
def nextPull (reader : Reader) : Reader :=
  ⟨.id, { reader.vars with length := word 4 endId }⟩

def setWorker (s : State) (w : ℕ) (worker : Worker) : State :=
  { s with workers := Function.update s.workers w worker }

variable (ring : SocketRing)

/-- A step of the supplier and its server. -/
def supplierStep (s : State) (a : SocketSupplier.Action) : Option State :=
  (SocketSupplier.step ring.setting.files ring.input (s.nextClientId, s.supplier) a).map
    fun (nextClientId, supplier) =>
      { s with nextClientId := nextClientId, supplier := supplier }

/-- A step of the aggregator, its server or its connections. -/
def aggregatorStep (s : State) (a : SocketAggregator.Action) : Option State :=
  (SocketAggregator.step ring.setting (s.nextClientId, s.aggregator) a).map
    fun (nextClientId, aggregator) =>
      { s with nextClientId := nextClientId, aggregator := aggregator }

/-- The bytes that were sent to the worker and that it has not read. -/
def unread (s : State) (w : ℕ) : Bytes :=
  (s.supplier.sent w).flatten.drop (s.workers w).read

def step (s : State) : Action → Option State
  | .supplierHandle => supplierStep ring s .handle
  | .supplierRun => supplierStep ring s .run
  | .aggregatorHandle => aggregatorStep ring s .handle
  | .aggregatorRun => aggregatorStep ring s .run
  | .threadReceive w cut =>
      if (s.aggregator.connections w).Intact ring.setting.files (.receive cut) then
        aggregatorStep ring s (.connection w (.receive cut))
      else none
  | .threadEnqueue w => aggregatorStep ring s (.connection w .enqueue)
  | .connectSupplier w =>
      let worker := s.workers w
      if worker.stage = .starting then
        (supplierStep ring s (.accept w)).map fun s =>
          setWorker s w { worker with stage := .registered }
      else none
  | .connectAggregator w =>
      let worker := s.workers w
      if worker.stage = .registered then
        (aggregatorStep ring s (.accept w)).map fun s =>
          setWorker s w { worker with stage := .pulling }
      else none
  | .receive w cut =>
      let worker := s.workers w
      if worker.stage = .pulling ∧ worker.reader.WholeHeader cut (unread s w) then
        (worker.reader.receive cut (unread s w)).map fun (reader, left) =>
          setWorker s w { worker with
            reader := reader
            read := (s.supplier.sent w).flatten.length - left.length }
      else none
  | .push w =>
      -- `PullDataset` returns
      let worker := s.workers w
      if worker.stage = .pulling ∧ worker.reader.stage = .whole then
        match worker.reader.item with
        | .endSignal =>
            (aggregatorStep ring s (.connection w .pushEnd)).map fun s =>
              setWorker s w { worker with stage := .ending, reader := nextPull worker.reader }
        | .dataset id buffer =>
            let dataset := (worker.dataset.setId (datasetName id)).retainBuffer buffer
            (aggregatorStep ring s (.connection w (.push id dataset))).map fun s =>
              setWorker s w { worker with
                stage := .pushing
                reader := nextPull worker.reader
                dataset := dataset
                pulled := worker.pulled ++ [(id, buffer)] }
      else none
  | .send w => aggregatorStep ring s (.connection w .send)
  | .finishPush w =>
      let worker := s.workers w
      if (s.aggregator.connections w).sending = [] then
        match worker.stage with
        | .pushing => some (setWorker s w { worker with stage := .pulling })
        | .ending => some (setWorker s w { worker with stage := .finished })
        | _ => none
      else none

/-- Both servers are bound, and nothing has started. -/
def initial : State where
  nextClientId := 1
  supplier := { datasetsToProvide := ring.input.datasetsToProvide }
  aggregator := {}
  workers := fun _ =>
    { reader := ⟨.id, ⟨word 4 ring.setting.uninitialized, word 4 endId, []⟩⟩ }

/-- `RetrieveBuffer` of the input dataset `i`. -/
def content (i : ℕ) : Option Bytes :=
  (ring.input.datasets[i]?).bind fun dataset =>
    (dataset.retrieveBuffer ring.setting.files).toOption

/-- No insertion replaces a client in the map of the aggregator, and when `HandleEndSignal` finds
this map empty, every worker to which a dataset was pushed has been inserted into it. -/
def AllInserted (s : State) : Action → Prop
  | .aggregatorHandle => ¬s.aggregator.server.Overwrites
  | .aggregatorRun =>
      s.aggregator.stage = .checking → s.aggregator.server.clientSockets.isEmpty = true →
        ∀ push ∈ s.supplier.returned, push.2 ∈ s.aggregator.server.inserted
  | _ => True

instance (s : State) (a : Action) : Decidable (AllInserted s a) :=
  match a with
  | .aggregatorHandle => inferInstanceAs (Decidable (¬_))
  | .aggregatorRun => inferInstanceAs (Decidable (_ → _ → ∀ push ∈ s.supplier.returned, _))
  | .supplierHandle => instDecidableTrue
  | .supplierRun => instDecidableTrue
  | .threadReceive _ _ => instDecidableTrue
  | .threadEnqueue _ => instDecidableTrue
  | .connectSupplier _ => instDecidableTrue
  | .connectAggregator _ => instDecidableTrue
  | .receive _ _ => instDecidableTrue
  | .push _ => instDecidableTrue
  | .send _ => instDecidableTrue
  | .finishPush _ => instDecidableTrue

end SocketRing

end ComputeWebApp.Data
