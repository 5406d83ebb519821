import ComputeWebApp.Data.ExchangeFile
import ComputeWebApp.Library.WorkerRing

/-!
# The ring of processes on files

A `DataSupplier` on a `DatasetSupplierServerFile`, a `DataAggregator` on a
`DatasetAggregatorServerFile`, and any number of workers between them.  The supplier starts a
thread for each dataset, which reads its file and pushes it; a worker pulls a dataset from the
supplier, persists it to the directory of the output and pushes it to the aggregator.  Both
exchange files are bound from the start, and `WriteJson` is one step.

This module is the system; that the aggregator ends with every dataset is in
`ComputeWebApp.Data.FileRingRefinement`.
-/

namespace ComputeWebApp.Data

open Transition LockedFile ByteStream DatasetExchangeFile

/-- The input data, the directory of the output data, and the files at the start. -/
structure FileRing where
  supplyState : DataSupplyState
  outputDirectory : Bytes
  files : Files

namespace FileRing

inductive Party
  | supplier
  | reader (i : ℕ)
  | worker (w : ℕ)
  | aggregator
  deriving DecidableEq, Repr

/-- The two exchange files. -/
inductive Exchange
  | supplier
  | aggregator
  deriving DecidableEq, Repr

/-! ## The parties -/

/-- Where `DataSupplier::Run` is: in its loop, joining the read threads that are left, or after
`PushEndSignal`. -/
inductive SupplierStage
  | grabbing
  | joining (threads : List ℕ)
  | finished
  deriving DecidableEq, Repr

structure SupplierState where
  stage : SupplierStage := .grabbing
  datasetsToProvide : List ℕ
  readThreads : List ℕ := []
  deriving DecidableEq, Repr

/-- A read thread reads its file, pushes its dataset and ends. -/
inductive ReaderState
  | idle
  | loaded
  | pushed
  | ended
  deriving DecidableEq, Repr

/-- Where the loop of a worker is: before `Connect` to the two servers, in `PullDataset`, with a
dataset that it has to retrieve, persist or push, and at its end signal. -/
inductive WorkerStage
  | starting
  | connected
  | pulling
  | retrieving (id : ℕ) (filename : Bytes)
  | persisting (id : ℕ)
  | pushing (id : ℕ)
  | ending
  | finished
  deriving DecidableEq, Repr

/-- `dataset` is the variable of the loop; `pulled` are the buffers that the worker has
retrieved. -/
structure WorkerState where
  stage : WorkerStage := .starting
  clientId : ℕ := endId
  dataset : Dataset := {}
  pulled : List (ℕ × Bytes) := []
  deriving DecidableEq, Repr

inductive AggregatorStage
  | pulling
  | retrieving (id : ℕ) (filename : Bytes)
  | checking
  | finished
  deriving DecidableEq, Repr

/-- `output` are the datasets of the output data. -/
structure AggregatorState where
  stage : AggregatorStage := .pulling
  output : List Dataset := []
  deriving DecidableEq, Repr

abbrev Local : Party → Type
  | .supplier => SupplierState
  | .reader _ => ReaderState
  | .worker _ => WorkerState
  | .aggregator => AggregatorState

/-- The files of the machine, and the read threads that were started and that have ended. -/
structure Shared where
  files : Files
  started : ℕ → Bool := fun _ => false
  ended : ℕ → Bool := fun _ => false

variable (ring : FileRing)

def size : ℕ := ring.supplyState.datasets.length

/-- `GetFilename` of an input dataset. -/
def inputFile (i : ℕ) : Bytes :=
  ((ring.supplyState.datasets[i]?).bind Dataset.getFilename).getD []

/-! ## Sections -/

/-- `PushEndSignal`, once every thread is joined. -/
def supplierSection (supplier : SupplierState) : Option (Section SupplierState) :=
  if supplier.stage = .joining [] then
    some ((fun _ => { supplier with stage := .finished }) <$> pushDataset false {})
  else none

/-- The end of a read thread. -/
def readerSection (i : ℕ) (reader : ReaderState) : Option (Section ReaderState) :=
  if reader = .loaded then
    some ((fun _ => .pushed) <$> pushDataset false { id := i, filename := ring.inputFile i })
  else none

def workerSection (worker : WorkerState) : Option (Exchange × Section WorkerState) :=
  match worker.stage with
  | .connected =>
      -- `Connect` to the aggregator
      some (.aggregator, (fun clientId => { worker with stage := .pulling, clientId := clientId })
        <$> registerClient false)
  | .pulling =>
      some (.supplier, (fun pulled =>
        match pulled with
        | .nothing => worker
        | .dataset id filename => { worker with stage := .retrieving id filename }
        -- `HandleEndSignal` only unlocks the file
        | .endSignal => { worker with stage := .ending }) <$> pullDataset false)
  | .pushing id =>
      if id = endId then none
      else
        worker.dataset.getFilename.map fun filename =>
          (.aggregator, (fun _ => { worker with stage := .pulling }) <$>
            pushDataset false { id := id, filename := filename })
  | .ending =>
      some (.aggregator, (fun _ => { worker with stage := .finished }) <$>
        pushDataset false { clientId := worker.clientId })
  | _ => none

def aggregatorSection (aggregator : AggregatorState) : Option (Section AggregatorState) :=
  if aggregator.stage = .pulling then
    some ((fun pulled =>
      match pulled with
      | .nothing => aggregator
      | .dataset id filename => { aggregator with stage := .retrieving id filename }
      | .unregistered _ => { aggregator with stage := .checking }) <$> pullAtServer false)
  else none

/-! ## Steps outside the exchange files -/

/-- `GrabDataset` and `PushDataset`, which starts a thread, until there is no more dataset; then
the threads are joined one after the other. -/
def supplierAct (supplier : SupplierState) (shared : Shared) : Option (SupplierState × Shared) :=
  match supplier.stage with
  | .grabbing =>
      match supplier.datasetsToProvide with
      | i :: rest =>
          if i = endId then some ({ supplier with datasetsToProvide := rest }, shared)
          else
            some ({ supplier with
                datasetsToProvide := rest
                readThreads := supplier.readThreads ++ [i] },
              { shared with started := Function.update shared.started i true })
      | [] => some ({ supplier with stage := .joining supplier.readThreads }, shared)
  | .joining (i :: threads) =>
      if shared.ended i = true then some ({ supplier with stage := .joining threads }, shared)
      else none
  | _ => none

/-- Mapping a file fails when it cannot be read or is empty. -/
def readerAct (i : ℕ) (reader : ReaderState) (shared : Shared) : Option (ReaderState × Shared) :=
  match reader with
  | .idle =>
      if shared.started i = true ∧ (shared.files (ring.inputFile i)).any (fun content =>
          decide (content ≠ [])) = true then
        some (.loaded, shared)
      else none
  | .pushed => some (.ended, { shared with ended := Function.update shared.ended i true })
  | _ => none

def workerAct (worker : WorkerState) (shared : Shared) : Option (WorkerState × Shared) :=
  match worker.stage with
  | .starting => some ({ worker with stage := .connected }, shared)
  | .retrieving id filename =>
      match worker.dataset.retrieveBufferFromFile shared.files filename with
      | .ok dataset =>
          some ({ worker with
              stage := .persisting id
              dataset := dataset.setId (datasetName id)
              pulled := (id, dataset.buffer) :: worker.pulled },
            shared)
      | .error _ => none
  | .persisting id =>
      -- `AddDataset`, `Persist` and `ReleaseBuffer`
      let dataset := worker.dataset.setData ring.outputDirectory
      (dataset.persist shared.files).map fun files =>
        ({ worker with stage := .pushing id, dataset := dataset.releaseBuffer },
          { shared with files := files })
  | _ => none

/-- The end of `PullDataset` and `AddDataset`. -/
def aggregatorAct (aggregator : AggregatorState) (shared : Shared) :
    Option (AggregatorState × Shared) :=
  match aggregator.stage with
  | .retrieving id filename =>
      match ((({} : Dataset).setData ring.outputDirectory).retrieveBufferFromFile shared.files
          filename) with
      | .ok dataset =>
          some ({ stage := .pulling, output := aggregator.output ++ [dataset.setId (datasetName id)] },
            shared)
      | .error _ => none
  | _ => none

/-! ## The system -/

def system : System Party Exchange ExchangeContent Shared Unit Local where
  enter
    | .supplier, _, supplier =>
        (supplierSection supplier).map fun program => (.supplier, program)
    | .reader i, _, reader =>
        (ring.readerSection i reader).map fun program => (.supplier, program)
    | .worker _, _, worker => workerSection worker
    | .aggregator, _, aggregator =>
        (aggregatorSection aggregator).map fun program => (.aggregator, program)
  look
    | .aggregator, aggregator =>
        if aggregator.stage = .checking then
          some (.aggregator, fun content =>
            { aggregator with
              stage := if areAllClientsUnregistered content then .finished else .pulling })
        else none
    | _, _ => none
  act
    | .supplier, _, supplier, shared => supplierAct supplier shared
    | .reader i, _, reader, shared => ring.readerAct i reader shared
    | .worker _, _, worker, shared => ring.workerAct worker shared
    | .aggregator, _, aggregator, shared => ring.aggregatorAct aggregator shared

/-- Both servers are bound, and nothing has started. -/
def bound : AtomicState Party Exchange ExchangeContent Shared Local where
  content := fun _ => some {}
  locals
    | .supplier => { datasetsToProvide := ring.supplyState.datasetsToProvide }
    | .reader _ => .idle
    | .worker _ => {}
    | .aggregator => {}
  shared := { files := ring.files }

abbrev initial : State Party Exchange ExchangeContent Shared Local := System.start ring.bound

/-! ## Reduction to sections -/

/-- Only the aggregator reads without the lock, and only its own file. -/
theorem not_observed {party : Party} {exchange : Exchange}
    (h : party = .aggregator ∨ exchange = .supplier) : ¬ring.system.Observed party exchange := by
  rintro ⟨other, hother, l, see, hlook⟩
  cases other with
  | aggregator =>
      simp only [system] at hlook
      split at hlook
      · rcases h with rfl | rfl
        · exact hother rfl
        · simp at hlook
      · cases hlook
  | supplier => cases hlook
  | reader i => cases hlook
  | worker w => cases hlook

theorem reducible : ring.system.Reducible fun _ => False := by
  intro party _ l exchange program henter content
  have hself : ∀ d, ring.system.Visible (fun _ => False) party exchange d d :=
    fun _ _ => .inl rfl
  have htorn : false = true → ∀ d, ring.system.Visible (fun _ => False) party exchange d none :=
    fun h => by cases h
  cases party with
  | supplier =>
      obtain ⟨program', hsection, heq⟩ := Option.map_eq_some_iff.mp henter
      cases heq
      simp only [supplierSection] at hsection
      split at hsection
      · cases hsection
        exact (commits_pushDataset hself htorn _ content).map _
      · cases hsection
  | reader i =>
      obtain ⟨program', hsection, heq⟩ := Option.map_eq_some_iff.mp henter
      cases heq
      simp only [readerSection] at hsection
      split at hsection
      · cases hsection
        exact (commits_pushDataset hself htorn _ content).map _
      · cases hsection
  | worker w =>
      simp only [system, workerSection] at henter
      split at henter
      · cases henter
        exact (commits_registerClient hself htorn content).map _
      · cases henter
        exact (commits_pullDataset hself htorn content).map _
      · split at henter
        · cases henter
        · obtain ⟨filename, -, heq⟩ := Option.map_eq_some_iff.mp henter
          cases heq
          exact (commits_pushDataset hself htorn _ content).map _
      · cases henter
        exact (commits_pushDataset hself htorn _ content).map _
      · cases henter
  | aggregator =>
      obtain ⟨program', hsection, heq⟩ := Option.map_eq_some_iff.mp henter
      cases heq
      simp only [aggregatorSection] at hsection
      split at hsection
      · cases hsection
        exact (commits_pullAtServer
          (fun _ _ hobserved => absurd hobserved (ring.not_observed (.inl rfl))) content).map _
      · cases hsection

end FileRing

end ComputeWebApp.Data
