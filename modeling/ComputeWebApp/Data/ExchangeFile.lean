import ComputeWebApp.Data.Dataset
import ComputeWebApp.Library.LockedFile
import Mathlib.Data.List.Dedup
import Mathlib.Data.List.Sort

/-!
# The exchange files

`DatasetExchangeFile`: a JSON document in a file with a lock file, through which the file
suppliers and aggregators exchange datasets.  Every operation reads the document and most write
it back.  `WriteJson` truncates the file and then writes it, which a reader without the lock may
see (`torn`), or writes it in one step.

Operations between `LockFile` and `UnlockFile` are sections of `LockedFile.Prog`, `fail` an
exception in one; the operations of the servers and clients follow in the same way.
-/

namespace ComputeWebApp.Data

open ByteStream LockedFile

/-- `DatasetExchangeFile::Dataset` -/
structure ExchangeDataset where
  id : ℕ := endId
  filename : Bytes := []
  clientId : ℕ := endId
  deriving DecidableEq, Repr

/-- An element of the `datasets` of the document; `client_id` may be absent. -/
structure DatasetJson where
  id : ℕ
  filename : Bytes
  clientId : Option ℕ
  deriving DecidableEq, Repr

/-- The document.  A field is `none` when it is absent or null, which no operation tells apart:
`json[name]` creates an absent field as null. -/
structure Json where
  datasets : Option (List DatasetJson) := none
  clients : Option (List ℕ) := none
  unregisteredClients : Option (List ℕ) := none
  deriving DecidableEq, Repr

namespace Json

def queue (json : Json) : List DatasetJson := json.datasets.getD []

def clientIds (json : Json) : List ℕ := json.clients.getD []

def unregisteredIds (json : Json) : List ℕ := json.unregisteredClients.getD []

end Json

/-- A file that has been truncated and not been written yet has no document. -/
abbrev ExchangeContent := Option Json

namespace DatasetExchangeFile

abbrev Section (ρ : Type) := Prog ExchangeContent ρ

/-- `ReadJson`: what cannot be parsed is null. -/
def readJson : Section Json :=
  .read fun content => .done (content.getD {})

def writeJson (torn : Bool) (json : Json) : Section Unit :=
  if torn then .write none (.write (some json) (.done ()))
  else .write (some json) (.done ())

variable (torn : Bool)

/-- `Init`: every field is null, `= {}`, or absent. -/
def init : Section Unit := writeJson torn {}

def registerClient : Section ℕ := do
  let json ← readJson
  let clientId := (json.clientIds.length + 1) % 2 ^ 32
  writeJson torn { json with clients := some (json.clientIds ++ [clientId]) }
  pure clientId

def ExchangeDataset.toJson (dataset : ExchangeDataset) : DatasetJson where
  id := dataset.id
  filename := dataset.filename
  clientId := if dataset.clientId ≠ endId then some dataset.clientId else none

def pushDataset (dataset : ExchangeDataset) : Section Unit := do
  let json ← readJson
  writeJson torn { json with datasets := some (json.queue ++ [ExchangeDataset.toJson dataset]) }

def hasDataset : Section Bool := do
  let json ← readJson
  pure !json.queue.isEmpty

/-- Without a dataset, the conversion of a null id throws. -/
def getFirstDataset : Section ExchangeDataset := do
  let json ← readJson
  match json.queue with
  | [] => .fail
  | first :: _ => pure ⟨first.id, first.filename, first.clientId.getD endId⟩

/-- `erase(0)` throws without a dataset. -/
def popFirstDataset : Section Unit := do
  let json ← readJson
  match json.queue with
  | [] => .fail
  | _ :: rest => writeJson torn { json with datasets := some rest }

/-- `std::set<uint32_t>`, in the order of its iteration. -/
def setInsert (ids : List ℕ) (id : ℕ) : List ℕ :=
  (id :: ids).dedup.insertionSort (· ≤ ·)

def unregisterClient (clientId : ℕ) : Section Unit := do
  let json ← readJson
  writeJson torn
    { json with unregisteredClients := some (setInsert json.unregisteredIds clientId) }

section Specifications

variable {torn} {json : Json} {content : ExchangeContent}

@[simp] theorem exec_writeJson : (writeJson torn json).exec content = some ((), some json) := by
  cases torn <;> rfl

@[simp] theorem exec_init : (init torn).exec content = some ((), some {}) := exec_writeJson

@[simp] theorem exec_registerClient : (registerClient torn).exec (some json) =
    some ((json.clientIds.length + 1) % 2 ^ 32,
      some { json with
        clients := some (json.clientIds ++ [(json.clientIds.length + 1) % 2 ^ 32]) }) := by
  simp [registerClient, readJson, Prog.exec_bind]

@[simp] theorem exec_pushDataset (dataset : ExchangeDataset) :
    (pushDataset torn dataset).exec (some json) =
      some ((), some { json with
        datasets := some (json.queue ++ [ExchangeDataset.toJson dataset]) }) := by
  simp [pushDataset, readJson]

@[simp] theorem exec_hasDataset :
    hasDataset.exec (some json) = some (!json.queue.isEmpty, some json) := rfl

theorem exec_getFirstDataset {first : DatasetJson} {rest : List DatasetJson}
    (h : json.queue = first :: rest) : getFirstDataset.exec (some json) =
      some (⟨first.id, first.filename, first.clientId.getD endId⟩, some json) := by
  simp [getFirstDataset, readJson, h]

theorem exec_popFirstDataset {first : DatasetJson} {rest : List DatasetJson}
    (h : json.queue = first :: rest) : (popFirstDataset torn).exec (some json) =
      some ((), some { json with datasets := some rest }) := by
  simp [popFirstDataset, readJson, h]

@[simp] theorem exec_unregisterClient (clientId : ℕ) :
    (unregisterClient torn clientId).exec (some json) =
      some ((), some { json with
        unregisteredClients := some (setInsert json.unregisteredIds clientId) }) := by
  simp [unregisterClient, readJson]

theorem mem_setInsert {ids : List ℕ} {id other : ℕ} :
    other ∈ setInsert ids id ↔ other = id ∨ other ∈ ids := by
  simp [setInsert, List.mem_insertionSort]

theorem nodup_setInsert (ids : List ℕ) (id : ℕ) : (setInsert ids id).Nodup :=
  (List.perm_insertionSort _ _).nodup_iff.mpr (List.nodup_dedup _)

end Specifications

section Commits

/-! An operation writes once, so that it shows what it leaves, and before that the truncated
file. -/

variable {torn} {V : ExchangeContent → ExchangeContent → Prop} (hself : ∀ d, V d d)
  (htorn : torn = true → ∀ d, V d none)

include hself htorn

theorem commits_writeJson {ρ : Type} (json : Json) (result : ρ) (content : ExchangeContent) :
    (writeJson torn json >>= fun _ => .done result).Commits V content := by
  cases torn with
  | true => exact ⟨(result, some json), rfl, htorn rfl _, hself _⟩
  | false => exact ⟨(result, some json), rfl, hself _⟩

theorem commits_registerClient (content : ExchangeContent) :
    (registerClient torn).Commits V content :=
  commits_writeJson hself htorn _ _ _

theorem commits_pushDataset (dataset : ExchangeDataset) (content : ExchangeContent) :
    (pushDataset torn dataset).Commits V content := by
  cases torn with
  | true => exact ⟨((), _), rfl, htorn rfl _, hself _⟩
  | false => exact ⟨((), _), rfl, hself _⟩

end Commits

/-- Reads the file without the lock. -/
def areAllClientsUnregistered (content : ExchangeContent) : Bool :=
  (content.getD {}).clients = (content.getD {}).unregisteredClients

end DatasetExchangeFile

/-! ## Pulling

`PullDataset` of `DatasetAggregatorServerFile` and `DatasetAggregatorClientFile`.  With the end
signal it returns with the file locked, and `HandleEndSignal` unlocks it. -/

/-- How a section of a pull ends. -/
inductive Pulled
  | nothing
  | dataset (id : ℕ) (filename : Bytes)
  | endSignal
  deriving DecidableEq, Repr

open DatasetExchangeFile

/-- One round of the loop, from the lock on; without a dataset the file is unlocked and the
loop goes on. -/
def pullDataset (torn : Bool) : Section Pulled := do
  if ← hasDataset then
    let datasetId := (← getFirstDataset).id
    if datasetId = endId then
      pure .endSignal
    else
      let filename := (← getFirstDataset).filename
      popFirstDataset torn
      pure (.dataset datasetId filename)
  else
    pure .nothing

/-- `HandleEndSignal` of the server until it unlocks the file. -/
def handleEndSignal (torn : Bool) : Section ℕ := do
  let clientId := (← getFirstDataset).clientId
  unregisterClient torn clientId
  popFirstDataset torn
  pure clientId

/-- How a section of the aggregator server ends: `unregistered` after the end signal of a
client. -/
inductive ServerPulled
  | nothing
  | dataset (id : ℕ) (filename : Bytes)
  | unregistered (clientId : ℕ)
  deriving DecidableEq, Repr

/-- A pull of the server, with `HandleEndSignal` when it has pulled the end signal. -/
def pullAtServer (torn : Bool) : Section ServerPulled := do
  match ← pullDataset torn with
  | .nothing => pure .nothing
  | .dataset id filename => pure (.dataset id filename)
  | .endSignal =>
      let clientId ← handleEndSignal torn
      pure (.unregistered clientId)

section Specifications

variable {torn : Bool} {json : Json}

theorem exec_pullDataset_nil (h : json.queue = []) :
    (pullDataset torn).exec (some json) = some (.nothing, some json) := by
  simp [pullDataset, Prog.exec_bind, h]

theorem exec_pullDataset_cons {first : DatasetJson} {rest : List DatasetJson}
    (h : json.queue = first :: rest) (hid : first.id ≠ endId) :
    (pullDataset torn).exec (some json) =
      some (.dataset first.id first.filename, some { json with datasets := some rest }) := by
  simp [pullDataset, Prog.exec_bind, exec_getFirstDataset h, exec_popFirstDataset h, h, hid]

theorem exec_pullDataset_end {first : DatasetJson} {rest : List DatasetJson}
    (h : json.queue = first :: rest) (hid : first.id = endId) :
    (pullDataset torn).exec (some json) = some (.endSignal, some json) := by
  simp [pullDataset, Prog.exec_bind, exec_getFirstDataset h, h, hid]

theorem exec_handleEndSignal {first : DatasetJson} {rest : List DatasetJson}
    (h : json.queue = first :: rest) :
    (handleEndSignal torn).exec (some json) =
      some (first.clientId.getD endId, some { json with
        datasets := some rest
        unregisteredClients :=
          some (setInsert json.unregisteredIds (first.clientId.getD endId)) }) := by
  have hpop : (popFirstDataset torn).exec (some { json with
      unregisteredClients :=
        some (setInsert json.unregisteredIds (first.clientId.getD endId)) }) = _ :=
    exec_popFirstDataset h
  simp [handleEndSignal, Prog.exec_bind, exec_getFirstDataset h, hpop]

theorem exec_pullAtServer_nil (h : json.queue = []) :
    (pullAtServer torn).exec (some json) = some (.nothing, some json) := by
  simp [pullAtServer, Prog.exec_bind, exec_pullDataset_nil h]

theorem exec_pullAtServer_cons {first : DatasetJson} {rest : List DatasetJson}
    (h : json.queue = first :: rest) (hid : first.id ≠ endId) :
    (pullAtServer torn).exec (some json) =
      some (.dataset first.id first.filename, some { json with datasets := some rest }) := by
  simp [pullAtServer, Prog.exec_bind, exec_pullDataset_cons h hid]

theorem exec_pullAtServer_end {first : DatasetJson} {rest : List DatasetJson}
    (h : json.queue = first :: rest) (hid : first.id = endId) :
    (pullAtServer torn).exec (some json) =
      some (.unregistered (first.clientId.getD endId), some { json with
        datasets := some rest
        unregisteredClients :=
          some (setInsert json.unregisteredIds (first.clientId.getD endId)) }) := by
  simp [pullAtServer, Prog.exec_bind, exec_pullDataset_end h hid, exec_handleEndSignal h]

theorem commits_pullDataset {V : ExchangeContent → ExchangeContent → Prop} (hself : ∀ d, V d d)
    (htorn : torn = true → ∀ d, V d none) (content : ExchangeContent) :
    (pullDataset torn).Commits V content := by
  simp only [pullDataset, hasDataset, getFirstDataset, popFirstDataset, readJson]
  cases hqueue : (content.getD {}).queue with
  | nil => simp [hqueue]
  | cons first rest =>
      by_cases hid : first.id = endId
      · simp [hqueue, hid]
      · simp only [Prog.read_bind, Prog.done_bind, Prog.Commits, hqueue, Prog.pure_eq,
          List.isEmpty_cons, Bool.not_false, if_true, if_neg hid]
        exact commits_writeJson hself htorn _ _ _

/-- Of the two writes after an end signal the second cannot fail. -/
theorem commits_pullAtServer {V : ExchangeContent → ExchangeContent → Prop} (hV : ∀ d x, V d x)
    (content : ExchangeContent) : (pullAtServer torn).Commits V content := by
  simp only [pullAtServer, pullDataset, handleEndSignal, unregisterClient, hasDataset,
    getFirstDataset, popFirstDataset, readJson]
  cases hqueue : (content.getD {}).queue with
  | nil => simp [hqueue]
  | cons first rest =>
      have hqueue' : ∀ ids, Json.queue { content.getD {} with unregisteredClients := ids } =
          first :: rest := fun _ => hqueue
      by_cases hid : first.id = endId
      · cases torn <;> simp [hqueue, hqueue', hid, writeJson, hV]
      · cases torn <;> simp [hqueue, hid, writeJson, hV]

end Specifications

end ComputeWebApp.Data
