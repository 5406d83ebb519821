import ComputeWebApp.Data.ExchangeFile
import ComputeWebApp.Library.CompactJson
import Mathlib.Data.Finset.Dedup
import Mathlib.Order.Interval.Finset.Nat

/-!
# The document of an exchange file

The operations of `DatasetExchangeFile` down to the fields of the document, the check of UTF-8 that
`WriteJson` makes while it writes, and what the next operation reads after an exception.

* Without such an exception the file is a queue and two sets of clients (`ExchangeState`): every
  sequence of calls has the results of `ExchangeState.run` (`results_eq`), as long as the client ids
  fit into a `uint32_t`.
* A push whose file name is not UTF-8 leaves a part of the document that is no JSON text, and each
  operation takes it for an empty document (`push_atomic_iff`, `loads_after_throw`,
  `lost_after_throw`).

The sections of `ExchangeFile` are these operations without the check (`exec_section`).
-/

namespace ComputeWebApp.Data.ExchangeDocument

open ByteStream CompactJson

/-! ## Documents -/

inductive Field (α : Type)
  | absent
  | null
  | array (items : List α)
  deriving DecidableEq, Repr

namespace Field

variable {α : Type}

/-- `json[name]`, which is null for an absent field. -/
def value : Field α → Option (List α)
  | array items => some items
  | _ => none

def items (field : Field α) : List α := field.value.getD []

/-- `push_back` makes an array of null. -/
def pushBack (field : Field α) (item : α) : Field α := array (field.items ++ [item])

@[simp] theorem value_pushBack (field : Field α) (item : α) :
    (field.pushBack item).value = some (field.items ++ [item]) := rfl

@[simp] theorem items_pushBack (field : Field α) (item : α) :
    (field.pushBack item).items = field.items ++ [item] := rfl

@[simp] theorem items_array (items : List α) : (array items).items = items := rfl

end Field

structure Document where
  datasets : Field DatasetJson := .absent
  clients : Field ℕ := .absent
  unregisteredClients : Field ℕ := .absent
  deriving DecidableEq, Repr

namespace Document

def dumpDataset (dataset : DatasetJson) : Output UInt8 :=
  dumpObject ((dataset.clientId.map fun clientId =>
      dumpMember (ascii "client_id") (dumpInteger clientId)).toList ++
    [dumpMember (ascii "filename") (dumpString dataset.filename),
      dumpMember (ascii "id") (dumpInteger dataset.id)])

/-- The member of a field, if there is one. -/
def dumpField {α : Type} (name : Bytes) (dumpItem : α → Output UInt8) :
    Field α → List (Output UInt8)
  | .absent => []
  | .null => [dumpMember name dumpNull]
  | .array items => [dumpMember name (dumpArray (items.map dumpItem))]

/-- `file << json` -/
def dump (json : Document) : Output UInt8 :=
  dumpObject (dumpField (ascii "clients") dumpInteger json.clients ++
    dumpField (ascii "datasets") dumpDataset json.datasets ++
    dumpField (ascii "unregistered_clients") dumpInteger json.unregisteredClients)

/-- Every string of the document is UTF-8. -/
def isUtf8 (json : Document) : Bool :=
  json.datasets.items.all fun dataset => CompactJson.isUtf8 dataset.filename

theorem complete_dumpDataset (dataset : DatasetJson) :
    (dumpDataset dataset).complete = CompactJson.isUtf8 dataset.filename := by
  have hkeys : CompactJson.isUtf8 (ascii "client_id") = true ∧
      CompactJson.isUtf8 (ascii "filename") = true ∧ CompactJson.isUtf8 (ascii "id") = true := by
    decide
  cases hclient : dataset.clientId <;> simp [dumpDataset, hclient, hkeys]

theorem complete_dumpField {α : Type} {name : Bytes} (hname : CompactJson.isUtf8 name = true)
    (dumpItem : α → Output UInt8) (field : Field α) :
    (dumpField name dumpItem field).all Output.complete =
      field.items.all fun item => (dumpItem item).complete := by
  cases field with
  | absent => rfl
  | null => simp [dumpField, hname, Field.items, Field.value]
  | array items => simp [dumpField, hname, Function.comp_def]

/-- The writer comes to the end of a document whose strings are UTF-8, and of no other. -/
theorem complete_dump (json : Document) : json.dump.complete = json.isUtf8 := by
  have hkeys : CompactJson.isUtf8 (ascii "clients") = true ∧
      CompactJson.isUtf8 (ascii "datasets") = true ∧
      CompactJson.isUtf8 (ascii "unregistered_clients") = true := by
    decide
  have hnumbers : ∀ numbers : List ℕ, numbers.all (fun _ => true) = true := fun _ =>
    List.all_eq_true.mpr fun _ _ => rfl
  simp [dump, complete_dumpField, hkeys, complete_dumpDataset, isUtf8, hnumbers]

theorem nested_dumpDataset (dataset : DatasetJson) : Nested (dumpDataset dataset) := by
  refine nested_dumpObject fun member hmember => ?_
  rcases List.mem_append.mp hmember with hclient | hother
  · obtain ⟨clientId, -, rfl⟩ := Option.map_eq_some_iff.mp (Option.mem_toList.mp hclient)
    exact nested_dumpMember _ (nested_dumpInteger clientId)
  · rcases List.mem_pair.mp hother with rfl | rfl
    · exact nested_dumpMember _ (nested_dumpString dataset.filename)
    · exact nested_dumpMember _ (nested_dumpInteger dataset.id)

theorem nested_dumpField {α : Type} {name : Bytes} {dumpItem : α → Output UInt8}
    (h : ∀ item, Nested (dumpItem item)) (field : Field α) :
    ∀ member ∈ dumpField name dumpItem field, Nested member := by
  cases field with
  | absent => exact fun member hmember => absurd hmember List.not_mem_nil
  | null => exact List.forall_mem_singleton.mpr (nested_dumpMember _ nested_dumpNull)
  | array items =>
      refine List.forall_mem_singleton.mpr (nested_dumpMember _ (nested_dumpArray ?_))
      exact List.forall_mem_map.mpr fun item _ => h item

theorem nested_dump (json : Document) : Nested json.dump := by
  refine nested_dumpObject (List.forall_mem_append.mpr ⟨List.forall_mem_append.mpr ⟨?_, ?_⟩, ?_⟩)
  · exact nested_dumpField nested_dumpInteger json.clients
  · exact nested_dumpField nested_dumpDataset json.datasets
  · exact nested_dumpField nested_dumpInteger json.unregisteredClients

end Document

/-- A document that a file holds: the parser has checked its strings. -/
structure StoredDocument where
  document : Document
  isUtf8 : document.isUtf8 = true

/-- A file that does not exist, or bytes that are no JSON text, or a document. -/
inductive Content
  | missing
  | unreadable (bytes : Bytes)
  | document (stored : StoredDocument)

/-! ## Operations -/

/-- `ReadJson`: null instead of an exception. -/
def readJson : Content → Document
  | .document stored => stored.document
  | _ => {}

section Operations

variable {ρ : Type}

/-- `WriteJson`, and then `result` is returned; without a result there is an exception, after a part
of the document has been written. -/
def writeJson (json : Document) (result : ρ) : Option ρ × Content :=
  if h : json.isUtf8 = true then (some result, .document ⟨json, h⟩)
  else (none, .unreadable json.dump.text)

/-- An assignment of `{}` makes null. -/
def init (isAggregator : Bool) : Option Unit × Content :=
  let json : Document := { datasets := .null }
  writeJson
    (if isAggregator then { json with clients := .null, unregisteredClients := .null } else json) ()

def registerClient (content : Content) : Option ℕ × Content :=
  let json := readJson content
  let clientId := (json.clients.items.length + 1) % 2 ^ 32
  writeJson { json with clients := json.clients.pushBack clientId } clientId

def pushDataset (dataset : ExchangeDataset) (content : Content) : Option Unit × Content :=
  let datasetJson := DatasetExchangeFile.ExchangeDataset.toJson dataset
  let json := readJson content
  writeJson { json with datasets := json.datasets.pushBack datasetJson } ()

def hasDataset (content : Content) : Option Bool × Content :=
  (some !(readJson content).datasets.items.isEmpty, content)

/-- The conversion of a null id throws. -/
def getFirstDataset (content : Content) : Option ExchangeDataset × Content :=
  match (readJson content).datasets.items with
  | [] => (none, content)
  | first :: _ => (some ⟨first.id, first.filename, first.clientId.getD endId⟩, content)

/-- `erase(0)` throws for null and for an empty array. -/
def popFirstDataset (content : Content) : Option Unit × Content :=
  let json := readJson content
  match json.datasets.items with
  | [] => (none, content)
  | _ :: rest => writeJson { json with datasets := .array rest } ()

def unregisterClient (clientId : ℕ) (content : Content) : Option Unit × Content :=
  let json := readJson content
  let clientIds := DatasetExchangeFile.setInsert json.unregisteredClients.items clientId
  writeJson { json with unregisteredClients := .array clientIds } ()

def areAllClientsUnregistered (content : Content) : Option Bool × Content :=
  let json := readJson content
  (some (json.clients.value = json.unregisteredClients.value), content)

/-! ## Sequences of calls -/

inductive Call
  | registerClient
  | pushDataset (dataset : ExchangeDataset)
  | hasDataset
  | getFirstDataset
  | popFirstDataset
  | unregisterClient (clientId : ℕ)
  | areAllClientsUnregistered
  deriving DecidableEq, Repr

inductive Result
  | done
  | clientId (clientId : ℕ)
  | bool (value : Bool)
  | dataset (dataset : ExchangeDataset)
  deriving DecidableEq, Repr

/-- The id that `RegisterClient` returns. -/
def Result.clientId? : Result → Option ℕ
  | clientId id => some id
  | _ => none

namespace Call

def perform (call : Call) (content : Content) : Option Result × Content :=
  match call with
  | registerClient =>
      let left := ExchangeDocument.registerClient content
      (left.1.map .clientId, left.2)
  | pushDataset dataset =>
      let left := ExchangeDocument.pushDataset dataset content
      (left.1.map fun _ => .done, left.2)
  | hasDataset =>
      let left := ExchangeDocument.hasDataset content
      (left.1.map .bool, left.2)
  | getFirstDataset =>
      let left := ExchangeDocument.getFirstDataset content
      (left.1.map .dataset, left.2)
  | popFirstDataset =>
      let left := ExchangeDocument.popFirstDataset content
      (left.1.map fun _ => .done, left.2)
  | unregisterClient clientId =>
      let left := ExchangeDocument.unregisterClient clientId content
      (left.1.map fun _ => .done, left.2)
  | areAllClientsUnregistered =>
      let left := ExchangeDocument.areAllClientsUnregistered content
      (left.1.map .bool, left.2)

/-- The file name of a push is UTF-8. -/
def isUtf8 : Call → Bool
  | pushDataset dataset => CompactJson.isUtf8 dataset.filename
  | _ => true

end Call

/-- The results of the calls, one after the other; `none` when one throws. -/
def run : Content → List Call → Option (List Result × Content)
  | content, [] => some ([], content)
  | content, call :: calls =>
      match call.perform content with
      | (none, _) => none
      | (some result, content) =>
          (run content calls).map fun left => (result :: left.1, left.2)

end Operations

/-! ## The queue and the clients

What the calls are for. -/

structure ExchangeState where
  queue : List ExchangeDataset := []
  registrations : ℕ := 0
  unregistered : Finset ℕ := ∅

namespace ExchangeState

/-- The first dataset is only asked for when there is one. -/
def perform (e : ExchangeState) : Call → Option (Result × ExchangeState)
  | .registerClient =>
      some (.clientId (e.registrations + 1), { e with registrations := e.registrations + 1 })
  | .pushDataset dataset => some (.done, { e with queue := e.queue ++ [dataset] })
  | .hasDataset => some (.bool !e.queue.isEmpty, e)
  | .getFirstDataset =>
      match e.queue with
      | [] => none
      | first :: _ => some (.dataset first, e)
  | .popFirstDataset =>
      match e.queue with
      | [] => none
      | _ :: rest => some (.done, { e with queue := rest })
  | .unregisterClient clientId =>
      some (.done, { e with unregistered := insert clientId e.unregistered })
  | .areAllClientsUnregistered =>
      some (.bool (e.unregistered = Finset.Icc 1 e.registrations), e)

def run : ExchangeState → List Call → Option (List Result × ExchangeState)
  | e, [] => some ([], e)
  | e, call :: calls =>
      match e.perform call with
      | none => none
      | some (result, e) => (run e calls).map fun left => (result :: left.1, left.2)

end ExchangeState

/-! ## Refinement -/

/-- The array of a field that is created with its first item. -/
def listValue {α : Type} : List α → Option (List α)
  | [] => none
  | items => some items

theorem getD_listValue {α : Type} (items : List α) : (listValue items).getD [] = items := by
  cases items <;> rfl

theorem listValue_inj {α : Type} {items items' : List α} :
    listValue items = listValue items' ↔ items = items' := by
  constructor
  · intro h
    rw [← getD_listValue items, h, getD_listValue]
  · exact congrArg listValue

/-- A list of distinct numbers in order is determined by their set. -/
theorem eq_of_toFinset_eq {ids ids' : List ℕ} (h : ids.Pairwise (· < ·))
    (h' : ids'.Pairwise (· < ·)) (heq : ids.toFinset = ids'.toFinset) : ids = ids' := by
  have hmem : ∀ id, id ∈ ids ↔ id ∈ ids' := fun id => by
    rw [← List.mem_toFinset, heq, List.mem_toFinset]
  have hperm : ids.Perm ids' :=
    (List.perm_ext_iff_of_nodup (h.imp Nat.ne_of_lt) (h'.imp Nat.ne_of_lt)).mpr hmem
  exact hperm.eq_of_pairwise (fun a b _ _ hlt hlt' => absurd hlt' (Nat.lt_asymm hlt)) h h'

theorem pairwise_setInsert (ids : List ℕ) (id : ℕ) :
    (DatasetExchangeFile.setInsert ids id).Pairwise (· < ·) := by
  have hle : (DatasetExchangeFile.setInsert ids id).Pairwise (· ≤ ·) :=
    List.pairwise_insertionSort _ _
  have hne : (DatasetExchangeFile.setInsert ids id).Pairwise (· ≠ ·) :=
    DatasetExchangeFile.nodup_setInsert ids id
  exact (hle.and hne).imp fun h => Nat.lt_of_le_of_ne h.1 h.2

theorem toFinset_setInsert (ids : List ℕ) (id : ℕ) :
    (DatasetExchangeFile.setInsert ids id).toFinset = insert id ids.toFinset := by
  ext other
  simp [DatasetExchangeFile.mem_setInsert]

theorem toFinset_range' (n : ℕ) : (List.range' 1 n).toFinset = Finset.Icc 1 n := by
  ext id
  rw [List.mem_toFinset, List.mem_range'_1, Finset.mem_Icc]
  omega

/-- The document that the operations have made. -/
structure Represents (json : Document) (e : ExchangeState) : Prop where
  datasets : json.datasets.items = e.queue.map DatasetExchangeFile.ExchangeDataset.toJson
  clients : json.clients.value = listValue (List.range' 1 e.registrations)
  unregistered : ∃ ids, json.unregisteredClients.value = listValue ids ∧
    ids.Pairwise (· < ·) ∧ ids.toFinset = e.unregistered

/-- A dataset is read as it was pushed, `uint32_t(-1)` among its ids or not. -/
theorem ofJson_toJson (dataset : ExchangeDataset) :
    (⟨(DatasetExchangeFile.ExchangeDataset.toJson dataset).id,
      (DatasetExchangeFile.ExchangeDataset.toJson dataset).filename,
      (DatasetExchangeFile.ExchangeDataset.toJson dataset).clientId.getD endId⟩ :
        ExchangeDataset) = dataset := by
  obtain ⟨id, filename, clientId⟩ := dataset
  rw [DatasetExchangeFile.ExchangeDataset.toJson]
  split_ifs with h
  · rfl
  · obtain rfl : clientId = endId := not_not.mp h
    rfl

section Refinement

variable {json : Document} {stored : StoredDocument}
  {e e' : ExchangeState} {call : Call} {result : Result}

theorem writeJson_of_isUtf8 {ρ : Type} (h : json.isUtf8 = true) (result : ρ) :
    writeJson json result = (some result, .document ⟨json, h⟩) := dif_pos h

theorem isUtf8_pushBack (json : Document) (dataset : ExchangeDataset) :
    ({ json with
      datasets := json.datasets.pushBack
        (DatasetExchangeFile.ExchangeDataset.toJson dataset) } : Document).isUtf8 =
      (json.isUtf8 && isUtf8 dataset.filename) := by
  simp [Document.isUtf8, DatasetExchangeFile.ExchangeDataset.toJson]

theorem isUtf8_rest {first : DatasetJson} {rest : List DatasetJson}
    (hitems : json.datasets.items = first :: rest) (h : json.isUtf8 = true) :
    ({ json with datasets := .array rest } : Document).isUtf8 = true := by
  rw [Document.isUtf8, hitems, List.all_cons, Bool.and_eq_true] at h
  exact h.2

theorem Represents.clientIds (h : Represents json e) :
    json.clients.items = List.range' 1 e.registrations := by
  rw [Field.items, h.clients, getD_listValue]

theorem Represents.queue_cons (h : Represents json e) {first : ExchangeDataset}
    {rest : List ExchangeDataset} (hqueue : e.queue = first :: rest) :
    json.datasets.items = DatasetExchangeFile.ExchangeDataset.toJson first ::
      rest.map DatasetExchangeFile.ExchangeDataset.toJson := by
  rw [h.datasets, hqueue]
  rfl

/-- The clients are compared as arrays: the ones of `push_back` and the ones of a set. -/
theorem Represents.clients_eq_iff (h : Represents json e) :
    json.clients.value = json.unregisteredClients.value ↔
      e.unregistered = Finset.Icc 1 e.registrations := by
  obtain ⟨ids, hvalue, hids, hset⟩ := h.unregistered
  rw [h.clients, hvalue, listValue_inj, ← hset, ← toFinset_range']
  constructor
  · intro heq
    rw [heq]
  · intro heq
    exact eq_of_toFinset_eq List.pairwise_lt_range' hids heq.symm

theorem Represents.registerClient (h : Represents json e) (hids : e.registrations + 1 < 2 ^ 32) :
    (json.clients.items.length + 1) % 2 ^ 32 = e.registrations + 1 ∧
      Represents { json with clients := json.clients.pushBack (e.registrations + 1) }
        { e with registrations := e.registrations + 1 } := by
  constructor
  · rw [h.clientIds, List.length_range', Nat.mod_eq_of_lt hids]
  · refine ⟨h.datasets, ?_, h.unregistered⟩
    have hnext : List.range' 1 (e.registrations + 1) =
        List.range' 1 e.registrations ++ [e.registrations + 1] := by
      rw [List.range'_concat, Nat.one_mul, Nat.add_comm 1]
    change some (json.clients.items ++ [e.registrations + 1]) = _
    rw [h.clientIds, hnext]
    cases List.range' 1 e.registrations <;> rfl

theorem Represents.unregisterClient (h : Represents json e) (clientId : ℕ) :
    Represents
      { json with
        unregisteredClients :=
          .array (DatasetExchangeFile.setInsert json.unregisteredClients.items clientId) }
      { e with unregistered := insert clientId e.unregistered } := by
  obtain ⟨ids, hvalue, hids, hset⟩ := h.unregistered
  have hitems : json.unregisteredClients.items = ids := by
    rw [Field.items, hvalue, getD_listValue]
  refine ⟨h.datasets, h.clients, DatasetExchangeFile.setInsert ids clientId, ?_,
    pairwise_setInsert ids clientId, ?_⟩
  · have hmem : clientId ∈ DatasetExchangeFile.setInsert ids clientId :=
      DatasetExchangeFile.mem_setInsert.mpr (.inl rfl)
    obtain ⟨first, rest, hcons⟩ := List.exists_cons_of_ne_nil (List.ne_nil_of_mem hmem)
    rw [hitems, hcons]
    rfl
  · rw [toFinset_setInsert, hset]

/-- One call. -/
theorem perform_refines (h : Represents stored.document e) (hutf8 : call.isUtf8 = true)
    (hperform : e.perform call = some (result, e')) (hids : e'.registrations < 2 ^ 32) :
    ∃ stored', call.perform (.document stored) = (some result, .document stored') ∧
      Represents stored'.document e' := by
  cases call with
  | registerClient =>
      cases hperform
      obtain ⟨hid, hnext⟩ := h.registerClient hids
      -- an id adds no text to the document
      have hutf8' : ({ stored.document with
          clients := stored.document.clients.pushBack (e.registrations + 1) } :
            Document).isUtf8 = true := stored.isUtf8
      refine ⟨⟨_, hutf8'⟩, ?_, hnext⟩
      rw [Call.perform, registerClient, readJson, hid, writeJson_of_isUtf8 hutf8']
      rfl
  | pushDataset dataset =>
      cases hperform
      have hnext := (isUtf8_pushBack stored.document dataset).trans
        (Bool.and_eq_true_iff.mpr ⟨stored.isUtf8, hutf8⟩)
      refine ⟨⟨_, hnext⟩, ?_, ?_, h.clients, h.unregistered⟩
      · rw [Call.perform, pushDataset, readJson, writeJson_of_isUtf8 hnext]
        rfl
      · rw [Field.items_pushBack, h.datasets, List.map_append]
        rfl
  | hasDataset =>
      cases hperform
      refine ⟨stored, ?_, h⟩
      rw [Call.perform, hasDataset, readJson, h.datasets, List.isEmpty_map]
      rfl
  | getFirstDataset =>
      cases hqueue : e.queue with
      | nil => simp [ExchangeState.perform, hqueue] at hperform
      | cons first rest =>
          simp only [ExchangeState.perform, hqueue] at hperform
          cases hperform
          refine ⟨stored, ?_, h⟩
          simp only [Call.perform, getFirstDataset, readJson, h.queue_cons hqueue]
          rw [ofJson_toJson]
          rfl
  | popFirstDataset =>
      cases hqueue : e.queue with
      | nil => simp [ExchangeState.perform, hqueue] at hperform
      | cons first rest =>
          simp only [ExchangeState.perform, hqueue] at hperform
          cases hperform
          have hitems := h.queue_cons hqueue
          have hnext := isUtf8_rest hitems stored.isUtf8
          refine ⟨⟨_, hnext⟩, ?_, rfl, h.clients, h.unregistered⟩
          simp only [Call.perform, popFirstDataset, readJson, hitems]
          rw [writeJson_of_isUtf8 hnext]
          rfl
  | unregisterClient clientId =>
      cases hperform
      have hutf8' : ({ stored.document with
          unregisteredClients := .array (DatasetExchangeFile.setInsert
            stored.document.unregisteredClients.items clientId) } :
            Document).isUtf8 = true := stored.isUtf8
      refine ⟨⟨_, hutf8'⟩, ?_, h.unregisterClient clientId⟩
      rw [Call.perform, unregisterClient, readJson, writeJson_of_isUtf8 hutf8']
      rfl
  | areAllClientsUnregistered =>
      cases hperform
      refine ⟨stored, ?_, h⟩
      rw [Call.perform, areAllClientsUnregistered, readJson, decide_eq_decide.mpr h.clients_eq_iff]
      rfl

/-- Only `RegisterClient` returns an id, the next one. -/
theorem registrations_of_perform (h : e.perform call = some (result, e')) :
    (result.clientId? = some (e.registrations + 1) ∧ e'.registrations = e.registrations + 1) ∨
      (result.clientId? = none ∧ e'.registrations = e.registrations) := by
  cases call with
  | registerClient =>
      cases h
      exact .inl ⟨rfl, rfl⟩
  | getFirstDataset | popFirstDataset =>
      simp only [ExchangeState.perform] at h
      split at h
      all_goals
        cases h
      exact .inr ⟨rfl, rfl⟩
  | pushDataset _ | hasDataset | unregisterClient _ | areAllClientsUnregistered =>
      cases h
      exact .inr ⟨rfl, rfl⟩

theorem run_cons {calls : List Call} {results : List Result}
    (h : e.run (call :: calls) = some (results, e')) :
    ∃ result next rest, e.perform call = some (result, next) ∧ next.run calls = some (rest, e') ∧
      results = result :: rest := by
  rw [ExchangeState.run] at h
  cases hperform : e.perform call with
  | none => simp [hperform] at h
  | some left =>
      simp only [hperform, Option.map_eq_some_iff] at h
      obtain ⟨⟨rest, last⟩, hrest, heq⟩ := h
      cases heq
      exact ⟨left.1, left.2, rest, rfl, hrest, rfl⟩

theorem registrations_le_of_run {calls : List Call} {results : List Result}
    (h : e.run calls = some (results, e')) : e.registrations ≤ e'.registrations := by
  induction calls generalizing e results with
  | nil =>
      cases h
      exact Nat.le_refl _
  | cons call calls ih =>
      obtain ⟨result, next, rest, hperform, hrest, -⟩ := run_cons h
      have hstep := registrations_of_perform hperform
      calc e.registrations ≤ next.registrations := by omega
        _ ≤ e'.registrations := ih hrest

/-- A whole run, by induction on the calls. -/
theorem run_refines {calls : List Call} {results : List Result}
    (h : Represents stored.document e)
    (hutf8 : ∀ call ∈ calls, call.isUtf8 = true) (hrun : e.run calls = some (results, e'))
    (hids : e'.registrations < 2 ^ 32) :
    ∃ stored', run (.document stored) calls = some (results, .document stored') ∧
      Represents stored'.document e' := by
  induction calls generalizing stored e results with
  | nil =>
      cases hrun
      exact ⟨stored, rfl, h⟩
  | cons call calls ih =>
      obtain ⟨result, next, rest, hperform, hrest, rfl⟩ := run_cons hrun
      obtain ⟨stored', hcall, hnext⟩ := perform_refines h
        (hutf8 call List.mem_cons_self) hperform
        (Nat.lt_of_le_of_lt (registrations_le_of_run hrest) hids)
      obtain ⟨last, hleft, hlast⟩ := ih hnext
        (fun call hcall => hutf8 call (List.mem_cons_of_mem _ hcall)) hrest
      refine ⟨last, ?_, hlast⟩
      rw [run, hcall]
      simp only [hleft, Option.map_some]

/-! ### From `Init` on -/

/-- `Init` makes a document whatever the file was. -/
theorem init_refines (isAggregator : Bool) :
    ∃ stored, init isAggregator = (some (), .document stored) ∧
      Represents stored.document {} := by
  cases isAggregator with
  | true =>
      exact ⟨⟨{ datasets := .null, clients := .null, unregisteredClients := .null }, rfl⟩, rfl,
        rfl, rfl, [], rfl, List.Pairwise.nil, rfl⟩
  | false =>
      exact ⟨⟨{ datasets := .null }, rfl⟩, rfl, rfl, rfl, [], rfl, List.Pairwise.nil, rfl⟩

theorem clientIds_of_run {calls : List Call} {results : List Result}
    (h : e.run calls = some (results, e')) :
    results.filterMap Result.clientId? =
      List.range' (e.registrations + 1) (e'.registrations - e.registrations) := by
  induction calls generalizing e results with
  | nil =>
      cases h
      rw [Nat.sub_self]
      rfl
  | cons call calls ih =>
      obtain ⟨result, next, rest, hperform, hrest, rfl⟩ := run_cons h
      have hle := registrations_le_of_run hrest
      rcases registrations_of_perform hperform with ⟨hid, hnext⟩ | ⟨hid, hnext⟩
      · have hcount : e'.registrations - e.registrations =
            (e'.registrations - next.registrations) + 1 := by omega
        rw [List.filterMap_cons, hid, ih hrest, hcount, List.range'_succ, hnext]
      · rw [List.filterMap_cons, hid, ih hrest, hnext]

/-- The exchange file is a queue and two sets: after `Init` any calls have the results of the
queue and the sets, as long as there are less than 2³² registrations. -/
theorem results_eq (isAggregator : Bool) {calls : List Call}
    {results : List Result} {e : ExchangeState} (hutf8 : ∀ call ∈ calls, call.isUtf8 = true)
    (hrun : ExchangeState.run {} calls = some (results, e)) (hids : e.registrations < 2 ^ 32) :
    ((run (init isAggregator).2 calls).map Prod.fst = some results) ∧
      results.filterMap Result.clientId? = List.range' 1 e.registrations := by
  constructor
  · obtain ⟨stored, hinit, hrep⟩ := init_refines isAggregator
    obtain ⟨stored', hleft, -⟩ := run_refines hrep hutf8 hrun hids
    rw [hinit, hleft]
    rfl
  · exact clientIds_of_run hrun

/-- A client registers, its dataset and its end signal are taken, and it is unregistered. -/
theorem results_of_one_client :
    ((run (init true).2
        [.registerClient, .pushDataset ⟨7, ascii "a", endId⟩, .pushDataset ⟨endId, [], 1⟩,
          .getFirstDataset, .popFirstDataset, .areAllClientsUnregistered, .unregisterClient 1,
          .popFirstDataset, .hasDataset, .areAllClientsUnregistered]).map Prod.fst =
        some [.clientId 1, .done, .done, .dataset ⟨7, ascii "a", endId⟩, .done, .bool false, .done,
          .done, .bool false, .bool true]) ∧
      [Result.clientId 1, .done, .done, .dataset ⟨7, ascii "a", endId⟩, .done, .bool false, .done,
        .done, .bool false, .bool true].filterMap Result.clientId? = List.range' 1 1 :=
  results_eq true (e := ⟨[], 1, {1}⟩) (by decide) rfl (by decide)

/-! ### When the ids wrap around -/

theorem run_register (e : ExchangeState) (n : ℕ) :
    e.run (List.replicate n .registerClient) =
      some ((List.range' (e.registrations + 1) n).map .clientId,
        { e with registrations := e.registrations + n }) := by
  induction n generalizing e with
  | zero => rfl
  | succ n ih =>
      rw [List.replicate_succ, ExchangeState.run, ExchangeState.perform]
      simp only [ih, Option.map_some, List.range'_succ, List.map_cons, Nat.add_assoc,
        Nat.add_comm 1 n]

theorem run_concat {calls : List Call} {results : List Result} {content left last : Content}
    (hrun : run content calls = some (results, left))
    (hcall : call.perform left = (some result, last)) :
    run content (calls ++ [call]) = some (results ++ [result], last) := by
  induction calls generalizing content results with
  | nil =>
      cases hrun
      simp only [List.nil_append, run, hcall, Option.map_some]
  | cons first calls ih =>
      rw [run] at hrun
      rw [List.cons_append, run]
      cases hfirst : first.perform content with
      | mk result next =>
          cases result with
          | none => simp [hfirst] at hrun
          | some result =>
              simp only [hfirst, Option.map_eq_some_iff] at hrun
              obtain ⟨⟨rest, left'⟩, hrest, heq⟩ := hrun
              cases heq
              simp only [ih hrest, Option.map_some, List.cons_append]

/-- After 2³² - 1 registrations the next id is 0. -/
theorem run_register_wraps (isAggregator : Bool) {n : ℕ}
    (hn : n + 1 = 2 ^ 32) :
    (run (init isAggregator).2 (List.replicate (n + 1) .registerClient)).map
        Prod.fst = some ((List.range' 1 n).map .clientId ++ [.clientId 0]) := by
  obtain ⟨stored, hinit, hrep⟩ := init_refines isAggregator
  have hutf8 : ∀ call ∈ List.replicate n Call.registerClient, call.isUtf8 = true := by
    intro call hcall
    rw [List.eq_of_mem_replicate hcall]
    rfl
  have hfew : 0 + n < 2 ^ 32 := by omega
  obtain ⟨stored', hleft, hrep'⟩ := run_refines hrep hutf8 (run_register {} n) hfew
  have hlength : stored'.document.clients.items.length = n := by
    rw [hrep'.clientIds, List.length_range']
    exact Nat.zero_add n
  have hlast : ∃ last, Call.registerClient.perform (.document stored') =
      (some (.clientId 0), last) := by
    have hutf8' : ({ stored'.document with clients := stored'.document.clients.pushBack 0 } :
        Document).isUtf8 = true := stored'.isUtf8
    rw [Call.perform, registerClient, readJson, hlength, hn, Nat.mod_self]
    rw [writeJson_of_isUtf8 hutf8']
    exact ⟨_, rfl⟩
  obtain ⟨last, hlast⟩ := hlast
  rw [List.replicate_succ', hinit, run_concat hleft hlast]
  rfl

/-- One registration more than there are ids. -/
theorem registerClient_returns_zero :
    (run (init true).2
        (List.replicate (2 ^ 32) .registerClient)).map Prod.fst ≠
      (ExchangeState.run {} (List.replicate (2 ^ 32) .registerClient)).map Prod.fst := by
  obtain ⟨n, hn⟩ : ∃ n, n + 1 = 2 ^ 32 := ⟨2 ^ 32 - 1, rfl⟩
  rw [← hn, run_register_wraps true hn, run_register, Option.map_some]
  intro heq
  have hlists : (List.range' 1 n).map .clientId ++ [.clientId 0] =
      (List.range' 1 (n + 1)).map Result.clientId := Option.some.inj heq
  rw [List.range'_concat, List.map_append] at hlists
  have hlast := List.append_cancel_left hlists
  have hid : 0 = 1 + 1 * n := Result.clientId.inj (List.cons.inj hlast).1
  omega

end Refinement

/-! ## A push that throws -/

section Push

variable {content : Content} {dataset : ExchangeDataset}

/-- The document with one more dataset. -/
def pushed (content : Content) (dataset : ExchangeDataset) : Document :=
  { readJson content with
    datasets := (readJson content).datasets.pushBack
      (DatasetExchangeFile.ExchangeDataset.toJson dataset) }

/-- The push appends the dataset and changes nothing else, or throws and changes nothing. -/
def Atomic (content : Content) (dataset : ExchangeDataset) : Option Unit × Content → Prop
  | (some _, left) =>
      (readJson left).datasets.items = (readJson content).datasets.items ++
          [DatasetExchangeFile.ExchangeDataset.toJson dataset] ∧
        (readJson left).clients = (readJson content).clients ∧
        (readJson left).unregisteredClients = (readJson content).unregisteredClients
  | (none, left) => left = content

/-- What can be read can be written. -/
theorem isUtf8_readJson (content : Content) : (readJson content).isUtf8 = true := by
  cases content with
  | document stored => exact stored.isUtf8
  | missing | unreadable _ => rfl

theorem isUtf8_pushed (content : Content) (dataset : ExchangeDataset) :
    (pushed content dataset).isUtf8 = isUtf8 dataset.filename := by
  rw [pushed, isUtf8_pushBack, isUtf8_readJson, Bool.true_and]

theorem push_of_isUtf8 (h : isUtf8 dataset.filename = true) :
    pushDataset dataset content =
      (some (), .document ⟨pushed content dataset, (isUtf8_pushed content dataset).trans h⟩) :=
  writeJson_of_isUtf8 ((isUtf8_pushed content dataset).trans h) ()

theorem push_of_not_isUtf8 (h : isUtf8 dataset.filename = false) :
    pushDataset dataset content =
      (none, .unreadable (pushed content dataset).dump.text) := by
  refine dif_neg ?_
  rw [← pushed, isUtf8_pushed, h]
  exact Bool.false_ne_true

/-- The document of a push into a file that cannot be read. -/
def alone (dataset : ExchangeDataset) : Document :=
  { datasets := .array [DatasetExchangeFile.ExchangeDataset.toJson dataset] }

/-- Without UTF-8 a push is atomic only on a file that holds what is written of the dataset alone,
as the same push leaves it. -/
theorem push_atomic_iff (content : Content) (dataset : ExchangeDataset) :
    Atomic content dataset (pushDataset dataset content) ↔
      isUtf8 dataset.filename = true ∨ content = .unreadable (alone dataset).dump.text := by
  cases h : isUtf8 dataset.filename with
  | true =>
      rw [push_of_isUtf8 h]
      exact iff_of_true ⟨rfl, rfl, rfl⟩ (.inl rfl)
  | false =>
      rw [push_of_not_isUtf8 h]
      constructor
      · intro hleft
        cases content with
        | unreadable bytes => exact .inr (Eq.symm hleft)
        | missing | document stored => cases hleft
      · rintro (hutf8 | rfl)
        · cases hutf8
        · rfl

/-- What is left of the document is no JSON text. -/
theorem loads_after_throw (h : isUtf8 dataset.filename = false) :
    ∃ bytes, (pushDataset dataset content).2 = .unreadable bytes ∧
      Json.loads (asText bytes) = none := by
  refine ⟨(pushed content dataset).dump.text, by rw [push_of_not_isUtf8 h], ?_⟩
  refine (Document.nested_dump _).loads_eq_none ?_
  rw [Document.complete_dump, isUtf8_pushed, h]

/-- After the exception the file is read as an empty document: the datasets of all clients are lost,
the server takes all clients for unregistered, and the first client id is given again. -/
theorem lost_after_throw (h : isUtf8 dataset.filename = false) :
    (hasDataset (pushDataset dataset content).2).1 = some false ∧
      (areAllClientsUnregistered (pushDataset dataset content).2).1 = some true ∧
      (registerClient (pushDataset dataset content).2).1 = some 1 := by
  rw [push_of_not_isUtf8 h]
  exact ⟨rfl, rfl, rfl⟩

/-- A file name of one byte that is not UTF-8, pushed behind another dataset. -/
theorem push_loses_dataset :
    ¬Atomic (pushDataset ⟨1, ascii "a", endId⟩ .missing).2 ⟨2, [0xFF], endId⟩
      (pushDataset ⟨2, [0xFF], endId⟩ (pushDataset ⟨1, ascii "a", endId⟩ .missing).2) := by
  intro h
  cases h

end Push

/-! ## The sections -/

/-- The document as a section of `ExchangeFile` reads it. -/
def Document.toJson (json : Document) : Json :=
  ⟨json.datasets.value, json.clients.value, json.unregisteredClients.value⟩

def Content.toExchange : Content → ExchangeContent
  | .document stored => some stored.document.toJson
  | _ => none

theorem getD_toExchange (content : Content) :
    content.toExchange.getD {} = (readJson content).toJson := by
  cases content <;> rfl

/-- The call as a section. -/
def Call.toSection (torn : Bool) : Call → DatasetExchangeFile.Section Result
  | registerClient => do
      let clientId ← DatasetExchangeFile.registerClient torn
      pure (.clientId clientId)
  | pushDataset dataset => do
      DatasetExchangeFile.pushDataset torn dataset
      pure .done
  | hasDataset => do
      let value ← DatasetExchangeFile.hasDataset
      pure (.bool value)
  | getFirstDataset => do
      let dataset ← DatasetExchangeFile.getFirstDataset
      pure (.dataset dataset)
  | popFirstDataset => do
      DatasetExchangeFile.popFirstDataset torn
      pure .done
  | unregisterClient clientId => do
      DatasetExchangeFile.unregisterClient torn clientId
      pure .done
  | areAllClientsUnregistered =>
      .read fun content => .done (.bool (DatasetExchangeFile.areAllClientsUnregistered content))

section Sections

open DatasetExchangeFile LockedFile

theorem exec_readJson_bind {ρ : Type} (next : Json → Section ρ) (content : Content) :
    (DatasetExchangeFile.readJson >>= next).exec content.toExchange =
      (next (readJson content).toJson).exec content.toExchange := by
  rw [← getD_toExchange]
  rfl

/-- A section makes of the file what the operation makes of it, when no string stops it. -/
theorem exec_section (torn : Bool) {call : Call} (content : Content)
    (hutf8 : call.isUtf8 = true) :
    (call.toSection torn).exec content.toExchange =
      (call.perform content).1.map fun result =>
        (result, (call.perform content).2.toExchange) := by
  have hstored := isUtf8_readJson content
  cases call with
  | registerClient =>
      have hutf8' : ∀ ids, ({ readJson content with clients := ids } : Document).isUtf8 = true :=
        fun _ => hstored
      rw [Call.perform, registerClient, writeJson_of_isUtf8 (hutf8' _), Call.toSection,
        Prog.exec_bind, DatasetExchangeFile.registerClient, exec_readJson_bind, Prog.exec_bind,
        exec_writeJson]
      rfl
  | pushDataset dataset =>
      rw [Call.perform, push_of_isUtf8 hutf8, Call.toSection, Prog.exec_bind,
        DatasetExchangeFile.pushDataset, exec_readJson_bind, exec_writeJson]
      rfl
  | hasDataset =>
      rw [Call.perform, Call.toSection, Prog.exec_bind, DatasetExchangeFile.hasDataset,
        exec_readJson_bind]
      rfl
  | getFirstDataset =>
      have hqueue : (readJson content).toJson.queue = (readJson content).datasets.items := rfl
      rw [Call.perform, getFirstDataset, Call.toSection, Prog.exec_bind,
        DatasetExchangeFile.getFirstDataset, exec_readJson_bind, hqueue]
      cases (readJson content).datasets.items with
      | nil => rfl
      | cons first rest => rfl
  | popFirstDataset =>
      have hqueue : (readJson content).toJson.queue = (readJson content).datasets.items := rfl
      rw [Call.perform, popFirstDataset, Call.toSection, Prog.exec_bind,
        DatasetExchangeFile.popFirstDataset, exec_readJson_bind, hqueue]
      cases hitems : (readJson content).datasets.items with
      | nil => rfl
      | cons first rest =>
          simp only [writeJson_of_isUtf8 (isUtf8_rest hitems hstored), exec_writeJson]
          rfl
  | unregisterClient clientId =>
      have hutf8' : ∀ ids,
          ({ readJson content with unregisteredClients := ids } : Document).isUtf8 = true :=
        fun _ => hstored
      rw [Call.perform, unregisterClient, writeJson_of_isUtf8 (hutf8' _), Call.toSection,
        Prog.exec_bind, DatasetExchangeFile.unregisterClient, exec_readJson_bind, exec_writeJson]
      rfl
  | areAllClientsUnregistered =>
      simp only [Call.toSection, Prog.exec, DatasetExchangeFile.areAllClientsUnregistered]
      rw [getD_toExchange]
      rfl

end Sections

end ComputeWebApp.Data.ExchangeDocument
