import ComputeWebApp.Data.Receive
import ComputeWebApp.Data.SocketServer

/-!
# Aggregating datasets from sockets

One `DataAggregator` on a `DatasetAggregatorServerSocket`.  Any number of clients register, push
datasets and then the end id, each on its connection; the server starts a receive thread for
each client, and the threads append what they receive to one queue; `Run` pulls from the queue,
erases a client from `client_sockets_` when it pulls its end, and leaves when the map is empty.

What a client has pushed is, at any moment, what was delivered to the queue, what its thread is
receiving, what is on the way and what the client has still to send (`Connection.Delivering`);
as no item is a prefix of another, what was delivered is the front of what was pushed.  A client
that was inserted stays in the map until its end is pulled (`Holding`), and the end comes last.
-/

namespace ComputeWebApp.Data

open Transition OrderedMap ByteStream DatasetAggregatorServerSocket

/-! ## Connections -/

/-- The receive thread of a client. -/
structure ClientThread where
  clientId : ℕ
  reader : Reader
  finished : Bool := false

/-- A connection from a client: the datasets that the client has pushed, whether it has called
`PushEndSignal`, the buffers that it has still to hand to `send`, and the bytes that are on the
way. -/
structure Connection where
  pushed : List (ℕ × Bytes) := []
  ended : Bool := false
  sending : List Bytes := []
  unread : Bytes := []
  thread : Option ClientThread := none

inductive ConnectionAction
  | push (id : ℕ) (dataset : Dataset)
  | pushEnd
  | send
  | sendPart (count : ℕ)
  | receive (cut : ℕ)
  | enqueue
  deriving DecidableEq, Repr

namespace Connection

/-- A client calls `PushDataset` when it has sent what it pushed before.  The end id is pushed by
`PushEndSignal`, which closes the socket. -/
def push (files : Files) (connection : Connection) (id : ℕ) (dataset : Dataset) :
    Option Connection :=
  if connection.sending = [] ∧ connection.ended = false ∧ id < endId then
    match datasetFrame files dataset id, dataset.retrieveBuffer files with
    | .ok frame, .ok buffer =>
        some { connection with sending := frame, pushed := connection.pushed ++ [(id, buffer)] }
    | _, _ => none
  else none

def pushEnd (connection : Connection) : Option Connection :=
  if connection.sending = [] ∧ connection.ended = false then
    some { connection with sending := [endFrame], ended := true }
  else none

/-- A call of `send` that transmits the whole buffer that it is handed. -/
def send (connection : Connection) : Option Connection :=
  match connection.sending with
  | [] => none
  | bytes :: left =>
      some { connection with sending := left, unread := connection.unread ++ bytes }

/-- A call of `send` that transmits only the first `count` bytes of its buffer.  The number that it
returns is not looked at, and the other bytes are never sent. -/
def sendPart (connection : Connection) (count : ℕ) : Option Connection :=
  match connection.sending with
  | [] => none
  | bytes :: left =>
      if 0 < count ∧ count < bytes.length then
        some { connection with sending := left, unread := connection.unread ++ bytes.take count }
      else none

def receive (connection : Connection) (cut : ℕ) : Option Connection :=
  connection.thread.bind fun thread =>
    if thread.finished = true then none
    else
      (thread.reader.receive cut connection.unread).map fun (reader, unread) =>
        { connection with thread := some { thread with reader := reader }, unread := unread }

/-- At the end of a round the thread pushes its dataset to the queue; with the end id it leaves its
loop. -/
def enqueue (moved : Bytes → Bytes) (connection : Connection) :
    Option (Connection × DatasetStruct) :=
  connection.thread.bind fun thread =>
    if thread.finished = false ∧ thread.reader.stage = .whole then
      let id := wordValue thread.reader.vars.id
      some ({ connection with
          thread := some (if id = endId then { thread with finished := true }
            else { thread with reader := thread.reader.again moved }) },
        ⟨thread.clientId, id, thread.reader.vars.buffer⟩)
    else none

/-- A step of a client or of its thread, and what it appends to the queue. -/
def act (files : Files) (moved : Bytes → Bytes) (connection : Connection) :
    ConnectionAction → Option (Connection × Option DatasetStruct)
  | .push id dataset => (connection.push files id dataset).map fun connection => (connection, none)
  | .pushEnd => connection.pushEnd.map fun connection => (connection, none)
  | .send => connection.send.map fun connection => (connection, none)
  | .sendPart count => (connection.sendPart count).map fun connection => (connection, none)
  | .receive cut => (connection.receive cut).map fun connection => (connection, none)
  | .enqueue => (connection.enqueue moved).map fun (connection, dataset) => (connection, some dataset)

/-- A dataset that is pushed fits the length field, a call of `send` transmits its whole buffer, and
a receive call for a header field returns the whole field. -/
def Intact (files : Files) (connection : Connection) : ConnectionAction → Prop
  | .push _ dataset => dataset.Short files
  | .sendPart _ => False
  | .receive cut => ∀ thread ∈ connection.thread, thread.reader.WholeHeader cut connection.unread
  | _ => True

instance (files : Files) (connection : Connection) (action : ConnectionAction) :
    Decidable (connection.Intact files action) :=
  match action with
  | .push _ dataset => inferInstanceAs (Decidable (dataset.Short files))
  | .receive cut => inferInstanceAs
      (Decidable (∀ thread ∈ connection.thread, thread.reader.WholeHeader cut connection.unread))
  | .pushEnd => instDecidableTrue
  | .send => instDecidableTrue
  | .sendPart _ => instDecidableFalse
  | .enqueue => instDecidableTrue

end Connection

/-! ## What a connection carries -/

/-- What an entry of the queue stands for. -/
def entryItem (dataset : DatasetStruct) : Item :=
  if dataset.id = endId then .endSignal else .dataset dataset.id dataset.buffer

namespace Connection

/-- What the client has pushed. -/
def items (connection : Connection) : List Item :=
  (connection.pushed.map fun push => .dataset push.1 push.2) ++
    if connection.ended = true then [.endSignal] else []

theorem filterMap_items (connection : Connection) :
    connection.items.filterMap Item.dataset? = connection.pushed := by
  have hdatasets : (connection.pushed.map fun push => Item.dataset push.1 push.2).filterMap
      Item.dataset? = connection.pushed := by
    rw [List.filterMap_map]
    exact List.filterMap_some
  rw [items, List.filterMap_append, hdatasets]
  split <;> simp [Item.dataset?]

/-- The id of the client, once its thread is started. -/
def threadId (connection : Connection) : Option ℕ :=
  connection.thread.map ClientThread.clientId

/-- The bytes that the thread has received of an item that it has not pushed to the queue. -/
def consumed (connection : Connection) : Bytes :=
  match connection.thread with
  | none => []
  | some thread => if thread.finished = true then [] else thread.reader.consumed

/-- What the client has pushed are the items `delivered` to the queue, what the thread has
received, what is on the way and what the client has still to send. -/
structure Delivering (delivered : List Item) (connection : Connection) : Prop where
  delivered_valid : ∀ item ∈ delivered, item.Valid
  items_valid : ∀ item ∈ connection.items, item.Valid
  reader : ∀ thread ∈ connection.thread, thread.reader.Fits
  bytes : delivered.flatMap Item.bytes ++
      (connection.consumed ++ (connection.unread ++ connection.sending.flatten)) =
    connection.items.flatMap Item.bytes

/-- What was delivered is the front of what was pushed. -/
theorem Delivering.isFront {delivered : List Item} {connection : Connection}
    (h : connection.Delivering delivered) : delivered <+: connection.items :=
  prefix_of_flatMap_bytes h.delivered_valid h.items_valid ⟨_, h.bytes⟩

/-- Nothing follows the end. -/
theorem eq_items_of_endSignal_mem {front : List Item} {connection : Connection}
    (h : front <+: connection.items) (hend : .endSignal ∈ front) :
    front = connection.items ∧ connection.ended = true := by
  have hdatasets : Item.endSignal ∉ connection.pushed.map fun push => .dataset push.1 push.2 := by
    simp
  unfold items at h ⊢
  split at h
  · rename_i hended
    rcases List.prefix_concat_iff.mp h with heq | hfront
    · exact ⟨by simpa [hended] using heq, hended⟩
    · exact absurd (hfront.subset hend) hdatasets
  · rw [List.append_nil] at h
    exact absurd (h.subset hend) hdatasets

/-! ## What a step does -/

section Act

variable {files : Files} {moved : Bytes → Bytes} {connection connection' : Connection} {id cut : ℕ}
  {pushed : Dataset} {dataset : Option DatasetStruct}

theorem act_push_eq_some
    (h : connection.act files moved (.push id pushed) = some (connection', dataset)) :
    dataset = none ∧ connection.sending = [] ∧ connection.ended = false ∧ id < endId ∧
      ∃ frame buffer, datasetFrame files pushed id = .ok frame ∧
        pushed.retrieveBuffer files = .ok buffer ∧
        connection' =
          { connection with sending := frame, pushed := connection.pushed ++ [(id, buffer)] } := by
  obtain ⟨next, hnext, heq⟩ := Option.map_eq_some_iff.mp h
  cases heq
  unfold push at hnext
  split at hnext
  · rename_i hguard
    obtain ⟨hsending, hended, hid⟩ := hguard
    split at hnext
    · rename_i frame buffer hframe hbuffer
      cases hnext
      exact ⟨rfl, hsending, hended, hid, frame, buffer, hframe, hbuffer, rfl⟩
    · cases hnext
  · cases hnext

theorem act_pushEnd_eq_some
    (h : connection.act files moved .pushEnd = some (connection', dataset)) :
    dataset = none ∧ connection.sending = [] ∧ connection.ended = false ∧
      connection' = { connection with sending := [endFrame], ended := true } := by
  obtain ⟨next, hnext, heq⟩ := Option.map_eq_some_iff.mp h
  cases heq
  unfold pushEnd at hnext
  split at hnext
  · rename_i hguard
    cases hnext
    exact ⟨rfl, hguard.1, hguard.2, rfl⟩
  · cases hnext

theorem act_send_eq_some (h : connection.act files moved .send = some (connection', dataset)) :
    dataset = none ∧ ∃ bytes left, connection.sending = bytes :: left ∧
      connection' =
        { connection with sending := left, unread := connection.unread ++ bytes } := by
  obtain ⟨next, hnext, heq⟩ := Option.map_eq_some_iff.mp h
  cases heq
  unfold send at hnext
  split at hnext
  · cases hnext
  · rename_i bytes left hsending
    cases hnext
    exact ⟨rfl, bytes, left, hsending, rfl⟩

theorem act_sendPart_eq_some {count : ℕ}
    (h : connection.act files moved (.sendPart count) = some (connection', dataset)) :
    dataset = none ∧ ∃ bytes left, connection.sending = bytes :: left ∧
      connection' =
        { connection with sending := left, unread := connection.unread ++ bytes.take count } := by
  obtain ⟨next, hnext, heq⟩ := Option.map_eq_some_iff.mp h
  cases heq
  unfold sendPart at hnext
  split at hnext
  · cases hnext
  · rename_i bytes left hsending
    split at hnext
    · cases hnext
      exact ⟨rfl, bytes, left, hsending, rfl⟩
    · cases hnext

theorem act_receive_eq_some
    (h : connection.act files moved (.receive cut) = some (connection', dataset)) :
    dataset = none ∧ ∃ thread reader unread, connection.thread = some thread ∧
      thread.finished = false ∧
      thread.reader.receive cut connection.unread = some (reader, unread) ∧
      connection' =
        { connection with thread := some { thread with reader := reader }, unread := unread } := by
  obtain ⟨next, hnext, heq⟩ := Option.map_eq_some_iff.mp h
  cases heq
  obtain ⟨thread, hthread, hnext⟩ := Option.bind_eq_some_iff.mp hnext
  split at hnext
  · cases hnext
  · rename_i hrunning
    obtain ⟨⟨reader, unread⟩, hreceive, rfl⟩ := Option.map_eq_some_iff.mp hnext
    exact ⟨rfl, thread, reader, unread, hthread, Bool.eq_false_of_not_eq_true hrunning, hreceive,
      rfl⟩

theorem act_enqueue_eq_some
    (h : connection.act files moved .enqueue = some (connection', dataset)) :
    ∃ thread, connection.thread = some thread ∧ thread.finished = false ∧
      thread.reader.stage = .whole ∧
      dataset = some ⟨thread.clientId, wordValue thread.reader.vars.id,
        thread.reader.vars.buffer⟩ ∧
      connection' = { connection with
        thread := some (if wordValue thread.reader.vars.id = endId then
          { thread with finished := true }
          else { thread with reader := thread.reader.again moved }) } := by
  obtain ⟨⟨next, d⟩, hnext, heq⟩ := Option.map_eq_some_iff.mp h
  cases heq
  obtain ⟨thread, hthread, hnext⟩ := Option.bind_eq_some_iff.mp hnext
  split at hnext
  · rename_i hguard
    cases hnext
    exact ⟨thread, hthread, hguard.1, hguard.2, rfl, rfl⟩
  · cases hnext

/-- What a client pushes. -/
theorem act_push
    (h : connection.act files moved (.push id pushed) = some (connection', dataset)) :
    ∃ buffer, pushed.retrieveBuffer files = .ok buffer ∧
      connection'.pushed = connection.pushed ++ [(id, buffer)] ∧
      connection'.ended = connection.ended := by
  obtain ⟨-, -, -, -, frame, buffer, -, hbuffer, rfl⟩ := act_push_eq_some h
  exact ⟨buffer, hbuffer, rfl, rfl⟩

theorem act_pushEnd (h : connection.act files moved .pushEnd = some (connection', dataset)) :
    connection'.pushed = connection.pushed ∧ connection'.ended = true := by
  obtain ⟨-, -, -, rfl⟩ := act_pushEnd_eq_some h
  exact ⟨rfl, rfl⟩

theorem act_send (h : connection.act files moved .send = some (connection', dataset)) :
    connection'.pushed = connection.pushed ∧ connection'.ended = connection.ended := by
  obtain ⟨-, bytes, left, -, rfl⟩ := act_send_eq_some h
  exact ⟨rfl, rfl⟩

theorem act_sendPart {count : ℕ}
    (h : connection.act files moved (.sendPart count) = some (connection', dataset)) :
    connection'.pushed = connection.pushed ∧ connection'.ended = connection.ended := by
  obtain ⟨-, bytes, left, -, rfl⟩ := act_sendPart_eq_some h
  exact ⟨rfl, rfl⟩

theorem act_receive (h : connection.act files moved (.receive cut) = some (connection', dataset)) :
    connection'.pushed = connection.pushed ∧ connection'.ended = connection.ended := by
  obtain ⟨-, thread, reader, unread, -, -, -, rfl⟩ := act_receive_eq_some h
  exact ⟨rfl, rfl⟩

theorem act_enqueue (h : connection.act files moved .enqueue = some (connection', dataset)) :
    connection'.pushed = connection.pushed ∧ connection'.ended = connection.ended := by
  obtain ⟨thread, -, -, -, -, rfl⟩ := act_enqueue_eq_some h
  exact ⟨rfl, rfl⟩

/-- A step leaves the id of the thread, which is the id of what it appends to the queue. -/
theorem act_threadId {action : ConnectionAction}
    (h : connection.act files moved action = some (connection', dataset)) :
    connection'.threadId = connection.threadId ∧
      ∀ d ∈ dataset, connection.threadId = some d.clientId := by
  cases action with
  | push id pushed =>
      obtain ⟨rfl, -, -, -, frame, buffer, -, -, rfl⟩ := act_push_eq_some h
      exact ⟨rfl, nofun⟩
  | pushEnd =>
      obtain ⟨rfl, -, -, rfl⟩ := act_pushEnd_eq_some h
      exact ⟨rfl, nofun⟩
  | send =>
      obtain ⟨rfl, bytes, left, -, rfl⟩ := act_send_eq_some h
      exact ⟨rfl, nofun⟩
  | sendPart count =>
      obtain ⟨rfl, bytes, left, -, rfl⟩ := act_sendPart_eq_some h
      exact ⟨rfl, nofun⟩
  | receive cut =>
      obtain ⟨rfl, thread, reader, unread, hthread, -, -, rfl⟩ := act_receive_eq_some h
      exact ⟨by simp [threadId, hthread], nofun⟩
  | enqueue =>
      obtain ⟨thread, hthread, -, -, rfl, rfl⟩ := act_enqueue_eq_some h
      refine ⟨?_, fun d hd => ?_⟩
      · simp only [threadId, hthread, Option.map_some]
        split <;> rfl
      · cases hd
        simp [threadId, hthread]

end Act

/-- A client begins to send an item once it has sent what it pushed before. -/
theorem Delivering.begin {delivered : List Item} {connection next : Connection}
    (h : connection.Delivering delivered) (item : Item) (hitem : item.Valid)
    (hsending : connection.sending = [])
    (hitems : next.items = connection.items ++ [item]) (hbytes : next.sending.flatten = item.bytes)
    (hunread : next.unread = connection.unread) (hthread : next.thread = connection.thread) :
    next.Delivering delivered where
  delivered_valid := h.delivered_valid
  items_valid := by
    rw [hitems]
    intro other hother
    rcases List.mem_append.mp hother with hother | hother
    · exact h.items_valid other hother
    · rw [List.mem_singleton.mp hother]
      exact hitem
  reader := by
    rw [hthread]
    exact h.reader
  bytes := by
    have hconsumed : next.consumed = connection.consumed := by rw [consumed, hthread, consumed]
    have hsum := h.bytes
    rw [hsending, List.flatten_nil, List.append_nil] at hsum
    rw [hitems, List.flatMap_append, ← hsum, hconsumed, hunread, hbytes]
    simp

/-- A round of the thread ends with an item, which is then no longer what it has received. -/
theorem Delivering.deliver {delivered : List Item} {moved : Bytes → Bytes} {connection : Connection}
    (h : connection.Delivering delivered) {thread : ClientThread}
    (hthread : connection.thread = some thread) (hrunning : thread.finished = false)
    (hstage : thread.reader.stage = .whole) :
    Connection.Delivering (delivered ++ [thread.reader.item]) { connection with
      thread := some (if wordValue thread.reader.vars.id = endId then
        { thread with finished := true }
        else { thread with reader := thread.reader.again moved }) } := by
  have hfits : thread.reader.Fits := h.reader thread hthread
  obtain ⟨hvalid, hitem⟩ := Reader.bytes_item hfits hstage
  have hconsumed : connection.consumed = thread.reader.consumed := by
    simp [consumed, hthread, hrunning]
  constructor
  · intro item hmem
    rcases List.mem_append.mp hmem with hmem | hmem
    · exact h.delivered_valid item hmem
    · rw [List.mem_singleton.mp hmem]
      exact hvalid
  · exact h.items_valid
  · intro next hnext
    cases hnext
    split
    · exact hfits
    · exact hfits.again moved
  · -- the thread has received nothing of the next item, or it has left its loop
    refine Eq.trans ?_ h.bytes
    rw [hconsumed, ← hitem, List.flatMap_append, List.append_assoc]
    congr 1
    simp only [List.flatMap_cons, List.flatMap_nil, List.append_nil]
    congr 1
    simp only [consumed]
    split <;> simp_all [Reader.again, Reader.consumed]

/-- **A step of a client or of its thread** takes what it appends to the queue from the front of
what was pushed. -/
theorem Delivering.act {delivered : List Item} {files : Files} {moved : Bytes → Bytes}
    {connection connection' : Connection} {action : ConnectionAction}
    {dataset : Option DatasetStruct} (h : connection.Delivering delivered)
    (hact : connection.act files moved action = some (connection', dataset))
    (hintact : connection.Intact files action) :
    connection'.Delivering (delivered ++ dataset.toList.map entryItem) := by
  have ⟨hdelivered, hitems, hreader, hbytes⟩ := h
  cases action with
  | push id pushed =>
      obtain ⟨rfl, hsending, hended, hid, frame, buffer, hframe, hbuffer, rfl⟩ :=
        act_push_eq_some hact
      have hsize : buffer.length < 2 ^ 32 := hintact buffer (by rw [hbuffer]; rfl)
      rw [Option.toList_none, List.map_nil, List.append_nil]
      exact h.begin (.dataset id buffer) ⟨hid, hsize⟩ hsending (by simp [items, hended])
        (flatten_datasetFrame hframe hbuffer hsize) rfl rfl
  | pushEnd =>
      obtain ⟨rfl, hsending, hended, rfl⟩ := act_pushEnd_eq_some hact
      rw [Option.toList_none, List.map_nil, List.append_nil]
      exact h.begin .endSignal trivial hsending (by simp [items, hended])
        (by simp [Item.bytes]) rfl rfl
  | send =>
      obtain ⟨rfl, bytes, left, hsending, rfl⟩ := act_send_eq_some hact
      refine ⟨by simpa using hdelivered, hitems, hreader, ?_⟩
      refine Eq.trans ?_ hbytes
      simp [hsending, Connection.consumed]
  | sendPart count => exact hintact.elim
  | receive cut =>
      obtain ⟨rfl, thread, reader, unread, hthread, hrunning, hreceive, rfl⟩ :=
        act_receive_eq_some hact
      obtain ⟨hfits, hconsumed⟩ := Reader.consumed_receive (hreader thread hthread)
        (hintact thread hthread) hreceive
      refine ⟨by simpa using hdelivered, hitems, fun t ht => ?_, ?_⟩
      · cases ht
        exact hfits
      · -- what was on the way and is received moves from one part of the sum to another
        refine Eq.trans ?_ hbytes
        simp only [Connection.consumed, hthread, hrunning, Bool.false_eq_true, if_false,
          Option.toList_none, List.map_nil, List.append_nil]
        rw [← List.append_assoc reader.consumed, hconsumed, List.append_assoc]
  | enqueue =>
      obtain ⟨thread, hthread, hrunning, hstage, rfl, rfl⟩ := act_enqueue_eq_some hact
      have hentry : entryItem ⟨thread.clientId, wordValue thread.reader.vars.id,
          thread.reader.vars.buffer⟩ = thread.reader.item := rfl
      simp only [Option.toList_some, List.map_cons, List.map_nil, hentry]
      exact h.deliver hthread hrunning hstage

end Connection

/-! ## The system -/

/-- The id of the output data, the files of the clients, and what the language leaves open: the
content of a string that has been moved from and of an integer that is not initialized. -/
structure AggregatorSetting where
  directory : Bytes
  files : Files
  moved : Bytes → Bytes
  uninitialized : ℕ

/-- Where `DataAggregator::Run` is: in `PullDataset`, before or after the queue is not empty or with
the end of a client; in `HandleEndSignal`, before `empty` or before `StopRegistration`; in
`AddDataset`; or after its loop. -/
inductive PullStage
  | pulling
  | popping
  | erasing (clientId : ℕ)
  | checking
  | stopping
  | adding (dataset : DatasetStruct)
  | left
  deriving DecidableEq, Repr

/-- The dataset that was pulled and is not added yet. -/
def PullStage.pending : PullStage → List DatasetStruct
  | adding dataset => [dataset]
  | _ => []

/-- `datasets` is the queue and `pulled` what was popped from it, each entry with the connection
that it came from; `output` are the datasets of the output data. -/
structure SocketAggregator where
  server : SocketServer := { callback := true }
  connections : ℕ → Connection := fun _ => {}
  datasets : List (ℕ × DatasetStruct) := []
  stage : PullStage := .pulling
  pulled : List (ℕ × DatasetStruct) := []
  output : List Dataset := []

namespace SocketAggregator

variable (setting : AggregatorSetting)

/-- What `Run` adds to the data for a pulled dataset. -/
def outputDataset (id : ℕ) (buffer : Bytes) : Dataset :=
  (((({} : Dataset).setData setting.directory).setId (datasetName id)).retainBuffer buffer).setData
    setting.directory

/-- The next step of `Run`. -/
def run (aggregator : SocketAggregator) : Option SocketAggregator :=
  match aggregator.stage with
  | .pulling => if aggregator.datasets = [] then none else some { aggregator with stage := .popping }
  | .popping =>
      match aggregator.datasets with
      | [] => none
      | (c, dataset) :: rest =>
          some { aggregator with
            datasets := rest
            pulled := aggregator.pulled ++ [(c, dataset)]
            stage := if dataset.id = endId then .erasing dataset.clientId else .adding dataset }
  | .erasing clientId =>
      some { aggregator with server := aggregator.server.eraseClient clientId, stage := .checking }
  | .checking =>
      some { aggregator with
        stage := if aggregator.server.clientSockets.isEmpty then .stopping else .pulling }
  | .stopping =>
      some { aggregator with server := aggregator.server.stopRegistration, stage := .left }
  | .adding dataset =>
      some { aggregator with
        output := aggregator.output ++ [outputDataset setting dataset.id dataset.buffer]
        stage := .pulling }
  | .left => none

/-- `OnClientRegistered` starts the receive thread of the connection. -/
def onClientRegistered (aggregator : SocketAggregator) (c clientId : ℕ) : SocketAggregator :=
  { aggregator with
    connections := Function.update aggregator.connections c
      { aggregator.connections c with
        thread := some
          { clientId, reader := ⟨.id, ⟨word 4 setting.uninitialized, word 4 endId, []⟩⟩ } } }

inductive Action
  | otherServer
  | accept (c : ℕ)
  | handle
  | connection (c : ℕ) (action : ConnectionAction)
  | run
  deriving DecidableEq, Repr

/-- A state is `next_client_id` and the aggregator. -/
def step (s : ℕ × SocketAggregator) : Action → Option (ℕ × SocketAggregator)
  | .otherServer => some (countRegistration s.1, s.2)
  | .accept c =>
      (s.2.server.accept s.1 c).map fun server => (s.1, { s.2 with server := server })
  | .handle =>
      s.2.server.handle.map fun (server, effect) =>
        let aggregator := { s.2 with server := server }
        match effect with
        | .silent => (s.1, aggregator)
        | .called c clientId => (s.1, aggregator.onClientRegistered setting c clientId)
        | .counted => (countRegistration s.1, aggregator)
  | .connection c action =>
      if c ∈ s.2.server.accepted then
        ((s.2.connections c).act setting.files setting.moved action).map
          fun (connection, dataset) =>
            (s.1, { s.2 with
              connections := Function.update s.2.connections c connection
              datasets := s.2.datasets ++ dataset.toList.map fun dataset => (c, dataset) })
      else none
  | .run => (s.2.run setting).map fun aggregator => (s.1, aggregator)

/-- The process before the first registration. -/
def initial : ℕ × SocketAggregator := (1, {})

theorem step_connection {setting : AggregatorSetting} {s t : ℕ × SocketAggregator} {c : ℕ}
    {action : ConnectionAction}
    (h : step setting s (.connection c action) = some t) :
    ∃ connection dataset,
      (s.2.connections c).act setting.files setting.moved action = some (connection, dataset) ∧
      t = (s.1, { s.2 with
        connections := Function.update s.2.connections c connection
        datasets := s.2.datasets ++ dataset.toList.map fun dataset => (c, dataset) }) := by
  simp only [step] at h
  split at h
  · obtain ⟨⟨connection, dataset⟩, hact, rfl⟩ := Option.map_eq_some_iff.mp h
    exact ⟨connection, dataset, hact, rfl⟩
  · cases h

end SocketAggregator

end ComputeWebApp.Data
