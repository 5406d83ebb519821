import ComputeWebApp.Data.Dataset

/-!
# The wire format of the sockets

A dataset travels as its id, the length of its buffer (4 bytes each) and the buffer; the
end is an id alone.  `DatasetSupplierServerSocket` and `DatasetSupplierClientSocket` write
this format; `DatasetAggregatorClientSocket::PullDataset` and the receive thread of
`DatasetAggregatorServerSocket` read it.

The two readers receive in the same way (`receiveFrame`) and differ in the variables that
they receive into: `PullDataset` has a fresh `length` in each call, the thread keeps one
for all its datasets and moves its buffer into the queue.  Both are instances of
`receiveFrames`, for which the results are proved once:

* `receiveFrames_stream`: when every header field comes in one call, the stream decodes to
  what was pushed, whatever happens to the payload calls;
* `receiveFrames_length`: a run that decodes without an end has read at most 4 bytes for
  each header field, so that only whole header fields account for a whole stream.
-/

namespace ComputeWebApp.Data

open ByteStream

/-! ## Writing -/

/-- The buffers that `PushDataset` of both socket suppliers hands to `send`, one after the
other.  The announced length is a `uint32_t`, the size of a dataset is a `size_t`. -/
def datasetFrame (files : Files) (dataset : Dataset) (datasetId : ℕ) :
    Except Exception (List Bytes) := do
  let length := (← dataset.getSize files) % 2 ^ 32
  -- `RetrieveBuffer` replaces the content that `resize(length)` has left
  let buffer ← dataset.retrieveBuffer files
  pure [word 4 datasetId, word 4 length, buffer]

/-- The only buffer that `PushEndSignal` sends to a client. -/
def endFrame : Bytes := word 4 endId

/-- The buffers that successive calls of `PushDataset` followed by `PushEndSignal` hand to
`send`. -/
def handedAll (files : Files) (datasets : List (ℕ × Dataset)) : Except Exception (List Bytes) := do
  let frames ← datasets.mapM fun (datasetId, dataset) => datasetFrame files dataset datasetId
  pure (frames.flatten ++ [endFrame])

/-- The bytes that `sender` transmits of them.  The suppliers do not look at the number that
`send` returns. -/
def transmitAll (sender : Sender) (files : Files) (datasets : List (ℕ × Dataset)) :
    Except Exception Bytes :=
  (handedAll files datasets).map fun buffers => (sender.parts 0 buffers).flatten

/-- All the bytes of them, which is the stream when every call of `send` transmits its whole
buffer. -/
def pushAll (files : Files) (datasets : List (ℕ × Dataset)) : Except Exception Bytes :=
  (handedAll files datasets).map List.flatten

/-! ## Reading -/

/-- One way in which the network cuts a stream: how many bytes each receive call for a
header field (an id or a length) and each receive call for a payload returns, in the order
of the calls. -/
structure Split where
  header : ℕ → ℕ
  payload : ℕ → ℕ

/-- A socket that is read from, with the number of receive calls made so far. -/
structure Socket where
  unread : Bytes
  headerCalls : ℕ := 0
  payloadCalls : ℕ := 0

/-- `receive(asio::buffer(&variable, 4))`: a call that returns fewer bytes leaves the others
of the variable as they were. -/
def Socket.receiveWord (split : Split) (socket : Socket) (field : Bytes) :
    Option (Bytes × Socket) :=
  match receive socket.unread 4 (split.header socket.headerCalls) with
  | none => none
  | some (bytes, unread) =>
      some (overwrite field 0 bytes,
        { socket with unread := unread, headerCalls := socket.headerCalls + 1 })

/-- Resize the buffer and receive until the whole payload is there. -/
def Socket.receivePayload (split : Split) (socket : Socket) (buffer : Bytes) (length : ℕ) :
    Option (Bytes × Socket) :=
  match receiveAll split.payload length (resize buffer length) 0 length socket.payloadCalls
      socket.unread with
  | none => none
  | some (buffer, calls, unread) =>
      some (buffer, { socket with unread := unread, payloadCalls := calls })

/-- The variables that a reader receives into. -/
structure Received where
  id : Bytes
  length : Bytes
  buffer : Bytes
  deriving DecidableEq

/-- Receive an id and, unless it is the end id, a length and a payload. -/
def receiveFrame (split : Split) (socket : Socket) (vars : Received) :
    Option (Received × Socket) := do
  let (id, socket) ← socket.receiveWord split vars.id
  if wordValue id = endId then
    return ({ vars with id := id }, socket)
  let (length, socket) ← socket.receiveWord split vars.length
  let (buffer, socket) ← socket.receivePayload split vars.buffer (wordValue length)
  return ({ id := id, length := length, buffer := buffer }, socket)

/-- What a reader got: the datasets and, once it has read the end id, the bytes that it has
not read. -/
structure Decoded where
  datasets : List (ℕ × Bytes)
  left : Option Bytes
  deriving DecidableEq

namespace DatasetAggregatorClientSocket

/-- `PullDataset`: `datasetId` is the variable of the caller, `buffer` the one of the
aggregator, `length` a local variable that is `uint32_t(-1)`. -/
def pullDataset (split : Split) (socket : Socket) (datasetId buffer : Bytes) :
    Option (Received × Socket) :=
  receiveFrame split socket { id := datasetId, length := word 4 endId, buffer := buffer }

/-- A worker calls `PullDataset` until it pulls the end id, here at most `pulls` times. -/
def pullAll (split : Split) : ℕ → Bytes → Bytes → Socket → Decoded
  | 0, _, _, _ => ⟨[], none⟩
  | pulls + 1, datasetId, buffer, socket =>
      match pullDataset split socket datasetId buffer with
      | none => ⟨[], none⟩
      | some (pulled, socket) =>
          if wordValue pulled.id = endId then ⟨[], some socket.unread⟩
          else
            let rest := pullAll split pulls pulled.id pulled.buffer socket
            ⟨(wordValue pulled.id, pulled.buffer) :: rest.datasets, rest.left⟩

end DatasetAggregatorClientSocket

namespace DatasetAggregatorServerSocket

structure DatasetStruct where
  clientId : ℕ
  id : ℕ
  buffer : Bytes
  deriving DecidableEq, Repr

/-- The first `rounds` rounds of the receive thread of a client: what it pushes to the queue
and, once it has left its loop, the bytes that it has not read.  A string that has been
moved from has a content that is not specified, `moved` of its former content. -/
def receiveThread (split : Split) (moved : Bytes → Bytes) (clientId : ℕ) :
    ℕ → Received → Socket → List DatasetStruct × Option Bytes
  | 0, _, _ => ([], none)
  | rounds + 1, vars, socket =>
      match receiveFrame split socket vars with
      | none => ([], none)
      | some (dataset, socket) =>
          let pushed : DatasetStruct := ⟨clientId, wordValue dataset.id, dataset.buffer⟩
          if wordValue dataset.id = endId then ([pushed], some socket.unread)
          else
            let rest := receiveThread split moved clientId rounds
              { dataset with buffer := moved dataset.buffer } socket
            (pushed :: rest.1, rest.2)

/-- The ids and buffers that repeated calls of `PullDataset` return from a queue that holds
the datasets of one client, and whether the end id is among them. -/
def pullAll : List DatasetStruct → List (ℕ × Bytes) × Bool
  | [] => ([], false)
  | dataset :: rest =>
      if dataset.id = endId then ([], true)
      else ((dataset.id, dataset.buffer) :: (pullAll rest).1, (pullAll rest).2)

/-- The thread followed by the calls of `PullDataset`. -/
def decode (split : Split) (moved : Bytes → Bytes) (clientId rounds : ℕ) (vars : Received)
    (socket : Socket) : Decoded :=
  let received := receiveThread split moved clientId rounds vars socket
  let pulled := pullAll received.1
  ⟨pulled.1, if pulled.2 then received.2 else none⟩

end DatasetAggregatorServerSocket

/-! ## One loop for both readers -/

/-- The loop of both readers; `next` gives the variables for the next dataset. -/
def receiveFrames (split : Split) (next : Received → Received) :
    ℕ → Received → Socket → Decoded
  | 0, _, _ => ⟨[], none⟩
  | rounds + 1, vars, socket =>
      match receiveFrame split socket vars with
      | none => ⟨[], none⟩
      | some (dataset, socket) =>
          if wordValue dataset.id = endId then ⟨[], some socket.unread⟩
          else
            let rest := receiveFrames split next rounds (next dataset) socket
            ⟨(wordValue dataset.id, dataset.buffer) :: rest.datasets, rest.left⟩

theorem client_pullAll_eq (split : Split) (pulls : ℕ) (datasetId buffer : Bytes)
    (socket : Socket) :
    DatasetAggregatorClientSocket.pullAll split pulls datasetId buffer socket =
      receiveFrames split (fun pulled => { pulled with length := word 4 endId }) pulls
        { id := datasetId, length := word 4 endId, buffer := buffer } socket := by
  induction pulls generalizing datasetId buffer socket with
  | zero => rfl
  | succ pulls ih =>
      simp only [DatasetAggregatorClientSocket.pullAll, receiveFrames,
        DatasetAggregatorClientSocket.pullDataset, ih]

theorem server_decode_eq (split : Split) (moved : Bytes → Bytes) (clientId rounds : ℕ)
    (vars : Received) (socket : Socket) :
    DatasetAggregatorServerSocket.decode split moved clientId rounds vars socket =
      receiveFrames split (fun dataset => { dataset with buffer := moved dataset.buffer }) rounds
        vars socket := by
  induction rounds generalizing vars socket with
  | zero => rfl
  | succ rounds ih =>
      simp only [DatasetAggregatorServerSocket.decode,
        DatasetAggregatorServerSocket.receiveThread, receiveFrames] at ih ⊢
      cases receiveFrame split socket vars with
      | none => rfl
      | some received =>
          obtain ⟨dataset, socket⟩ := received
          by_cases hend : wordValue dataset.id = endId
          · simp [hend, DatasetAggregatorServerSocket.pullAll]
          · simp only [if_neg hend, DatasetAggregatorServerSocket.pullAll, ← ih]

/-! ## One receive of a header field or a payload -/

/-- Every one of the first `count` receive calls for a header field returns its 4 bytes. -/
def Split.WholeHeaders (split : Split) (count : ℕ) : Prop :=
  ∀ i < count, 4 ≤ split.header i

theorem receiveWord_whole {split : Split} {field bytes rest : Bytes} {headerCalls payloadCalls : ℕ}
    (hcut : 4 ≤ split.header headerCalls) (hfield : field.length = 4) (hbytes : bytes.length = 4) :
    Socket.receiveWord split ⟨bytes ++ rest, headerCalls, payloadCalls⟩ field =
      some (bytes, ⟨rest, headerCalls + 1, payloadCalls⟩) := by
  have hne : bytes ++ rest ≠ [] := by
    intro h
    have := congrArg List.length h
    simp [hbytes] at this
  have hcount : min (max 1 (split.header headerCalls)) 4 = bytes.length := by omega
  simp only [Socket.receiveWord, receive, if_neg hne, hcount, List.take_left, List.drop_left]
  rw [overwrite_whole (by omega)]

/-- What a receive call for a header field does to the sizes: it takes at most 4 bytes, and 4
only when the network returns all of them. -/
theorem receiveWord_some {split : Split} {socket socket' : Socket} {field value : Bytes}
    (h : socket.receiveWord split field = some (value, socket')) :
    ∃ got ≤ 4, socket.unread.length = got + socket'.unread.length ∧
      socket'.headerCalls = socket.headerCalls + 1 ∧
      (got = 4 → 4 ≤ split.header socket.headerCalls) := by
  unfold Socket.receiveWord receive at h
  split at h
  · cases h
  · rename_i bytes unread hreceive
    split at hreceive
    · cases hreceive
    · cases hreceive
      cases h
      refine ⟨min (min (max 1 (split.header socket.headerCalls)) 4) socket.unread.length,
        by omega, ?_, rfl, by omega⟩
      simp only [List.length_drop]
      omega

theorem receivePayload_whole (split : Split) (buffer payload rest : Bytes)
    (headerCalls payloadCalls : ℕ) :
    ∃ calls, Socket.receivePayload split ⟨payload ++ rest, headerCalls, payloadCalls⟩ buffer
      payload.length = some (payload, ⟨rest, headerCalls, calls⟩) := by
  obtain ⟨calls, hloop⟩ := receiveAll_of_le split.payload payload.length
    (resize buffer payload.length) 0 payload.length payloadCalls payload rest
    (by omega) (by omega) (length_resize _ _) rfl
  refine ⟨calls, ?_⟩
  simp [Socket.receivePayload, hloop]

theorem receivePayload_some {split : Split} {socket socket' : Socket} {buffer payload : Bytes}
    {length : ℕ} (h : socket.receivePayload split buffer length = some (payload, socket')) :
    socket.unread.length = payload.length + socket'.unread.length ∧
      socket'.headerCalls = socket.headerCalls := by
  by_cases hshort : socket.unread.length < length
  · rw [Socket.receivePayload, receiveAll_of_lt _ _ _ _ _ _ _ (by omega) (by omega)] at h
    cases h
  · have hpayload : (socket.unread.take length).length = length := by simp; omega
    obtain ⟨calls, hloop⟩ := receivePayload_whole split buffer (socket.unread.take length)
      (socket.unread.drop length) socket.headerCalls socket.payloadCalls
    rw [List.take_append_drop, hpayload] at hloop
    rw [show (⟨socket.unread, socket.headerCalls, socket.payloadCalls⟩ : Socket) = socket from rfl,
      h] at hloop
    cases hloop
    simp only [hpayload, List.length_drop, and_true]
    omega

/-! ## One frame -/

theorem receiveFrame_end {split : Split} {vars : Received} {rest : Bytes}
    {headerCalls payloadCalls : ℕ} (hcut : 4 ≤ split.header headerCalls)
    (hid : vars.id.length = 4) :
    receiveFrame split ⟨endFrame ++ rest, headerCalls, payloadCalls⟩ vars =
      some ({ vars with id := endFrame }, ⟨rest, headerCalls + 1, payloadCalls⟩) := by
  have hvalue : wordValue (word 4 endId) = endId := wordValue_word (by decide)
  simp [receiveFrame, receiveWord_whole hcut hid (length_word 4 endId), endFrame, hvalue]

theorem receiveFrame_dataset {split : Split} {vars : Received} {id : ℕ} {buffer : Bytes}
    (rest : Bytes) {headerCalls : ℕ} (payloadCalls : ℕ)
    (hcuts : ∀ i < 2, 4 ≤ split.header (headerCalls + i))
    (hid : vars.id.length = 4) (hlength : vars.length.length = 4)
    (hlt : id < 2 ^ 32) (hne : id ≠ endId) (hsize : buffer.length < 2 ^ 32) :
    ∃ calls, receiveFrame split
        ⟨word 4 id ++ (word 4 buffer.length ++ (buffer ++ rest)), headerCalls, payloadCalls⟩ vars =
      some (⟨word 4 id, word 4 buffer.length, buffer⟩, ⟨rest, headerCalls + 2, calls⟩) := by
  have hvalue : wordValue (word 4 id) = id := wordValue_word (by simpa using hlt)
  have hsizeValue : wordValue (word 4 buffer.length) = buffer.length :=
    wordValue_word (by simpa using hsize)
  obtain ⟨calls, hpayload⟩ := receivePayload_whole split vars.buffer buffer rest
    (headerCalls + 2) payloadCalls
  have hfirst : 4 ≤ split.header headerCalls := hcuts 0 (by omega)
  have hsecond : 4 ≤ split.header (headerCalls + 1) := hcuts 1 (by omega)
  refine ⟨calls, ?_⟩
  simp only [receiveFrame, receiveWord_whole hfirst hid (length_word 4 id),
    Option.bind_eq_bind, Option.bind_some, hvalue, if_neg hne,
    receiveWord_whole hsecond hlength (length_word 4 buffer.length), hsizeValue, hpayload]
  rfl

/-- A frame takes at most 8 bytes besides its payload, and 8 only with whole header fields. -/
theorem receiveFrame_some {split : Split} {socket socket' : Socket} {vars dataset : Received}
    (h : receiveFrame split socket vars = some (dataset, socket'))
    (hne : wordValue dataset.id ≠ endId) :
    socket'.headerCalls = socket.headerCalls + 2 ∧
      socket.unread.length ≤ 8 + dataset.buffer.length + socket'.unread.length ∧
      (socket.unread.length = 8 + dataset.buffer.length + socket'.unread.length →
        ∀ i < 2, 4 ≤ split.header (socket.headerCalls + i)) := by
  simp only [receiveFrame, Option.bind_eq_bind, Option.bind_eq_some_iff, Prod.exists] at h
  obtain ⟨id, socket₁, hid, h⟩ := h
  split at h
  · cases h
    contradiction
  · simp only [Option.bind_eq_some_iff, Prod.exists] at h
    obtain ⟨length, socket₂, hlength, buffer, socket₃, hbuffer, h⟩ := h
    cases h
    obtain ⟨got₁, hle₁, hsize₁, hcalls₁, hwhole₁⟩ := receiveWord_some hid
    obtain ⟨got₂, hle₂, hsize₂, hcalls₂, hwhole₂⟩ := receiveWord_some hlength
    obtain ⟨hsize₃, hcalls₃⟩ := receivePayload_some hbuffer
    dsimp only
    refine ⟨by omega, by omega, fun heq i hi => ?_⟩
    obtain rfl | rfl : i = 0 ∨ i = 1 := by omega
    · exact hwhole₁ (by omega)
    · rw [← hcalls₁]
      exact hwhole₂ (by omega)

/-- The payload of a frame was in the stream. -/
theorem receiveFrame_payload {split : Split} {socket socket' : Socket} {vars dataset : Received}
    (h : receiveFrame split socket vars = some (dataset, socket'))
    (hne : wordValue dataset.id ≠ endId) :
    dataset.buffer.length + socket'.unread.length ≤ socket.unread.length := by
  simp only [receiveFrame, Option.bind_eq_bind, Option.bind_eq_some_iff, Prod.exists] at h
  obtain ⟨id, socket₁, hid, h⟩ := h
  split at h
  · cases h
    contradiction
  · simp only [Option.bind_eq_some_iff, Prod.exists] at h
    obtain ⟨length, socket₂, hlength, buffer, socket₃, hbuffer, h⟩ := h
    cases h
    obtain ⟨got₁, -, hsize₁, -⟩ := receiveWord_some hid
    obtain ⟨got₂, -, hsize₂, -⟩ := receiveWord_some hlength
    obtain ⟨hsize₃, -⟩ := receivePayload_some hbuffer
    dsimp only
    omega

/-- The end takes at most 4 bytes, and 4 only with a whole id. -/
theorem receiveFrame_some_end {split : Split} {socket socket' : Socket} {vars dataset : Received}
    (h : receiveFrame split socket vars = some (dataset, socket'))
    (hend : wordValue dataset.id = endId) :
    socket.unread.length ≤ 4 + socket'.unread.length ∧
      (socket.unread.length = 4 + socket'.unread.length → 4 ≤ split.header socket.headerCalls) := by
  simp only [receiveFrame, Option.bind_eq_bind, Option.bind_eq_some_iff, Prod.exists] at h
  obtain ⟨id, socket₁, hid, h⟩ := h
  split at h
  · cases h
    obtain ⟨got, hle, hsize, _, hwhole⟩ := receiveWord_some hid
    exact ⟨by omega, fun heq => hwhole (by omega)⟩
  · simp only [Option.bind_eq_some_iff, Prod.exists] at h
    obtain ⟨_, _, _, _, _, _, h⟩ := h
    cases h
    contradiction

/-! ## Whole streams -/

/-- A dataset as `PushDataset` can send it: its id is a `uint32_t` other than the end id, it has a
content, which is its retained buffer or, when that is empty, its file, and the content fits the
length field. -/
structure Push (files : Files) where
  id : ℕ
  dataset : Dataset
  buffer : Bytes
  id_lt : id < 2 ^ 32
  id_ne : id ≠ endId
  content : dataset.retrieveBuffer files = .ok buffer
  size_lt : buffer.length < 2 ^ 32

variable {files : Files}

/-- What `PushDataset` hands to `send`. -/
def Push.frame (push : Push files) : List Bytes :=
  [word 4 push.id, word 4 push.buffer.length, push.buffer]

/-- The bytes of one dataset on the wire. -/
def Push.bytes (push : Push files) : Bytes :=
  word 4 push.id ++ (word 4 push.buffer.length ++ push.buffer)

/-- The pair that a receiver shall get. -/
def Push.pair (push : Push files) : ℕ × Bytes := (push.id, push.buffer)

theorem Push.datasetFrame_eq (push : Push files) :
    datasetFrame files push.dataset push.id = .ok push.frame := by
  have hmod : push.buffer.length % 2 ^ 32 = push.buffer.length := Nat.mod_eq_of_lt push.size_lt
  simp only [datasetFrame, Dataset.getSize_of_retrieveBuffer push.content, push.content, hmod, bind,
    Except.bind, pure, Except.pure, Push.frame]

theorem mapM_datasetFrame (pushes : List (Push files)) :
    (pushes.map fun push => (push.id, push.dataset)).mapM
        (fun (datasetId, dataset) => datasetFrame files dataset datasetId) =
      .ok (pushes.map Push.frame) := by
  induction pushes with
  | nil => rfl
  | cons push rest ih =>
      simp only [List.map_cons, List.mapM_cons, push.datasetFrame_eq, ih]
      rfl

/-- Nothing is raised while the datasets are pushed. -/
theorem handedAll_eq (pushes : List (Push files)) :
    handedAll files (pushes.map fun push => (push.id, push.dataset)) =
      .ok (pushes.flatMap Push.frame ++ [endFrame]) := by
  simp only [handedAll, mapM_datasetFrame, bind, Except.bind, pure, Except.pure, List.flatMap_def]

theorem flatten_frames (pushes : List (Push files)) :
    (pushes.flatMap Push.frame).flatten = pushes.flatMap Push.bytes := by
  induction pushes with
  | nil => rfl
  | cons push rest ih => simp [ih, Push.bytes, Push.frame]

/-- What is handed to `send` are the bytes of the datasets followed by the end id. -/
theorem pushAll_eq (pushes : List (Push files)) :
    pushAll files (pushes.map fun push => (push.id, push.dataset)) =
      .ok (pushes.flatMap Push.bytes ++ endFrame) := by
  simp [pushAll, handedAll_eq, Except.map, flatten_frames]

/-- A sender that transmits whole buffers transmits all of it. -/
theorem transmitAll_eq {sender : Sender} {datasets : List (ℕ × Dataset)}
    (hsend : ∀ buffers, handedAll files datasets = .ok buffers → sender.Whole 0 buffers) :
    transmitAll sender files datasets = pushAll files datasets := by
  unfold transmitAll pushAll
  cases hbuffers : handedAll files datasets with
  | error e => rfl
  | ok buffers => simp [Except.map, Sender.parts_eq_iff.mpr (hsend buffers hbuffers)]

/-- The variables of a reader are `uint32_t`, and stay so. -/
def KeepsWords (next : Received → Received) : Prop :=
  ∀ vars, vars.id.length = 4 → vars.length.length = 4 →
    (next vars).id.length = 4 ∧ (next vars).length.length = 4

/-- **Round trip.**  With whole header fields a reader gets exactly what was pushed and leaves
the bytes after the end id. -/
theorem receiveFrames_stream {split : Split} {next : Received → Received}
    (hnext : KeepsWords next) (pushes : List (Push files)) (rest : Bytes) :
    ∀ (rounds : ℕ) (vars : Received) (headerCalls payloadCalls : ℕ),
      vars.id.length = 4 → vars.length.length = 4 → pushes.length < rounds →
      (∀ i < 2 * pushes.length + 1, 4 ≤ split.header (headerCalls + i)) →
      receiveFrames split next rounds vars
          ⟨pushes.flatMap Push.bytes ++ (endFrame ++ rest), headerCalls, payloadCalls⟩ =
        ⟨pushes.map Push.pair, some rest⟩ := by
  induction pushes with
  | nil =>
      intro rounds vars headerCalls payloadCalls hid _ hrounds hcuts
      obtain ⟨rounds, rfl⟩ : ∃ n, rounds = n + 1 := ⟨rounds - 1, by simp at hrounds; omega⟩
      have hcut : 4 ≤ split.header headerCalls := hcuts 0 (by omega)
      have hvalue : wordValue endFrame = endId := wordValue_word (by decide)
      simp only [List.flatMap_nil, List.nil_append, receiveFrames, receiveFrame_end hcut hid, hvalue,
        if_pos, List.map_nil]
  | cons push pushes ih =>
      intro rounds vars headerCalls payloadCalls hid hlength hrounds hcuts
      rw [List.length_cons] at hrounds hcuts
      obtain ⟨rounds, rfl⟩ : ∃ n, rounds = n + 1 := ⟨rounds - 1, by omega⟩
      obtain ⟨calls, hframe⟩ := receiveFrame_dataset
        (pushes.flatMap Push.bytes ++ (endFrame ++ rest)) payloadCalls
        (fun i hi => hcuts i (by omega)) hid hlength push.id_lt push.id_ne push.size_lt
      have hvalue : wordValue (word 4 push.id) = push.id :=
        wordValue_word (by simpa using push.id_lt)
      have hwords := hnext ⟨word 4 push.id, word 4 push.buffer.length, push.buffer⟩
        (length_word 4 _) (length_word 4 _)
      have htail := ih rounds _ (headerCalls + 2) calls hwords.1 hwords.2 (by omega)
        fun i hi => by simpa [Nat.add_assoc] using hcuts (2 + i) (by omega)
      simp only [List.flatMap_cons, Push.bytes, List.append_assoc, receiveFrames, hframe, hvalue,
        if_neg push.id_ne, List.map_cons, Push.pair] at htail ⊢
      rw [htail]

/-- The bytes that the datasets need on the wire, without the end id. -/
def wireSize (datasets : List (ℕ × Bytes)) : ℕ :=
  (datasets.map fun dataset => 8 + dataset.2.length).sum

theorem length_flatMap_bytes (pushes : List (Push files)) :
    (pushes.flatMap Push.bytes).length = wireSize (pushes.map Push.pair) := by
  induction pushes with
  | nil => rfl
  | cons push rest ih =>
      simp only [List.flatMap_cons, List.length_append, ih, wireSize, List.map_cons, List.sum_cons,
        Push.bytes, Push.pair, length_word]
      omega

/-- **Accounting.**  A reader that reaches the end id has read at most the bytes that its
result needs, and all of them only when every header field was whole. -/
theorem receiveFrames_length {split : Split} {next : Received → Received} :
    ∀ (rounds : ℕ) (vars : Received) (socket : Socket) (datasets : List (ℕ × Bytes)) (left : Bytes),
      receiveFrames split next rounds vars socket = ⟨datasets, some left⟩ →
      socket.unread.length ≤ wireSize datasets + 4 + left.length ∧
        (socket.unread.length = wireSize datasets + 4 + left.length →
          ∀ i < 2 * datasets.length + 1, 4 ≤ split.header (socket.headerCalls + i)) := by
  intro rounds
  induction rounds with
  | zero => intro _ _ _ _ h; cases h
  | succ rounds ih =>
      intro vars socket datasets left h
      rw [receiveFrames] at h
      split at h
      · cases h
      · rename_i dataset socket' hframe
        split at h
        · -- the end id
          cases h
          obtain ⟨hle, hwhole⟩ := receiveFrame_some_end hframe (by assumption)
          refine ⟨by simp [wireSize]; omega, fun heq i hi => ?_⟩
          obtain rfl : i = 0 := by simp at hi; omega
          exact hwhole (by simp [wireSize] at heq; omega)
        · obtain ⟨hcalls, hle, hwhole⟩ := receiveFrame_some hframe (by assumption)
          injection h with hdatasets hleft
          subst hdatasets
          obtain ⟨hrest, hwholeRest⟩ := ih (next dataset) socket' _ left (by rw [← hleft])
          simp only [wireSize, List.map_cons, List.sum_cons, List.length_cons] at hrest hwholeRest ⊢
          refine ⟨by omega, fun heq i hi => ?_⟩
          by_cases hi2 : i < 2
          · exact hwhole (by omega) i hi2
          · have := hwholeRest (by omega) (i - 2) (by omega)
            rwa [hcalls, show socket.headerCalls + 2 + (i - 2) = socket.headerCalls + i by omega]
              at this

/-! ## The readers of the repository -/

theorem keepsWords_client :
    KeepsWords fun pulled : Received => { pulled with length := word 4 endId } :=
  fun _ hid _ => ⟨hid, length_word 4 endId⟩

theorem keepsWords_server (moved : Bytes → Bytes) :
    KeepsWords fun dataset : Received => { dataset with buffer := moved dataset.buffer } :=
  fun _ hid hlength => ⟨hid, hlength⟩

/-- What a client aggregator gets from `stream` in at most `pulls` calls, when its caller has
`datasetId` in the id variable. -/
def clientDecode (split : Split) (pulls datasetId : ℕ) (buffer stream : Bytes) : Decoded :=
  DatasetAggregatorClientSocket.pullAll split pulls (word 4 datasetId) buffer ⟨stream, 0, 0⟩

/-- What a server aggregator gets from `stream` in at most `pulls` rounds of the thread, whose
dataset has the id `datasetId` when it is declared. -/
def serverDecode (split : Split) (moved : Bytes → Bytes) (clientId pulls datasetId : ℕ)
    (buffer stream : Bytes) : Decoded :=
  DatasetAggregatorServerSocket.decode split moved clientId pulls
    ⟨word 4 datasetId, word 4 endId, buffer⟩ ⟨stream, 0, 0⟩

/-- **Wire format round trip.**  When every call of `send` transmits its whole buffer, what is
transmitted by successive calls of `PushDataset` and `PushEndSignal` is decoded by both readers
into the ids and contents that were pushed, in order, followed by the end, with no byte left, for
every cut of the payloads. -/
theorem wire_roundtrip (pushes : List (Push files)) (sender : Sender)
    (hsend : ∀ buffers, handedAll files (pushes.map fun push => (push.id, push.dataset)) =
      .ok buffers → sender.Whole 0 buffers)
    (split : Split) (hsplit : split.WholeHeaders (2 * pushes.length + 1)) (pulls : ℕ)
    (hpulls : pushes.length < pulls) (moved : Bytes → Bytes) (clientId datasetId : ℕ)
    (buffer : Bytes) :
    ∃ stream, transmitAll sender files (pushes.map fun push => (push.id, push.dataset)) =
        .ok stream ∧
      clientDecode split pulls datasetId buffer stream = ⟨pushes.map Push.pair, some []⟩ ∧
      serverDecode split moved clientId pulls datasetId buffer stream =
        ⟨pushes.map Push.pair, some []⟩ := by
  have hread := fun next (hnext : KeepsWords next) =>
    receiveFrames_stream hnext pushes [] pulls ⟨word 4 datasetId, word 4 endId, buffer⟩
      0 0 (length_word 4 _) (length_word 4 _) hpulls (by simpa [Split.WholeHeaders] using hsplit)
  refine ⟨_, (transmitAll_eq hsend).trans (pushAll_eq pushes), ?_, ?_⟩
  · rw [clientDecode, client_pullAll_eq]
    simpa using hread _ keepsWords_client
  · rw [serverDecode, server_decode_eq]
    simpa using hread _ (keepsWords_server moved)

/-- One call of `send` on Linux transmits at most 0x7ffff000 bytes. -/
def linux : Sender := Sender.upTo 0x7ffff000 (Nat.succ_pos _)

/-- A retained buffer and an empty file, with one byte for each payload call. -/
theorem wire_roundtrip_two :
    ∃ stream, transmitAll linux (Function.update (fun _ => none) (datasetFile [] 0) (some []))
        [(7, { buffer := [1, 2, 3] }), (0, { id := datasetName 0, data := some [] })] = .ok stream ∧
      clientDecode ⟨fun _ => 4, fun _ => 1⟩ 3 0 [] stream = ⟨[(7, [1, 2, 3]), (0, [])], some []⟩ ∧
      serverDecode ⟨fun _ => 4, fun _ => 1⟩ id 1 3 0 [] stream =
        ⟨[(7, [1, 2, 3]), (0, [])], some []⟩ :=
  wire_roundtrip
    [⟨7, { buffer := [1, 2, 3] }, [1, 2, 3], by decide, by decide, rfl, by decide⟩,
      ⟨0, { id := datasetName 0, data := some [] }, [], by decide, by decide, by rfl, by decide⟩]
    linux (fun buffers hbuffers => by
      rw [handedAll_eq] at hbuffers
      cases hbuffers
      exact Sender.whole_upTo (by decide))
    ⟨fun _ => 4, fun _ => 1⟩ (fun _ _ => le_refl 4) 3 (by decide) id 1 0 []

/-! ## Buffers that are lost

A reader cannot return more bytes than the stream has, so that a payload of which one call of
`send` does not transmit everything is not read back.  And what is sent for an empty buffer is the
file of the dataset. -/

/-- A reader returns no more payload bytes than there are. -/
theorem payload_le_unread (split : Split) (next : Received → Received) :
    ∀ (rounds : ℕ) (vars : Received) (socket : Socket),
      ((receiveFrames split next rounds vars socket).datasets.map fun d => d.2.length).sum ≤
        socket.unread.length := by
  intro rounds
  induction rounds with
  | zero => intro _ _; exact Nat.zero_le _
  | succ rounds ih =>
      intro vars socket
      rw [receiveFrames]
      split
      · exact Nat.zero_le _
      · rename_i dataset socket' hframe
        split
        · exact Nat.zero_le _
        · have hpayload := receiveFrame_payload hframe (by assumption)
          have hrest := ih (next dataset) socket'
          simp only [List.map_cons, List.sum_cons]
          omega

/-- No stream that is shorter than the payload is read back. -/
theorem receiveFrames_ne_of_short {split : Split} {next : Received → Received} {rounds : ℕ}
    {vars : Received} {stream buffer : Bytes} (hshort : stream.length < buffer.length) (id : ℕ)
    (left : Option Bytes) :
    receiveFrames split next rounds vars ⟨stream, 0, 0⟩ ≠ ⟨[(id, buffer)], left⟩ := by
  intro h
  have hle := payload_le_unread split next rounds vars ⟨stream, 0, 0⟩
  rw [h] at hle
  simp only [List.map_cons, List.map_nil, List.sum_cons, List.sum_nil] at hle
  omega

/-- What Linux transmits of one retained buffer. -/
theorem transmitAll_linux {buffer : Bytes} (hne : buffer ≠ []) (hsize : buffer.length < 2 ^ 32) :
    transmitAll linux files [(0, { buffer := buffer })] =
      .ok (word 4 0 ++ (word 4 buffer.length ++ (buffer.take (min buffer.length 0x7ffff000) ++
        endFrame))) := by
  have hhanded := @handedAll_eq files
    [⟨0, { buffer := buffer }, buffer, by decide, by decide, if_pos hne, hsize⟩]
  simp only [List.map_cons, List.map_nil] at hhanded
  rw [transmitAll, hhanded]
  simp [Except.map, Sender.parts, Push.frame, linux, Sender.upTo, List.take_of_length_le, endFrame]

/-- A retained buffer of 2 ^ 31 bytes, of which one call transmits 0x7ffff000, and an empty
retained buffer in a dataset whose file has one byte. -/
theorem not_wire_roundtrip :
    (∃ stream, transmitAll linux (fun _ => none) [(0, { buffer := List.replicate (2 ^ 31) 0 })] =
        .ok stream ∧
      clientDecode ⟨fun _ => 4, fun _ => 1⟩ 2 0 [] stream ≠
          ⟨[(0, List.replicate (2 ^ 31) 0)], some []⟩ ∧
        serverDecode ⟨fun _ => 4, fun _ => 1⟩ id 1 2 0 [] stream ≠
          ⟨[(0, List.replicate (2 ^ 31) 0)], some []⟩) ∧
    ∃ stream, transmitAll linux (Function.update (fun _ => none) (datasetFile [] 0) (some [1]))
        [(0, { id := datasetName 0, data := some [], buffer := [] })] = .ok stream ∧
      clientDecode ⟨fun _ => 4, fun _ => 1⟩ 2 0 [] stream ≠ ⟨[(0, [])], some []⟩ ∧
      serverDecode ⟨fun _ => 4, fun _ => 1⟩ id 1 2 0 [] stream ≠ ⟨[(0, [])], some []⟩ := by
  constructor
  · have hlength : (List.replicate (2 ^ 31) (0 : UInt8)).length = 2 ^ 31 := List.length_replicate
    have hne : List.replicate (2 ^ 31) (0 : UInt8) ≠ [] := by
      rw [← List.length_pos_iff_ne_nil, hlength]
      exact Nat.two_pow_pos 31
    refine ⟨_, transmitAll_linux hne (by rw [hlength]; decide), ?_, ?_⟩
    · rw [clientDecode, client_pullAll_eq]
      refine receiveFrames_ne_of_short ?_ 0 _
      simp only [List.length_append, length_word, List.length_take, hlength, endFrame]
      decide
    · rw [serverDecode, server_decode_eq]
      refine receiveFrames_ne_of_short ?_ 0 _
      simp only [List.length_append, length_word, List.length_take, hlength, endFrame]
      decide
  · exact ⟨_, by rfl, by decide +kernel, by decide +kernel⟩

/-! ## Other cuts of the header fields

A reader takes what one receive call returns for a whole header field.  As long as each of
these calls does return the field, the cut of the stream makes no difference; only then does
a reader account for the whole stream. -/

theorem receiveWord_congr {first second : Split} {socket socket' : Socket}
    (hfirst : ∀ i, 4 ≤ first.header i) (hsecond : ∀ i, 4 ≤ second.header i)
    (hunread : socket.unread = socket'.unread) (field : Bytes) :
    (socket.receiveWord first field).map (fun r => (r.1, r.2.unread)) =
      (socket'.receiveWord second field).map (fun r => (r.1, r.2.unread)) := by
  have hcut : ∀ cut, 4 ≤ cut → min (max 1 cut) 4 = 4 := fun cut h => by omega
  simp only [Socket.receiveWord, receive, hunread, hcut _ (hfirst _), hcut _ (hsecond _)]
  split <;> rfl

theorem receivePayload_congr (first second : Split) {socket socket' : Socket}
    (hunread : socket.unread = socket'.unread) (buffer : Bytes) (length : ℕ) :
    (socket.receivePayload first buffer length).map (fun r => (r.1, r.2.unread)) =
      (socket'.receivePayload second buffer length).map (fun r => (r.1, r.2.unread)) := by
  have hspec : ∀ (split : Split) (socket : Socket),
      (socket.receivePayload split buffer length).map (fun r => (r.1, r.2.unread)) =
        if socket.unread.length < length then none
        else some (socket.unread.take length, socket.unread.drop length) := by
    intro split socket
    by_cases hshort : socket.unread.length < length
    · rw [if_pos hshort, Socket.receivePayload,
        receiveAll_of_lt _ _ _ _ _ _ _ (by omega) (by omega)]
      rfl
    · have hpayload : (socket.unread.take length).length = length := by simp; omega
      obtain ⟨calls, hloop⟩ := receivePayload_whole split buffer (socket.unread.take length)
        (socket.unread.drop length) socket.headerCalls socket.payloadCalls
      rw [List.take_append_drop, hpayload] at hloop
      rw [if_neg hshort]
      exact congrArg (Option.map fun r => (r.1, r.2.unread)) hloop
  rw [hspec, hspec, hunread]

/-- Two results that agree up to the call counters. -/
theorem map_unread_cases {α : Type*} {first second : Option (α × Socket)}
    (h : first.map (fun r => (r.1, r.2.unread)) = second.map (fun r => (r.1, r.2.unread))) :
    first = none ∧ second = none ∨
      ∃ value socket socket', first = some (value, socket) ∧ second = some (value, socket') ∧
        socket.unread = socket'.unread := by
  cases first with
  | none => cases second <;> simp_all
  | some first =>
      cases second with
      | none => simp at h
      | some second =>
          obtain ⟨value, socket⟩ := first
          obtain ⟨value', socket'⟩ := second
          simp only [Option.map_some, Option.some.injEq, Prod.mk.injEq] at h
          obtain ⟨rfl, hunread⟩ := h
          exact .inr ⟨value, socket, socket', rfl, rfl, hunread⟩

theorem receiveFrame_congr {first second : Split} {socket socket' : Socket}
    (hfirst : ∀ i, 4 ≤ first.header i) (hsecond : ∀ i, 4 ≤ second.header i)
    (hunread : socket.unread = socket'.unread) (vars : Received) :
    (receiveFrame first socket vars).map (fun r => (r.1, r.2.unread)) =
      (receiveFrame second socket' vars).map (fun r => (r.1, r.2.unread)) := by
  simp only [receiveFrame, Option.bind_eq_bind]
  obtain ⟨hn, hn'⟩ | ⟨id, socket₁, socket₁', hs, hs', hunread₁⟩ :=
    map_unread_cases (receiveWord_congr hfirst hsecond hunread vars.id)
  · rw [hn, hn']
    rfl
  rw [hs, hs', Option.bind_some, Option.bind_some]
  by_cases hend : wordValue id = endId
  · simp only [if_pos hend]
    exact congrArg (fun unread => some (_, unread)) hunread₁
  simp only [if_neg hend]
  obtain ⟨hn, hn'⟩ | ⟨length, socket₂, socket₂', hs, hs', hunread₂⟩ :=
    map_unread_cases (receiveWord_congr hfirst hsecond hunread₁ vars.length)
  · rw [hn, hn']
    rfl
  rw [hs, hs', Option.bind_some, Option.bind_some]
  obtain ⟨hn, hn'⟩ | ⟨buffer, socket₃, socket₃', hs, hs', hunread₃⟩ :=
    map_unread_cases (receivePayload_congr first second hunread₂ vars.buffer (wordValue length))
  · rw [hn, hn']
  · simp [hs, hs', hunread₃]

theorem receiveFrames_congr {first second : Split} (next : Received → Received)
    (hfirst : ∀ i, 4 ≤ first.header i) (hsecond : ∀ i, 4 ≤ second.header i) :
    ∀ (rounds : ℕ) (vars : Received) (socket socket' : Socket), socket.unread = socket'.unread →
      receiveFrames first next rounds vars socket = receiveFrames second next rounds vars socket' := by
  intro rounds
  induction rounds with
  | zero => intro _ _ _ _; rfl
  | succ rounds ih =>
      intro vars socket socket' hunread
      simp only [receiveFrames]
      obtain ⟨hn, hn'⟩ | ⟨dataset, socket₁, socket₁', hs, hs', hunread₁⟩ :=
        map_unread_cases (receiveFrame_congr hfirst hsecond hunread vars)
      · rw [hn, hn']
      · simp only [hs, hs', ih _ _ _ hunread₁, hunread₁]

/-- A run over a pushed stream gives back what was pushed, without a byte left, exactly when
each of its header fields came in one call. -/
theorem receiveFrames_eq_iff {split : Split} {next : Received → Received}
    (hnext : KeepsWords next) (pushes : List (Push files)) {rounds : ℕ} {vars : Received}
    (hid : vars.id.length = 4) (hlength : vars.length.length = 4)
    (hrounds : pushes.length < rounds) :
    receiveFrames split next rounds vars ⟨pushes.flatMap Push.bytes ++ endFrame, 0, 0⟩ =
        ⟨pushes.map Push.pair, some []⟩ ↔
      split.WholeHeaders (2 * pushes.length + 1) := by
  constructor
  · intro h i hi
    have hsize : (pushes.flatMap Push.bytes ++ endFrame).length =
        wireSize (pushes.map Push.pair) + 4 + ([] : Bytes).length := by
      rw [List.length_append, length_flatMap_bytes, endFrame, length_word, List.length_nil]
    have hwhole := (receiveFrames_length rounds vars _ _ [] h).2 hsize
    simpa using hwhole i (by simpa using hi)
  · intro hsplit
    simpa using receiveFrames_stream hnext pushes [] rounds vars 0 0 hid hlength hrounds
      (by simpa [Split.WholeHeaders] using hsplit)

/-- **Segmentation.**  On any stream, two cuts that deliver every header field in one call
make both readers return the same ids and buffers.  On a pushed stream a reader returns what
was pushed and accounts for every byte exactly when its header fields were delivered so. -/
theorem segmentation_independent_of_whole_headers (pulls datasetId clientId : ℕ) (buffer : Bytes)
    (moved : Bytes → Bytes) :
    (∀ (stream : Bytes) (first second : Split), (∀ i, 4 ≤ first.header i) →
      (∀ i, 4 ≤ second.header i) →
        clientDecode first pulls datasetId buffer stream =
            clientDecode second pulls datasetId buffer stream ∧
          serverDecode first moved clientId pulls datasetId buffer stream =
            serverDecode second moved clientId pulls datasetId buffer stream) ∧
    ∀ (files : Files) (pushes : List (Push files)) (stream : Bytes),
      pushAll files (pushes.map fun push => (push.id, push.dataset)) = .ok stream →
      pushes.length < pulls → ∀ split : Split,
        (clientDecode split pulls datasetId buffer stream = ⟨pushes.map Push.pair, some []⟩ ↔
            split.WholeHeaders (2 * pushes.length + 1)) ∧
          (serverDecode split moved clientId pulls datasetId buffer stream =
              ⟨pushes.map Push.pair, some []⟩ ↔
            split.WholeHeaders (2 * pushes.length + 1)) := by
  constructor
  · intro stream first second hfirst hsecond
    simp only [clientDecode, serverDecode, client_pullAll_eq, server_decode_eq]
    exact ⟨receiveFrames_congr _ hfirst hsecond _ _ _ _ rfl,
      receiveFrames_congr _ hfirst hsecond _ _ _ _ rfl⟩
  · intro files pushes stream hstream hpulls split
    rw [pushAll_eq] at hstream
    cases hstream
    simp only [clientDecode, serverDecode, client_pullAll_eq, server_decode_eq]
    exact ⟨receiveFrames_eq_iff keepsWords_client pushes (length_word 4 _) (length_word 4 _) hpulls,
      receiveFrames_eq_iff (keepsWords_server moved) pushes (length_word 4 _) (length_word 4 _)
        hpulls⟩

/-- One dataset read with one byte for each payload call and with two bytes for each. -/
theorem segmentation_independent_one :
    clientDecode ⟨fun _ => 4, fun _ => 1⟩ 2 0 [] [1, 0, 0, 0, 2, 0, 0, 0, 9, 8, 255, 255, 255, 255] =
        clientDecode ⟨fun _ => 5, fun _ => 2⟩ 2 0 []
          [1, 0, 0, 0, 2, 0, 0, 0, 9, 8, 255, 255, 255, 255] ∧
      serverDecode ⟨fun _ => 4, fun _ => 1⟩ id 1 2 0 []
          [1, 0, 0, 0, 2, 0, 0, 0, 9, 8, 255, 255, 255, 255] =
        serverDecode ⟨fun _ => 5, fun _ => 2⟩ id 1 2 0 []
          [1, 0, 0, 0, 2, 0, 0, 0, 9, 8, 255, 255, 255, 255] :=
  (segmentation_independent_of_whole_headers 2 0 1 [] id).1 _ _ _ (fun _ => by simp) fun _ => by simp

/-- When each receive call returns one byte, the id and the length are taken from the first
bytes of their fields, and the readers wait for a payload that is not in the stream. -/
theorem segmentation_dependent :
    pushAll (fun _ => none) [(1, { buffer := [9] })] =
        .ok [1, 0, 0, 0, 1, 0, 0, 0, 9, 255, 255, 255, 255] ∧
      clientDecode ⟨fun _ => 4, fun _ => 1⟩ 2 0 [] [1, 0, 0, 0, 1, 0, 0, 0, 9, 255, 255, 255, 255] =
        ⟨[(1, [9])], some []⟩ ∧
      clientDecode ⟨fun _ => 1, fun _ => 1⟩ 2 0 [] [1, 0, 0, 0, 1, 0, 0, 0, 9, 255, 255, 255, 255] =
        ⟨[], none⟩ ∧
      serverDecode ⟨fun _ => 4, fun _ => 1⟩ id 1 2 0 []
          [1, 0, 0, 0, 1, 0, 0, 0, 9, 255, 255, 255, 255] = ⟨[(1, [9])], some []⟩ ∧
      serverDecode ⟨fun _ => 1, fun _ => 1⟩ id 1 2 0 []
          [1, 0, 0, 0, 1, 0, 0, 0, 9, 255, 255, 255, 255] = ⟨[], none⟩ := by
  decide +kernel

end ComputeWebApp.Data
