import ComputeWebApp.Data.Wire

/-!
# The length field

`PushDataset` of both socket suppliers announces the size of a dataset, a `size_t`, in a
`uint32_t`, and then hands the whole buffer to one call of `send`.  A content that fits the field
and is transmitted by that call arrives as it is (`receive_announced`).  Of a longer one the
receiver takes the announced bytes and reads the next header from the ones that follow
(`receive_truncated`).
-/

namespace ComputeWebApp.Data

open ByteStream

/-- `PushDataset` of a client: what its three calls of `send` transmit, of which `call` is the
first.  `none` when the outcome is not defined. -/
def DatasetSupplierClientSocket.pushDataset (sender : Sender) (call : ℕ) (files : Files)
    (dataset : Dataset) (datasetId : UInt32) : Option (Except Exception (List Bytes)) :=
  if dataset.Dangling then none
  else some ((datasetFrame files dataset datasetId.toNat).map (sender.parts call))

/-- `PushDataset` of the server: the client that it chooses, and what the calls of `send`
transmit.  It waits while there is no client. -/
def DatasetSupplierServerSocket.pushDataset (sender : Sender) (call : ℕ) (files : Files)
    (clientIds : List ℕ) (dataset : Dataset) (datasetId : UInt32) :
    Option (Except Exception (Option (ℕ × List Bytes))) :=
  if dataset.Dangling then none
  else some do
    let frame ← datasetFrame files dataset datasetId.toNat
    pure ((clientIds[datasetId.toNat % clientIds.length]?).map fun clientId =>
      (clientId, sender.parts call frame))

namespace LengthField

/-- The length of a frame is the one of its payload, and a receiver gets the payload and goes on
with the bytes after it, whatever the network does to the payload. -/
structure Announces (datasetId : UInt32) (buffer : Bytes) (frame : List Bytes) : Prop where
  length : ∃ length, frame = [word 4 datasetId.toNat, length, buffer] ∧ length.length = 4 ∧
    wordValue length = buffer.length
  received : datasetId.toNat ≠ endId →
    ∀ (split : Split) (vars : Received) (rest : Bytes) (headerCalls payloadCalls : ℕ),
      vars.id.length = 4 → vars.length.length = 4 →
      (∀ i < 2, 4 ≤ split.header (headerCalls + i)) →
      ∃ calls, receiveFrame split ⟨frame.flatten ++ rest, headerCalls, payloadCalls⟩ vars =
        some (⟨word 4 datasetId.toNat, word 4 buffer.length, buffer⟩,
          ⟨rest, headerCalls + 2, calls⟩)

/-- What is pushed is the content of the dataset, with its length. -/
def Whole (files : Files) (dataset : Dataset) (datasetId : UInt32) (frame : List Bytes) : Prop :=
  ∃ buffer, dataset.retrieveBuffer files = .ok buffer ∧ Announces datasetId buffer frame

/-- The calls of `send` for a header field and for the content, if there is one, transmit their
whole buffers. -/
def SendsWhole (sender : Sender) (call : ℕ) (files : Files) (dataset : Dataset) : Prop :=
  ∀ buffer ∈ (dataset.retrieveBuffer files).toOption,
    sender.count call 4 = 4 ∧ sender.count (call + 1) 4 = 4 ∧
      sender.count (call + 2) buffer.length = buffer.length

variable {files : Files} {dataset : Dataset} {datasetId : UInt32} {sender : Sender} {call : ℕ}

/-! ## What is sent -/

theorem datasetFrame_eq {buffer : Bytes} (hbuffer : dataset.retrieveBuffer files = .ok buffer) :
    datasetFrame files dataset datasetId.toNat =
      .ok [word 4 datasetId.toNat, word 4 (buffer.length % 2 ^ 32), buffer] := by
  simp only [datasetFrame, Dataset.getSize_of_retrieveBuffer hbuffer, hbuffer, bind, Except.bind,
    pure, Except.pure]

/-- A dataset without a content is refused. -/
theorem exists_retrieveBuffer {frame : List Bytes}
    (h : datasetFrame files dataset datasetId.toNat = .ok frame) :
    ∃ buffer, dataset.retrieveBuffer files = .ok buffer := by
  cases hbuffer : dataset.retrieveBuffer files with
  | ok buffer => exact ⟨buffer, rfl⟩
  | error e =>
      cases hsize : dataset.getSize files <;>
        simp [datasetFrame, hbuffer, hsize, bind, Except.bind] at h

theorem mem_toOption {buffer : Bytes} :
    buffer ∈ (dataset.retrieveBuffer files).toOption ↔
      dataset.retrieveBuffer files = .ok buffer := by
  cases dataset.retrieveBuffer files <;> simp [Except.toOption]

/-- The sends of a frame are whole. -/
theorem whole_frame_iff {buffer : Bytes} {n : ℕ} :
    sender.Whole call [word 4 datasetId.toNat, word 4 n, buffer] ↔
      sender.count call 4 = 4 ∧ sender.count (call + 1) 4 = 4 ∧
        sender.count (call + 2) buffer.length = buffer.length := by
  simp [Sender.Whole]

/-! ## What is received -/

/-- Of a frame a receiver takes as many bytes of the payload as are announced, and reads the next
header from the ones that follow. -/
theorem receive_truncated {split : Split} {vars : Received} (buffer rest : Bytes)
    {headerCalls : ℕ} (payloadCalls : ℕ) (hid : vars.id.length = 4)
    (hlength : vars.length.length = 4) (hcuts : ∀ i < 2, 4 ≤ split.header (headerCalls + i))
    (hne : datasetId.toNat ≠ endId) :
    ∃ calls, receiveFrame split
        ⟨[word 4 datasetId.toNat, word 4 (buffer.length % 2 ^ 32), buffer].flatten ++ rest,
          headerCalls, payloadCalls⟩ vars =
      some (⟨word 4 datasetId.toNat, word 4 (buffer.length % 2 ^ 32),
          buffer.take (buffer.length % 2 ^ 32)⟩,
        ⟨buffer.drop (buffer.length % 2 ^ 32) ++ rest, headerCalls + 2, calls⟩) := by
  have hmod : buffer.length % 2 ^ 32 < 2 ^ 32 := Nat.mod_lt _ (by decide)
  have htake : (buffer.take (buffer.length % 2 ^ 32)).length = buffer.length % 2 ^ 32 := by
    rw [List.length_take, Nat.min_eq_left (Nat.mod_le _ _)]
  obtain ⟨calls, hreceive⟩ := receiveFrame_dataset (buffer.drop (buffer.length % 2 ^ 32) ++ rest)
    payloadCalls hcuts hid hlength datasetId.toNat_lt hne (htake.trans_lt hmod)
  refine ⟨calls, ?_⟩
  rw [htake, ← List.append_assoc (buffer.take _), List.take_append_drop] at hreceive
  simpa using hreceive

theorem receive_announced {buffer : Bytes} (hsize : buffer.length < 2 ^ 32) :
    Announces datasetId buffer
      [word 4 datasetId.toNat, word 4 (buffer.length % 2 ^ 32), buffer] := by
  have hmod : buffer.length % 2 ^ 32 = buffer.length := Nat.mod_eq_of_lt hsize
  refine ⟨⟨_, rfl, length_word 4 _, ?_⟩,
    fun hne split vars rest headerCalls payloadCalls hid hlength hcuts => ?_⟩
  · rw [hmod]
    exact wordValue_word (by simpa using hsize)
  · obtain ⟨calls, hreceive⟩ := receive_truncated buffer rest payloadCalls hid hlength hcuts hne
    refine ⟨calls, hreceive.trans ?_⟩
    rw [hmod, List.take_length, List.drop_length, List.nil_append]

/-- What the sends of a frame transmit announces the content exactly when they transmit all of it
and four bytes can stand for its length. -/
theorem announces_parts_iff {buffer : Bytes} :
    Announces datasetId buffer (sender.parts call
        [word 4 datasetId.toNat, word 4 (buffer.length % 2 ^ 32), buffer]) ↔
      buffer.length < 2 ^ 32 ∧ sender.Whole call
        [word 4 datasetId.toNat, word 4 (buffer.length % 2 ^ 32), buffer] := by
  constructor
  · rintro ⟨⟨length, hframe, hwidth, hvalue⟩, -⟩
    have hlt := wordValue_lt length
    rw [hwidth, hvalue] at hlt
    refine ⟨by omega, Sender.parts_eq_iff.mp (hframe.trans ?_)⟩
    -- four transmitted bytes of a word are the word
    have hlength : length = (word 4 (buffer.length % 2 ^ 32)).take
        (sender.count (call + 1) (word 4 (buffer.length % 2 ^ 32)).length) := by
      simp only [Sender.parts, List.cons.injEq] at hframe
      exact hframe.2.1.symm
    have hcount := congrArg List.length hlength
    rw [hwidth, List.length_take, length_word] at hcount
    rw [hlength, length_word, List.take_of_length_le (by rw [length_word]; omega)]
  · rintro ⟨hsize, hwhole⟩
    rw [Sender.parts_eq_iff.mpr hwhole]
    exact receive_announced hsize

theorem whole_parts_iff :
    (∀ frame, datasetFrame files dataset datasetId.toNat = .ok frame →
        Whole files dataset datasetId (sender.parts call frame)) ↔
      dataset.Short files ∧ SendsWhole sender call files dataset := by
  constructor
  · intro h
    have hbuffer : ∀ buffer ∈ (dataset.retrieveBuffer files).toOption,
        buffer.length < 2 ^ 32 ∧ sender.count call 4 = 4 ∧ sender.count (call + 1) 4 = 4 ∧
          sender.count (call + 2) buffer.length = buffer.length := by
      intro buffer hmem
      have hretrieve := mem_toOption.mp hmem
      obtain ⟨buffer', hbuffer', hannounces⟩ := h _ (datasetFrame_eq hretrieve)
      obtain rfl := Except.ok.inj (hretrieve.symm.trans hbuffer')
      obtain ⟨hsize, hwhole⟩ := announces_parts_iff.mp hannounces
      exact ⟨hsize, whole_frame_iff.mp hwhole⟩
    exact ⟨fun buffer hmem => (hbuffer buffer hmem).1, fun buffer hmem => (hbuffer buffer hmem).2⟩
  · rintro ⟨hshort, hsends⟩ frame hframe
    obtain ⟨buffer, hbuffer⟩ := exists_retrieveBuffer hframe
    obtain rfl := Except.ok.inj ((datasetFrame_eq hbuffer).symm.trans hframe)
    exact ⟨buffer, hbuffer, announces_parts_iff.mpr ⟨hshort buffer (mem_toOption.mpr hbuffer),
      whole_frame_iff.mpr (hsends buffer (mem_toOption.mpr hbuffer))⟩⟩

variable (files dataset datasetId sender call) in
/-- With a client the server sends the frame to one of its clients. -/
theorem pushDataset_server (client : ℕ) (clients : List ℕ) (hattached : ¬dataset.Dangling) :
    ∃ clientId ∈ client :: clients,
      DatasetSupplierServerSocket.pushDataset sender call files (client :: clients) dataset
          datasetId =
        some ((datasetFrame files dataset datasetId.toNat).map fun frame =>
          some (clientId, sender.parts call frame)) := by
  have hlt : datasetId.toNat % (client :: clients).length < (client :: clients).length :=
    Nat.mod_lt _ (Nat.succ_pos _)
  refine ⟨_, List.getElem_mem hlt, ?_⟩
  unfold DatasetSupplierServerSocket.pushDataset
  rw [if_neg hattached, List.getElem?_eq_getElem hlt]
  cases datasetFrame files dataset datasetId.toNat <;> rfl

/-- A client refuses a dataset or sends it whole. -/
theorem client_iff :
    (∃ outcome, DatasetSupplierClientSocket.pushDataset sender call files dataset datasetId =
          some outcome ∧
        ∀ frame, outcome = .ok frame → Whole files dataset datasetId frame) ↔
      ¬dataset.Dangling ∧ dataset.Short files ∧ SendsWhole sender call files dataset := by
  rw [← @whole_parts_iff files dataset datasetId sender call]
  by_cases hdangling : dataset.Dangling
  · simp [DatasetSupplierClientSocket.pushDataset, hdangling]
  · simp only [DatasetSupplierClientSocket.pushDataset, hdangling, not_false_eq_true, true_and]
    cases datasetFrame files dataset datasetId.toNat <;> simp [Except.map]

/-- **The length field.**  `PushDataset` of a client or of the server refuses a dataset or sends
it whole if and only if the dataset is attached to a data or retains a buffer, and its content, if
it has one, is shorter than `2 ^ 32` bytes and transmitted whole by the calls of `send`. -/
theorem length_field_iff (sender : Sender) (call : ℕ) (files : Files) (dataset : Dataset)
    (datasetId : UInt32) (client : ℕ) (clients : List ℕ) :
    ((∃ outcome, DatasetSupplierClientSocket.pushDataset sender call files dataset datasetId =
          some outcome ∧
        ∀ frame, outcome = .ok frame → Whole files dataset datasetId frame) ↔
      ¬dataset.Dangling ∧ dataset.Short files ∧ SendsWhole sender call files dataset) ∧
    ((∃ outcome, DatasetSupplierServerSocket.pushDataset sender call files (client :: clients)
          dataset datasetId = some outcome ∧
        ∀ sent, outcome = .ok sent → ∀ push ∈ sent, Whole files dataset datasetId push.2) ↔
      ¬dataset.Dangling ∧ dataset.Short files ∧ SendsWhole sender call files dataset) := by
  refine ⟨client_iff, ?_⟩
  rw [← @whole_parts_iff files dataset datasetId sender call]
  by_cases hdangling : dataset.Dangling
  · simp [DatasetSupplierServerSocket.pushDataset, hdangling]
  · obtain ⟨clientId, -, hpush⟩ := pushDataset_server files dataset datasetId sender call
      client clients hdangling
    rw [hpush]
    simp only [Option.some.injEq, exists_eq_left', hdangling, not_false_eq_true, true_and]
    cases datasetFrame files dataset datasetId.toNat <;> simp [Except.map]

/-- On Linux a buffer of 4 GiB is announced as an empty one, and of a buffer of 2 GiB fewer bytes
follow than are announced. -/
theorem length_field_four_gib :
    (¬∃ outcome, DatasetSupplierClientSocket.pushDataset linux 0 (fun _ => none)
          { buffer := List.replicate (2 ^ 32) 0 } 0 = some outcome ∧
        ∀ frame, outcome = .ok frame →
          Whole (fun _ => none) { buffer := List.replicate (2 ^ 32) 0 } 0 frame) ∧
    ¬∃ outcome, DatasetSupplierClientSocket.pushDataset linux 0 (fun _ => none)
          { buffer := List.replicate (2 ^ 31) 0 } 0 = some outcome ∧
        ∀ frame, outcome = .ok frame →
          Whole (fun _ => none) { buffer := List.replicate (2 ^ 31) 0 } 0 frame := by
  have hretrieve : ∀ n, 0 < n → ({ buffer := List.replicate n 0 } : Dataset).retrieveBuffer
      (fun _ => none) = .ok (List.replicate n 0) := by
    intro n hn
    refine if_pos fun hnil => ?_
    have hlength := congrArg List.length hnil
    rw [List.length_replicate, List.length_nil] at hlength
    omega
  constructor
  · intro h
    have hlt := (client_iff.mp h).2.1 _ (mem_toOption.mpr (hretrieve _ (Nat.two_pow_pos 32)))
    rw [List.length_replicate] at hlt
    exact absurd hlt (lt_irrefl _)
  · intro h
    have hcount := ((client_iff.mp h).2.2 _
      (mem_toOption.mpr (hretrieve _ (Nat.two_pow_pos 31)))).2.2
    rw [List.length_replicate] at hcount
    exact absurd hcount (by decide)

end LengthField

end ComputeWebApp.Data
