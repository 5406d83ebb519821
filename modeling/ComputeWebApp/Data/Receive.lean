import ComputeWebApp.Data.Wire

/-!
# Receiving, one call at a time

The receive loop of `DatasetAggregatorClientSocket::PullDataset` and of the receive thread of
`DatasetAggregatorServerSocket`, one receive call a step, for the systems in which others take
steps in between.

What a socket carries is a list of items, datasets and end ids.  No item is a prefix of
another, so that the items of a prefix of a stream are a prefix of its items
(`prefix_of_flatMap_bytes`).  A reader that gets its header fields whole has at any moment
read the items that it returned and the bytes in its variables (`Reader.consumed_receive`,
`Reader.bytes_item`).
-/

namespace ComputeWebApp.Data

open ByteStream

/-! ## Items -/

/-- What `PushDataset` and `PushEndSignal` put on a socket. -/
inductive Item
  | dataset (id : ℕ) (buffer : Bytes)
  | endSignal
  deriving DecidableEq, Repr

namespace Item

def bytes : Item → Bytes
  | dataset id buffer => word 4 id ++ (word 4 buffer.length ++ buffer)
  | endSignal => endFrame

/-- The id of a dataset is a `uint32_t` other than the end id, and its size fits the length
field. -/
def Valid : Item → Prop
  | dataset id buffer => id < endId ∧ buffer.length < 2 ^ 32
  | endSignal => True

def dataset? : Item → Option (ℕ × Bytes)
  | dataset id buffer => some (id, buffer)
  | endSignal => none

/-- The first word of an item. -/
def id : Item → ℕ
  | dataset id _ => id
  | endSignal => endId

theorem Valid.id_lt {item : Item} (h : item.Valid) : item.id < 256 ^ 4 := by
  cases item with
  | dataset id buffer => exact h.1.trans (by decide)
  | endSignal => decide

theorem bytes_eq_append (item : Item) : ∃ rest, item.bytes = word 4 item.id ++ rest := by
  cases item with
  | dataset id buffer => exact ⟨_, rfl⟩
  | endSignal => exact ⟨[], (List.append_nil _).symm⟩

theorem bytes_ne_nil (item : Item) : item.bytes ≠ [] := by
  obtain ⟨rest, h⟩ := item.bytes_eq_append
  intro hnil
  have := congrArg List.length (h.symm.trans hnil)
  simp at this

end Item

/-- Words at the front of one stream are equal. -/
theorem word_inj {first second : ℕ} {rest rest' : Bytes} (hfirst : first < 256 ^ 4)
    (hsecond : second < 256 ^ 4) (h : word 4 first ++ rest = word 4 second ++ rest') :
    first = second ∧ rest = rest' := by
  obtain ⟨hword, hrest⟩ := List.append_inj h (by simp)
  exact ⟨by rw [← wordValue_word hfirst, hword, wordValue_word hsecond], hrest⟩

/-- **No item is a prefix of another.** -/
theorem Item.eq_of_append_eq {first second : Item} {rest rest' : Bytes} (hfirst : first.Valid)
    (hsecond : second.Valid) (h : first.bytes ++ rest = second.bytes ++ rest') :
    first = second ∧ rest = rest' := by
  obtain ⟨tail, htail⟩ := first.bytes_eq_append
  obtain ⟨tail', htail'⟩ := second.bytes_eq_append
  have hid : first.id = second.id := by
    rw [htail, htail', List.append_assoc, List.append_assoc] at h
    exact (word_inj hfirst.id_lt hsecond.id_lt h).1
  cases first with
  | dataset i buffer =>
      cases second with
      | dataset j buffer' =>
          obtain rfl : i = j := hid
          simp only [bytes, List.append_assoc, List.append_cancel_left_eq] at h
          obtain ⟨hlength, h⟩ := word_inj (by simpa using hfirst.2) (by simpa using hsecond.2) h
          obtain ⟨rfl, hrest⟩ := List.append_inj h hlength
          exact ⟨rfl, hrest⟩
      | endSignal => exact absurd hid hfirst.1.ne
  | endSignal =>
      cases second with
      | dataset j buffer' => exact absurd hid.symm hsecond.1.ne
      | endSignal => exact ⟨rfl, List.append_cancel_left h⟩

/-- **Decoding is determined.**  Items whose bytes are at the front of the bytes of other items
are at the front of those. -/
theorem prefix_of_flatMap_bytes {items items' : List Item} (hitems : ∀ item ∈ items, item.Valid)
    (hitems' : ∀ item ∈ items', item.Valid)
    (h : items.flatMap Item.bytes <+: items'.flatMap Item.bytes) : items <+: items' := by
  induction items generalizing items' with
  | nil => exact List.nil_prefix
  | cons item items ih =>
      obtain ⟨rest, hrest⟩ := h
      rw [List.flatMap_cons, List.append_assoc] at hrest
      cases items' with
      | nil => exact absurd (List.append_eq_nil_iff.mp hrest).1 item.bytes_ne_nil
      | cons item' items' =>
          rw [List.flatMap_cons] at hrest
          obtain ⟨rfl, htail⟩ := Item.eq_of_append_eq (hitems item List.mem_cons_self)
            (hitems' item' List.mem_cons_self) hrest
          exact List.cons_prefix_cons.mpr ⟨rfl, ih
            (fun item h => hitems item (List.mem_cons_of_mem _ h))
            (fun item h => hitems' item (List.mem_cons_of_mem _ h)) ⟨rest, htail⟩⟩

/-- Datasets with an end at the front of datasets with ends are all of these. -/
theorem endSignal_prefix {datasets datasets' : List Item} {ends : ℕ}
    (hdatasets : Item.endSignal ∉ datasets) (hdatasets' : Item.endSignal ∉ datasets')
    (h : datasets ++ [Item.endSignal] <+: datasets' ++ List.replicate ends .endSignal) :
    datasets = datasets' ∧ ends ≠ 0 := by
  induction datasets generalizing datasets' with
  | nil =>
      cases datasets' with
      | nil =>
          refine ⟨rfl, ?_⟩
          rintro rfl
          simp at h
      | cons item rest =>
          have hitem := (List.cons_prefix_cons.mp h).1
          exact absurd (hitem ▸ List.mem_cons_self) hdatasets'
  | cons item rest ih =>
      cases datasets' with
      | nil =>
          have hmem := h.subset List.mem_cons_self
          rw [List.nil_append] at hmem
          exact absurd (List.eq_of_mem_replicate hmem ▸ List.mem_cons_self) hdatasets
      | cons item' rest' =>
          obtain ⟨rfl, htail⟩ := List.cons_prefix_cons.mp h
          obtain ⟨rfl, hends⟩ := ih (fun hmem => hdatasets (List.mem_cons_of_mem _ hmem))
            (fun hmem => hdatasets' (List.mem_cons_of_mem _ hmem)) htail
          exact ⟨rfl, hends⟩

/-- The buffers of a frame make up an item when the content fits the length field. -/
theorem flatten_datasetFrame {files : Files} {dataset : Dataset} {id : ℕ} {frame : List Bytes}
    {buffer : Bytes} (hframe : datasetFrame files dataset id = .ok frame)
    (hbuffer : dataset.retrieveBuffer files = .ok buffer) (hsize : buffer.length < 2 ^ 32) :
    frame.flatten = (Item.dataset id buffer).bytes := by
  have hmod : buffer.length % 2 ^ 32 = buffer.length := Nat.mod_eq_of_lt hsize
  simp only [datasetFrame, Dataset.getSize_of_retrieveBuffer hbuffer, hbuffer, hmod, bind,
    Except.bind, pure, Except.pure, Except.ok.injEq] at hframe
  rw [← hframe]
  simp [Item.bytes]

/-! ## Readers -/

/-- Where a reader is: before the receive call for the id or for the length, in the loop for the
payload with `received` bytes, or at the end of its round. -/
inductive ReaderStage
  | id
  | length
  | payload (received : ℕ)
  | whole
  deriving DecidableEq, Repr

structure Reader where
  stage : ReaderStage := .id
  vars : Received
  deriving DecidableEq

namespace Reader

/-- The loop goes on while `received < length`. -/
def payloadStage (received length : ℕ) : ReaderStage :=
  if received < length then .payload received else .whole

/-- One receive call, of whose bytes the network returns `cut`.  There is none at the end of a
round. -/
def receive (reader : Reader) (cut : ℕ) (unread : Bytes) : Option (Reader × Bytes) :=
  let vars := reader.vars
  match reader.stage with
  | .id =>
      (ByteStream.receive unread 4 cut).map fun (bytes, unread) =>
        let id := overwrite vars.id 0 bytes
        (⟨if wordValue id = endId then .whole else .length, { vars with id := id }⟩, unread)
  | .length =>
      (ByteStream.receive unread 4 cut).map fun (bytes, unread) =>
        let length := overwrite vars.length 0 bytes
        (⟨payloadStage 0 (wordValue length),
          { vars with length := length, buffer := resize vars.buffer (wordValue length) }⟩, unread)
  | .payload received =>
      (ByteStream.receive unread (wordValue vars.length - received) cut).map fun (bytes, unread) =>
        (⟨payloadStage (received + bytes.length) (wordValue vars.length),
          { vars with buffer := overwrite vars.buffer received bytes }⟩, unread)
  | .whole => none

/-- The next round, with a buffer that has been moved from. -/
def again (moved : Bytes → Bytes) (reader : Reader) : Reader :=
  ⟨.id, { reader.vars with buffer := moved reader.vars.buffer }⟩

/-- What a reader returns at the end of a round. -/
def item (reader : Reader) : Item :=
  if wordValue reader.vars.id = endId then .endSignal
  else .dataset (wordValue reader.vars.id) reader.vars.buffer

/-- A receive call for a header field returns the whole field. -/
def WholeHeader (reader : Reader) (cut : ℕ) (unread : Bytes) : Prop :=
  (reader.stage = .id ∨ reader.stage = .length) → 4 ≤ cut ∧ 4 ≤ unread.length

instance (reader : Reader) (cut : ℕ) (unread : Bytes) : Decidable (reader.WholeHeader cut unread) :=
  inferInstanceAs (Decidable (_ → _))

/-- The bytes that were read in this round. -/
def consumed (reader : Reader) : Bytes :=
  match reader.stage with
  | .id => []
  | .length => reader.vars.id
  | .payload received =>
      reader.vars.id ++ (reader.vars.length ++ reader.vars.buffer.take received)
  | .whole =>
      if wordValue reader.vars.id = endId then reader.vars.id
      else reader.vars.id ++ (reader.vars.length ++ reader.vars.buffer)

/-- What the variables hold: a length follows an id other than the end id, and the buffer has
the length that was received. -/
def StageFits (vars : Received) : ReaderStage → Prop
  | .id => True
  | .length => wordValue vars.id ≠ endId
  | .payload received => wordValue vars.id ≠ endId ∧ received < wordValue vars.length ∧
      vars.buffer.length = wordValue vars.length
  | .whole => wordValue vars.id ≠ endId → vars.buffer.length = wordValue vars.length

/-- The id and the length are `uint32_t`. -/
structure Fits (reader : Reader) : Prop where
  id : reader.vars.id.length = 4
  length : reader.vars.length.length = 4
  stage : StageFits reader.vars reader.stage

/-- The bytes and the rest of the stream after a receive call with enough bytes in it. -/
theorem receive_whole {unread bytes rest : Bytes} {size cut : ℕ} (hcut : size ≤ cut)
    (hpos : 0 < size) (hunread : size ≤ unread.length)
    (h : ByteStream.receive unread size cut = some (bytes, rest)) :
    unread = bytes ++ rest ∧ bytes.length = size := by
  unfold ByteStream.receive at h
  split at h
  · cases h
  · cases h
    have hcount : min (max 1 cut) size = size := by omega
    rw [hcount]
    exact ⟨(List.take_append_drop _ _).symm, by simpa using hunread⟩

/-- A reader at the start of a round has read nothing of it. -/
theorem fits_start {vars : Received} (hid : vars.id.length = 4) (hlength : vars.length.length = 4) :
    Fits ⟨.id, vars⟩ :=
  ⟨hid, hlength, trivial⟩

theorem Fits.again {reader : Reader} (h : reader.Fits) (moved : Bytes → Bytes) :
    (reader.again moved).Fits :=
  ⟨h.id, h.length, trivial⟩

/-- A payload call leaves the loop with the whole payload or stays in it. -/
theorem payloadStage_fits (vars : Received) (received : ℕ) (hid : wordValue vars.id ≠ endId)
    (hle : received ≤ wordValue vars.length)
    (hbuffer : vars.buffer.length = wordValue vars.length) :
    StageFits vars (payloadStage received (wordValue vars.length)) ∧
      consumed ⟨payloadStage received (wordValue vars.length), vars⟩ =
        vars.id ++ (vars.length ++ vars.buffer.take received) := by
  unfold payloadStage
  split
  · exact ⟨⟨hid, by assumption, hbuffer⟩, rfl⟩
  · refine ⟨fun _ => hbuffer, ?_⟩
    rw [consumed, if_neg hid, List.take_of_length_le (by omega)]

/-- A receive call leaves the end of the stream. -/
theorem receive_suffix {reader reader' : Reader} {cut : ℕ} {unread unread' : Bytes}
    (h : reader.receive cut unread = some (reader', unread')) : unread' <:+ unread := by
  have hcall : ∀ {size : ℕ} {bytes rest : Bytes},
      ByteStream.receive unread size cut = some (bytes, rest) → rest <:+ unread := by
    intro size bytes rest hreceive
    unfold ByteStream.receive at hreceive
    split at hreceive
    · cases hreceive
    · cases hreceive
      exact List.drop_suffix _ _
  unfold receive at h
  split at h
  · obtain ⟨⟨bytes, rest⟩, hreceive, heq⟩ := Option.map_eq_some_iff.mp h
    cases heq
    exact hcall hreceive
  · obtain ⟨⟨bytes, rest⟩, hreceive, heq⟩ := Option.map_eq_some_iff.mp h
    cases heq
    exact hcall hreceive
  · obtain ⟨⟨bytes, rest⟩, hreceive, heq⟩ := Option.map_eq_some_iff.mp h
    cases heq
    exact hcall hreceive
  · cases h

/-- **One receive call** keeps the bytes that were read together with those to be read. -/
theorem consumed_receive {reader reader' : Reader} {cut : ℕ} {unread unread' : Bytes}
    (hfits : reader.Fits) (hwhole : reader.WholeHeader cut unread)
    (h : reader.receive cut unread = some (reader', unread')) :
    reader'.Fits ∧ reader'.consumed ++ unread' = reader.consumed ++ unread := by
  obtain ⟨stage, vars⟩ := reader
  obtain ⟨hid, hlength, hstage⟩ := hfits
  dsimp only at hid hlength hstage
  cases stage with
  | id =>
      obtain ⟨hcut, henough⟩ := hwhole (.inl rfl)
      obtain ⟨⟨bytes, rest⟩, hreceive, heq⟩ := Option.map_eq_some_iff.mp h
      obtain ⟨rfl, hbytes⟩ := receive_whole hcut (by decide) henough hreceive
      have hfield : overwrite vars.id 0 bytes = bytes := overwrite_whole (by omega)
      simp only [hfield, Prod.mk.injEq] at heq
      obtain ⟨rfl, rfl⟩ := heq
      by_cases hend : wordValue bytes = endId
      · simp only [if_pos hend]
        exact ⟨⟨hbytes, hlength, fun hne => absurd hend hne⟩, by simp [consumed, hend]⟩
      · simp only [if_neg hend]
        exact ⟨⟨hbytes, hlength, hend⟩, by simp [consumed]⟩
  | length =>
      obtain ⟨hcut, henough⟩ := hwhole (.inr rfl)
      obtain ⟨⟨bytes, rest⟩, hreceive, heq⟩ := Option.map_eq_some_iff.mp h
      obtain ⟨rfl, hbytes⟩ := receive_whole hcut (by decide) henough hreceive
      have hfield : overwrite vars.length 0 bytes = bytes := overwrite_whole (by omega)
      simp only [hfield, Prod.mk.injEq] at heq
      obtain ⟨rfl, rfl⟩ := heq
      obtain ⟨hfits, hconsumed⟩ := payloadStage_fits
        { vars with length := bytes, buffer := resize vars.buffer (wordValue bytes) } 0
        hstage (Nat.zero_le _) (length_resize _ _)
      exact ⟨⟨hid, hbytes, hfits⟩, by rw [hconsumed]; simp [consumed]⟩
  | payload received =>
      obtain ⟨hne, hlt, hbuffer⟩ := hstage
      obtain ⟨⟨bytes, rest⟩, hreceive, heq⟩ := Option.map_eq_some_iff.mp h
      -- any number of bytes may come, but no more than are missing
      have hunread : unread ≠ [] := by
        rintro rfl
        cases hreceive
      obtain ⟨bytes', rest', hreceive', hsplit, -, hmax⟩ :=
        receive_spec cut hunread (show 0 < wordValue vars.length - received by omega)
      obtain ⟨rfl, rfl⟩ : bytes = bytes' ∧ rest = rest' := by
        simpa using hreceive.symm.trans hreceive'
      simp only [Prod.mk.injEq] at heq
      obtain ⟨rfl, rfl⟩ := heq
      obtain ⟨hfits, hconsumed⟩ := payloadStage_fits
        { vars with buffer := overwrite vars.buffer received bytes } (received + bytes.length) hne
        (by dsimp; omega)
        (by dsimp; rw [length_overwrite (by omega), hbuffer])
      refine ⟨⟨hid, hlength, hfits⟩, ?_⟩
      rw [hconsumed, hsplit]
      simp only [consumed, take_overwrite (show received ≤ vars.buffer.length by omega),
        List.append_assoc]
  | whole => cases h

/-- At the end of a round the bytes that were read are those of the item that is returned. -/
theorem bytes_item {reader : Reader} (hfits : reader.Fits) (hstage : reader.stage = .whole) :
    reader.item.Valid ∧ reader.item.bytes = reader.consumed := by
  obtain ⟨stage, vars⟩ := reader
  obtain ⟨hid, hlength, hfit⟩ := hfits
  dsimp only at hid hlength hfit hstage
  subst hstage
  have hidBytes : word 4 (wordValue vars.id) = vars.id := by
    rw [← hid]
    exact word_wordValue _
  have hlengthBytes : word 4 (wordValue vars.length) = vars.length := by
    rw [← hlength]
    exact word_wordValue _
  by_cases hend : wordValue vars.id = endId
  · simp only [item, consumed, if_pos hend]
    refine ⟨trivial, ?_⟩
    rw [Item.bytes, endFrame, ← hend, hidBytes]
  · simp only [item, consumed, if_neg hend]
    have hlt := wordValue_lt vars.id
    have hsize := wordValue_lt vars.length
    rw [hid] at hlt
    rw [hlength, ← hfit hend] at hsize
    refine ⟨⟨?_, by simpa using hsize⟩, ?_⟩
    · simp only [endId] at hend ⊢
      norm_num at hlt
      omega
    · rw [Item.bytes, hfit hend, hidBytes, hlengthBytes]

end Reader

end ComputeWebApp.Data
