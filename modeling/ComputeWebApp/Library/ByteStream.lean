import Mathlib.Data.List.Basic
import Mathlib.Data.List.TakeDrop
import Mathlib.Algebra.Order.Group.Nat
import Mathlib.Tactic.Ring

/-!
# Byte streams

Little-endian words, writes into a buffer, and the send and receive calls of a stream socket.
A send call transmits a front of the buffer that it is handed, and how long it is is up to the
sender; `parts_eq_iff` says when nothing is lost.  A receive call for `size` bytes returns at
least one and at most `size` of them, and how many is up to the network.  `receiveAll` is the
loop that repeats the call until a buffer is full; `receiveAll_of_le` says that it returns the
next bytes of the stream whatever the network does, and `receiveAll_of_lt` that it does not
return when the stream is too short.
-/

namespace ByteStream

abbrev Bytes := List UInt8

/-! ## Little-endian words -/

/-- The `width` low bytes of `n`, least significant first. -/
def word : ℕ → ℕ → Bytes
  | 0, _ => []
  | width + 1, n => UInt8.ofNat n :: word width (n / 256)

/-- The number that a little-endian word stands for. -/
def wordValue : Bytes → ℕ
  | [] => 0
  | byte :: rest => byte.toNat + 256 * wordValue rest

@[simp] theorem length_word (width n : ℕ) : (word width n).length = width := by
  induction width generalizing n with
  | zero => rfl
  | succ width ih => simp [word, ih]

theorem wordValue_word {width n : ℕ} (h : n < 256 ^ width) : wordValue (word width n) = n := by
  induction width generalizing n with
  | zero => simp_all [word, wordValue]
  | succ width ih =>
      have hdiv : n / 256 < 256 ^ width := by
        rw [pow_succ] at h
        exact Nat.div_lt_of_lt_mul (by omega)
      simp only [word, wordValue, ih hdiv, UInt8.toNat_ofNat']
      omega

theorem word_wordValue (bytes : Bytes) : word bytes.length (wordValue bytes) = bytes := by
  induction bytes with
  | nil => rfl
  | cons byte rest ih =>
      have hlt : byte.toNat < 256 := byte.toNat_lt
      have hdiv : (byte.toNat + 256 * wordValue rest) / 256 = wordValue rest := by omega
      have hbyte : UInt8.ofNat (byte.toNat + 256 * wordValue rest) = byte := by
        apply UInt8.toNat_inj.mp
        rw [UInt8.toNat_ofNat']
        omega
      rw [List.length_cons, wordValue, word, hdiv, hbyte, ih]

theorem wordValue_lt (bytes : Bytes) : wordValue bytes < 256 ^ bytes.length := by
  induction bytes with
  | nil => simp [wordValue]
  | cons byte rest ih =>
      have hlt : byte.toNat < 256 := byte.toNat_lt
      rw [wordValue, List.length_cons, pow_succ]
      omega

/-! ## Writing into a buffer -/

/-- Write `bytes` over the content of the buffer from `offset` on. -/
def overwrite (buffer : Bytes) (offset : ℕ) (bytes : Bytes) : Bytes :=
  buffer.take offset ++ bytes ++ buffer.drop (offset + bytes.length)

/-- Change the size of the buffer, keeping the front of its content. -/
def resize (buffer : Bytes) (size : ℕ) : Bytes :=
  buffer.take size ++ List.replicate (size - buffer.length) 0

@[simp] theorem length_resize (buffer : Bytes) (size : ℕ) : (resize buffer size).length = size := by
  simp only [resize, List.length_append, List.length_take, List.length_replicate]
  omega

theorem length_overwrite {buffer bytes : Bytes} {offset : ℕ}
    (h : offset + bytes.length ≤ buffer.length) :
    (overwrite buffer offset bytes).length = buffer.length := by
  simp only [overwrite, List.length_append, List.length_take, List.length_drop]
  omega

theorem overwrite_whole {buffer bytes : Bytes} (h : bytes.length = buffer.length) :
    overwrite buffer 0 bytes = bytes := by
  simp [overwrite, h]

theorem take_overwrite {buffer bytes : Bytes} {offset : ℕ} (h : offset ≤ buffer.length) :
    (overwrite buffer offset bytes).take (offset + bytes.length) = buffer.take offset ++ bytes := by
  have hlen : (buffer.take offset ++ bytes).length = offset + bytes.length := by
    simp [Nat.min_eq_left h]
  rw [overwrite, ← hlen, List.take_left]

/-! ## Sending -/

/-- How many bytes each send call transmits, of a buffer of the given length: at least one if
there is one, and at most all of them. -/
structure Sender where
  count : ℕ → ℕ → ℕ
  pos : ∀ call length, 0 < length → 0 < count call length
  le : ∀ call length, count call length ≤ length

namespace Sender

/-- A system that transmits at most `limit` bytes in one call. -/
def upTo (limit : ℕ) (hlimit : 0 < limit) : Sender where
  count _ length := min length limit
  pos _ _ hlength := Nat.lt_min.mpr ⟨hlength, hlimit⟩
  le _ _ := Nat.min_le_left _ _

/-- What successive calls, one for each buffer, transmit; `call` counts the calls. -/
def parts (sender : Sender) : ℕ → List Bytes → List Bytes
  | _, [] => []
  | call, buffer :: rest =>
      buffer.take (sender.count call buffer.length) :: sender.parts (call + 1) rest

/-- Each call transmits the whole buffer that it is handed. -/
def Whole (sender : Sender) : ℕ → List Bytes → Prop
  | _, [] => True
  | call, buffer :: rest =>
      sender.count call buffer.length = buffer.length ∧ sender.Whole (call + 1) rest

/-- Everything is transmitted exactly when each call transmits its whole buffer. -/
theorem parts_eq_iff {sender : Sender} {call : ℕ} {buffers : List Bytes} :
    sender.parts call buffers = buffers ↔ sender.Whole call buffers := by
  induction buffers generalizing call with
  | nil => simp [parts, Whole]
  | cons buffer rest ih =>
      have hle : sender.count call buffer.length ≤ buffer.length := sender.le _ _
      simp only [parts, Whole, List.cons.injEq, List.take_eq_self_iff, ih]
      constructor
      · rintro ⟨hbuffer, hrest⟩
        exact ⟨by omega, hrest⟩
      · rintro ⟨hbuffer, hrest⟩
        exact ⟨by omega, hrest⟩

/-- Buffers within the limit are transmitted whole. -/
theorem whole_upTo {limit : ℕ} {hlimit : 0 < limit} {buffers : List Bytes} {call : ℕ}
    (h : ∀ buffer ∈ buffers, buffer.length ≤ limit) : (upTo limit hlimit).Whole call buffers := by
  induction buffers generalizing call with
  | nil => trivial
  | cons buffer rest ih =>
      exact ⟨Nat.min_eq_left (h buffer List.mem_cons_self),
        ih fun other hother => h other (List.mem_cons_of_mem _ hother)⟩

end Sender

/-! ## Receiving -/

/-- One receive call for `size` bytes when the network returns `cut` of them: the bytes it
returns and those still to be read.  Without any byte to read the call does not return. -/
def receive (unread : Bytes) (size cut : ℕ) : Option (Bytes × Bytes) :=
  if unread = [] then none
  else some (unread.take (min (max 1 cut) size), unread.drop (min (max 1 cut) size))

/-- Repeat the receive call until `length` bytes of the buffer are filled.  Each call returns
at least one byte, so `length` is enough `fuel`.  `call` counts the calls. -/
def receiveAll (cuts : ℕ → ℕ) : ℕ → Bytes → ℕ → ℕ → ℕ → Bytes → Option (Bytes × ℕ × Bytes)
  | 0, buffer, _, _, call, unread => some (buffer, call, unread)
  | fuel + 1, buffer, received, length, call, unread =>
      if received < length then
        match receive unread (length - received) (cuts call) with
        | none => none
        | some (bytes, unread) =>
            receiveAll cuts fuel (overwrite buffer received bytes) (received + bytes.length)
              length (call + 1) unread
      else some (buffer, call, unread)

/-- The bytes of one call that returns: between one and `size`, the next ones of the stream. -/
theorem receive_spec {unread : Bytes} {size : ℕ} (cut : ℕ) (hne : unread ≠ []) (hsize : 0 < size) :
    ∃ bytes rest, receive unread size cut = some (bytes, rest) ∧ unread = bytes ++ rest ∧
      0 < bytes.length ∧ bytes.length ≤ size := by
  have hlen : 0 < unread.length := List.length_pos_of_ne_nil hne
  refine ⟨_, _, if_neg hne, (List.take_append_drop _ _).symm, ?_, ?_⟩ <;>
    simp only [List.length_take] <;> omega

/-- **The loop reads through every cut.**  With enough bytes in the stream it fills the
buffer with the next ones and leaves the others. -/
theorem receiveAll_of_le (cuts : ℕ → ℕ) :
    ∀ (fuel : ℕ) (buffer : Bytes) (received length call : ℕ) (payload rest : Bytes),
      length - received ≤ fuel → received ≤ length → buffer.length = length →
      payload.length = length - received →
      ∃ call', receiveAll cuts fuel buffer received length call (payload ++ rest) =
        some (buffer.take received ++ payload, call', rest) := by
  intro fuel
  induction fuel with
  | zero =>
      intro buffer received length call payload rest hfuel hle hbuffer hpayload
      have hnil : payload = [] := List.eq_nil_of_length_eq_zero (by omega)
      refine ⟨call, ?_⟩
      rw [receiveAll, hnil, List.take_of_length_le (by omega)]
      simp
  | succ fuel ih =>
      intro buffer received length call payload rest hfuel hle hbuffer hpayload
      by_cases hdone : received < length
      · have hne : payload ++ rest ≠ [] := by
          intro h
          have : payload = [] := (List.append_eq_nil_iff.mp h).1
          simp [this] at hpayload
          omega
        obtain ⟨bytes, unread, hrecv, hsplit, hpos, hmax⟩ :=
          receive_spec (cuts call) hne (show 0 < length - received by omega)
        -- the call returns a prefix of the payload
        obtain ⟨more, rfl⟩ : ∃ more, payload = bytes ++ more :=
          (List.prefix_of_prefix_length_le (hsplit ▸ List.prefix_append bytes unread)
            (List.prefix_append payload rest) (by omega)).imp fun _ h => h.symm
        have hunread : unread = more ++ rest := by
          rw [List.append_assoc] at hsplit
          exact (List.append_cancel_left hsplit).symm
        rw [List.length_append] at hpayload
        obtain ⟨call', hloop⟩ := ih (overwrite buffer received bytes) (received + bytes.length)
          length (call + 1) more rest (by omega) (by omega)
          (by rw [length_overwrite (by omega), hbuffer]) (by omega)
        refine ⟨call', ?_⟩
        simp only [receiveAll, if_pos hdone, hrecv]
        rw [hunread, hloop, take_overwrite (by omega), List.append_assoc]
      · have hnil : payload = [] := List.eq_nil_of_length_eq_zero (by omega)
        refine ⟨call, ?_⟩
        rw [receiveAll, if_neg hdone, hnil, List.take_of_length_le (by omega)]
        simp

/-- With too few bytes in the stream the loop does not return. -/
theorem receiveAll_of_lt (cuts : ℕ → ℕ) :
    ∀ (fuel : ℕ) (buffer : Bytes) (received length call : ℕ) (unread : Bytes),
      length - received ≤ fuel → unread.length < length - received →
      receiveAll cuts fuel buffer received length call unread = none := by
  intro fuel
  induction fuel with
  | zero => intro _ _ _ _ _ hfuel hshort; omega
  | succ fuel ih =>
      intro buffer received length call unread hfuel hshort
      rw [receiveAll, if_pos (by omega)]
      by_cases hne : unread = []
      · simp [receive, hne]
      · obtain ⟨bytes, rest, hrecv, hsplit, hpos, hmax⟩ :=
          receive_spec (cuts call) hne (show 0 < length - received by omega)
        simp only [hrecv]
        have hlen := congrArg List.length hsplit
        rw [List.length_append] at hlen
        exact ih _ _ _ _ _ (by omega) (by omega)

end ByteStream
