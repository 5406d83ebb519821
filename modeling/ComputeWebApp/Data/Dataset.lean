import ComputeWebApp.Library.ByteStream
import Mathlib.Logic.Function.Basic

/-!
# Datasets

`Dataset`, `Data` and `DataSupplyState` of `src/data`.  A `std::string` is a list of bytes,
and the files of the machine are a map from file names to contents.

A dataset has a buffer in memory and, when it is part of a `Data`, a file.  Its content is
the buffer, or the file when the buffer is empty: `getSize` and `retrieveBuffer` agree on
it (`getSize_of_retrieveBuffer`).
-/

namespace ComputeWebApp.Data

open ByteStream

/-- `uint32_t(-1)`, the dataset id that stands for the end of the datasets. -/
def endId : ℕ := 2 ^ 32 - 1

/-- The bytes of a text made of ASCII characters. -/
def ascii (text : String) : Bytes :=
  text.toList.map fun c => UInt8.ofNat c.toNat

/-- `std::to_string` of an unsigned integer. -/
def toString (n : ℕ) : Bytes :=
  ascii n.repr

/-- The content of every file; `none` for a name without a file. -/
abbrev Files := Bytes → Option Bytes

inductive Exception
  | orphanDataset
  | lengthError
  | noMoreDataset
  | noMoreSupplier
  deriving DecidableEq, Repr

/-! ## Dataset -/

/-- `data` is the id of the `Data` that the dataset is part of, which is a directory; `none` stands
for a null pointer.  Until `SetData` is called the pointer is not initialised in the source, and
nothing is known about a dataset that reads it (`Dangling`). -/
structure Dataset where
  id : Bytes := []
  data : Option Bytes := none
  buffer : Bytes := []
  deriving DecidableEq, Repr

namespace Dataset

def setId (dataset : Dataset) (id : Bytes) : Dataset := { dataset with id := id }

def setData (dataset : Dataset) (data : Bytes) : Dataset := { dataset with data := some data }

/-- `GetFilename`; there is none without a data. -/
def getFilename (dataset : Dataset) : Option Bytes :=
  dataset.data.map fun data => data ++ ascii "/" ++ dataset.id ++ ascii ".raw"

/-- What `tellg` gives at the end of the file: its size, or `size_t(-1)` when it cannot be
opened. -/
def fileLength (files : Files) (filename : Bytes) : ℕ :=
  match files filename with
  | some content => content.length
  | none => 2 ^ 64 - 1

/-- Resize a string to the length of the file and read the file into it.  No string has the
size `size_t(-1)` of a file that cannot be opened. -/
def readWhole (files : Files) (filename : Bytes) : Except Exception Bytes :=
  match files filename with
  | some content => .ok content
  | none => .error .lengthError

def getSize (files : Files) (dataset : Dataset) : Except Exception ℕ :=
  if dataset.buffer ≠ [] then .ok dataset.buffer.length
  else
    match dataset.getFilename with
    | none => .error .orphanDataset
    | some filename => .ok (fileLength files filename)

/-- `RetrieveBufferFromFile` keeps what it reads in the buffer of the dataset. -/
def retrieveBufferFromFile (files : Files) (dataset : Dataset) (filename : Bytes) :
    Except Exception Dataset :=
  (readWhole files filename).map fun content => { dataset with buffer := content }

def retrieveBuffer (files : Files) (dataset : Dataset) : Except Exception Bytes :=
  if dataset.buffer ≠ [] then .ok dataset.buffer
  else
    match dataset.getFilename with
    | none => .error .orphanDataset
    | some filename => readWhole files filename

/-- `GetSize` of a dataset that nobody has called `SetData` of, and that retains no buffer, reads a
pointer that is not initialised. -/
def Dangling (dataset : Dataset) : Prop := dataset.buffer = [] ∧ dataset.data = none

instance (dataset : Dataset) : Decidable dataset.Dangling :=
  inferInstanceAs (Decidable (_ ∧ _))

/-- Its size fits a `uint32_t`. -/
def Short (files : Files) (dataset : Dataset) : Prop :=
  ∀ buffer ∈ (dataset.retrieveBuffer files).toOption, buffer.length < 2 ^ 32

instance (files : Files) (dataset : Dataset) : Decidable (dataset.Short files) :=
  inferInstanceAs (Decidable (∀ buffer ∈ (dataset.retrieveBuffer files).toOption, _))

theorem retrieveBufferFromFile_eq_ok {files : Files} {dataset dataset' : Dataset}
    {filename : Bytes} (h : dataset.retrieveBufferFromFile files filename = .ok dataset') :
    ∃ content, files filename = some content ∧ dataset' = { dataset with buffer := content } := by
  unfold retrieveBufferFromFile readWhole at h
  cases hfile : files filename with
  | none => simp [hfile, Except.map] at h
  | some content =>
      simp only [hfile, Except.map, Except.ok.injEq] at h
      exact ⟨content, rfl, h.symm⟩

def retainBuffer (dataset : Dataset) (buffer : Bytes) : Dataset := { dataset with buffer := buffer }

def releaseBuffer (dataset : Dataset) : Dataset := { dataset with buffer := [] }

/-- `Persist` writes the buffer over the file of the dataset. -/
def persist (files : Files) (dataset : Dataset) : Option Files :=
  dataset.getFilename.map fun filename => Function.update files filename (some dataset.buffer)

/-- The announced size is the size of the content. -/
theorem getSize_of_retrieveBuffer {files : Files} {dataset : Dataset} {buffer : Bytes}
    (h : dataset.retrieveBuffer files = .ok buffer) :
    dataset.getSize files = .ok buffer.length := by
  unfold retrieveBuffer at h
  unfold getSize
  split at h
  · cases h
    rw [if_pos (by assumption)]
  · rw [if_neg (by assumption)]
    cases hname : dataset.getFilename with
    | none => simp [hname] at h
    | some filename =>
        simp only [hname, readWhole] at h
        simp only [fileLength]
        cases hfile : files filename with
        | none => simp [hfile] at h
        | some content =>
            simp only [hfile] at h
            cases h
            rfl

end Dataset

/-! ## File names of pulled datasets -/

/-- Only digits are written, so the bytes of a number give back its digits. -/
private theorem map_ascii_repr (n : ℕ) :
    (toString n).map (fun byte => Char.ofNat byte.toNat) = Nat.toDigits 10 n := by
  rw [toString, ascii, Nat.toList_repr, List.map_map]
  refine (List.map_congr_left fun c hc => ?_).trans (List.map_id _)
  have hdigit := Nat.isDigit_of_mem_toDigits (by decide) (by decide) hc
  have hle : c.toNat ≤ 57 := by
    simp only [Char.isDigit, Bool.and_eq_true, decide_eq_true_eq] at hdigit
    exact hdigit.2
  simp [UInt8.toNat_ofNat', Nat.mod_eq_of_lt (show c.toNat < 256 by omega)]

theorem toString_injective {i j : ℕ} (h : toString i = toString j) : i = j := by
  have hdigits : Nat.toDigits 10 i = Nat.toDigits 10 j := by
    rw [← map_ascii_repr, h, map_ascii_repr]
  simpa using congrArg (fun digits => Nat.ofDigitChars 10 digits 0) hdigits

/-- The id that a puller gives to dataset `index`. -/
def datasetName (index : ℕ) : Bytes :=
  ascii "dataset_" ++ toString index

/-- The file of the dataset pulled as `index`, in the data `directory`. -/
def datasetFile (directory : Bytes) (index : ℕ) : Bytes :=
  directory ++ ascii "/" ++ datasetName index ++ ascii ".raw"

theorem datasetName_injective {i j : ℕ} (h : datasetName i = datasetName j) : i = j :=
  toString_injective (List.append_cancel_left h)

theorem datasetFile_injective {directory : Bytes} {i j : ℕ}
    (h : datasetFile directory i = datasetFile directory j) : i = j :=
  datasetName_injective (List.append_cancel_left (List.append_cancel_right h))

/-! ## Supply state -/

/-- The loop of the constructor of `DataSupplyState`.  Its counter is a `uint32_t`, compared
with the number of datasets, which is a `size_t`; `none` when the loop is still running. -/
def fillQueue (size : ℕ) : ℕ → ℕ → List ℕ → Option (List ℕ)
  | 0, _, _ => none
  | fuel + 1, i, queue =>
      if i < size then fillQueue size fuel ((i + 1) % 2 ^ 32) (queue ++ [i]) else some queue

/-- A supply state that has been constructed: `provides` says that the loop has ended. -/
structure DataSupplyState where
  datasets : List Dataset
  datasetsToProvide : List ℕ
  provides : ∃ fuel, fillQueue datasets.length fuel 0 [] = some datasetsToProvide

theorem fillQueue_eq_none {size : ℕ} (hsize : 2 ^ 32 ≤ size) :
    ∀ (fuel i : ℕ) (queue : List ℕ), i < 2 ^ 32 → fillQueue size fuel i queue = none := by
  intro fuel
  induction fuel with
  | zero => intro _ _ _; rfl
  | succ fuel ih =>
      intro i queue hi
      rw [fillQueue, if_pos (by omega)]
      exact ih _ _ (Nat.mod_lt _ (by decide))

theorem fillQueue_eq_range {size : ℕ} (hsize : size < 2 ^ 32) :
    ∀ (fuel i : ℕ) (queue : List ℕ), i ≤ size →
      fillQueue size fuel i (List.range i) = some queue → queue = List.range size := by
  intro fuel
  induction fuel with
  | zero => intro _ _ _ h; cases h
  | succ fuel ih =>
      intro i queue hi h
      rw [fillQueue] at h
      split at h
      · rw [Nat.mod_eq_of_lt (by omega), ← List.range_succ] at h
        exact ih (i + 1) queue (by omega) h
      · cases h
        rw [Nat.le_antisymm hi (by omega)]

/-- A constructed supply state provides every index once, in order. -/
theorem DataSupplyState.datasetsToProvide_eq (state : DataSupplyState) :
    state.datasetsToProvide = List.range state.datasets.length ∧
      state.datasets.length < 2 ^ 32 := by
  obtain ⟨fuel, h⟩ := state.provides
  by_cases hsize : state.datasets.length < 2 ^ 32
  · exact ⟨fillQueue_eq_range hsize fuel 0 _ (Nat.zero_le _) h, hsize⟩
  · rw [fillQueue_eq_none (by omega) fuel 0 [] (by decide)] at h
    cases h

/-- No index is the end id. -/
theorem DataSupplyState.lt_endId (state : DataSupplyState) {i : ℕ}
    (hi : i < state.datasets.length) : i < endId := by
  have hbound := state.datasetsToProvide_eq.2
  unfold endId
  omega

end ComputeWebApp.Data
