import Mathlib.Data.List.DropRight
import ComputeWebApp.Upload.Published

/-!
# What clients are told of a data

`load_data` reads the attributes of the file one after the other, until one is missing or is no
text, flag or number, and counts the groups after the last one.  As the status needs the last
attribute too, an answer is whole or has only the id and the name of the file
(`loadData_of_readMembers`).

While values are posted, whether or not they are accepted, every state of the file that a reader may
see makes a whole answer, and from one to a later one the progress does not fall and the flags stay
set (`answers_follow_upload`): what is recorded stays behind the groups (`Recorded.Right`), of which
none is ever less stored or less uploaded than before.
-/

namespace ComputeWebApp.Api

open ByteStream Transition

/-! ## Reading -/

structure DatasetInfo where
  name : String
  shape : List ℕ
  dtype : String
  deriving DecidableEq, Repr

/-- The values of an answer. -/
inductive Field
  | text (value : String)
  | time (tick : ℕ)
  | bool (value : Bool)
  | int (value : ℤ)
  | datasets (infos : List DatasetInfo)
  | status (uploaded stored uploadProgress storeProgress : Field)
  deriving DecidableEq, Repr

namespace AttrValue

/-- A text as it is read: zeros at its end are taken for padding. -/
def unpadded (text : String) : String :=
  String.ofList (text.toList.rdropWhile (· = '\x00'))

/-- `bytes.decode`, which other values do not have. -/
def decode : AttrValue → Option Field
  | .text value => some (.text (unpadded value))
  | .time tick => some (.time tick)
  | _ => none

/-- `bool` -/
def toBool (value : AttrValue) : Option Field := value.truthy.map .bool

def isSpace (c : Char) : Bool := [' ', '\t', '\n', '\x0b', '\x0c', '\r'].contains c

/-- Digits, with single underscores between them. -/
def unsignedOfText (text : List Char) : Option ℕ :=
  let parts := text.splitOn '_'
  if parts.all fun part => !part.isEmpty && part.all Char.isDigit then
    some (Nat.ofDigitChars 10 parts.flatten 0)
  else none

/-- `int` of a text. -/
def intOfText (text : String) : Option ℤ :=
  match (text.toList.dropWhile isSpace).rdropWhile isSpace with
  | '-' :: digits => (unsignedOfText digits).map fun n => -n
  | '+' :: digits => (unsignedOfText digits).map Nat.cast
  | digits => (unsignedOfText digits).map Nat.cast

/-- `int` -/
def toInt : AttrValue → Option Field
  | .bool value => some (.int value.toNat)
  | .int value => some (.int value)
  | .real value => some (.int (value.num.tdiv value.den))
  | .text value => (intOfText (unpadded value)).map .int
  | .array [value] => some (.int (value.num.tdiv value.den))
  | .array _ => none
  | .time _ => none

end AttrValue

/-- A member of an answer: its key, the attribute that it is read from, and how. -/
structure MemberReader where
  key : String
  name : String
  convert : AttrValue → Option Field

def MemberReader.read (reader : MemberReader) (file : H5File) : Option Field :=
  (file.attrs reader.name).bind reader.convert

open AttrValue in
/-- The attributes in the order in which they are read. -/
def readers : List MemberReader :=
  [⟨"name", "cwa_name", decode⟩, ⟨"version", "cwa_version", decode⟩,
    ⟨"post_time", "cwa_post_time", decode⟩, ⟨"upload_end_time", "cwa_upload_end_time", decode⟩,
    ⟨"store_end_time", "cwa_store_end_time", decode⟩, ⟨"uploaded", "cwa_uploaded", toBool⟩,
    ⟨"uploaded_bytes", "cwa_uploaded_bytes", toInt⟩,
    ⟨"upload_progress", "cwa_upload_progress", toInt⟩, ⟨"stored", "cwa_stored", toBool⟩,
    ⟨"stored_bytes", "cwa_stored_bytes", toInt⟩, ⟨"store_progress", "cwa_store_progress", toInt⟩]

/-- The members that are read, and whether none of them raises. -/
def readMembers (file : H5File) : List MemberReader → List (String × Field) × Bool
  | [] => ([], true)
  | reader :: rest =>
      match reader.read file with
      | none => ([], false)
      | some value => ((reader.key, value) :: (readMembers file rest).1, (readMembers file rest).2)

def Dtype.name : Dtype → String
  | .i1 => "int8"
  | .u1 => "uint8"
  | .i2 => "int16"
  | .u2 => "uint16"

def datasetInfos (dtype : Dtype) (shape : Shape) : List DatasetInfo :=
  ["magnitude", "phase"].map fun name =>
    ⟨name, [shape.height, shape.width, shape.echos], dtype.name⟩

/-- The loop `for dataset_name in group`. -/
def Group.datasetInfos (group : Group) : List DatasetInfo :=
  if group.datasets then Api.datasetInfos group.dtype group.shape else []

/-- The groups as `for group_name in file` visits them: by their names. -/
def H5File.visited (file : H5File) : List (String × Group) :=
  file.groups.mergeSort fun first second => first.1 ≤ second.1

/-- `load_groups_from_h5_file`: the number of groups, and the datasets of the first one. -/
def loadGroupsFromH5File (file : H5File) : List (String × Field) :=
  [("groups", .int file.visited.length),
    ("datasets", .datasets (file.visited.head?.elim [] fun entry => entry.2.datasetInfos))]

/-- `load_data_from_h5_file`: an exception ends it, and what has been read is returned. -/
def loadDataFromH5File (file : H5File) : List (String × Field) :=
  (readMembers file readers).1 ++
    if (readMembers file readers).2 then loadGroupsFromH5File file else []

/-- The status that `load_data` adds, unless one of the four members is missing. -/
def status (data : List (String × Field)) : Option Field := do
  let uploaded ← data.lookup "uploaded"
  let stored ← data.lookup "stored"
  let uploadProgress ← data.lookup "upload_progress"
  let storeProgress ← data.lookup "store_progress"
  return .status uploaded stored uploadProgress storeProgress

def ownMembers (dataId : String) : List (String × Field) :=
  [("id", .text dataId), ("filename", .text (dataId ++ ".h5"))]

/-- `load_data` of the data handlers: a `KeyError` leaves the id and the name of the file. -/
def loadData (dataId : String) (file : H5File) : List (String × Field) :=
  let data := loadDataFromH5File file
  match status data with
  | none => ownMembers dataId
  | some status => data ++ [("status", status)] ++ ownMembers dataId

/-! ### Whole answers -/

section Whole

variable {file : H5File} {reader : MemberReader} {rest : List MemberReader}

theorem readMembers_cons {value : Field} (h : reader.read file = some value) :
    readMembers file (reader :: rest) =
      ((reader.key, value) :: (readMembers file rest).1, (readMembers file rest).2) := by
  rw [readMembers, h]

theorem readMembers_raises (h : reader.read file = none) :
    readMembers file (reader :: rest) = ([], false) := by
  rw [readMembers, h]

/-- When a member raises, the last one is missing. -/
theorem lookup_readMembers (front : List MemberReader) (last : MemberReader)
    (hkeys : ∀ reader ∈ front, reader.key ≠ last.key)
    (h : (readMembers file (front ++ [last])).2 = false) :
    (readMembers file (front ++ [last])).1.lookup last.key = none := by
  induction front with
  | nil =>
      cases hvalue : last.read file with
      | none =>
          rw [List.nil_append, readMembers_raises hvalue]
          rfl
      | some value =>
          rw [List.nil_append, readMembers_cons hvalue] at h
          cases h
  | cons reader front ih =>
      rw [List.cons_append] at h ⊢
      cases hvalue : reader.read file with
      | none =>
          rw [readMembers_raises hvalue]
          rfl
      | some value =>
          rw [readMembers_cons hvalue] at h ⊢
          have hne : last.key ≠ reader.key := (hkeys reader List.mem_cons_self).symm
          rw [List.lookup_cons, beq_false_of_ne hne]
          exact ih (fun other hmem => hkeys other (List.mem_cons_of_mem _ hmem)) h

/-- An answer is whole, or it has only the id and the name of the file. -/
theorem loadData_of_readMembers (dataId : String) (file : H5File) :
    (readMembers file readers).2 = true ∨ loadData dataId file = ownMembers dataId := by
  cases hwhole : (readMembers file readers).2 with
  | true => exact .inl rfl
  | false =>
      right
      have hlast : (readMembers file readers).1.lookup "store_progress" = none :=
        lookup_readMembers readers.dropLast ⟨"store_progress", "cwa_store_progress", AttrValue.toInt⟩
          (by simp [readers]) hwhole
      have hstatus : status (loadDataFromH5File file) = none := by
        simp [status, loadDataFromH5File, hwhole, hlast]
      rw [loadData, hstatus]

end Whole

/-! ## What is recorded -/

/-- The two that are recorded: what is stored, and what is uploaded. -/
inductive Side
  | store
  | upload
  deriving DecidableEq

def Side.totals : Side → Totals
  | store => storeTotals
  | upload => uploadTotals

def Side.flag : Side → Group → Bool
  | store => Group.stored
  | upload => Group.uploaded

def Totals.names (totals : Totals) : List String :=
  [totals.bytes, totals.progress, totals.endTime, totals.flag]

/-- The values of the totals; there is no end time before the end. -/
structure Recorded where
  bytes : ℕ := 0
  progress : ℕ := 0
  endTime : Option ℕ := none
  done : Bool := false

namespace Recorded

def endTimeValue : Option ℕ → AttrValue
  | none => .text ""
  | some tick => .time tick

/-- The file has the values. -/
structure Of (totals : Totals) (recorded : Recorded) (file : H5File) : Prop where
  bytes : file.attrs totals.bytes = some (.int recorded.bytes)
  progress : file.attrs totals.progress = some (.int recorded.progress)
  endTime : file.attrs totals.endTime = some (endTimeValue recorded.endTime)
  flag : file.attrs totals.flag = some (.bool recorded.done)

/-- The values stay behind the groups. -/
structure Right (flag : Group → Bool) (recorded : Recorded) (file : H5File) : Prop where
  progress : recorded.progress * file.groups.length ≤
    100 * file.groups.countP fun entry => flag entry.2
  done : recorded.done = true → recorded.progress = 100 ∧ recorded.endTime.isSome = true ∧
    (file.groups.all fun entry => flag entry.2) = true

/-- The progress does not fall, and the flag stays set. -/
structure Grows (earlier later : Recorded) : Prop where
  progress : earlier.progress ≤ later.progress
  done : earlier.done = true → later.done = true

theorem Grows.refl (recorded : Recorded) : Grows recorded recorded := ⟨Nat.le_refl _, id⟩

theorem Grows.trans {first second third : Recorded} (h : Grows first second)
    (h' : Grows second third) : Grows first third :=
  ⟨h.progress.trans h'.progress, fun hdone => h'.done (h.done hdone)⟩

theorem Of.unique {totals : Totals} {recorded recorded' : Recorded} {file : H5File}
    (h : recorded.Of totals file) (h' : recorded'.Of totals file) : recorded = recorded' := by
  have hbytes := h.bytes.symm.trans h'.bytes
  have hprogress := h.progress.symm.trans h'.progress
  have hendTime := h.endTime.symm.trans h'.endTime
  have hflag := h.flag.symm.trans h'.flag
  obtain ⟨bytes, progress, endTime, done⟩ := recorded
  obtain ⟨bytes', progress', endTime', done'⟩ := recorded'
  cases endTime <;> cases endTime' <;>
    simp_all [endTimeValue]

theorem Of.congr {totals : Totals} {recorded : Recorded} {file file' : H5File}
    (h : recorded.Of totals file)
    (hattrs : ∀ name ∈ totals.names, file'.attrs name = file.attrs name) :
    recorded.Of totals file' := by
  simp only [Totals.names, List.forall_mem_cons] at hattrs
  obtain ⟨hbytes, hprogress, hendTime, hflag, -⟩ := hattrs
  exact ⟨hbytes ▸ h.bytes, hprogress ▸ h.progress, hendTime ▸ h.endTime, hflag ▸ h.flag⟩

/-- Groups that have the flag keep it. -/
theorem Right.mapGroups {flag : Group → Bool} {recorded : Recorded} {file : H5File}
    (h : recorded.Right flag file) {effect : String → Group → Group}
    (hflag : ∀ name group, flag group = true → flag (effect name group) = true) :
    recorded.Right flag (file.mapGroups effect) where
  progress := by
    rw [H5File.groups_mapGroups, List.length_map, List.countP_map]
    refine h.progress.trans (Nat.mul_le_mul_left _ (List.countP_mono_left fun entry _ hset => ?_))
    exact hflag entry.1 entry.2 hset
  done := by
    intro hdone
    obtain ⟨hprogress, hendTime, hall⟩ := h.done hdone
    refine ⟨hprogress, hendTime, ?_⟩
    rw [H5File.groups_mapGroups, List.all_map]
    rw [List.all_eq_true] at hall ⊢
    exact fun entry hentry => hflag entry.1 entry.2 (hall entry hentry)

end Recorded

/-- What every state of the file has that a reader may see. -/
structure Told (data : Creation) (file : H5File) : Prop where
  fits : Fits data file
  name : file.attrs "cwa_name" = some (.text data.name)
  version : file.attrs "cwa_version" = some (.text data.version)
  postTime : file.attrs "cwa_post_time" = some (.text data.postTime)
  recorded : ∀ side : Side, ∃ recorded : Recorded,
    recorded.Of side.totals file ∧ recorded.Right side.flag file

/-- What is recorded grows, and the end of the upload is recorded once. -/
def Later (earlier later : H5File) : Prop :=
  ∀ (side : Side) (recorded : Recorded), recorded.Of side.totals earlier →
    ∃ recorded' : Recorded, recorded'.Of side.totals later ∧ recorded.Grows recorded' ∧
      (side = .upload → recorded.done = true → recorded'.endTime = recorded.endTime)

theorem Later.trans {first second third : H5File} (h : Later first second) (h' : Later second third) :
    Later first third := by
  intro side recorded hrecorded
  obtain ⟨middle, hmiddle, hgrows, hendTime⟩ := h side recorded hrecorded
  obtain ⟨last, hlast, hgrows', hendTime'⟩ := h' side middle hmiddle
  refine ⟨last, hlast, hgrows.trans hgrows', fun hside hdone => ?_⟩
  rw [hendTime' hside (hgrows.done hdone), hendTime hside hdone]

/-! ## Steps -/

section Steps

variable {data : Creation} {older : List H5File} {s : DataState} {file : H5File} {side : Side}
  {recorded recorded' : Recorded} {name : String} {value : AttrValue}

/-- The names of the totals of the two sides, and those of the texts, are different. -/
theorem Side.names_disjoint {other : Side} (hne : other ≠ side) (hname : name ∈ side.totals.names) :
    name ∉ other.totals.names := by
  cases side <;> cases other <;>
    simp_all [Side.totals, Totals.names, storeTotals, uploadTotals] <;>
    rcases hname with rfl | rfl | rfl | rfl <;> decide

theorem Side.not_mem_texts (hname : name ∈ side.totals.names) :
    name ∉ ["cwa_name", "cwa_version", "cwa_post_time"] := by
  cases side <;> simp only [Side.totals, Totals.names, storeTotals, uploadTotals, List.mem_cons,
    List.not_mem_nil, or_false] at hname <;> rcases hname with rfl | rfl | rfl | rfl <;> decide

/-- A total of one side is set. -/
theorem Told.setAttr (h : Told data file) (hname : name ∈ side.totals.names)
    (hrecorded : recorded.Of side.totals (file.setAttr name value))
    (hright : recorded.Right side.flag file) : Told data (file.setAttr name value) := by
  have htexts := Side.not_mem_texts hname
  simp only [List.mem_cons, List.not_mem_nil, or_false, not_or] at htexts
  obtain ⟨hne, hne', hne''⟩ := htexts
  refine ⟨h.fits.setAttr name value, ?_, ?_, ?_, fun other => ?_⟩
  · exact (Function.update_of_ne (Ne.symm hne) _ _).trans h.name
  · exact (Function.update_of_ne (Ne.symm hne') _ _).trans h.version
  · exact (Function.update_of_ne (Ne.symm hne'') _ _).trans h.postTime
  · by_cases hside : other = side
    · subst hside
      exact ⟨recorded, hrecorded, hright.progress, hright.done⟩
    · obtain ⟨kept, hkept, hkeptRight⟩ := h.recorded other
      refine ⟨kept, hkept.congr fun otherName hother => ?_, hkeptRight.progress, hkeptRight.done⟩
      refine Function.update_of_ne ?_ _ _
      rintro rfl
      exact Side.names_disjoint hside hname hother

theorem later_setAttr (hname : name ∈ side.totals.names) (hbefore : recorded.Of side.totals file)
    (hafter : recorded'.Of side.totals (file.setAttr name value)) (hgrows : recorded.Grows recorded')
    (hendTime : side = .upload → recorded.done = true → recorded'.endTime = recorded.endTime) :
    Later file (file.setAttr name value) := by
  intro other kept hkept
  by_cases hside : other = side
  · subst hside
    obtain rfl := hkept.unique hbefore
    exact ⟨recorded', hafter, hgrows, hendTime⟩
  · refine ⟨kept, hkept.congr fun otherName hother => ?_, .refl kept, fun _ _ => rfl⟩
    refine Function.update_of_ne ?_ _ _
    rintro rfl
    exact Side.names_disjoint hside hname hother

theorem Told.mapGroups (h : Told data file) {effect : String → Group → Group}
    (hsame : ∀ name group, (effect name group).SameLayout group)
    (hflag : ∀ side : Side, ∀ name group, side.flag group = true →
      side.flag (effect name group) = true) : Told data (file.mapGroups effect) where
  fits := h.fits.mapGroups hsame
  name := h.name
  version := h.version
  postTime := h.postTime
  recorded := by
    intro side
    obtain ⟨recorded, hrecorded, hright⟩ := h.recorded side
    exact ⟨recorded, hrecorded.congr fun _ _ => rfl, hright.mapGroups (hflag side)⟩

theorem later_mapGroups (file : H5File) (effect : String → Group → Group) :
    Later file (file.mapGroups effect) :=
  fun _ recorded hrecorded =>
    ⟨recorded, hrecorded.congr fun _ _ => rfl, .refl recorded, fun _ _ => rfl⟩

/-! ### The totals -/

theorem Side.distinct (side : Side) : side.totals.Distinct := by
  cases side with
  | store => exact storeTotals_distinct
  | upload => exact uploadTotals_distinct

namespace Recorded

variable {totals : Totals}

theorem Of.setBytes (h : recorded.Of totals file) (htotals : totals.Distinct) (bytes : ℕ) :
    Of totals { recorded with bytes := bytes } (file.setAttr totals.bytes (.int bytes)) := by
  simp only [Totals.Distinct, List.nodup_cons, List.mem_cons, not_or] at htotals
  obtain ⟨⟨hprogress, hendTime, hflag, -⟩, -⟩ := htotals
  exact ⟨Function.update_self _ _ _, (Function.update_of_ne (Ne.symm hprogress) _ _).trans h.progress,
    (Function.update_of_ne (Ne.symm hendTime) _ _).trans h.endTime,
    (Function.update_of_ne (Ne.symm hflag) _ _).trans h.flag⟩

theorem Of.setProgress (h : recorded.Of totals file) (htotals : totals.Distinct) (progress : ℕ) :
    Of totals { recorded with progress := progress }
      (file.setAttr totals.progress (.int progress)) := by
  simp only [Totals.Distinct, List.nodup_cons, List.mem_cons, not_or] at htotals
  obtain ⟨⟨hbytes, -⟩, ⟨hendTime, hflag, -⟩, -⟩ := htotals
  exact ⟨(Function.update_of_ne hbytes _ _).trans h.bytes, Function.update_self _ _ _,
    (Function.update_of_ne (Ne.symm hendTime) _ _).trans h.endTime,
    (Function.update_of_ne (Ne.symm hflag) _ _).trans h.flag⟩

theorem Of.setEndTime (h : recorded.Of totals file) (htotals : totals.Distinct) (time : ℕ) :
    Of totals { recorded with endTime := some time } (file.setAttr totals.endTime (.time time)) := by
  simp only [Totals.Distinct, List.nodup_cons, List.mem_cons, not_or] at htotals
  obtain ⟨⟨-, hbytes, -⟩, ⟨hprogress, -⟩, ⟨hflag, -⟩, -⟩ := htotals
  exact ⟨(Function.update_of_ne hbytes _ _).trans h.bytes,
    (Function.update_of_ne hprogress _ _).trans h.progress, Function.update_self _ _ _,
    (Function.update_of_ne (Ne.symm hflag) _ _).trans h.flag⟩

theorem Of.setFlag (h : recorded.Of totals file) (htotals : totals.Distinct) :
    Of totals { recorded with done := true } (file.setAttr totals.flag (.bool true)) := by
  simp only [Totals.Distinct, List.nodup_cons, List.mem_cons, not_or] at htotals
  obtain ⟨⟨-, -, hbytes, -⟩, ⟨-, hprogress, -⟩, ⟨hendTime, -⟩, -⟩ := htotals
  exact ⟨(Function.update_of_ne hbytes _ _).trans h.bytes,
    (Function.update_of_ne hprogress _ _).trans h.progress,
    (Function.update_of_ne hendTime _ _).trans h.endTime, Function.update_self _ _ _⟩

end Recorded

theorem tells_setAttr (h : Tells (Told data) Later older s) (hfile : s.h5 = some file)
    (hname : name ∈ side.totals.names) (hbefore : recorded.Of side.totals file)
    (hafter : recorded'.Of side.totals (file.setAttr name value))
    (hright : recorded'.Right side.flag file) (hgrows : recorded.Grows recorded')
    (hendTime : side = .upload → recorded.done = true → recorded'.endTime = recorded.endTime) :
    Tells (Told data) Later older (s.write fun file => file.setAttr name value) := by
  obtain ⟨file', hfile', htold⟩ := h.h5
  obtain rfl : file' = file := Option.some.inj (hfile'.symm.trans hfile)
  exact Tells.write (R := Later) Later.trans h _ hfile (htold.setAttr hname hafter hright)
    (later_setAttr hname hbefore hafter hgrows hendTime)

theorem h5_setAttr (hfile : s.h5 = some file) (name : String) (value : AttrValue) :
    (s.write fun file => file.setAttr name value).h5 = some (file.setAttr name value) := by
  rw [DataState.h5_write, hfile]
  rfl

/-- The progress that is recorded is the one of the groups. -/
theorem percentage_right (flag : Group → Bool) (bytes : Group → ℕ) {groups : List (String × Group)}
    (hpos : 0 < groups.length) :
    (scan flag bytes groups).percentage * groups.length ≤
        100 * groups.countP (fun entry => flag entry.2) ∧
      (∀ progress, progress * groups.length ≤ 100 * groups.countP (fun entry => flag entry.2) →
        progress ≤ (scan flag bytes groups).percentage) ∧
      ((groups.all fun entry => flag entry.2) = true →
        (scan flag bytes groups).percentage = 100) := by
  rw [scan_eq, Scan.percentage]
  dsimp only
  refine ⟨Nat.div_mul_le_self _ _, fun progress hprogress => ?_, fun hall => ?_⟩
  · exact (Nat.le_div_iff_mul_le hpos).mpr hprogress
  · rw [List.countP_eq_length.mpr (List.all_eq_true.mp hall)]
    exact Nat.mul_div_cancel _ hpos

/-- The writes that record the totals. -/
theorem tells_record (hslices : 0 < data.slices) (h : Tells (Told data) Later older s)
    (hfile : s.h5 = some file) (hrecorded : recorded.Of side.totals file)
    (hright : recorded.Right side.flag file) (bytes : Group → ℕ) {already : Bool}
    (halready : side = .upload → recorded.done = true → already = true) :
    Tells (Told data) Later older
      (s.record side.totals (scan side.flag bytes file.groups) already) := by
  obtain ⟨file', hfile', htold⟩ := h.h5
  obtain rfl : file' = file := Option.some.inj (hfile'.symm.trans hfile)
  have hpos : 0 < file'.groups.length := htold.fits.length_groups ▸ hslices
  obtain ⟨hbehind, hmost, hall⟩ := percentage_right side.flag bytes hpos
  have hdistinct := side.distinct
  let vars := scan side.flag bytes file'.groups
  have hmem : ∀ name ∈ [side.totals.bytes, side.totals.progress, side.totals.endTime,
      side.totals.flag], name ∈ side.totals.names := fun _ h => h
  -- the number of bytes
  have hfirst := hrecorded.setBytes hdistinct vars.bytes
  have htells := tells_setAttr h hfile (hmem _ (by simp)) hrecorded hfirst
    ⟨hright.progress, hright.done⟩ ⟨Nat.le_refl _, id⟩ fun _ _ => rfl
  have hfile₁ := h5_setAttr hfile side.totals.bytes (.int vars.bytes)
  -- the progress
  have hsecond := hfirst.setProgress hdistinct vars.percentage
  have hright₂ : Recorded.Right side.flag
      { recorded with bytes := vars.bytes, progress := vars.percentage } file' := by
    refine ⟨hbehind, fun hdone => ?_⟩
    obtain ⟨-, hendTime, hgroups⟩ := hright.done hdone
    exact ⟨hall hgroups, hendTime, hgroups⟩
  have htells₂ := tells_setAttr htells hfile₁ (hmem _ (by simp)) hfirst hsecond
    ⟨hright₂.progress, hright₂.done⟩ ⟨hmost _ hright.progress, id⟩ fun _ _ => rfl
  have hfile₂ := h5_setAttr hfile₁ side.totals.progress (.int vars.percentage)
  unfold DataState.record
  dsimp only
  split
  · rename_i hdone
    rw [Bool.and_eq_true, Bool.not_eq_true'] at hdone
    obtain ⟨hdone, hnot⟩ := hdone
    rw [scan_eq] at hdone
    have hunset : side = .upload → recorded.done = false := fun hside =>
      Bool.eq_false_of_not_eq_true fun hset => by
        rw [halready hside hset] at hnot
        cases hnot
    -- the end time and the flag
    let written := (s.write fun file => file.setAttr side.totals.bytes (.int vars.bytes)).write
      fun file => file.setAttr side.totals.progress (.int vars.percentage)
    have hclock := Tells.congr htells₂ (t := { written with clock := written.clock + 1 }) rfl rfl
    have hthird := hsecond.setEndTime hdistinct written.clock
    have hright₃ : Recorded.Right side.flag
        { recorded with
          bytes := vars.bytes
          progress := vars.percentage
          endTime := some written.clock } file' :=
      ⟨hbehind, fun hset => ⟨hall hdone, rfl, hdone⟩⟩
    have htells₃ := tells_setAttr hclock hfile₂ (hmem _ (by simp)) hsecond hthird
      ⟨hright₃.progress, hright₃.done⟩ ⟨Nat.le_refl _, id⟩ fun hside hset => by
        rw [hunset hside] at hset
        cases hset
    have hfile₃ := h5_setAttr (s := { written with clock := written.clock + 1 }) hfile₂
      side.totals.endTime (.time written.clock)
    exact tells_setAttr htells₃ hfile₃ (hmem _ (by simp)) hthird (hthird.setFlag hdistinct)
      ⟨hbehind, fun _ => ⟨hall hdone, rfl, hdone⟩⟩ ⟨Nat.le_refl _, fun _ => rfl⟩ fun _ _ => rfl
  · exact htells₂

/-! ### The functions of the worker -/

variable {keepFilesOpen : Bool}

abbrev TellsTold (data : Creation) (older : List H5File) : DataState → Prop :=
  Tells (Told data) Later older

theorem maintains_writeGroup {i : ℕ} {change : Group → Group}
    (hsame : ∀ group, (change group).SameLayout group)
    (hflag : ∀ side : Side, ∀ group, side.flag group = true → side.flag (change group) = true) :
    Maintains (TellsTold data older) (writeGroup i change) := by
  refine maintains_writeFile fun s hs => ?_
  obtain ⟨file, hfile, htold⟩ := hs.h5
  refine Tells.write (R := Later) Later.trans hs _ hfile (htold.mapGroups (fun name group => ?_)
    fun side name group hset => ?_) (later_mapGroups file _)
  · split
    · exact hsame group
    · exact .refl _
  · split
    · exact hflag side group hset
    · exact hset

theorem maintains_closeFile : Maintains (TellsTold data older) closeFile :=
  fun _ hs => hs.congr rfl rfl

theorem maintains_writePart (part : Bytes) (i : ℕ) :
    Maintains (TellsTold data older) (writeBodyToFileGroup part i) := by
  refine Maintains.bind (fun s hs => hs) fun s => ?_
  split
  · exact (readsOnly_raise _).maintains
  · dsimp only
    split
    · exact (readsOnly_raise _).maintains
    · split
      · exact maintains_closeFile
      · split
        · exact (readsOnly_raise _).maintains
        · refine (maintains_writeGroup ?_ ?_).bind fun _ => (maintains_writeGroup ?_ ?_).bind
            fun _ => (maintains_writeGroup ?_ ?_).bind fun _ => maintains_writeGroup ?_ ?_
          -- only `cwa_stored` is one of the flags, and it is set
          all_goals first
            | exact fun _ => ⟨rfl, rfl, rfl⟩
            | intro side group hset
              cases side
              · first
                  | exact hset
                  | rfl
              · exact hset

/-- What is recorded of the stored groups. -/
theorem maintains_recordStores (hslices : 0 < data.slices) :
    Maintains (TellsTold data older) recordStored := by
  intro s hs
  obtain ⟨file, hfile, htold⟩ := hs.h5
  by_cases hopen : s.isOpen = true
  · have hgroups : file.groups ≠ [] :=
      List.ne_nil_of_length_pos (htold.fits.length_groups ▸ hslices)
    obtain ⟨recorded, hrecorded, hright⟩ := htold.recorded .store
    rw [recordStored_eq hfile hopen hgroups]
    have hunset : Side.store = .upload → recorded.done = true → false = true :=
      fun hside => by cases hside
    exact tells_record hslices hs hfile hrecorded hright Group.storedBytes hunset
  · rw [recordStored, bind_error (openFile_closed (by simpa using hopen))]
    exact hs

theorem maintains_recordUploads (hslices : 0 < data.slices) :
    Maintains (TellsTold data older) recordUploaded := by
  intro s hs
  obtain ⟨file, hfile, htold⟩ := hs.h5
  by_cases hopen : s.isOpen = true
  · have hgroups : file.groups ≠ [] :=
      List.ne_nil_of_length_pos (htold.fits.length_groups ▸ hslices)
    obtain ⟨recorded, hrecorded, hright⟩ := htold.recorded .upload
    have htruth : file.truthOf "cwa_uploaded" = some recorded.done := by
      rw [H5File.truthOf, show file.attrs "cwa_uploaded" = _ from hrecorded.flag]
      rfl
    rw [recordUploaded_eq hfile hopen hgroups fun _ => htruth]
    have hset : Side.upload = .upload → recorded.done = true → recorded.done = true := fun _ => id
    exact tells_record hslices hs hfile hrecorded hright Group.uploadedBytes hset
  · rw [recordUploaded, bind_error (openFile_closed (by simpa using hopen))]
    exact hs

/-- Attributes that are posted set flags. -/
theorem maintains_writePosted (post : ValuePost) {entry : AttributeEntry}
    (hentry : entry ∈ post.entries) : Maintains (TellsTold data older) (writeEntry entry) := by
  obtain ⟨i, -, hname⟩ := ValuePost.mem_entries hentry
  refine readsOnly_openFile.maintains.bind fun file => ?_
  split
  · exact (readsOnly_raise _).maintains
  · rw [hname]
    refine maintains_writeGroup (fun group => setAttribute_sameLayout group _)
      fun side group hset => ?_
    have hnot := post.entries_ne_uploaded_false entry hentry
    cases side <;> cases hassigned : entry.assigned <;>
      simp_all [Side.flag, Group.setAttribute]

/-- **Step lemma**: an item of a posted value, accepted or not. -/
theorem maintains_postedItem (hslices : 0 < data.slices) (item : PostedItem) :
    Maintains (TellsTold data older) (handleItem keepFilesOpen item.item) := by
  intro s hs
  obtain ⟨file, hfile, -⟩ := hs.h5
  have hopened : TellsTold data older (s.opened keepFilesOpen) :=
    hs.congr (sameFile_opened s).h5 (sameFile_opened s).published
  cases item with
  | body post =>
      rw [PostedItem.item, handleItem_body hfile post, writeBodyItemToFile_eq_bind post.nonempty]
      refine Maintains.bind (Maintains.bind ?_ fun _ => maintains_recordStores hslices)
        (fun _ => keepsFile_finishBody.maintains) _ hopened
      exact maintains_forM fun part _ => maintains_writePart part.2 part.1
  | attributes post =>
      rw [PostedItem.item, handleItem_attributes hfile post, writeAttributesItemToFile_eq_bind]
      refine Maintains.bind (Maintains.bind ?_ fun _ => maintains_recordUploads hslices)
        (fun _ => keepsFile_finishItem.maintains) _ hopened
      exact maintains_forM fun entry hentry => maintains_writePosted post hentry

end Steps

/-! ## Answers -/

/-- The totals that the file has. -/
def H5File.recorded (file : H5File) (totals : Totals) : Recorded where
  bytes := match file.attrs totals.bytes with
    | some (.int value) => value.toNat
    | _ => 0
  progress := match file.attrs totals.progress with
    | some (.int value) => value.toNat
    | _ => 0
  endTime := match file.attrs totals.endTime with
    | some (.time tick) => some tick
    | _ => none
  done := match file.attrs totals.flag with
    | some (.bool value) => value
    | _ => false

def Recorded.endTimeField : Option ℕ → Field
  | none => .text ""
  | some tick => .time tick

open AttrValue in
/-- A whole answer for the data, with what is recorded of it. -/
def Creation.answer (data : Creation) (dataId : String) (stored uploaded : Recorded) :
    List (String × Field) :=
  [("name", .text (unpadded data.name)), ("version", .text (unpadded data.version)),
    ("post_time", .text (unpadded data.postTime)),
    ("upload_end_time", Recorded.endTimeField uploaded.endTime),
    ("store_end_time", Recorded.endTimeField stored.endTime),
    ("uploaded", .bool uploaded.done), ("uploaded_bytes", .int uploaded.bytes),
    ("upload_progress", .int uploaded.progress),
    ("stored", .bool stored.done), ("stored_bytes", .int stored.bytes),
    ("store_progress", .int stored.progress),
    ("groups", .int data.slices), ("datasets", .datasets (datasetInfos data.dtype data.shape)),
    ("status", .status (.bool uploaded.done) (.bool stored.done) (.int uploaded.progress)
      (.int stored.progress)),
    ("id", .text dataId), ("filename", .text (dataId ++ ".h5"))]

section Answers

variable {data : Creation} {file earlier later : H5File} {totals : Totals} {recorded : Recorded}

theorem Recorded.Of.eq (h : recorded.Of totals file) : file.recorded totals = recorded := by
  obtain ⟨bytes, progress, endTime, done⟩ := recorded
  rw [H5File.recorded, h.bytes, h.progress, h.endTime, h.flag]
  cases endTime <;> rfl

theorem Told.of_right (h : Told data file) (side : Side) :
    (file.recorded side.totals).Of side.totals file ∧
      (file.recorded side.totals).Right side.flag file := by
  obtain ⟨recorded, hrecorded, hright⟩ := h.recorded side
  rw [hrecorded.eq]
  exact ⟨hrecorded, hright⟩

theorem Later.grows (h : Later earlier later) (hearlier : Told data earlier) (side : Side) :
    (earlier.recorded side.totals).Grows (later.recorded side.totals) ∧
      (side = .upload → (earlier.recorded side.totals).done = true →
        (later.recorded side.totals).endTime = (earlier.recorded side.totals).endTime) := by
  obtain ⟨recorded, hrecorded, hgrows, hendTime⟩ := h side _ (hearlier.of_right side).1
  rw [hrecorded.eq]
  exact ⟨hgrows, hendTime⟩

theorem Fits.visited (h : Fits data file) :
    file.visited.length = data.slices ∧ ∀ entry ∈ file.visited,
      entry.2.dtype = data.dtype ∧ entry.2.shape = data.shape ∧ entry.2.datasets = true := by
  have hperm : file.visited.Perm file.groups := List.mergeSort_perm _ _
  refine ⟨hperm.length_eq.trans h.length_groups, fun entry hentry => ?_⟩
  have hmem := hperm.mem_iff.mp hentry
  exact ⟨h.dtype entry hmem, h.shape entry hmem, h.datasets entry hmem⟩

/-- The datasets of any group are those of the first one. -/
theorem Fits.loadGroups (hslices : 0 < data.slices) (h : Fits data file) :
    loadGroupsFromH5File file =
      [("groups", .int data.slices),
        ("datasets", .datasets (datasetInfos data.dtype data.shape))] := by
  obtain ⟨hlength, hgroups⟩ := h.visited
  rw [loadGroupsFromH5File, hlength]
  cases hvisited : file.visited with
  | nil =>
      rw [hvisited, List.length_nil] at hlength
      omega
  | cons entry rest =>
      obtain ⟨hdtype, hshape, hdatasets⟩ :=
        hgroups entry (by rw [hvisited]; exact List.mem_cons_self)
      have hinfos : entry.2.datasetInfos = datasetInfos data.dtype data.shape := by
        rw [Group.datasetInfos, hdtype, hshape, if_pos hdatasets]
      simp only [List.head?_cons, Option.elim_some, hinfos]

theorem read_endTime (endTime : Option ℕ) :
    (Recorded.endTimeValue endTime).decode = some (Recorded.endTimeField endTime) := by
  cases endTime <;> rfl

/-- The members that are read of a file with all attributes. -/
theorem readMembers_eq {stored uploaded : Recorded} (h : Told data file)
    (hstored : stored.Of storeTotals file) (huploaded : uploaded.Of uploadTotals file)
    (dataId : String) :
    readMembers file readers = ((data.answer dataId stored uploaded).take 11, true) := by
  obtain ⟨hstoredBytes, hstoreProgress, hstoreEndTime, hstored⟩ := hstored
  obtain ⟨huploadedBytes, huploadProgress, huploadEndTime, huploaded⟩ := huploaded
  simp only [storeTotals] at hstoredBytes hstoreProgress hstoreEndTime hstored
  simp only [uploadTotals] at huploadedBytes huploadProgress huploadEndTime huploaded
  simp only [readers, readMembers, MemberReader.read, h.name, h.version, h.postTime, hstoredBytes,
    hstoreProgress, hstoreEndTime, hstored, huploadedBytes, huploadProgress, huploadEndTime,
    huploaded, Option.bind_some, read_endTime]
  rfl

/-- Every answer is whole. -/
theorem Told.loadData (hslices : 0 < data.slices) (h : Told data file) (dataId : String) :
    loadData dataId file =
      data.answer dataId (file.recorded storeTotals) (file.recorded uploadTotals) := by
  have hmembers := readMembers_eq h (h.of_right .store).1 (h.of_right .upload).1 dataId
  simp only [Side.totals] at hmembers
  generalize file.recorded storeTotals = stored at hmembers ⊢
  generalize file.recorded uploadTotals = uploaded at hmembers ⊢
  have hfile : loadDataFromH5File file = (data.answer dataId stored uploaded).take 13 := by
    rw [loadDataFromH5File, hmembers, if_pos rfl, h.fits.loadGroups hslices]
    rfl
  have hstatus : status (loadDataFromH5File file) =
      some (.status (.bool uploaded.done) (.bool stored.done) (.int uploaded.progress)
        (.int stored.progress)) := by
    rw [hfile]
    rfl
  rw [Api.loadData, hstatus, hfile]
  rfl

end Answers

/-! ## Runs -/

theorem npString_eq {text : String} {value : AttrValue} (h : npString text = .ok value) :
    npString text = .ok (.text text) := by
  unfold npString at h ⊢
  split at h
  · rename_i hascii
    exact if_pos hascii
  · cases h

section Run

variable {keepFilesOpen : Bool} {items : List PostedItem} {s : DataState}

theorem Created.told (created : Created keepFilesOpen)
    (havoids : ∀ entry ∈ created.data.ownAttributes, created.data.Avoids entry.1) :
    Told created.data created.file := by
  have hown : ∀ {name : String} {value : AttrValue},
      (name, .ok value) ∈ created.data.ownAttributes → created.file.attrs name = some value :=
    fun hmem => created.attrs_file hmem (havoids _ hmem)
  have htext : ∀ {name text : String}, (name, npString text) ∈ created.data.ownAttributes →
      created.file.attrs name = some (.text text) := by
    intro name text hmem
    obtain ⟨value, hvalue, -⟩ := created.own_ok hmem
    rw [npString_eq hvalue] at hmem
    exact hown hmem
  refine ⟨created.fits, htext ?_, htext ?_, htext ?_, fun side => ⟨{}, ?_, ?_⟩⟩
  · simp [Creation.ownAttributes]
  · simp [Creation.ownAttributes]
  · simp [Creation.ownAttributes]
  · cases side <;> constructor <;>
      exact hown (by simp [Creation.ownAttributes, Side.totals, storeTotals, uploadTotals,
        Recorded.endTimeValue])
  · refine ⟨?_, fun hdone => by cases hdone⟩
    rw [Nat.zero_mul]
    exact Nat.zero_le _

/-- **Run lemma.** -/
theorem Created.tellsTold_run (created : Created keepFilesOpen) (hslices : 0 < created.data.slices)
    (havoids : ∀ entry ∈ created.data.ownAttributes, created.data.Avoids entry.1)
    (items : List PostedItem) :
    TellsTold created.data created.state.published.tail
      (afterItems keepFilesOpen created.state items) := by
  have hstart : TellsTold created.data created.state.published.tail created.state := by
    refine ⟨created.file, [], created.h5_eq, created.published_eq, fun seen hseen => ?_,
      List.pairwise_singleton _ _⟩
    obtain rfl := List.mem_singleton.mp hseen
    exact created.told havoids
  exact maintained_afterItems (fun item _ => maintains_postedItem hslices item) hstart

/-- **What clients are told of a data.**  Post any items after the creation, accepted or not, up to
one that the worker never ends.  The answer for every state of the file that a reader may see is
whole, its progress is behind the groups and is 100 once the data is done, which it is only with all
groups.  Later answers have no less progress, what is done stays done, and the end of the upload
stays the same. -/
theorem answers_follow_upload (created : Created keepFilesOpen) (hslices : 0 < created.data.slices)
    (havoids : ∀ entry ∈ created.data.ownAttributes, created.data.Avoids entry.1)
    (hs : afterItems keepFilesOpen created.state items = s) (dataId : String) :
    (∀ seen ∈ created.history s,
      loadData dataId seen =
          created.data.answer dataId (seen.recorded storeTotals) (seen.recorded uploadTotals) ∧
        ∀ side : Side, (seen.recorded side.totals).Right side.flag seen) ∧
    (created.history s).Pairwise fun earlier later =>
      (∀ side : Side, (earlier.recorded side.totals).Grows (later.recorded side.totals)) ∧
        ((earlier.recorded uploadTotals).done = true →
          (later.recorded uploadTotals).endTime = (earlier.recorded uploadTotals).endTime) := by
  obtain ⟨htold, hordered, -⟩ :=
    created.history_of_tells (hs ▸ created.tellsTold_run hslices havoids items)
  refine ⟨fun seen hseen => ⟨(htold seen hseen).loadData hslices dataId, fun side => ?_⟩, ?_⟩
  · exact ((htold seen hseen).of_right side).2
  · refine hordered.imp_of_mem fun {earlier later} hearlier _ hlater => ⟨fun side => ?_, ?_⟩
    · exact (hlater.grows (htold earlier hearlier) side).1
    · exact (hlater.grows (htold earlier hearlier) .upload).2 rfl

/-- The answers while two slices are posted; the last one is done. -/
theorem answers_follow_upload_two_slices :
    ∃ s, afterItems true (createdSlices true).state twoSlicesItems = s ∧
      (∀ seen ∈ (createdSlices true).history s, loadData "1" seen =
        twoSlices.answer "1" (seen.recorded storeTotals) (seen.recorded uploadTotals)) ∧
      ∃ seen ∈ (createdSlices true).history s, (seen.recorded storeTotals).done = true := by
  have hend : (((createdSlices true).history (afterItems true (createdSlices true).state
      twoSlicesItems)).getLast?.any fun seen => (seen.recorded storeTotals).done) = true := by
    decide +kernel
  obtain ⟨last, hlast, hdone⟩ := (Option.any_eq_true _ _).mp hend
  refine ⟨_, rfl, fun seen hseen => ?_, last, List.mem_of_getLast? hlast, hdone⟩
  exact ((answers_follow_upload (createdSlices true) (by decide) (by decide) rfl "1").1
    seen hseen).1

end Run

end ComputeWebApp.Api
