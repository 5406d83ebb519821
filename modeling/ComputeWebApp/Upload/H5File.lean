import Mathlib.Data.List.Basic
import Mathlib.Data.Nat.Digits.Defs
import Mathlib.Data.Rat.Defs
import Mathlib.Logic.Function.Basic
import Mathlib.Tactic.Ring
import ComputeWebApp.Library.ByteStream

/-!
# The HDF5 file of a data

A data is stored in `<data_id>.h5`: attributes of the file, and one group for each slice
with its own attributes and the datasets `magnitude` and `phase`.  The file-level attributes
`cwa_stored…` and `cwa_uploaded…` are recomputed from the groups (`Scan`).
-/

namespace ComputeWebApp.Api

open ByteStream

/-! ## Attributes -/

/-- A value of an attribute.  `time` is the text of `datetime.now().isoformat()`, told apart
by a logical clock. -/
inductive AttrValue
  | bool (value : Bool)
  | int (value : ℤ)
  | real (value : ℚ)
  | text (value : String)
  | array (values : List ℚ)
  | time (tick : ℕ)
  deriving DecidableEq

/-- The truth value in Python; an array of several numbers has none. -/
def AttrValue.truthy : AttrValue → Option Bool
  | .bool value => some value
  | .int value => some (value ≠ 0)
  | .real value => some (value ≠ 0)
  | .text value => some (value ≠ "")
  | .array [] => some false
  | .array [value] => some (value ≠ 0)
  | .array _ => none
  | .time _ => some true

/-- A number of a posted data. -/
inductive JsonNumber
  | int (value : ℤ)
  | real (value : ℚ)
  deriving DecidableEq

def JsonNumber.toRat : JsonNumber → ℚ
  | int value => value
  | real value => value

/-- NumPy has a type for it: an integer is one of 64 bits, with or without a sign. -/
def JsonNumber.hasType : JsonNumber → Bool
  | int value => -2 ^ 63 ≤ value && value < 2 ^ 64
  | real _ => true

/-- A value of the `attributes` of a posted data.  An array is one of numbers, of any dimensions, by
its elements in order, and `object` is everything else that no type of HDF5 represents. -/
inductive JsonValue
  | null
  | bool (value : Bool)
  | number (value : JsonNumber)
  | text (value : String)
  | array (values : List JsonNumber)
  | object
  deriving DecidableEq

inductive Exn
  | unicodeEncodeError
  | typeError
  | valueError
  | keyError
  | zeroDivisionError
  | overflowError
  | memoryError
  | fileNotFoundError
  | groupNotFound
  deriving DecidableEq, Repr

/-- `np.string_`: a text of ASCII characters. -/
def npString (text : String) : Except Exn AttrValue :=
  if text.toList.all fun c => c.toNat < 128 then .ok (.text text) else .error .unicodeEncodeError

/-- What `create_file` stores for a value of the posted attributes. -/
def JsonValue.toAttr : JsonValue → Except Exn AttrValue
  | .text value => npString value
  | .bool value => .ok (.bool value)
  | .number value =>
      if value.hasType then
        .ok (match value with
          | .int value => .int value
          | .real value => .real value)
      else .error .typeError
  | .array values =>
      if values.all JsonNumber.hasType then .ok (.array (values.map JsonNumber.toRat))
      else .error .typeError
  | .null => .error .typeError
  | .object => .error .typeError

/-! ## Groups -/

/-- The types of the images. -/
inductive Dtype
  | i1
  | u1
  | i2
  | u2
  deriving DecidableEq, Repr

def Dtype.itemsize : Dtype → ℕ
  | .i1 => 1
  | .u1 => 1
  | .i2 => 2
  | .u2 => 2

/-- The shape of the datasets of a group: `(height, width, echos)`. -/
structure Shape where
  height : ℕ
  width : ℕ
  echos : ℕ
  deriving DecidableEq, Repr

/-- The elements of a dataset, as the bytes that represent them: one image for each echo, an
image being a list of rows. -/
abbrev Images := List (List (List Bytes))

/-- The two datasets are created with one type and one shape, which never change; a group has none
(`datasets`) when they cannot be created. -/
structure Group where
  dtype : Dtype
  shape : Shape
  datasets : Bool := true
  magnitude : Images
  phase : Images
  stored : Bool := false
  storedBytes : ℕ := 0
  uploaded : Bool := false
  uploadedBytes : ℕ := 0
  deriving DecidableEq

/-- The datasets of a group are as those of another one, but for their elements. -/
structure Group.SameLayout (group other : Group) : Prop where
  dtype : group.dtype = other.dtype
  shape : group.shape = other.shape
  datasets : group.datasets = other.datasets

theorem Group.SameLayout.refl (group : Group) : group.SameLayout group := ⟨rfl, rfl, rfl⟩

theorem Group.SameLayout.trans {first second third : Group} (h : first.SameLayout second)
    (h' : second.SameLayout third) : first.SameLayout third :=
  ⟨h.dtype.trans h'.dtype, h.shape.trans h'.shape, h.datasets.trans h'.datasets⟩

/-- `'slice_' + '%03d' % i` -/
def groupName (i : ℕ) : String :=
  "slice_" ++ String.ofList (List.leftpad 3 '0' (Nat.toDigits 10 i))

/-- The size that `write_body_to_file_group` expects of a body. -/
def expectedBodySize (dtype : Dtype) (shape : Shape) : ℕ :=
  shape.height * shape.width * shape.echos * dtype.itemsize * 2

/-- `np.frombuffer`: the first `count` elements of a buffer. -/
def fromBuffer (part : Bytes) (itemsize count : ℕ) : List Bytes :=
  (List.range count).map fun k => (part.drop (k * itemsize)).take itemsize

/-- `np.reshape` of a vector into rows. -/
def reshape (vector : List Bytes) (height width : ℕ) : List (List Bytes) :=
  (List.range height).map fun row => (vector.drop (row * width)).take width

/-- The loop over the echos, whose images start at part `first` of the body. -/
def sliceArray (dtype : Dtype) (shape : Shape) (body : Bytes) (bodyPartSize first : ℕ) : Images :=
  (List.range shape.echos).map fun i =>
    let part := (body.drop ((first + i) * bodyPartSize)).take bodyPartSize
    reshape (fromBuffer part dtype.itemsize (shape.height * shape.width)) shape.height shape.width

/-- Element `(row, column, echo)` of a dataset. -/
def element (images : Images) (row column echo : ℕ) : Option Bytes := do
  let image ← images[echo]?
  let pixels ← image[row]?
  pixels[column]?

/-- Row-major order: an element of the dataset that is filled from part `first` of a body is
at its own place of its own image in the body. -/
theorem element_sliceArray {dtype : Dtype} {shape : Shape} (body : Bytes) {bodyPartSize : ℕ}
    (hsize : bodyPartSize = shape.height * shape.width * dtype.itemsize) (first : ℕ)
    {row column echo : ℕ} (hrow : row < shape.height) (hcolumn : column < shape.width)
    (hecho : echo < shape.echos) :
    element (sliceArray dtype shape body bodyPartSize first) row column echo =
      some ((body.drop ((((first + echo) * shape.height + row) * shape.width + column) *
        dtype.itemsize)).take dtype.itemsize) := by
  have hplace : row * shape.width + column < shape.height * shape.width := by
    calc row * shape.width + column < (row + 1) * shape.width := by
          rw [Nat.add_mul]
          omega
      _ ≤ shape.height * shape.width := Nat.mul_le_mul_right _ hrow
  have hitem : (row * shape.width + column) * dtype.itemsize + dtype.itemsize ≤ bodyPartSize := by
    rw [hsize, ← Nat.succ_mul]
    exact Nat.mul_le_mul_right _ hplace
  have hoffset : (((first + echo) * shape.height + row) * shape.width + column) * dtype.itemsize =
      (first + echo) * bodyPartSize + (row * shape.width + column) * dtype.itemsize := by
    rw [hsize]
    ring
  simp only [element, sliceArray, reshape, fromBuffer, List.getElem?_map, List.getElem?_range,
    hecho, hrow, Option.map_some, Option.bind_eq_bind, Option.bind_some, List.getElem?_take,
    hcolumn, if_true, List.getElem?_drop, hplace]
  rw [hoffset, ← List.drop_drop, List.drop_take, List.take_take, Nat.min_eq_left (by omega)]

/-! ## Files -/

structure H5File where
  attrs : String → Option AttrValue := fun _ => none
  groups : List (String × Group) := []

namespace H5File

def setAttr (file : H5File) (name : String) (value : AttrValue) : H5File :=
  { file with attrs := Function.update file.attrs name (some value) }

def findGroup (file : H5File) (name : String) : Option Group :=
  file.groups.lookup name

def mapGroups (file : H5File) (effect : String → Group → Group) : H5File :=
  { file with groups := file.groups.map fun entry => (entry.1, effect entry.1 entry.2) }

/-- Change the group of that name. -/
def updateGroup (file : H5File) (name : String) (change : Group → Group) : H5File :=
  file.mapGroups fun other group => if other = name then change group else group

def createGroup (file : H5File) (name : String) (group : Group) : H5File :=
  { file with groups := file.groups ++ [(name, group)] }

@[simp] theorem attrs_setAttr (file : H5File) (name : String) (value : AttrValue) :
    (file.setAttr name value).attrs = Function.update file.attrs name (some value) := rfl

@[simp] theorem groups_setAttr (file : H5File) (name : String) (value : AttrValue) :
    (file.setAttr name value).groups = file.groups := rfl

@[simp] theorem attrs_mapGroups (file : H5File) (effect : String → Group → Group) :
    (file.mapGroups effect).attrs = file.attrs := rfl

@[simp] theorem groups_mapGroups (file : H5File) (effect : String → Group → Group) :
    (file.mapGroups effect).groups =
      file.groups.map fun entry => (entry.1, effect entry.1 entry.2) := rfl

@[simp] theorem attrs_updateGroup (file : H5File) (name : String) (change : Group → Group) :
    (file.updateGroup name change).attrs = file.attrs := rfl

theorem mapGroups_id (file : H5File) : (file.mapGroups fun _ group => group) = file := by
  simp [mapGroups]

theorem mapGroups_mapGroups (file : H5File) (first second : String → Group → Group) :
    (file.mapGroups first).mapGroups second =
      file.mapGroups fun name group => second name (first name group) := by
  simp [mapGroups, Function.comp_def]

theorem findGroup_mapGroups (file : H5File) (effect : String → Group → Group) (name : String) :
    (file.mapGroups effect).findGroup name = (file.findGroup name).map (effect name) := by
  unfold findGroup mapGroups
  induction file.groups with
  | nil => rfl
  | cons entry rest ih =>
      obtain ⟨other, group⟩ := entry
      simp only [List.map_cons, List.lookup_cons]
      by_cases hname : name = other
      · subst hname
        simp
      · rw [beq_false_of_ne hname]
        exact ih

theorem mem_of_findGroup {file : H5File} {name : String} {group : Group}
    (h : file.findGroup name = some group) : (name, group) ∈ file.groups := by
  unfold findGroup at h
  revert h
  induction file.groups with
  | nil => intro h; cases h
  | cons entry rest ih =>
      intro h
      obtain ⟨other, group'⟩ := entry
      rw [List.lookup_cons] at h
      by_cases hname : name = other
      · subst hname
        simp only [BEq.rfl, Option.some.injEq] at h
        exact h ▸ List.mem_cons_self
      · rw [beq_false_of_ne hname] at h
        exact List.mem_cons_of_mem _ (ih h)

end H5File

/-! ## Scanning the groups -/

/-- The variables of the loop `for name in file` that follows each write. -/
structure Scan where
  done : Bool := true
  bytes : ℕ := 0
  progress : ℕ := 0
  groupCount : ℕ := 0
  deriving DecidableEq

/-- The loop, for a flag and a number of bytes of the groups. -/
def scan (flag : Group → Bool) (bytes : Group → ℕ) (groups : List (String × Group)) : Scan :=
  groups.foldl (fun vars entry =>
    { done := vars.done && flag entry.2
      bytes := vars.bytes + bytes entry.2
      progress := vars.progress + if flag entry.2 then 1 else 0
      groupCount := vars.groupCount + 1 }) {}

/-- The loop from any values on, by induction on the groups. -/
theorem foldl_scan (flag : Group → Bool) (bytes : Group → ℕ) (groups : List (String × Group))
    (vars : Scan) :
    groups.foldl (fun vars entry =>
      { done := vars.done && flag entry.2
        bytes := vars.bytes + bytes entry.2
        progress := vars.progress + if flag entry.2 then 1 else 0
        groupCount := vars.groupCount + 1 }) vars =
      { done := vars.done && groups.all fun entry => flag entry.2
        bytes := vars.bytes + (groups.map fun entry => bytes entry.2).sum
        progress := vars.progress + groups.countP fun entry => flag entry.2
        groupCount := vars.groupCount + groups.length } := by
  induction groups generalizing vars with
  | nil => simp
  | cons entry rest ih =>
      rw [List.foldl_cons, ih]
      simp only [List.all_cons, List.map_cons, List.sum_cons, List.countP_cons, List.length_cons,
        Bool.and_assoc, Scan.mk.injEq, true_and]
      omega

theorem scan_eq (flag : Group → Bool) (bytes : Group → ℕ) (groups : List (String × Group)) :
    scan flag bytes groups =
      { done := groups.all fun entry => flag entry.2
        bytes := (groups.map fun entry => bytes entry.2).sum
        progress := groups.countP fun entry => flag entry.2
        groupCount := groups.length } := by
  rw [scan, foldl_scan]
  simp

/-! ## Names of groups -/

theorem ofDigitChars_zeros (n : ℕ) (digits : List Char) :
    Nat.ofDigitChars 10 (List.replicate n '0' ++ digits) 0 = Nat.ofDigitChars 10 digits 0 := by
  induction n with
  | zero => rfl
  | succ n ih =>
      rw [List.replicate_succ, List.cons_append, Nat.ofDigitChars_cons]
      exact ih

theorem ofDigitChars_leftpad (digits : List Char) (width : ℕ) :
    Nat.ofDigitChars 10 (List.leftpad width '0' digits) 0 = Nat.ofDigitChars 10 digits 0 :=
  ofDigitChars_zeros _ digits

theorem groupName_injective {i j : ℕ} (h : groupName i = groupName j) : i = j := by
  have hdigits : List.leftpad 3 '0' (Nat.toDigits 10 i) = List.leftpad 3 '0' (Nat.toDigits 10 j) := by
    have hlist := congrArg String.toList h
    simp only [groupName, String.toList_append, String.toList_ofList] at hlist
    exact List.append_cancel_left hlist
  calc
    i = Nat.ofDigitChars 10 (List.leftpad 3 '0' (Nat.toDigits 10 i)) 0 := by
      rw [ofDigitChars_leftpad, Nat.ofDigitChars_ten_toDigits]
    _ = Nat.ofDigitChars 10 (List.leftpad 3 '0' (Nat.toDigits 10 j)) 0 := by rw [hdigits]
    _ = j := by rw [ofDigitChars_leftpad, Nat.ofDigitChars_ten_toDigits]

end ComputeWebApp.Api
