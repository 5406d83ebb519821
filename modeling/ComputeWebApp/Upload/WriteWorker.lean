import ComputeWebApp.Upload.H5File

/-!
# The write worker

`write_worker` of `WriteProcess` handles the items of the write queue one at a time: the
creation of a data, the attributes and the body of a posted value.  The items of one data are
followed here, so that a `DataState` is what the worker keeps of that data.

`WorkerM` runs the code with its exceptions and leaves in `published` every state of the file
that a reader can see.
-/

namespace ComputeWebApp.Api

open ByteStream

/-! ## Items -/

/-- A posted data, with what HDF5 refuses of it for its size or its name: attributes, the shape of
the datasets. -/
structure Creation where
  name : String
  version : String
  postTime : String
  sliceLocations : List JsonNumber
  echoTimes : List JsonNumber
  dtype : Dtype
  imageWidth : ℤ
  imageHeight : ℤ
  attributes : List (String × JsonValue) := []
  refusesAttribute : String → AttrValue → Bool := fun _ _ => false
  refusesShape : Bool := false

/-- The attributes of a group that `post_value` sets. -/
inductive GroupAttribute
  | uploaded (value : Bool)
  | uploadedBytes (value : ℕ)
  deriving DecidableEq, Repr

structure AttributeEntry where
  groupId : String
  assigned : GroupAttribute
  deriving DecidableEq, Repr

inductive Item
  | creation (data : Creation)
  | body (groupIds : List ℕ) (body : Bytes)
  | attributes (entries : List AttributeEntry)

structure PrioritizedItem where
  priority : ℕ
  item : Item

/-- A value posted for some groups of the data; no list of groups that can be posted is
empty. -/
structure ValuePost where
  groupIds : List ℕ
  body : Bytes
  nonempty : groupIds ≠ []

namespace ValuePost

def bodyPartSize (post : ValuePost) : ℕ :=
  post.body.length / post.groupIds.length

/-- The loop of `post_value` over the groups. -/
def entries (post : ValuePost) : List AttributeEntry :=
  post.groupIds.flatMap fun groupId =>
    [⟨groupName groupId, .uploaded true⟩, ⟨groupName groupId, .uploadedBytes post.bodyPartSize⟩]

def attributesItem (post : ValuePost) : Item := .attributes post.entries

def bodyItem (post : ValuePost) : Item := .body post.groupIds post.body

/-- `post_value`: what is put to the write queue, in this order, or the error message. -/
def postValue (post : ValuePost) : Except String (PrioritizedItem × PrioritizedItem) :=
  if post.body.length % post.groupIds.length ≠ 0 then .error "Wrong body size"
  else .ok (⟨1, post.attributesItem⟩, ⟨10 + post.groupIds.head post.nonempty, post.bodyItem⟩)

end ValuePost

/-! ## State of the worker -/

/-- What the worker keeps of a data: the file `<data_id>.h5`, whether `<data_id>.json` and
its lock file exist, whether `open_files` has the file (`cached`), whether the file object in
use is open, and every state of the file so far, the last one first. -/
structure DataState where
  h5 : Option H5File := none
  marker : Bool := false
  locked : Bool := false
  cached : Bool := false
  isOpen : Bool := false
  clock : ℕ := 0
  published : List H5File := []

/-- How a function of the worker ends early: by an exception, or never. -/
inductive Stop
  | raised (exception : Exn)
  | spins
  deriving DecidableEq, Repr

abbrev WorkerM := EStateM Stop DataState

/-- Apply one write to the file. -/
def DataState.write (s : DataState) (change : H5File → H5File) : DataState :=
  match s.h5 with
  | none => s
  | some file => { s with h5 := some (change file), published := change file :: s.published }

def raise {α : Type} (exception : Exn) : WorkerM α :=
  throw (.raised exception)

/-- The file object in use.  Every access to a closed one raises. -/
def openFile : WorkerM H5File := do
  let s ← get
  match s.h5, s.isOpen with
  | some file, true => pure file
  | _, _ => raise .valueError

def writeFile (change : H5File → H5File) : WorkerM Unit := do
  let _ ← openFile
  modify fun s => s.write change

def setAttr (name : String) (value : AttrValue) : WorkerM Unit :=
  writeFile fun file => file.setAttr name value

/-- The truth value of `file.attrs[name]`. -/
def truth (name : String) : WorkerM Bool := do
  let file ← openFile
  match file.attrs name with
  | none => raise .keyError
  | some value =>
      match value.truthy with
      | none => raise .valueError
      | some result => pure result

def closeFile : WorkerM Unit :=
  modify fun s => { s with isOpen := false }

/-- `datetime.now()`, on a logical clock. -/
def now : WorkerM ℕ :=
  modifyGet fun s => (s.clock, { s with clock := s.clock + 1 })

/-! ## Creating the file -/

def Creation.slices (data : Creation) : ℕ := data.sliceLocations.length

def Creation.width (data : Creation) : ℕ := data.imageWidth.toNat

def Creation.height (data : Creation) : ℕ := data.imageHeight.toNat

def Creation.shape (data : Creation) : Shape :=
  ⟨data.height, data.width, data.echoTimes.length⟩

/-- `create_dataset` takes the shape. -/
def Creation.hasDatasets (data : Creation) : Bool :=
  0 ≤ data.imageHeight && 0 ≤ data.imageWidth && !data.refusesShape

def zeros (dtype : Dtype) (shape : Shape) : Images :=
  List.replicate shape.echos
    (List.replicate shape.height (List.replicate shape.width (List.replicate dtype.itemsize 0)))

/-- A group as `create_file` creates it, with its datasets. -/
def Creation.group (data : Creation) : Group where
  dtype := data.dtype
  shape := data.shape
  datasets := data.hasDatasets
  magnitude := zeros data.dtype data.shape
  phase := zeros data.dtype data.shape

/-- `file.attrs.create`, once the value has been converted. -/
def createAttr (name : String) (value : Except Exn AttrValue) : WorkerM Unit :=
  match value with
  | .error exception => raise exception
  | .ok value => setAttr name value

/-- The attributes of `create_file` that are not posted ones, in order. -/
def Creation.ownAttributes (data : Creation) : List (String × Except Exn AttrValue) :=
  [("cwa_name", npString data.name), ("cwa_version", npString data.version),
    ("cwa_post_time", npString data.postTime),
    ("cwa_uploaded", .ok (.bool false)), ("cwa_uploaded_bytes", .ok (.int 0)),
    ("cwa_upload_progress", .ok (.int 0)), ("cwa_upload_end_time", .ok (.text "")),
    ("cwa_stored", .ok (.bool false)), ("cwa_stored_bytes", .ok (.int 0)),
    ("cwa_store_progress", .ok (.int 0)), ("cwa_store_end_time", .ok (.text ""))]

def Creation.postedAttributes (data : Creation) : List (String × Except Exn AttrValue) :=
  data.attributes.map fun entry => (entry.1, entry.2.toAttr)

/-- What HDF5 makes of an attribute. -/
def Creation.checked (data : Creation) (entry : String × Except Exn AttrValue) :
    String × Except Exn AttrValue :=
  (entry.1, entry.2.bind fun value =>
    if data.refusesAttribute entry.1 value then .error .valueError else .ok value)

def createAttrs (entries : List (String × Except Exn AttrValue)) : WorkerM Unit :=
  forM entries fun entry => createAttr entry.1 entry.2

/-- `file.create_dataset` for a list of numbers. -/
def createNumbers (numbers : List JsonNumber) : WorkerM Unit :=
  if numbers.all JsonNumber.hasType then pure () else raise .typeError

/-- The attributes of the file, and the datasets `slice_locations` and `echo_times`. -/
def createAttributes (data : Creation) : WorkerM Unit := do
  createAttrs (data.ownAttributes.map data.checked)
  createNumbers data.sliceLocations
  createNumbers data.echoTimes
  createAttrs (data.postedAttributes.map data.checked)

/-- The groups, with their datasets when they can be created; the source creates the datasets in a
second loop. -/
def createGroups (data : Creation) : WorkerM Unit := do
  forM (List.range data.slices) fun i =>
    writeFile fun file => file.createGroup (groupName i) data.group
  if data.slices ≠ 0 ∧ data.hasDatasets = false then raise .valueError else pure ()

/-- `create_file` -/
def createFile (data : Creation) : WorkerM Unit := do
  modify fun s => { s with h5 := some {}, isOpen := true, published := {} :: s.published }
  createAttributes data
  createGroups data

/-! ## Writing a body -/

def writeGroup (groupId : ℕ) (change : Group → Group) : WorkerM Unit :=
  writeFile fun file => file.updateGroup (groupName groupId) change

/-- `write_body_to_file_group`.  No group is found in a closed file; a body that has not the
right size closes the file, and the error that is returned goes nowhere. -/
def writeBodyToFileGroup (body : Bytes) (groupId : ℕ) : WorkerM Unit := do
  let s ← get
  match if s.isOpen then s.h5.bind fun file => file.findGroup (groupName groupId) else none with
  | none => raise .groupNotFound
  | some group => do
      let dtype := group.dtype
      let shape := group.shape
      -- `group['magnitude']`
      if group.datasets = false then raise .keyError
      else if body.length ≠ expectedBodySize dtype shape then closeFile
      else if shape.echos = 0 then raise .zeroDivisionError
      else do
        let bodyPartSize := body.length / (2 * shape.echos)
        writeGroup groupId fun group =>
          { group with magnitude := sliceArray dtype shape body bodyPartSize 0 }
        writeGroup groupId fun group =>
          { group with phase := sliceArray dtype shape body bodyPartSize shape.echos }
        writeGroup groupId fun group => { group with stored := true }
        writeGroup groupId fun group => { group with storedBytes := body.length }

def writeBodiesToFile (parts : List (ℕ × Bytes)) : WorkerM Unit :=
  forM parts fun part => writeBodyToFileGroup part.2 part.1

/-- The groups of a body with their parts of it. -/
def bodyParts (groupIds : List ℕ) (body : Bytes) : List (ℕ × Bytes) :=
  let bodyPartSize := body.length / groupIds.length
  groupIds.zip
    ((List.range groupIds.length).map fun i => (body.drop (i * bodyPartSize)).take bodyPartSize)

/-- `int(progress / group_count * 100)` in exact arithmetic. -/
def Scan.percent (vars : Scan) : WorkerM AttrValue :=
  if vars.groupCount = 0 then raise .zeroDivisionError
  else pure (.int (100 * vars.progress / vars.groupCount : ℕ))

/-- `__write_body_item_to_file` -/
def writeBodyItemToFile (groupIds : List ℕ) (body : Bytes) : WorkerM Unit := do
  if groupIds.length = 0 then raise .zeroDivisionError
  else do
    writeBodiesToFile (bodyParts groupIds body)
    let file ← openFile
    let vars := scan Group.stored Group.storedBytes file.groups
    let storeProgress ← vars.percent
    setAttr "cwa_stored_bytes" (.int vars.bytes)
    setAttr "cwa_store_progress" storeProgress
    if vars.done then do
      let time ← now
      setAttr "cwa_store_end_time" (.time time)
      setAttr "cwa_stored" (.bool true)
    else pure ()

/-! ## Writing attributes -/

def Group.setAttribute (group : Group) : GroupAttribute → Group
  | .uploaded value => { group with uploaded := value }
  | .uploadedBytes value => { group with uploadedBytes := value }

/-- `file[group_id].attrs[name] = value` -/
def writeEntry (entry : AttributeEntry) : WorkerM Unit := do
  let file ← openFile
  match file.findGroup entry.groupId with
  | none => raise .keyError
  | some _ =>
      writeFile fun file =>
        file.updateGroup entry.groupId fun group => group.setAttribute entry.assigned

/-- `__write_attributes_item_to_file` -/
def writeAttributesItemToFile (entries : List AttributeEntry) : WorkerM Unit := do
  forM entries writeEntry
  let file ← openFile
  let vars := scan Group.uploaded Group.uploadedBytes file.groups
  let uploadProgress ← vars.percent
  setAttr "cwa_uploaded_bytes" (.int vars.bytes)
  setAttr "cwa_upload_progress" uploadProgress
  -- `uploaded and not file.attrs['cwa_uploaded']`
  if vars.done then do
    if ← truth "cwa_uploaded" then pure ()
    else do
      let time ← now
      setAttr "cwa_upload_end_time" (.time time)
      setAttr "cwa_uploaded" (.bool true)
  else pure ()

/-! ## The worker -/

/-- `lock_file` on `<data_id>.json`: it waits for the lock file to be deleted. -/
def lockFile : WorkerM Unit := do
  let s ← get
  if s.locked then throw .spins
  else set { s with locked := true }

def unlockFile : WorkerM Unit :=
  modify fun s => { s with locked := false }

/-- `os.remove(json_filepath)` -/
def removeMarker : WorkerM Unit := do
  let s ← get
  if s.marker then set { s with marker := false }
  else raise .fileNotFoundError

/-- `open_file_for_writing`: it tries until the file can be opened. -/
def openFileForWriting : WorkerM Unit := do
  let s ← get
  match s.h5 with
  | none => throw .spins
  | some _ => set { s with isOpen := true }

/-- The file object for an item: a new one, or the one of `open_files`. -/
def openItemFile (keepFilesOpen : Bool) : WorkerM Unit := do
  let s ← get
  if keepFilesOpen then
    if s.cached then pure ()
    else do
      openFileForWriting
      modify fun s => { s with cached := true }
  else openFileForWriting

/-- What follows an item: flush, close. -/
def finishItem (keepFilesOpen : Bool) : WorkerM Unit := do
  let _ ← openFile
  if keepFilesOpen then do
    if ← truth "cwa_stored" then
      if ← truth "cwa_uploaded" then do
        modify fun s => { s with cached := false }
        closeFile
      else pure ()
    else pure ()
  else closeFile

/-- The body of the worker's `try`. -/
def handleItem (keepFilesOpen : Bool) : Item → WorkerM Unit
  | .creation data => do
      createFile data
      lockFile
      modify fun s => { s with marker := true }
      unlockFile
      if keepFilesOpen then modify fun s => { s with cached := true }
      else closeFile
  | .body groupIds body => do
      openItemFile keepFilesOpen
      writeBodyItemToFile groupIds body
      if ← truth "cwa_stored" then do
        lockFile
        removeMarker
        unlockFile
      else pure ()
      finishItem keepFilesOpen
  | .attributes entries => do
      openItemFile keepFilesOpen
      writeAttributesItemToFile entries
      finishItem keepFilesOpen

/-- The state after an item, which has succeeded or has ended in the `except` branch; none
when the worker never ends the item. -/
def afterItem (keepFilesOpen : Bool) (s : DataState) (item : Item) : Option DataState :=
  match handleItem keepFilesOpen item s with
  | .ok _ t => some t
  | .error (.raised _) t => some t
  | .error .spins _ => none

/-- A data that has been created, with the state that the creation item leaves. -/
structure Created (keepFilesOpen : Bool) where
  data : Creation
  state : DataState
  creates : handleItem keepFilesOpen (.creation data) {} = .ok () state

end ComputeWebApp.Api
