import Mathlib.Data.Nat.Digits.Defs
import ComputeWebApp.Image.ImageCache
import ComputeWebApp.Library.Slice
import ComputeWebApp.Upload.Published

/-!
# Images of a data

`get_group_dataset_image` shows some images of a dataset of a group.  `load_dataset` takes them out
of the file, and `array_to_image` draws them or finds them in the cache.

Clients may ask for images while the data is still written.  The images of a group that is stored
are those of the part that has been posted for it, and as long as all datas have images of one size,
the cache changes no answer (`images_while_uploading`), although the names of its files leave the
shape out.
-/

namespace ComputeWebApp.Api.ImageCache

open ByteStream Slice Transition

/-! ## The code -/

/-- An element of a dataset, its least byte first. -/
def value (dtype : Dtype) (bytes : Bytes) : ℤ :=
  let unsigned := Nat.ofDigits 256 (bytes.map UInt8.toNat)
  match dtype with
  | .i1 => Int.bmod unsigned 256
  | .u1 => unsigned
  | .i2 => Int.bmod unsigned 65536
  | .u2 => unsigned

/-- Images as one array, of which the last index is the one of the image. -/
def stack (dtype : Dtype) (shape : Shape) (images : Images) : NdArray ℤ where
  shape := [shape.height, shape.width, images.length]
  values := (List.range (shape.height * shape.width * images.length)).map fun place =>
    let pixel := place / images.length
    value dtype ((element images (pixel / shape.width) (pixel % shape.width)
      (place % images.length)).getD [])
  size := by simp [Nat.mul_assoc]

/-- `'slice_' + '%03d' % group_id`, where the sign is one of the three characters. -/
def intGroupName : ℤ → String
  | .ofNat i => groupName i
  | .negSucc i => "slice_-" ++ String.ofList (List.leftpad 2 '0' (Nat.toDigits 10 (i + 1)))

def dataset (group : Group) (datasetId : String) : Option Images :=
  if datasetId = "magnitude" then some group.magnitude
  else if datasetId = "phase" then some group.phase
  else none

/-- `load_dataset`, `none` where it raises an exception. -/
def loadDataset (file : H5File) (groupId : ℤ) (datasetId : String) (start length : Option ℤ) :
    Option (NdArray ℤ) := do
  let group ← file.findGroup (intGroupName groupId)
  let images ← dataset group datasetId
  let start := start.getD 0
  let length := length.getD (group.shape.echos - start)
  return stack group.dtype group.shape (slice images start (start + length))

/-- The image type for the header `Accept`. -/
def imageType (accept : Option String) : ImageType :=
  let httpAccept := (accept.getD "").toList.splitOn ','
  if "image/png".toList ∈ httpAccept then .png
  else if "image/jpeg".toList ∈ httpAccept then .jpeg
  else .png

inductive Answer
  | image (body : Bytes)
  | error (code : ℕ)
  deriving DecidableEq

/-- A call, and the state of the file when it is opened. -/
structure Query where
  file : H5File
  groupId : ℤ
  datasetId : String
  start : ℤ := 0
  length : ℤ := 1
  accept : Option String := none
  time : ℕ := 0

namespace Query

def array (query : Query) : Option (NdArray ℤ) :=
  loadDataset query.file query.groupId query.datasetId (some query.start) (some query.length)

/-- An array of images has three dimensions. -/
theorem dimensions {query : Query} {array : NdArray ℤ} (h : query.array = some array) :
    array.shape.length = 2 ∨ array.shape.length = 3 := by
  simp only [Query.array, loadDataset, Option.bind_eq_bind, Option.bind_eq_some_iff] at h
  obtain ⟨group, -, images, -, harray⟩ := h
  cases harray
  exact .inr rfl

/-- The request that the call makes of `array_to_image`. -/
def request (query : Query) (array : NdArray ℤ) (h : query.array = some array) : Request ℤ :=
  ⟨array, dimensions h, imageType query.accept, query.time⟩

end Query

/-- The answer for what `array_to_image` returns. -/
def answerOf : Option Bytes → Answer
  | none => .error 500
  | some body => .image body

section Calls

variable (env : Environment) (scaling : Scaling ℤ)

/-- `get_group_dataset_image`: the cache after the call, and the answer. -/
def getGroupDatasetImage (files : List CachedFile) (query : Query) : List CachedFile × Answer :=
  match h : query.array with
  | none => (files, .error 404)
  | some array =>
      let result := arrayToImage env scaling files (query.request array h)
      (result.1, answerOf result.2)

/-- The answers to calls, one after the other. -/
def answers : List CachedFile → List Query → List Answer
  | _, [] => []
  | files, query :: queries =>
      (getGroupDatasetImage env scaling files query).2 ::
        answers (getGroupDatasetImage env scaling files query).1 queries

/-- The answer without a cache. -/
def uncached (query : Query) : Answer :=
  match h : query.array with
  | none => .error 404
  | some array => answerOf (render env scaling (query.request array h))

end Calls

/-! ## Images of one size -/

section Cache

variable {env : Environment} {scaling : Scaling ℤ} {height width : ℕ} {files : List CachedFile}
  {query : Query} {queries : List Query} {array : NdArray ℤ}

/-- The requests for images of that size. -/
def OfSize (height width : ℕ) : Set (Request ℤ) :=
  {request | ∃ count, request.array.shape = [height, width, count]}

/-- Arrays with the same elements and images of one size have the same shape, unless they have no
elements. -/
theorem compatible_ofSize (hempty : ∀ array, array.values = [] → scaling.scale array = none) :
    Compatible scaling (OfSize height width) := by
  rintro first ⟨count, hfirst⟩ second ⟨count', hsecond⟩ array array' harray harray' hvalues -
  have hshape : array.shape = [height, width, count] :=
    (scaling.shape_eq _ _ harray).trans hfirst
  have hshape' : array'.shape = [height, width, count'] :=
    (scaling.shape_eq _ _ harray').trans hsecond
  have hsize : array.values.length = height * width * count := by
    rw [array.size, hshape]
    simp [Nat.mul_assoc]
  have hsize' : array.values.length = height * width * count' := by
    rw [hvalues, array'.size, hshape']
    simp [Nat.mul_assoc]
  have hpixels : 0 < height * width := by
    refine Nat.pos_of_ne_zero fun hzero => ?_
    have hnone : scaling.scale first.array = none := by
      refine hempty _ (List.eq_nil_of_length_eq_zero ?_)
      rw [first.array.size, hfirst]
      simp only [List.prod_cons, List.prod_nil, Nat.mul_one, ← Nat.mul_assoc, hzero, Nat.zero_mul]
    rw [hnone] at harray
    cases harray
  obtain rfl : count = count' := Nat.eq_of_mul_eq_mul_left hpixels (hsize.symm.trans hsize')
  obtain ⟨shape, values, size⟩ := array
  obtain ⟨shape', values', size'⟩ := array'
  obtain rfl : shape = shape' := hshape.trans hshape'.symm
  obtain rfl : values = values' := hvalues
  exact ⟨rfl, rfl, fun _ _ _ _ => rfl⟩

/-- A call answers as without a cache, and leaves a cache that is right for images of the size. -/
theorem getGroupDatasetImage_spec
    (hempty : ∀ array, array.values = [] → scaling.scale array = none)
    (hsize : ∀ array h, query.request array h ∈ OfSize height width)
    (hvalid : Memo.Valid (cacheKey env scaling) (render env scaling) (OfSize height width)
      (Kept files)) :
    (getGroupDatasetImage env scaling files query).2 = uncached env scaling query ∧
      Memo.Valid (cacheKey env scaling) (render env scaling) (OfSize height width)
        (Kept (getGroupDatasetImage env scaling files query).1) := by
  unfold getGroupDatasetImage uncached
  split
  · exact ⟨rfl, hvalid⟩
  · rename_i array h
    have hstep : Memo.Step (cacheKey env scaling) (render env scaling) _ _ _ _ :=
      arrayToImage_step files (query.request array h)
    refine ⟨?_, hstep.valid (hsize array h) hvalid⟩
    exact congrArg answerOf
      (hstep.eq_answer (compatible_ofSize hempty).determined (hsize array h) hvalid)

theorem answers_eq (hempty : ∀ array, array.values = [] → scaling.scale array = none)
    (hsize : ∀ query ∈ queries, ∀ array h, query.request array h ∈ OfSize height width)
    (hvalid : Memo.Valid (cacheKey env scaling) (render env scaling) (OfSize height width)
      (Kept files)) :
    answers env scaling files queries = queries.map (uncached env scaling) := by
  induction queries generalizing files with
  | nil => rfl
  | cons query queries ih =>
      obtain ⟨hquery, hrest⟩ := List.forall_mem_cons.mp hsize
      obtain ⟨hanswer, hkept⟩ := getGroupDatasetImage_spec hempty hquery hvalid
      rw [answers, List.map_cons, hanswer, ih hrest hkept]

/-- The images of a file that fits a data have the size of the data. -/
theorem request_mem_ofSize {data : Creation} (hfits : Fits data query.file)
    (h : query.array = some array) :
    query.request array h ∈ OfSize data.height data.width := by
  have hload := h
  simp only [Query.array, loadDataset, Option.bind_eq_bind, Option.bind_eq_some_iff] at hload
  obtain ⟨group, hgroup, images, -, harray⟩ := hload
  cases harray
  have hshape : group.shape = data.shape := hfits.shape _ (H5File.mem_of_findGroup hgroup)
  refine ⟨(slice images query.start (query.start + query.length)).length, ?_⟩
  show [group.shape.height, group.shape.width, _] = _
  rw [hshape]
  rfl

end Cache

/-! ## Images of a stored group -/

/-- The array has the images from `start` to `stop` of a dataset, whose first image is image
`first` of the part. -/
structure Shows (data : Creation) (part : Bytes) (first : ℕ) (start stop : ℤ)
    (array : NdArray ℤ) : Prop where
  shape : array.shape = [data.height, data.width, count data.shape.echos start stop]
  values : ∀ row < data.height, ∀ column < data.width, ∀ k < count data.shape.echos start stop,
    array.values[(row * data.width + column) * count data.shape.echos start stop + k]? =
      some (value data.dtype (itemAt part data.dtype.itemsize
        (((first + bound data.shape.echos start + k) * data.height + row) * data.width + column)))

section Stored

variable {data : Creation} {part : Bytes} {group : Group} {images : Images}

theorem element_slice {start stop : ℤ} {row column k : ℕ}
    (h : k < count images.length start stop) :
    element (slice images start stop) row column k =
      element images row column (bound images.length start + k) := by
  rw [element, getElem?_slice h]
  rfl

/-- The element at a place in C order. -/
theorem getElem?_stack {dtype : Dtype} {shape : Shape} {row column k : ℕ}
    (hrow : row < shape.height) (hcolumn : column < shape.width) (hk : k < images.length) :
    (stack dtype shape images).values[(row * shape.width + column) * images.length + k]? =
      some (value dtype ((element images row column k).getD [])) := by
  have hpixel : row * shape.width + column < shape.height * shape.width := by
    calc row * shape.width + column < (row + 1) * shape.width := by
          rw [Nat.succ_mul]
          omega
      _ ≤ shape.height * shape.width := Nat.mul_le_mul_right _ hrow
  have hplace : (row * shape.width + column) * images.length + k <
      shape.height * shape.width * images.length := by
    calc (row * shape.width + column) * images.length + k
        < (row * shape.width + column + 1) * images.length := by
          rw [Nat.succ_mul]
          omega
      _ ≤ shape.height * shape.width * images.length := Nat.mul_le_mul_right _ hpixel
  have hdiv : ((row * shape.width + column) * images.length + k) / images.length =
      row * shape.width + column := by
    rw [Nat.mul_comm, Nat.mul_add_div (Nat.zero_lt_of_lt hk), Nat.div_eq_of_lt hk]
    rfl
  have hdiv' : (row * shape.width + column) / shape.width = row := by
    rw [Nat.mul_comm, Nat.mul_add_div (Nat.zero_lt_of_lt hcolumn), Nat.div_eq_of_lt hcolumn]
    rfl
  simp only [stack, List.getElem?_map, List.getElem?_range hplace, Option.map_some, hdiv, hdiv',
    Nat.mul_add_mod', Nat.mod_eq_of_lt hk, Nat.mod_eq_of_lt hcolumn]

/-- The images of one half of a part. -/
theorem shows_stack (hechos : data.shape.echos ≠ 0) (hsize : part.length = data.bodySize)
    (first : ℕ) (start stop : ℤ) :
    Shows data part first start stop (stack data.dtype data.shape
      (slice (sliceArray data.dtype data.shape part (part.length / (2 * data.shape.echos)) first)
        start stop)) := by
  have hlength : (sliceArray data.dtype data.shape part (part.length / (2 * data.shape.echos))
      first).length = data.shape.echos := by simp [sliceArray]
  have hcount := length_slice (sliceArray data.dtype data.shape part
    (part.length / (2 * data.shape.echos)) first) start stop
  rw [hlength] at hcount
  refine ⟨?_, fun row hrow column hcolumn k hk => ?_⟩
  · rw [← hcount]
    rfl
  · have hrow' : row < data.shape.height := hrow
    have hcolumn' : column < data.shape.width := hcolumn
    have helement := element_sliceArray part (bodyPartSize_eq hechos hsize) first hrow' hcolumn'
      (bound_add_lt hk)
    rw [← hcount]
    refine (getElem?_stack hrow hcolumn (hcount ▸ hk)).trans ?_
    rw [element_slice (by rwa [hlength]), hlength, helement, Option.getD_some, itemAt, Nat.add_assoc]
    rfl

/-- A dataset of a stored group is one half of the part. -/
theorem dataset_stored (h : ImagesOf data part group) {datasetId : String} {first : ℕ}
    (hdataset : (datasetId, first) ∈ [("magnitude", 0), ("phase", data.shape.echos)]) :
    dataset group datasetId =
      some (sliceArray data.dtype data.shape part (part.length / (2 * data.shape.echos)) first) := by
  simp only [List.mem_cons, Prod.mk.injEq, List.not_mem_nil, or_false] at hdataset
  rcases hdataset with ⟨rfl, rfl⟩ | ⟨rfl, rfl⟩
  · exact congrArg some h.magnitude
  · exact congrArg some h.phase

end Stored

/-! ## Images of datas that are written -/

/-- A data whose values are posted, the bodies for one group being the same. -/
structure Uploading where
  keepFilesOpen : Bool
  created : Created keepFilesOpen
  items : List PostedItem
  samePart : SamePart items

/-- The state that the items leave. -/
def Uploading.state (uploading : Uploading) : DataState :=
  afterItems uploading.keepFilesOpen uploading.created.state uploading.items

/-- A call for a data whose images have that size, at any time while its values are posted. -/
structure View (height width : ℕ) extends Query where
  uploading : Uploading
  height_eq : uploading.created.data.height = height
  width_eq : uploading.created.data.width = width
  seen : file ∈ uploading.created.history uploading.state

section Views

variable {height width : ℕ}

theorem View.filled (view : View height width) :
    Filled view.uploading.created.data view.uploading.items view.file :=
  (view.uploading.created.history_of_tells
    (view.uploading.created.tells_run view.uploading.samePart)).1 _ view.seen

/-- What is taken out of the file for a stored group. -/
theorem View.array_eq (view : View height width) {i : ℕ} {group : Group}
    (hid : view.groupId = i) (hgroup : view.file.findGroup (groupName i) = some group)
    (hstored : group.stored = true) {first : ℕ}
    (hdataset : (view.datasetId, first) ∈
      [("magnitude", 0), ("phase", view.uploading.created.data.shape.echos)]) :
    ∃ item ∈ view.uploading.items, ∃ part, item.Stores i part ∧ ∃ array,
      view.array = some array ∧ Shows view.uploading.created.data part first view.start
        (view.start + view.length) array := by
  have hfilled := view.filled
  obtain ⟨item, hitem, part, hstores, hsize, hechos, himages⟩ :=
    hfilled.images i group hgroup hstored
  have hmem := H5File.mem_of_findGroup hgroup
  have hname : intGroupName view.groupId = groupName i := by
    rw [hid]
    rfl
  refine ⟨item, hitem, part, hstores, _, ?_, shows_stack hechos hsize first _ _⟩
  simp only [Query.array, loadDataset, hname, hgroup, dataset_stored himages hdataset,
    Option.bind_eq_bind, Option.bind_some, Option.getD_some]
  rw [hfilled.fits.dtype _ hmem, hfilled.fits.shape _ hmem]
  rfl

variable {scaling : Scaling ℤ}

/-- **Images while datas are written.**  Clients ask for images of datas with images of one size, at
any time while values are posted.  Every call answers as without a cache, and for a group that is
stored it shows the images of the part that has been posted for the group. -/
theorem images_while_uploading (env : Environment)
    (hempty : ∀ array, array.values = [] → scaling.scale array = none)
    (views : List (View height width)) :
    answers env scaling [] (views.map View.toQuery) =
        views.map (fun view => uncached env scaling view.toQuery) ∧
      ∀ view ∈ views, ∀ (i : ℕ) (group : Group) (first : ℕ), view.groupId = i →
        view.file.findGroup (groupName i) = some group → group.stored = true →
        (view.datasetId, first) ∈
          [("magnitude", 0), ("phase", view.uploading.created.data.shape.echos)] →
        ∃ item ∈ view.uploading.items, ∃ part, item.Stores i part ∧ ∃ array,
          view.array = some array ∧ Shows view.uploading.created.data part first view.start
            (view.start + view.length) array := by
  have hsize : ∀ query ∈ views.map View.toQuery, ∀ array h,
      query.request array h ∈ OfSize height width := by
    intro query hquery array h
    obtain ⟨view, -, rfl⟩ := List.mem_map.mp hquery
    have hmem := request_mem_ofSize view.filled.fits h
    rwa [view.height_eq, view.width_eq] at hmem
  refine ⟨?_, fun view _ i group first hid hgroup hstored hdataset =>
    view.array_eq hid hgroup hstored hdataset⟩
  rw [answers_eq hempty hsize (.empty (by simp [Kept])), List.map_map]
  rfl

end Views

theorem exactScaling_of_nil (array : NdArray ℤ) (h : array.values = []) :
    exactScaling.scale array = none := by
  have hscale : scale array = .error .zeroSize := by
    rw [scale, NdArray.amax, h, List.max?_nil]
    rfl
  show (scale array).toOption.map _ = none
  rw [hscale]
  rfl

/-- An image of the phase of the second slice, once the slice is stored. -/
def phaseQuery (file : H5File) : Query := { file, groupId := 1, datasetId := "phase" }

/-- The image, asked for twice. -/
theorem images_while_uploading_two_slices :
    ∃ view : View 1 2, (∃ array, view.array = some array ∧ array.shape = [1, 2, 1]) ∧
      uncached (plain fun _ image => some image.values) exactScaling view.toQuery =
        .image [0, 255] ∧
      answers (plain fun _ image => some image.values) exactScaling []
          [view.toQuery, view.toQuery] = [.image [0, 255], .image [0, 255]] := by
  let uploading : Uploading := ⟨true, createdSlices true, twoSlicesItems, samePart_twoSlicesItems⟩
  have hend : (((createdSlices true).history uploading.state).getLast?.any fun file => decide
      ((∃ group ∈ file.findGroup (groupName 1), group.stored = true) ∧
        uncached (plain fun _ image => some image.values) exactScaling (phaseQuery file) =
          .image [0, 255])) = true := by decide +kernel
  obtain ⟨file, hfile, hend⟩ := (Option.any_eq_true _ _).mp hend
  obtain ⟨⟨group, hgroup, hstored⟩, himage⟩ := of_decide_eq_true hend
  let view : View 1 2 :=
    { toQuery := phaseQuery file, uploading, height_eq := rfl, width_eq := rfl,
      seen := List.mem_of_getLast? hfile }
  obtain ⟨hanswers, himages⟩ := images_while_uploading (plain fun _ image => some image.values)
    exactScaling_of_nil [view, view]
  obtain ⟨_, _, _, _, array, harray, hshows⟩ := himages view List.mem_cons_self 1 group 1 rfl
    hgroup hstored (List.mem_cons_of_mem _ List.mem_cons_self)
  refine ⟨view, ⟨array, harray, hshows.shape⟩, himage, hanswers.trans ?_⟩
  simp only [List.map_cons, List.map_nil, show uncached _ exactScaling view.toQuery = _ from himage]

end ComputeWebApp.Api.ImageCache
