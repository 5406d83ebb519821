import ComputeWebApp.Image.Scaling
import ComputeWebApp.Library.CompactJson
import ComputeWebApp.Library.Memo

/-!
# The cache of images

`array_to_image` from the scaled array on.  A file of the cache directory is named after the hash
of the scaled elements and the extension of the image type, and a call whose file exists returns
what an earlier call has stored.  What `numpy` makes of the elements of an array is a parameter
(`Scaling`), and so are the hash, the color map with the image formats and the order in which a
directory is listed (`Environment`).

The shape of the array is not part of the name.  The cache returns the right images for a set of
requests if and only if two of them with the same elements and format show the same picture
(`cached_images_iff`).
-/

namespace ComputeWebApp.Api.ImageCache

open NdArray ByteStream

/-- The `image_type` of a call; `other` is for all texts but `"PNG"` and `"JPEG"`. -/
inductive ImageType
  | png
  | jpeg
  | other
  deriving DecidableEq

/-- The format of the image file. -/
inductive Format
  | png
  | jpeg
  deriving DecidableEq

def ImageType.format : ImageType → Format
  | .png => .png
  | .jpeg => .jpeg
  | .other => .png

def ImageType.extension : ImageType → List Char
  | .png => ['.', 'p', 'n', 'g']
  | .jpeg => ['.', 'j', 'p', 'g']
  | .other => ['.', 'p', 'n', 'g']

/-- The head of `array_to_image` for arrays of one type, `none` where it raises an exception. -/
structure Scaling (α : Type*) where
  scale : NdArray α → Option (NdArray UInt8)
  shape_eq : ∀ array scaled, scale array = some scaled → scaled.shape = array.shape

structure Request (α : Type*) where
  array : NdArray α
  dimensions : array.shape.length = 2 ∨ array.shape.length = 3
  imageType : ImageType
  /-- What the clock of the file system shows. -/
  time : ℕ

structure CachedFile where
  name : List Char
  content : Bytes
  mtime : ℕ

structure Environment where
  hexdigest : Bytes → List Char
  hexdigest_injective : Function.Injective hexdigest
  /-- The color map, `Image.fromarray` and `save`. -/
  draw : Format → NdArray UInt8 → Option Bytes
  /-- The order of `iterdir`. -/
  iterdir : List CachedFile → List CachedFile
  iterdir_perm : ∀ files, (iterdir files).Perm files

/-! ## The code -/

/-- The array that the color map is applied to: one row for each row of the array. -/
def raster (array : NdArray UInt8) : Option (NdArray UInt8) :=
  match array.shape with
  | [rows, columns] => do
      let array ← (array.reshape [rows, columns, 1]).toOption
      (array.reshape [rows, columns * 1]).toOption
  | rows :: columns :: planes :: _ => (array.reshape [rows, columns * planes]).toOption
  | _ => none

def maxCachedSize : ℕ := 100 * 1024 * 1024

def totalBytes (files : List CachedFile) : ℕ := (files.map fun file => file.content.length).sum

/-- The loop over the sorted files, which stops when the total size is small enough. -/
def removeFiles (total : ℕ) (files : List CachedFile) : List CachedFile → List CachedFile
  | [] => files
  | path :: paths =>
      let files := files.filter (·.name ≠ path.name)
      let total := total - path.content.length
      if total < maxCachedSize then files else removeFiles total files paths

def storeImage (name : List Char) (content : Bytes) (time : ℕ) (files : List CachedFile) :
    List CachedFile :=
  ⟨name, content, time⟩ :: files.filter (·.name ≠ name)

section Calls

variable {α : Type*} (env : Environment) (scaling : Scaling α)

def evict (files : List CachedFile) : List CachedFile :=
  if totalBytes files > maxCachedSize then
    removeFiles (totalBytes files) files ((env.iterdir files).mergeSort (·.mtime ≤ ·.mtime))
  else files

def filename (array : NdArray UInt8) (imageType : ImageType) : List Char :=
  env.hexdigest array.values ++ imageType.extension

/-- The cache after a call, and the image that it returns. -/
def arrayToImage (files : List CachedFile) (request : Request α) :
    List CachedFile × Option Bytes :=
  match scaling.scale request.array with
  | none => (files, none)
  | some array =>
      let name := filename env array request.imageType
      match files.find? (·.name = name) with
      | some file => (files, some file.content)
      | none =>
          match (raster array).bind (env.draw request.imageType.format) with
          | none => (files, none)
          | some content =>
              (storeImage name content request.time (evict env files), some content)

/-- The images that calls return, one after the other. -/
def images : List CachedFile → List (Request α) → List (Option Bytes)
  | _, [] => []
  | files, request :: requests =>
      (arrayToImage env scaling files request).2 ::
        images (arrayToImage env scaling files request).1 requests

/-- The image of a request without a cache. -/
def render (request : Request α) : Option Bytes :=
  (scaling.scale request.array).bind fun array =>
    (raster array).bind (env.draw request.imageType.format)

end Calls

/-! ## Pictures -/

def rows (array : NdArray UInt8) : ℕ := array.shape.getD 0 1

def columns (array : NdArray UInt8) : ℕ := array.shape.getD 1 1

def planes (array : NdArray UInt8) : ℕ := array.shape.getD 2 1

/-- The planes of an array are shown side by side. -/
def width (array : NdArray UInt8) : ℕ := columns array * planes array

/-- The element at one place of a row of the picture. -/
def pixel (array : NdArray UInt8) (row place : ℕ) : Option UInt8 :=
  array.values[(row * columns array + place % columns array) * planes array +
    place / columns array]?

/-- Two arrays that show the same picture. -/
structure SamePicture (first second : NdArray UInt8) : Prop where
  rows : rows first = rows second
  width : width first = width second
  pixel : ∀ row < ImageCache.rows first, ∀ place < ImageCache.width first,
    pixel first row place = pixel second row place

theorem place_planes {r c d p : ℕ} (h : p < r * (c * d)) :
    ofFortran [r, c, d] (toFortran [r, c * d] p) =
      (p / (c * d) * c + p % (c * d) % c) * d + p % (c * d) / c := by
  obtain ⟨-, hwidth⟩ : 0 < r ∧ 0 < c * d :=
    ⟨Nat.pos_of_mul_pos_right (Nat.zero_lt_of_lt h), Nat.pos_of_mul_pos_left (Nat.zero_lt_of_lt h)⟩
  have hrow : p / (c * d) < r := Nat.div_lt_of_lt_mul (Nat.mul_comm r (c * d) ▸ h)
  have hplane : p % (c * d) / c < d := Nat.div_lt_of_lt_mul (Nat.mod_lt p hwidth)
  have hplace : toFortran [r, c * d] p = p / (c * d) + r * (p % (c * d)) := by
    simp [toFortran]
  have hr : 0 < r := Nat.zero_lt_of_lt hrow
  rw [hplace]
  simp only [ofFortran, List.prod_cons, List.prod_nil, Nat.add_mul_mod_self_left,
    Nat.mod_eq_of_lt hrow, Nat.add_mul_div_left _ _ hr, Nat.div_eq_of_lt hrow, zero_add, mul_one,
    Nat.mod_eq_of_lt hplane, add_zero]
  rw [Nat.add_mul, Nat.mul_assoc, Nat.add_assoc]

theorem reshape_planes (array : NdArray UInt8) {r c d : ℕ} (h : array.shape = [r, c, d]) :
    ∃ image, array.reshape [r, c * d] = .ok image ∧ image.shape = [r, c * d] ∧
      ∀ p < r * (c * d), image.values[p]? =
        array.values[(p / (c * d) * c + p % (c * d) % c) * d + p % (c * d) / c]? := by
  have hprod : [r, c * d].prod = array.shape.prod := by
    rw [h]
    simp
  obtain ⟨image, himage, hshape, hvalues⟩ := array.exists_reshape hprod
  refine ⟨image, himage, hshape, fun p hp => ?_⟩
  have hplace : p < [r, c * d].prod := by simpa using hp
  rw [hvalues p hplace, h, place_planes hp]

/-- The elements of the rastered array are the pixels of the picture. -/
theorem raster_spec (array : NdArray UInt8)
    (h : array.shape.length = 2 ∨ array.shape.length = 3) :
    ∃ image, raster array = some image ∧ image.shape = [rows array, width array] ∧
      ∀ p < rows array * width array,
        image.values[p]? = pixel array (p / width array) (p % width array) := by
  rcases h with htwo | hthree
  · obtain ⟨r, c, hshape⟩ := List.length_eq_two.mp htwo
    obtain ⟨stacked, hstacked, hshape', hsame⟩ := array.reshape_append_one
    rw [hshape] at hstacked hshape'
    obtain ⟨image, himage, hresult, hvalues⟩ := reshape_planes stacked hshape'
    have hraster : raster array = some image := by
      simp only [raster, hshape]
      show (array.reshape ([r, c] ++ [1])).toOption.bind _ = _
      rw [hstacked]
      show (stacked.reshape [r, c * 1]).toOption = _
      rw [himage]
      rfl
    refine ⟨image, hraster, ?_, ?_⟩
    · simpa [rows, width, columns, planes, hshape] using hresult
    · simpa [rows, width, columns, planes, pixel, hshape, hsame] using hvalues
  · obtain ⟨r, c, d, hshape⟩ := List.length_eq_three.mp hthree
    obtain ⟨image, himage, hresult, hvalues⟩ := reshape_planes array hshape
    have hraster : raster array = some image := by
      simp only [raster, hshape, himage]
      rfl
    refine ⟨image, hraster, ?_, ?_⟩
    · simpa [rows, width, columns, planes, hshape] using hresult
    · simpa [rows, width, columns, planes, pixel, hshape] using hvalues

/-- Two arrays are rastered alike if and only if they show the same picture. -/
theorem raster_eq_iff {first second : NdArray UInt8}
    (hfirst : first.shape.length = 2 ∨ first.shape.length = 3)
    (hsecond : second.shape.length = 2 ∨ second.shape.length = 3) :
    raster first = raster second ↔ SamePicture first second := by
  obtain ⟨image, himage, hshape, hvalues⟩ := raster_spec first hfirst
  obtain ⟨image', himage', hshape', hvalues'⟩ := raster_spec second hsecond
  rw [himage, himage', Option.some.injEq]
  constructor
  · rintro rfl
    obtain ⟨hrows, hwidth⟩ : rows first = rows second ∧ width first = width second := by
      simpa using hshape.symm.trans hshape'
    refine ⟨hrows, hwidth, fun row hrow place hplace => ?_⟩
    have hp : row * width first + place < rows first * width first := by
      calc
        _ < (row + 1) * width first := by rw [Nat.succ_mul]; exact Nat.add_lt_add_left hplace _
        _ ≤ rows first * width first := Nat.mul_le_mul_right _ hrow
    have hdiv : (row * width first + place) / width first = row := by
      rw [Nat.mul_comm, Nat.mul_add_div (Nat.zero_lt_of_lt hplace), Nat.div_eq_of_lt hplace]
      rfl
    have hmod : (row * width first + place) % width first = place := by
      rw [Nat.mul_add_mod', Nat.mod_eq_of_lt hplace]
    have hvalue := hvalues _ hp
    have hvalue' := hvalues' _ (by rw [← hrows, ← hwidth]; exact hp)
    rw [← hwidth] at hvalue'
    rwa [hvalue', hdiv, hmod, eq_comm] at hvalue
  · rintro ⟨hrows, hwidth, hpixel⟩
    refine ext_of_getElem? (hshape.trans (by rw [hshape', hrows, hwidth])) fun p hp => ?_
    have hp' : p < rows first * width first := by simpa [hshape] using hp
    have hwidth_pos : 0 < width first := Nat.pos_of_mul_pos_left (Nat.zero_lt_of_lt hp')
    have hrow : p / width first < rows first :=
      Nat.div_lt_of_lt_mul (Nat.mul_comm (rows first) _ ▸ hp')
    rw [hvalues p hp', hvalues' p (by rw [← hrows, ← hwidth]; exact hp'), ← hwidth]
    exact hpixel _ hrow _ (Nat.mod_lt p hwidth_pos)

/-! ## The right images -/

section Images

variable {α : Type*} {env : Environment} {scaling : Scaling α} {allowed : Set (Request α)}

theorem filename_eq_iff {array array' : NdArray UInt8} {imageType imageType' : ImageType} :
    filename env array imageType = filename env array' imageType' ↔
      array.values = array'.values ∧ imageType.format = imageType'.format := by
  have hlength : imageType.extension.length = imageType'.extension.length := by
    cases imageType <;> cases imageType' <;> rfl
  have hextension : imageType.extension = imageType'.extension ↔
      imageType.format = imageType'.format := by
    cases imageType <;> cases imageType' <;> decide
  rw [← hextension]
  constructor
  · intro h
    obtain ⟨hdigest, hext⟩ := List.append_inj' h hlength
    exact ⟨env.hexdigest_injective hdigest, hext⟩
  · rintro ⟨hvalues, hext⟩
    rw [filename, filename, hvalues, hext]

/-- Two requests with the same elements and the same format show the same picture. -/
def Compatible (scaling : Scaling α) (allowed : Set (Request α)) : Prop :=
  ∀ first ∈ allowed, ∀ second ∈ allowed, ∀ array array' : NdArray UInt8,
    scaling.scale first.array = some array → scaling.scale second.array = some array' →
    array.values = array'.values → first.imageType.format = second.imageType.format →
    SamePicture array array'

theorem removeFiles_subset (total : ℕ) (files paths : List CachedFile) :
    removeFiles total files paths ⊆ files := by
  induction paths generalizing total files with
  | nil => exact List.Subset.refl files
  | cons path paths ih =>
      rw [removeFiles]
      split_ifs
      · exact List.filter_sublist.subset
      · exact List.Subset.trans (ih _ _) List.filter_sublist.subset

theorem evict_subset (files : List CachedFile) : evict env files ⊆ files := by
  unfold evict
  split_ifs
  · exact removeFiles_subset _ _ _
  · exact List.Subset.refl files

theorem render_eq {request : Request α} {array : NdArray UInt8}
    (h : scaling.scale request.array = some array) :
    render env scaling request = (raster array).bind (env.draw request.imageType.format) := by
  rw [render, h]
  rfl

/-- The scaled array has as many dimensions as the array of the request. -/
theorem dimensions_of_scale {request : Request α} {array : NdArray UInt8}
    (h : scaling.scale request.array = some array) :
    array.shape.length = 2 ∨ array.shape.length = 3 := by
  rw [scaling.shape_eq _ _ h]
  exact request.dimensions

/-- The key of a request: the name of its file, if its array can be scaled. -/
def cacheKey (env : Environment) (scaling : Scaling α) (request : Request α) :
    Option (List Char) :=
  (scaling.scale request.array).map fun array => filename env array request.imageType

/-- What the cache directory holds under a key. -/
def Kept (files : List CachedFile) (key : Option (List Char)) (content : Bytes) : Prop :=
  ∃ file ∈ files, some file.name = key ∧ file.content = content

/-- A call is a step of a server that keeps images. -/
theorem arrayToImage_step (files : List CachedFile) (request : Request α) :
    Memo.Step (cacheKey env scaling) (render env scaling) (Kept files)
      (Kept (arrayToImage env scaling files request).1) request
      (arrayToImage env scaling files request).2 := by
  unfold arrayToImage
  cases harray : scaling.scale request.array with
  | none =>
      refine ⟨.inl ?_, fun _ _ => .inl⟩
      rw [render, harray]
      rfl
  | some array =>
      have hkey : cacheKey env scaling request = some (filename env array request.imageType) := by
        rw [cacheKey, harray]
        rfl
      cases hfind : files.find? (·.name = filename env array request.imageType) with
      | some file =>
          have hname : file.name = filename env array request.imageType := by
            simpa using List.find?_some hfind
          simp only [hfind]
          refine ⟨.inr ⟨file.content, ⟨file, List.mem_of_find?_eq_some hfind, ?_, rfl⟩, rfl⟩,
            fun _ _ => .inl⟩
          rw [hname, hkey]
      | none =>
          simp only [hfind]
          cases hdraw : (raster array).bind (env.draw request.imageType.format) with
          | none => exact ⟨.inl ((render_eq harray).trans hdraw).symm, fun _ _ => .inl⟩
          | some content =>
              have hrender : render env scaling request = some content :=
                (render_eq harray).trans hdraw
              refine ⟨.inl hrender.symm, ?_⟩
              rintro _ _ ⟨file, hfile, rfl, rfl⟩
              rcases List.mem_cons.mp hfile with rfl | hold
              · exact .inr ⟨hkey, hrender⟩
              · exact .inl ⟨file, evict_subset files (List.mem_of_mem_filter hold), rfl, rfl⟩

theorem images_run (files : List CachedFile) (requests : List (Request α)) :
    Memo.Run (cacheKey env scaling) (render env scaling) (Kept files) requests
      (images env scaling files requests) := by
  induction requests generalizing files with
  | nil => exact .nil
  | cons request requests ih => exact .cons (arrayToImage_step files request) (ih _)

/-- Requests with one key show one picture, so that they have one image. -/
theorem Compatible.determined (h : Compatible scaling allowed) :
    Memo.Determined (cacheKey env scaling) (render env scaling) allowed := by
  intro first hfirst second hsecond hkey
  unfold cacheKey at hkey
  cases harray : scaling.scale first.array with
  | none =>
      rw [harray, Option.map_none, eq_comm, Option.map_eq_none_iff] at hkey
      rw [render, render, harray, hkey]
      rfl
  | some array =>
      rw [harray, Option.map_some, eq_comm, Option.map_eq_some_iff] at hkey
      obtain ⟨array', harray', hname⟩ := hkey
      obtain ⟨hvalues, hformat⟩ := filename_eq_iff.mp hname.symm
      have hraster : raster array = raster array' :=
        (raster_eq_iff (dimensions_of_scale harray) (dimensions_of_scale harray')).mpr
          (h first hfirst second hsecond _ _ harray harray' hvalues hformat)
      rw [render_eq harray, render_eq harray', hraster, hformat]

/-- An environment that hashes nothing and lists the files as they are. -/
def plain (draw : Format → NdArray UInt8 → Option Bytes) : Environment where
  hexdigest := CompactJson.asText
  hexdigest_injective := List.map_injective_iff.mpr fun _ _ => CompactJson.char_inj.mp
  draw := draw
  iterdir := id
  iterdir_perm := List.Perm.refl

/-- The second of two calls with the same elements and format returns the image of the first. -/
theorem images_pair {first second : Request α} {array array' image : NdArray UInt8}
    {content : Bytes} (hfirst : scaling.scale first.array = some array)
    (hsecond : scaling.scale second.array = some array') (hvalues : array.values = array'.values)
    (hformat : first.imageType.format = second.imageType.format)
    (himage : raster array = some image)
    (hdraw : env.draw first.imageType.format image = some content) :
    images env scaling [] [first, second] = [some content, some content] := by
  have hname : filename env array first.imageType = filename env array' second.imageType :=
    filename_eq_iff.mpr ⟨hvalues, hformat⟩
  have hcall : arrayToImage env scaling [] first =
      ([⟨filename env array first.imageType, content, first.time⟩], some content) := by
    simp only [arrayToImage, hfirst, List.find?_nil, himage, Option.bind_some, hdraw]
    rfl
  have hhit : (arrayToImage env scaling
      [⟨filename env array first.imageType, content, first.time⟩] second).2 = some content := by
    simp [arrayToImage, hsecond, hname]
  rw [images, hcall, images, hhit, images]

/-- **Cached images.** -/
theorem cached_images_iff (scaling : Scaling α) (allowed : Set (Request α)) :
    (∀ (env : Environment) (requests : List (Request α)),
      (∀ request ∈ requests, request ∈ allowed) →
        images env scaling [] requests = requests.map (render env scaling)) ↔
      Compatible scaling allowed := by
  constructor
  · intro himages first hfirst second hsecond array array' harray harray' hvalues hformat
    obtain ⟨image, himage, -⟩ := raster_spec array (dimensions_of_scale harray)
    rw [← raster_eq_iff (dimensions_of_scale harray) (dimensions_of_scale harray')]
    by_contra hne
    -- the image of the first request is drawn unlike all others
    let env := plain fun _ drawn => some (if drawn = image then [] else [0])
    have hdraw : env.draw first.imageType.format image = some [] := congrArg some (if_pos rfl)
    have hpair := himages env [first, second] (by simp [hfirst, hsecond])
    rw [images_pair harray harray' hvalues hformat himage hdraw] at hpair
    obtain ⟨-, hrender⟩ :
        render env scaling first = some [] ∧ render env scaling second = some [] := by
      simpa using hpair.symm
    rw [render_eq harray'] at hrender
    obtain ⟨image', himage', hdraw'⟩ := Option.bind_eq_some_iff.mp hrender
    by_cases hsame : image' = image
    · exact hne (himage.trans (hsame ▸ himage'.symm))
    · have hother : env.draw second.imageType.format image' = some [0] :=
        congrArg some (if_neg hsame)
      rw [hother] at hdraw'
      cases hdraw'
  · intro hcompatible env requests hrequests
    exact (images_run [] requests).eq_map hcompatible.determined hrequests (.empty (by simp [Kept]))

end Images

/-- `astype('u1')` of a value, which keeps the low eight bits of its integer part. -/
def toUInt8 (value : ℚ) : UInt8 := UInt8.ofInt value.floor

/-- The scaling of integers in exact arithmetic. -/
def exactScaling : Scaling ℤ where
  scale array := (scale array).toOption.map (NdArray.map toUInt8)
  shape_eq := by
    intro array scaled h
    cases hscale : scale array with
    | error error =>
        rw [hscale] at h
        cases h
    | ok exact =>
        rw [hscale] at h
        cases h
        exact shape_of_scale hscale

def rowRequest : Request ℤ := ⟨⟨[1, 2], [0, 255], rfl⟩, .inl rfl, .png, 0⟩

def columnRequest : Request ℤ := ⟨⟨[2, 1], [0, 255], rfl⟩, .inl rfl, .png, 1⟩

/-- A column is shown as the row with the same elements. -/
theorem row_for_column :
    images (plain fun _ image => some (image.shape.map UInt8.ofNat ++ image.values)) exactScaling []
        [rowRequest, columnRequest] = [some [1, 2, 0, 255], some [1, 2, 0, 255]] ∧
      render (plain fun _ image => some (image.shape.map UInt8.ofNat ++ image.values)) exactScaling
        columnRequest = some [2, 1, 0, 255] := by
  decide +kernel

end ComputeWebApp.Api.ImageCache
