import ComputeWebApp.Upload.OrderIndependence

/-!
# The layout of a body

A body is cut into one part for each listed group, a part into two halves of images, an image into
rows and a row into items.  Each of these cuts takes pieces of one size one after the other
(`flatten_chunks`), so that nothing of the body is lost and nothing is stored twice: writing the
stored images one after the other gives back the body (`slice_layout`).
-/

namespace ComputeWebApp.Api

open ByteStream

/-! ## Pieces of one size -/

/-- The first `count` pieces of a list. -/
def chunks {α : Type} (list : List α) (size count : ℕ) : List (List α) :=
  (List.range count).map fun i => (list.drop (i * size)).take size

theorem flatten_chunks {α : Type} (list : List α) (size count : ℕ) :
    (chunks list size count).flatten = list.take (count * size) := by
  induction count with
  | zero => simp [chunks]
  | succ count ih =>
      have hlast : chunks list size (count + 1) =
          chunks list size count ++ [(list.drop (count * size)).take size] := by
        simp [chunks, List.range_succ]
      rw [hlast, List.flatten_append, List.flatten_singleton, ih, ← List.take_add, Nat.succ_mul]

/-! ## Encoding -/

/-- The bytes of the images of a dataset, one image after the other, each row by row. -/
def encodeImages (images : Images) : Bytes := images.flatMap fun image => image.flatten.flatten

/-- The bytes of a group: the magnitudes and then the phases. -/
def encodeGroup (group : Group) : Bytes := encodeImages group.magnitude ++ encodeImages group.phase

theorem flatten_reshape_fromBuffer (part : Bytes) (itemsize height width : ℕ) :
    (reshape (fromBuffer part itemsize (height * width)) height width).flatten.flatten =
      part.take (height * width * itemsize) := by
  have hrows : (reshape (fromBuffer part itemsize (height * width)) height width).flatten =
      fromBuffer part itemsize (height * width) := by
    calc (reshape (fromBuffer part itemsize (height * width)) height width).flatten
        = (fromBuffer part itemsize (height * width)).take (height * width) :=
          flatten_chunks _ width height
      _ = fromBuffer part itemsize (height * width) := by
          rw [List.take_of_length_le]
          simp [fromBuffer]
  rw [hrows]
  exact flatten_chunks part itemsize (height * width)

/-- The images of one half of a part are that half. -/
theorem encodeImages_sliceArray {dtype : Dtype} {shape : Shape} (part : Bytes) {bodyPartSize : ℕ}
    (hsize : bodyPartSize = shape.height * shape.width * dtype.itemsize) (first : ℕ) :
    encodeImages (sliceArray dtype shape part bodyPartSize first) =
      (part.drop (first * bodyPartSize)).take (shape.echos * bodyPartSize) := by
  have himages : (sliceArray dtype shape part bodyPartSize first).map (fun image =>
      image.flatten.flatten) = chunks (part.drop (first * bodyPartSize)) bodyPartSize
        shape.echos := by
    rw [sliceArray, List.map_map]
    refine List.map_congr_left fun i _ => ?_
    rw [Function.comp_apply, flatten_reshape_fromBuffer, ← hsize, List.take_take, Nat.min_self,
      List.drop_drop, Nat.add_mul]
  rw [encodeImages, List.flatMap_def, himages, flatten_chunks]

/-- The images that are stored for a part of the right size encode the part. -/
theorem encodeGroup_storePart {data : Creation} (hechos : data.shape.echos ≠ 0) {part : Bytes}
    (hsize : part.length = data.bodySize) (group : Group) :
    encodeGroup (storePart data part group) = part := by
  have hpart : part.length / (2 * data.shape.echos) =
      data.shape.height * data.shape.width * data.dtype.itemsize :=
    bodyPartSize_eq hechos hsize
  have hhalf : data.shape.echos * (part.length / (2 * data.shape.echos)) * 2 = part.length := by
    rw [hpart, hsize, Creation.bodySize, expectedBodySize]
    ring
  rw [encodeGroup]
  simp only [storePart, encodeImages_sliceArray part hpart]
  rw [Nat.zero_mul, List.drop_zero, ← List.take_add, List.take_of_length_le (by omega)]

/-! ## The groups of a body -/

section Groups

variable {data : Creation} {s : DataState} {file : H5File}

/-- Item `position` of a part. -/
def itemAt (part : Bytes) (itemsize position : ℕ) : Bytes :=
  (part.drop (position * itemsize)).take itemsize

/-- Part `k` of a posted body. -/
def ValuePost.part (post : ValuePost) (k : ℕ) : Bytes :=
  (post.body.drop (k * post.bodyPartSize)).take post.bodyPartSize

/-- A group that is listed once holds what its part stores. -/
theorem findGroup_bodyEffect (hfit : Fits data file) {post : ValuePost}
    (hnodup : post.groupIds.Nodup) {k i : ℕ} (hk : post.groupIds[k]? = some i)
    (hi : i < data.slices) :
    ∃ group, (file.mapGroups (bodyEffect data post.parts)).findGroup (groupName i) =
      some (storePart data (post.part k) group) := by
  obtain ⟨group, hgroup, -⟩ := hfit.findGroup_of_lt hi
  refine ⟨group, ?_⟩
  rw [H5File.findGroup_mapGroups, hgroup, Option.map_some, bodyEffect_of_last (getElem?_parts hk)]
  · rfl
  · intro l hl part hpart
    rw [ValuePost.parts, bodyParts, List.getElem?_zip_eq_some] at hpart
    have hlt := (List.getElem?_eq_some_iff.mp hk).1
    have hkl := (List.getElem?_inj hlt hnodup).mp (hk.trans hpart.1.symm)
    omega

theorem flatten_parts (post : ValuePost) :
    (post.parts.map Prod.snd).flatten = post.body.take (post.groupIds.length * post.bodyPartSize) := by
  have hparts : post.parts.map Prod.snd = chunks post.body post.bodyPartSize post.groupIds.length :=
    List.map_snd_zip (by simp)
  rw [hparts, flatten_chunks]

/-- The groups of a file in the listed order, encoded. -/
def encodeListed (file : H5File) (groupIds : List ℕ) : Bytes :=
  groupIds.flatMap fun i => ((file.findGroup (groupName i)).map encodeGroup).getD []

theorem encodeListed_bodyEffect (hfit : Fits data file) (hechos : data.shape.echos ≠ 0)
    {post : ValuePost} (hvalid : post.Valid data) (hnodup : post.groupIds.Nodup) :
    encodeListed (file.mapGroups (bodyEffect data post.parts)) post.groupIds = post.body := by
  have hids : post.groupIds = post.parts.map Prod.fst := (List.map_fst_zip (by simp)).symm
  have hgroup : ∀ part ∈ post.parts,
      (((file.mapGroups (bodyEffect data post.parts)).findGroup (groupName part.1)).map
        encodeGroup).getD [] = part.2 := by
    intro part hmem
    obtain ⟨k, hk⟩ := List.mem_iff_getElem?.mp hmem
    have hi : post.groupIds[k]? = some part.1 := by
      rw [hids, List.getElem?_map, hk]
      rfl
    have hpart : part.2 = post.part k :=
      congrArg Prod.snd (Option.some.inj (hk.symm.trans (getElem?_parts hi)))
    obtain ⟨group, hfind⟩ := findGroup_bodyEffect hfit hnodup hi
      (hvalid.groups _ (ValuePost.mem_parts hmem).1)
    have hsize := (ValuePost.mem_parts hmem).2.trans hvalid.bodyPartSize
    rw [hfind, Option.map_some, Option.getD_some, ← hpart, encodeGroup_storePart hechos hsize]
  calc encodeListed (file.mapGroups (bodyEffect data post.parts)) post.groupIds
      = (post.parts.map fun part =>
          (((file.mapGroups (bodyEffect data post.parts)).findGroup (groupName part.1)).map
            encodeGroup).getD []).flatten := by
        rw [encodeListed, List.flatMap_def, hids, List.map_map]
        rfl
    _ = (post.parts.map Prod.snd).flatten := by rw [List.map_congr_left hgroup]
    _ = post.body := by
        rw [flatten_parts, hvalid.bodyPartSize, ← hvalid.size, List.take_length]

/-- **The layout of a body.**  `write_bodies_to_file` stores item
`e * height * width + r * width + c` of a part as element `(r, c, e)` of the magnitudes of its
group, and the item `echos` images further as that of the phases.  No other group changes, and the
stored groups encode the body. -/
theorem slice_layout (hfit : Fits data file) (hfile : s.h5 = some file) (hopen : s.isOpen = true)
    (hechos : 1 ≤ data.shape.echos) (post : ValuePost) (hnodup : post.groupIds.Nodup)
    (hgroups : ∀ i ∈ post.groupIds, i < data.slices)
    (hsize : post.body.length = post.groupIds.length * data.height * data.width *
      data.shape.echos * data.dtype.itemsize * 2) :
    ∃ t file', writeBodiesToFile (bodyParts post.groupIds post.body) s = .ok () t ∧
      t.h5 = some file' ∧
      (∀ k i, post.groupIds[k]? = some i → ∃ group, file'.findGroup (groupName i) = some group ∧
        ∀ r < data.height, ∀ c < data.width, ∀ e < data.shape.echos,
          element group.magnitude r c e = some (itemAt (post.part k) data.dtype.itemsize
            (e * data.height * data.width + r * data.width + c)) ∧
          element group.phase r c e = some (itemAt (post.part k) data.dtype.itemsize
            ((data.shape.echos + e) * data.height * data.width + r * data.width + c))) ∧
      (∀ name, (∀ i ∈ post.groupIds, name ≠ groupName i) →
        file'.findGroup name = file.findGroup name) ∧
      (∀ i j, groupName i = groupName j → i = j) ∧
      encodeListed file' post.groupIds = post.body := by
  have hvalid : post.Valid data := by
    refine ⟨hgroups, hsize.trans ?_⟩
    rw [Creation.bodySize, expectedBodySize]
    simp only [Creation.shape]
    ring
  have hne : data.shape.echos ≠ 0 := by omega
  have hparts : ∀ part ∈ post.parts, part.1 < data.slices ∧ part.2.length = data.bodySize :=
    fun part hmem => ⟨hgroups _ (ValuePost.mem_parts hmem).1,
      (ValuePost.mem_parts hmem).2.trans hvalid.bodyPartSize⟩
  refine ⟨s.storeBodies data post.parts, file.mapGroups (bodyEffect data post.parts),
    writeBodiesToFile_eq hfit hfile hopen hne hparts,
    DataState.h5_storeBodies data hfile post.parts, ?_, ?_, fun i j => groupName_injective,
    encodeListed_bodyEffect hfit hne hvalid hnodup⟩
  · intro k i hk
    obtain ⟨group, hfind⟩ := findGroup_bodyEffect hfit hnodup hk
      (hgroups i (List.mem_of_getElem? hk))
    have hpart : (post.part k).length = data.bodySize :=
      (ValuePost.mem_parts (List.mem_of_getElem? (getElem?_parts hk))).2.trans hvalid.bodyPartSize
    have hdecoded := decoded_storePart hne hpart group
    refine ⟨_, hfind, fun r hr c hc e he => ⟨?_, ?_⟩⟩
    · rw [hdecoded.magnitude r hr c hc e he, itemAt, ← Nat.add_mul]
    · rw [hdecoded.phase r hr c hc e he, itemAt, ← Nat.add_mul]
  · intro name hname
    rw [H5File.findGroup_mapGroups]
    have hother : ∀ group, bodyEffect data post.parts name group = group := fun group =>
      bodyEffect_of_not_mem (fun part hmem => hname _ (ValuePost.mem_parts hmem).1) group
    cases file.findGroup name with
    | none => rfl
    | some group => rw [Option.map_some, hother]

end Groups

/-- The file of the two slices, as it is created. -/
def twoSlicesFile : H5File where
  groups := [(groupName 0, twoSlices.group), (groupName 1, twoSlices.group)]

theorem fits_twoSlices : Fits twoSlices twoSlicesFile where
  names := by decide
  dtype := by decide
  shape := by decide
  datasets := by decide

theorem slice_layout_two_slices :
    ∃ t file', writeBodiesToFile (bodyParts [1, 0] [1, 2, 3, 4, 5, 6, 7, 8])
        { h5 := some twoSlicesFile, isOpen := true } = .ok () t ∧ t.h5 = some file' ∧
      encodeListed file' [1, 0] = [1, 2, 3, 4, 5, 6, 7, 8] := by
  obtain ⟨t, file', hwrite, hfile, -, -, -, hencoded⟩ :=
    slice_layout fits_twoSlices (s := { h5 := some twoSlicesFile, isOpen := true }) rfl rfl
      (by decide) ⟨[1, 0], [1, 2, 3, 4, 5, 6, 7, 8], List.cons_ne_nil 1 [0]⟩ (by decide) (by decide)
      (by decide)
  exact ⟨t, file', hwrite, hfile, hencoded⟩

end ComputeWebApp.Api
