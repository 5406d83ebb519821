import ComputeWebApp.Upload.Completion

/-!
# What the worker gives back

The lock of the marker, the marker itself and the file object of `open_files` are taken and given
back in different functions of the worker, and its `except` branch gives nothing back.  `Released`
is what has to hold between two items: the lock is free, and a file object that `open_files` has
is open.

Two items leave it: a body of a data whose marker is gone, and a body of the wrong size for a file
that is kept open (`Releases`).  `released_item` is the step lemma.
-/

namespace ComputeWebApp.Api

open ByteStream Transition

/-! ## Functions that keep a property -/

section Keeps

variable {α β : Type} {I : DataState → Prop} {m : WorkerM α} {f : α → WorkerM β}

/-- From a state with the property the function ends, early or not, in one with the property. -/
def Keeps (I : DataState → Prop) (m : WorkerM α) : Prop :=
  ∀ s, I s → stopOf (m s) ≠ some .spins ∧ I (stateOf (m s))

theorem Keeps.bind (hm : Keeps I m) (hf : ∀ a, Keeps I (f a)) : Keeps I (m >>= f) := by
  intro s hs
  have hI := hm s hs
  cases hrun : m s with
  | ok a t =>
      rw [bind_ok hrun]
      rw [hrun] at hI
      exact hf a t hI.2
  | error stop t =>
      rw [bind_error hrun]
      rwa [hrun] at hI

theorem ReadsOnly.keeps (hm : ReadsOnly m) : Keeps I m := by
  intro s hs
  rw [(hm s).2]
  exact ⟨(hm s).1, hs⟩

theorem keeps_get_bind {f : DataState → WorkerM β} (hf : ∀ s, I s → Keeps I (f s)) :
    Keeps I (get >>= f) := by
  intro s hs
  rw [get_bind_apply]
  exact hf s hs s hs

theorem keeps_modify {change : DataState → DataState} (hchange : ∀ s, I s → I (change s)) :
    Keeps I (modify change) :=
  fun s hs => ⟨by simp [stopOf], hchange s hs⟩

theorem keeps_writeFile {change : H5File → H5File} (hchange : ∀ s, I s → I (s.write change)) :
    Keeps I (writeFile change) :=
  readsOnly_openFile.keeps.bind fun _ => keeps_modify hchange

theorem keeps_forM {entries : List α} {write : α → WorkerM Unit}
    (hwrite : ∀ entry ∈ entries, Keeps I (write entry)) : Keeps I (forM entries write) := by
  induction entries with
  | nil => exact (readsOnly_pure ()).keeps
  | cons entry rest ih =>
      rw [List.forM_cons]
      exact (hwrite entry List.mem_cons_self).bind fun _ =>
        ih fun other hmem => hwrite other (List.mem_cons_of_mem _ hmem)

end Keeps

/-! ## Between two items -/

/-- The attributes of the file that the worker evaluates. -/
def flagNames : List String := ["cwa_stored", "cwa_uploaded"]

/-- The file has the groups of the data, and its flags have truth values, unless posted attributes
have their names. -/
structure Sound (data : Creation) (file : H5File) : Prop where
  fits : Fits data file
  truth : (∀ name ∈ flagNames, data.Avoids name) →
    ∀ name ∈ flagNames, (file.truthOf name).isSome = true

/-- **What the worker has given back.**  The marker is as it was, the lock is free, and a file
object that `open_files` has is open. -/
structure Released (data : Creation) (keepFilesOpen marker : Bool) (s : DataState) : Prop where
  marker : s.marker = marker
  free : s.locked = false
  handle : s.cached = true → keepFilesOpen = true ∧ s.isOpen = true
  file : ∃ file, s.h5 = some file ∧ Sound data file

section Writes

variable {data : Creation} {keepFilesOpen marker : Bool} {s : DataState} {file : H5File}

theorem Sound.setAttr (h : Sound data file) {name : String} {value : AttrValue}
    (hvalue : name ∈ flagNames → value.truthy.isSome = true) :
    Sound data (file.setAttr name value) where
  fits := h.fits.setAttr name value
  truth := by
    intro havoids other hother
    by_cases hname : other = name
    · subst hname
      simpa [H5File.truthOf] using hvalue hother
    · simpa [H5File.truthOf, Function.update_of_ne hname] using h.truth havoids other hother

theorem Sound.updateGroup (h : Sound data file) {name : String} {change : Group → Group}
    (hsame : ∀ group, (change group).SameLayout group) :
    Sound data (file.updateGroup name change) where
  fits := h.fits.updateGroup hsame
  truth := h.truth

theorem Released.write (h : Released data keepFilesOpen marker s) {change : H5File → H5File}
    (hchange : ∀ file, Sound data file → Sound data (change file)) :
    Released data keepFilesOpen marker (s.write change) := by
  obtain ⟨file, hfile, hsound⟩ := h.file
  refine ⟨?_, ?_, ?_, change file, ?_, hchange file hsound⟩
  · rw [DataState.marker_write, h.marker]
  · rw [DataState.locked_write, h.free]
  · rw [DataState.cached_write, DataState.isOpen_write]
    exact h.handle
  · rw [DataState.h5_write, hfile]
    rfl

theorem Released.usable (h : Released data keepFilesOpen marker s) : Usable keepFilesOpen s :=
  fun _ hcached => (h.handle hcached).2

theorem Released.opened (h : Released data keepFilesOpen marker s) :
    Released data keepFilesOpen marker (s.opened keepFilesOpen) := by
  rw [opened_eq h.handle]
  exact ⟨h.marker, h.free, fun hcached => ⟨hcached, rfl⟩, h.file⟩

theorem keeps_setAttr {name : String} {value : AttrValue}
    (hvalue : name ∈ flagNames → value.truthy.isSome = true) :
    Keeps (Released data keepFilesOpen marker) (setAttr name value) :=
  keeps_writeFile fun _ hs => hs.write fun _ hfile => hfile.setAttr hvalue

theorem keeps_writeGroup {groupId : ℕ} {change : Group → Group}
    (hsame : ∀ group, (change group).SameLayout group) :
    Keeps (Released data keepFilesOpen marker) (writeGroup groupId change) :=
  keeps_writeFile fun _ hs => hs.write fun _ hfile => hfile.updateGroup hsame

theorem keeps_now : Keeps (Released data keepFilesOpen marker) now :=
  fun _ hs => ⟨by simp [stopOf], hs.marker, hs.free, hs.handle, hs.file⟩

/-- A part that has the size of a body for one group does not close the file. -/
theorem keeps_writeBodyToFileGroup {part : Bytes} (hsize : part.length = data.bodySize)
    (groupId : ℕ) :
    Keeps (Released data keepFilesOpen marker) (writeBodyToFileGroup part groupId) := by
  refine keeps_get_bind fun s hs => ?_
  obtain ⟨file, hfile, hsound⟩ := hs.file
  cases hgroup : if s.isOpen = true then s.h5.bind fun file => file.findGroup (groupName groupId)
      else none with
  | none => exact (readsOnly_raise _).keeps
  | some group =>
      have hfind : file.findGroup (groupName groupId) = some group := by
        split at hgroup
        · simpa [hfile] using hgroup
        · cases hgroup
      have hmem := H5File.mem_of_findGroup hfind
      have hright : part.length = expectedBodySize group.dtype group.shape := by
        rw [hsize, hsound.fits.dtype _ hmem, hsound.fits.shape _ hmem]
        rfl
      dsimp only
      rw [hsound.fits.datasets_of_findGroup hfind, if_neg (by decide),
        if_neg (not_not.mpr hright)]
      split
      · exact (readsOnly_raise _).keeps
      · refine Keeps.bind (keeps_writeGroup ?_) fun _ => Keeps.bind (keeps_writeGroup ?_)
          fun _ => Keeps.bind (keeps_writeGroup ?_) fun _ => keeps_writeGroup ?_
        all_goals exact fun _ => ⟨rfl, rfl, rfl⟩

theorem keeps_recordStored : Keeps (Released data keepFilesOpen marker) recordStored := by
  refine readsOnly_openFile.keeps.bind fun file => ?_
  refine (readsOnly_percent _).keeps.bind fun storeProgress => ?_
  refine (keeps_setAttr fun _ => rfl).bind fun _ => ?_
  refine (keeps_setAttr fun hflag => absurd hflag (by decide)).bind fun _ => ?_
  split
  · exact keeps_now.bind fun time => (keeps_setAttr fun _ => rfl).bind fun _ =>
      keeps_setAttr fun _ => rfl
  · exact (readsOnly_pure ()).keeps

theorem keeps_recordUploaded : Keeps (Released data keepFilesOpen marker) recordUploaded := by
  refine readsOnly_openFile.keeps.bind fun file => ?_
  refine (readsOnly_percent _).keeps.bind fun uploadProgress => ?_
  refine (keeps_setAttr fun _ => rfl).bind fun _ => ?_
  refine (keeps_setAttr fun hflag => absurd hflag (by decide)).bind fun _ => ?_
  split
  · refine (readsOnly_truth _).keeps.bind fun uploaded => ?_
    cases uploaded with
    | true => exact (readsOnly_pure ()).keeps
    | false =>
        exact keeps_now.bind fun time => (keeps_setAttr fun _ => rfl).bind fun _ =>
          keeps_setAttr fun _ => rfl
  · exact (readsOnly_pure ()).keeps

/-- A body of the right size, whether its groups exist or not. -/
theorem keeps_writeBodyItemToFile {post : ValuePost} (hsize : post.bodyPartSize = data.bodySize) :
    Keeps (Released data keepFilesOpen marker) (writeBodyItemToFile post.groupIds post.body) := by
  rw [writeBodyItemToFile_eq_bind post.nonempty]
  refine (keeps_forM fun part hpart => ?_).bind fun _ => keeps_recordStored
  exact keeps_writeBodyToFileGroup ((ValuePost.mem_parts hpart).2.trans hsize) part.1

theorem keeps_writeAttributesItemToFile (entries : List AttributeEntry) :
    Keeps (Released data keepFilesOpen marker) (writeAttributesItemToFile entries) := by
  rw [writeAttributesItemToFile_eq_bind]
  refine (keeps_forM fun entry _ => ?_).bind fun _ => keeps_recordUploaded
  refine readsOnly_openFile.keeps.bind fun file => ?_
  split
  · exact (readsOnly_raise _).keeps
  · exact keeps_writeFile fun s hs => hs.write fun other hother =>
      hother.updateGroup fun group => setAttribute_sameLayout group entry.assigned

end Writes

/-! ## The end of an item -/

section Finish

variable {data : Creation} {keepFilesOpen marker : Bool} {s : DataState} {file : H5File}

/-- The file object is closed when `open_files` does not have it. -/
theorem Released.closed (h : Released data keepFilesOpen marker s) :
    Released data keepFilesOpen marker { s with cached := false, isOpen := false } :=
  ⟨h.marker, h.free, fun hcached => absurd hcached Bool.false_ne_true, h.file⟩

/-- Files that are not kept open are never in `open_files`. -/
theorem Released.not_cached (h : Released data false marker s) : s.cached = false := by
  cases hcached : s.cached with
  | false => rfl
  | true => exact absurd (h.handle hcached).1 Bool.false_ne_true

theorem Released.close (h : Released data false marker s) :
    Released data false marker { s with isOpen := false } :=
  ⟨h.marker, h.free, fun hcached => absurd (h.not_cached.symm.trans hcached) Bool.false_ne_true,
    h.file⟩

theorem keeps_finishItem :
    Keeps (Released data keepFilesOpen marker) (finishItem keepFilesOpen) := by
  refine readsOnly_openFile.keeps.bind fun _ => ?_
  cases keepFilesOpen with
  | false => exact keeps_modify fun s hs => hs.close
  | true =>
      refine (readsOnly_truth _).keeps.bind fun stored => ?_
      cases stored with
      | false => exact (readsOnly_pure ()).keeps
      | true =>
          refine (readsOnly_truth _).keeps.bind fun uploaded => ?_
          cases uploaded with
          | false => exact (readsOnly_pure ()).keeps
          | true => exact fun s hs => ⟨by simp [stopOf, bind, EStateM.bind, closeFile], hs.closed⟩

/-- With the marker there, the lock is given back. -/
theorem Released.finishBody (h : Released data keepFilesOpen true s) :
    stopOf (finishBody keepFilesOpen s) ≠ some .spins ∧
      ∃ marker, Released data keepFilesOpen marker (stateOf (finishBody keepFilesOpen s)) := by
  have htruth := readsOnly_truth "cwa_stored" s
  unfold Api.finishBody
  cases hrun : truth "cwa_stored" s with
  | error stop t =>
      rw [hrun] at htruth
      rw [bind_error hrun]
      obtain rfl : t = s := htruth.2
      exact ⟨htruth.1, true, h⟩
  | ok stored t =>
      rw [hrun] at htruth
      obtain rfl : t = s := htruth.2
      rw [bind_ok hrun]
      cases stored with
      | false =>
          have hfinish := keeps_finishItem _ h
          exact ⟨hfinish.1, true, hfinish.2⟩
      | true =>
          have hremoved : Released data keepFilesOpen false
              { t with locked := false, marker := false } := ⟨rfl, rfl, h.handle, h.file⟩
          have hmarker : removeMarker { t with locked := true } = _ := removeMarker_eq h.marker
          have hfinish := keeps_finishItem _ hremoved
          rw [if_pos rfl, bind_ok (lockFile_eq h.free), bind_ok hmarker]
          exact ⟨hfinish.1, false, hfinish.2⟩

end Finish

/-! ## Items -/

section Items

variable {data : Creation} {keepFilesOpen marker : Bool} {s : DataState} {file : H5File}

/-- **What gives everything back.**  A body closes a file that is kept open when it has the wrong
size for its first group, and it asks for the marker when it fits all its groups. -/
def Releases (data : Creation) (keepFilesOpen : Bool) (s : DataState) : PostedItem → Prop
  | .attributes _ => True
  | .body post =>
      (keepFilesOpen = true → data.slices ≤ post.groupIds.head post.nonempty ∨
        post.bodyPartSize = data.bodySize) ∧
      ((∀ i ∈ post.groupIds, i < data.slices) → post.bodyPartSize = data.bodySize →
        data.shape.echos ≠ 0 → s.marker = true)

instance (data : Creation) (keepFilesOpen : Bool) (s : DataState) :
    (item : PostedItem) → Decidable (Releases data keepFilesOpen s item)
  | .attributes _ => inferInstanceAs (Decidable True)
  | .body _ => inferInstanceAs (Decidable ((_ → _ ∨ _) ∧ (_ → _ → _ → _)))

/-- A body whose first group is missing is not written. -/
theorem writeBodyItemToFile_missing (hfit : Fits data file) (hfile : s.h5 = some file)
    (post : ValuePost) (hmissing : data.slices ≤ post.groupIds.head post.nonempty) :
    writeBodyItemToFile post.groupIds post.body s = .error (.raised .groupNotFound) s := by
  obtain ⟨part, rest, hparts, hpart⟩ : ∃ part rest,
      bodyParts post.groupIds post.body = part :: rest ∧
        part.1 = post.groupIds.head post.nonempty := by
    obtain ⟨i, ids, hids⟩ := List.exists_cons_of_ne_nil post.nonempty
    simp [bodyParts, hids, List.range_succ_eq_map]
  have hraise : writeBodyToFileGroup part.2 part.1 s = .error (.raised .groupNotFound) s := by
    rw [writeBodyToFileGroup, get_bind_apply, hpart]
    simp [hfile, hfit.findGroup_of_le hmissing]
  rw [writeBodyItemToFile_eq_bind post.nonempty, hparts, writeBodiesToFile, List.forM_cons]
  exact bind_error (bind_error hraise)

/-- The parts of a body that is written to its end fit their groups. -/
theorem fits_of_returns (hfit : Fits data file) (hfile : s.h5 = some file) (hopen : s.isOpen = true)
    {post : ValuePost} (h : Returns (writeBodyItemToFile post.groupIds post.body) s) :
    (∀ i ∈ post.groupIds, i < data.slices) ∧ data.shape.echos ≠ 0 := by
  have hparts : ∀ part ∈ bodyParts post.groupIds post.body, Storable file part := by
    by_contra hnot
    rw [writeBodyItemToFile_eq_bind post.nonempty] at h
    exact not_returns_of_not_storable hfile hopen (by simpa using hnot) h
  have hpart : ∀ i ∈ post.groupIds, i < data.slices ∧ data.shape.echos ≠ 0 := by
    intro i hi
    rw [← map_fst_bodyParts post.groupIds post.body] at hi
    obtain ⟨part, hpart, rfl⟩ := List.mem_map.mp hi
    obtain ⟨group, hgroup, -, -, hechos⟩ := hparts part hpart
    obtain ⟨j, hj, hname⟩ :=
      (hfit.isSome_findGroup _).mp (Option.isSome_iff_exists.mpr ⟨group, hgroup⟩)
    rw [hfit.shape _ (H5File.mem_of_findGroup hgroup)] at hechos
    exact ⟨groupName_injective hname ▸ hj, hechos⟩
  obtain ⟨i, hi⟩ := List.exists_mem_of_ne_nil _ post.nonempty
  exact ⟨fun i hi => (hpart i hi).1, (hpart i hi).2⟩

/-- **Item step.**  The worker ends an item that gives everything back, and has then given back
what it took. -/
theorem released_item (h : Released data keepFilesOpen marker s) {item : PostedItem}
    (hitem : Releases data keepFilesOpen s item) :
    stopOf (handleItem keepFilesOpen item.item s) ≠ some .spins ∧
      ∃ marker', Released data keepFilesOpen marker'
        (stateOf (handleItem keepFilesOpen item.item s)) := by
  obtain ⟨file, hfile, hsound⟩ := h.file
  have hopened : (s.opened keepFilesOpen).h5 = some file := (sameFile_opened s).h5.trans hfile
  cases item with
  | attributes post =>
      rw [PostedItem.item, handleItem_attributes hfile]
      have hwrites : Keeps (Released data keepFilesOpen marker)
          (writeAttributesItemToFile post.entries >>= fun _ => finishItem keepFilesOpen) :=
        (keeps_writeAttributesItemToFile post.entries).bind fun _ => keeps_finishItem
      have hafter := hwrites _ h.opened
      exact ⟨hafter.1, marker, hafter.2⟩
  | body post =>
      obtain ⟨hopen, hmarker⟩ := hitem
      rw [PostedItem.item, handleItem_body hfile]
      by_cases hsize : post.bodyPartSize = data.bodySize
      · have hafter := keeps_writeBodyItemToFile hsize _ h.opened
        cases hrun : writeBodyItemToFile post.groupIds post.body (s.opened keepFilesOpen) with
        | error stop t =>
            rw [hrun] at hafter
            rw [bind_error hrun]
            exact ⟨hafter.1, marker, hafter.2⟩
        | ok _ t =>
            -- the body may be the last one, so that the marker is asked for
            obtain ⟨hgroups, hechos⟩ := fits_of_returns hsound.fits hopened h.usable.isOpen_opened
              (returns_of_ok hrun)
            rw [hrun] at hafter
            rw [bind_ok hrun]
            obtain rfl : true = marker := (hmarker hgroups hsize hechos).symm.trans h.marker
            exact hafter.2.finishBody
      · cases keepFilesOpen with
        | true =>
            have hrun := writeBodyItemToFile_missing hsound.fits hopened post
              ((hopen rfl).resolve_right hsize)
            rw [bind_error hrun]
            exact ⟨by simp [stopOf], marker, h.opened⟩
        | false =>
            -- the file is closed, and will be opened again
            obtain ⟨exception, t, hrun, rfl | ⟨-, rfl⟩⟩ := writeBodyItemToFile_fails hsound.fits
              hopened post (.inr (.inr (.inl hsize)))
            · rw [bind_error hrun]
              exact ⟨by simp [stopOf], marker, h.opened⟩
            · rw [bind_error hrun]
              exact ⟨by simp [stopOf], marker, h.opened.close⟩

/-- A valid item is handled to its end. -/
theorem returns_of_valid (h : Released data keepFilesOpen marker s)
    (hechos : data.shape.echos ≠ 0) (havoids : ∀ name ∈ flagNames, data.Avoids name)
    {item : PostedItem} (hitem : Releases data keepFilesOpen s item)
    (hvalid : item.post.Valid data) : Returns (handleItem keepFilesOpen item.item) s := by
  obtain ⟨file, hfile, hsound⟩ := h.file
  have htruth := hsound.truth havoids
  have hstored : (file.truthOf "cwa_stored").isSome = true := htruth _ (by simp [flagNames])
  have huploaded : (file.truthOf "cwa_uploaded").isSome = true := htruth _ (by simp [flagNames])
  rw [returns_handleItem_iff]
  cases item with
  | attributes post =>
      refine ⟨h.usable, file, hfile, ?_, hsound.fits.groups_ne_nil post hvalid.groups,
        fun _ => huploaded, fun _ => ⟨hstored, fun _ => huploaded⟩⟩
      intro entry hentry
      obtain ⟨i, hi, hname⟩ := ValuePost.mem_entries hentry
      exact (hsound.fits.isSome_findGroup _).mpr ⟨i, hvalid.groups i hi, hname⟩
  | body post =>
      have hafter : (file.storedAfter post.groupIds).isSome = true := by
        unfold H5File.storedAfter
        split
        · rfl
        · exact hstored
      refine ⟨h.usable, file, hfile, post.nonempty, ?_, hafter, fun _ => ?_,
        fun _ => ⟨hafter, fun _ => huploaded⟩⟩
      · intro part hpart
        obtain ⟨hi, hsize⟩ := ValuePost.mem_parts hpart
        obtain ⟨group, hgroup, hdtype, hshape⟩ :=
          hsound.fits.findGroup_of_lt (hvalid.groups part.1 hi)
        refine ⟨group, hgroup, hsound.fits.datasets_of_findGroup hgroup,
          hsize.trans (hvalid.bodyPartSize.trans ?_), hshape ▸ hechos⟩
        rw [hdtype, hshape]
        rfl
      · exact ⟨h.free, hitem.2 hvalid.groups hvalid.bodyPartSize hechos⟩

end Items

theorem Created.released {keepFilesOpen : Bool} (created : Created keepFilesOpen) :
    Released created.data keepFilesOpen true created.state where
  marker := by rw [created.state_eq.1]
  free := by rw [created.state_eq.1]
  handle := by
    rw [created.state_eq.1]
    exact fun hcached => ⟨hcached, hcached⟩
  file := by
    refine ⟨created.file, created.h5_eq, created.fits, fun havoids name hname => ?_⟩
    have hattr : created.file.attrs name = some (.bool false) := by
      refine created.attrs_file ?_ (havoids name hname)
      simp only [flagNames, List.mem_cons, List.not_mem_nil, or_false] at hname
      rcases hname with rfl | rfl <;> simp [Creation.ownAttributes]
    rw [H5File.truthOf, hattr]
    rfl

/-- **Lock and file objects.**  In every run whose items all give everything back, the lock is free
and every file object that `open_files` has is open, after each item; the worker ends the next
item, and if it is a valid one it is handled to its end. -/
theorem lock_and_handles_released {keepFilesOpen : Bool} (created : Created keepFilesOpen)
    {s : DataState}
    (hreach : Reachable (restrict (Releases created.data keepFilesOpen)
      fun s item => afterItem keepFilesOpen s item.item) created.state s) :
    s.locked = false ∧ (s.cached = true → s.isOpen = true) ∧
      ∀ item : PostedItem, Releases created.data keepFilesOpen s item →
        (afterItem keepFilesOpen s item.item).isSome = true ∧
          (created.data.shape.echos ≠ 0 → (∀ name ∈ flagNames, created.data.Avoids name) →
            item.post.Valid created.data → Returns (handleItem keepFilesOpen item.item) s) := by
  obtain ⟨marker, h⟩ := hreach.invariant
    (P := fun s => ∃ marker, Released created.data keepFilesOpen marker s)
    ⟨true, created.released⟩ fun s item t _ ⟨marker, h⟩ hstep => by
      obtain ⟨hitem, hstep⟩ := restrict_eq_some.mp hstep
      exact (afterItem_eq_some.mp hstep).2 ▸ (released_item h hitem).2
  refine ⟨h.free, fun hcached => (h.handle hcached).2, fun item hitem => ⟨?_, ?_⟩⟩
  · exact Option.isSome_iff_exists.mpr
      ⟨_, afterItem_eq_some.mpr ⟨(released_item h hitem).1, rfl⟩⟩
  · exact fun hechos havoids hvalid => returns_of_valid h hechos havoids hitem hvalid

/-- The body of the second slice, after the attributes of both and the body of the first one. -/
theorem lock_and_handles_released_two_slices :
    ∃ s t, run (fun s item => afterItem true s (PostedItem.item item)) (createdSlices true).state
        [.attributes (slicesPost 0 [1] [1, 2, 3, 4, 5, 6, 7, 8]),
          .body (slicesPost 0 [] [1, 2, 3, 4])] = some s ∧
      s.cached = true ∧ handleItem true (.body [1] [5, 6, 7, 8]) s = .ok () t := by
  have hreach : Reachable (restrict (Releases twoSlices true)
      fun s item => afterItem true s item.item) (createdSlices true).state _ :=
    .step (.body (slicesPost 0 [] [1, 2, 3, 4]))
      (.step (.attributes (slicesPost 0 [1] [1, 2, 3, 4, 5, 6, 7, 8])) .initial rfl) rfl
  obtain ⟨⟨⟩, t, hrun⟩ := ((lock_and_handles_released (createdSlices true) hreach).2.2
    (.body (slicesPost 1 [] [5, 6, 7, 8])) (by decide +kernel)).2 (by decide) (by decide)
      ⟨by decide, by decide⟩
  exact ⟨_, t, rfl, rfl, hrun⟩

/-- A group that is posted again once the data is stored leaves the lock, and the worker waits for
it in the next body; a body of the wrong size leaves a closed file object in `open_files`. -/
theorem lock_and_handles_not_released :
    (∃ s, run (fun s item => afterItem false s (PostedItem.item item)) (createdPixel false).state
        [.body ⟨[0], [7, 8], by decide⟩, .body ⟨[0], [7, 8], by decide⟩] = some s ∧
      s.locked = true ∧ stopOf (handleItem false (.body [0] [7, 8]) s) = some .spins) ∧
    ∃ s, run (fun s item => afterItem true s (PostedItem.item item)) (createdPixel true).state
        [.body ⟨[0], [7], by decide⟩] = some s ∧
      s.cached = true ∧ s.isOpen = false ∧
      stopOf (handleItem true (.body [0] [7, 8]) s) = some (.raised .groupNotFound) := by
  constructor
  · obtain ⟨s, hrun, hend⟩ := (Option.any_eq_true _ _).mp
      (show (run (fun s item => afterItem false s (PostedItem.item item)) (createdPixel false).state
        [.body ⟨[0], [7, 8], by decide⟩, .body ⟨[0], [7, 8], by decide⟩]).any (fun s => decide
        (s.locked = true ∧ stopOf (handleItem false (.body [0] [7, 8]) s) = some .spins)) = true by
          decide +kernel)
    exact ⟨s, hrun, of_decide_eq_true hend⟩
  · obtain ⟨s, hrun, hend⟩ := (Option.any_eq_true _ _).mp
      (show (run (fun s item => afterItem true s (PostedItem.item item)) (createdPixel true).state
        [.body ⟨[0], [7], by decide⟩]).any (fun s => decide (s.cached = true ∧ s.isOpen = false ∧
        stopOf (handleItem true (.body [0] [7, 8]) s) = some (.raised .groupNotFound))) = true by
          decide +kernel)
    exact ⟨s, hrun, of_decide_eq_true hend⟩

end ComputeWebApp.Api
