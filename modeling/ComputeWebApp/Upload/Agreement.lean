import ComputeWebApp.Library.Transition
import ComputeWebApp.Upload.Created

/-!
# The totals of a file and its groups

An item changes groups one by one and then recomputes the totals of the file.  The totals
agree with the groups after an item that reaches its end and after one that changes no
group; `step_agree` is the step lemma.  What is left is an item that names a missing group
after one that exists: it ends in the `except` branch between the groups and the totals.
-/

namespace ComputeWebApp.Api

open ByteStream Transition

/-! ## Agreement -/

def allStored (file : H5File) : Bool := file.groups.all fun entry => entry.2.stored

def allUploaded (file : H5File) : Bool := file.groups.all fun entry => entry.2.uploaded

theorem storeScan_done (file : H5File) : (storeScan file).done = allStored file := by
  rw [storeScan, scan_eq]
  rfl

theorem uploadScan_done (file : H5File) : (uploadScan file).done = allUploaded file := by
  rw [uploadScan, scan_eq]
  rfl

/-- A number of bytes and a flag of the file agree with those of the groups. -/
structure TotalsAgree (totals : Totals) (flag : Group → Bool) (bytes : Group → ℕ)
    (file : H5File) : Prop where
  bytes : file.attrs totals.bytes =
    some (.int ((file.groups.map fun entry => bytes entry.2).sum : ℕ))
  flag : file.attrs totals.flag = some (.bool (file.groups.all fun entry => flag entry.2))

structure Agree (file : H5File) : Prop where
  stored : TotalsAgree storeTotals Group.stored Group.storedBytes file
  uploaded : TotalsAgree uploadTotals Group.uploaded Group.uploadedBytes file

/-- The names are different. -/
def Totals.Distinct (totals : Totals) : Prop :=
  [totals.bytes, totals.progress, totals.endTime, totals.flag].Nodup

theorem storeTotals_distinct : storeTotals.Distinct := by
  unfold Totals.Distinct
  decide

theorem uploadTotals_distinct : uploadTotals.Distinct := by
  unfold Totals.Distinct
  decide

section Record

variable {totals : Totals} {file : H5File} {vars : Scan} {already : Bool} {time : ℕ}

theorem attrs_record_bytes (htotals : totals.Distinct) :
    (file.record totals vars already time).attrs totals.bytes = some (.int vars.bytes) := by
  simp only [Totals.Distinct, List.nodup_cons, List.mem_cons, not_or] at htotals
  unfold H5File.record
  dsimp only
  split <;> simp [htotals]

theorem attrs_record_progress (htotals : totals.Distinct) :
    (file.record totals vars already time).attrs totals.progress =
      some (.int vars.percentage) := by
  simp only [Totals.Distinct, List.nodup_cons, List.mem_cons, not_or] at htotals
  unfold H5File.record
  dsimp only
  split <;> simp [htotals]

theorem attrs_record_flag (htotals : totals.Distinct) :
    (file.record totals vars already time).attrs totals.flag =
      if (vars.done && !already) = true then some (.bool true) else file.attrs totals.flag := by
  simp only [Totals.Distinct, List.nodup_cons, List.mem_cons, not_or] at htotals
  have hbytes : totals.flag ≠ totals.bytes := fun h => htotals.1.2.2.1 h.symm
  have hprogress : totals.flag ≠ totals.progress := fun h => htotals.2.1.2.1 h.symm
  unfold H5File.record
  dsimp only
  split <;> simp [hbytes, hprogress]

theorem attrs_record_endTime (htotals : totals.Distinct) :
    (file.record totals vars already time).attrs totals.endTime =
      if (vars.done && !already) = true then some (.time time) else file.attrs totals.endTime := by
  simp only [Totals.Distinct, List.nodup_cons, List.mem_cons, not_or] at htotals
  have hbytes : totals.endTime ≠ totals.bytes := fun h => htotals.1.2.1 h.symm
  have hprogress : totals.endTime ≠ totals.progress := fun h => htotals.2.1.1 h.symm
  unfold H5File.record
  dsimp only
  split <;> simp [hbytes, hprogress, htotals]

/-- Recording touches its own four attributes only. -/
theorem attrs_record_of_not_mem {name : String}
    (hname : name ∉ [totals.bytes, totals.progress, totals.endTime, totals.flag]) :
    (file.record totals vars already time).attrs name = file.attrs name := by
  simp only [List.mem_cons, List.not_mem_nil, or_false, not_or] at hname
  unfold H5File.record
  dsimp only
  split <;> simp [hname]

/-- Recording a scan of the groups makes the flag agree, when a flag that was set is still
right. -/
theorem attrs_record_flag_eq {flag : Group → Bool} {bytes : Group → ℕ} {old : Bool}
    (htotals : totals.Distinct) (hold : file.attrs totals.flag = some (.bool old))
    (hright : old = true → (file.groups.all fun entry => flag entry.2) = true)
    (halready : already = true → old = true) :
    (file.record totals (scan flag bytes file.groups) already time).attrs totals.flag =
      some (.bool (file.groups.all fun entry => flag entry.2)) := by
  rw [attrs_record_flag htotals, scan_eq, hold]
  cases hall : file.groups.all fun entry => flag entry.2 with
  | false =>
      have hfalse : old = false := by
        cases old with
        | false => rfl
        | true => rw [hright rfl] at hall; cases hall
      simp [hfalse]
  | true =>
      cases already with
      | false => simp
      | true => simp [halready rfl]

theorem totalsAgree_record {flag : Group → Bool} {bytes : Group → ℕ} {old : Bool}
    (htotals : totals.Distinct) (hold : file.attrs totals.flag = some (.bool old))
    (hright : old = true → (file.groups.all fun entry => flag entry.2) = true)
    (halready : already = true → old = true) :
    TotalsAgree totals flag bytes
      (file.record totals (scan flag bytes file.groups) already time) where
  bytes := by rw [attrs_record_bytes htotals, scan_eq, H5File.groups_record]
  flag := by rw [attrs_record_flag_eq htotals hold hright halready, H5File.groups_record]

theorem allStored_record (file : H5File) (totals : Totals) (vars : Scan) (already : Bool)
    (time : ℕ) : allStored (file.record totals vars already time) = allStored file := by
  rw [allStored, H5File.groups_record]
  rfl

theorem allUploaded_record (file : H5File) (totals : Totals) (vars : Scan) (already : Bool)
    (time : ℕ) : allUploaded (file.record totals vars already time) = allUploaded file := by
  rw [allUploaded, H5File.groups_record]
  rfl

theorem Fits.record {data : Creation} (h : Fits data file)
    (totals : Totals) (vars : Scan) (already : Bool)
    (time : ℕ) : Fits data (file.record totals vars already time) :=
  ⟨by rw [H5File.groups_record]; exact h.names, by rw [H5File.groups_record]; exact h.dtype,
    by rw [H5File.groups_record]; exact h.shape, by rw [H5File.groups_record]; exact h.datasets⟩

end Record

/-! ## Effects on flags and bytes -/

section Effects

variable {data : Creation} {file : H5File}

/-- A change of the groups that leaves a flag and a number of bytes alone. -/
theorem TotalsAgree.mapGroups {totals : Totals} {flag : Group → Bool} {bytes : Group → ℕ}
    (h : TotalsAgree totals flag bytes file) {effect : String → Group → Group}
    (hflag : ∀ name group, flag (effect name group) = flag group)
    (hbytes : ∀ name group, bytes (effect name group) = bytes group) :
    TotalsAgree totals flag bytes (file.mapGroups effect) where
  bytes := by simpa [Function.comp_def, hbytes] using h.bytes
  flag := by simpa [Function.comp_def, hflag] using h.flag

theorem TotalsAgree.of_attrs {totals : Totals} {flag : Group → Bool} {bytes : Group → ℕ}
    {file' : H5File} (h : TotalsAgree totals flag bytes file) (hgroups : file'.groups = file.groups)
    (hbytes : file'.attrs totals.bytes = file.attrs totals.bytes)
    (hflag : file'.attrs totals.flag = file.attrs totals.flag) :
    TotalsAgree totals flag bytes file' where
  bytes := by rw [hbytes, hgroups, h.bytes]
  flag := by rw [hflag, hgroups, h.flag]

/-- What a body writes to a group besides the images. -/
theorem bodyEffect_cases (data : Creation) (parts : List (ℕ × Bytes)) (name : String)
    (group : Group) :
    (bodyEffect data parts name group).uploaded = group.uploaded ∧
      (bodyEffect data parts name group).uploadedBytes = group.uploadedBytes ∧
      (group.stored = true → (bodyEffect data parts name group).stored = true) := by
  induction parts generalizing group with
  | nil => exact ⟨rfl, rfl, id⟩
  | cons part rest ih =>
      obtain ⟨huploaded, hbytes, hstored⟩ :=
        ih (if name = groupName part.1 then storePart data part.2 group else group)
      by_cases hname : name = groupName part.1
      · simp only [hname, if_true] at huploaded hbytes hstored
        rw [bodyEffect, List.foldl_cons, hname, if_pos rfl]
        exact ⟨huploaded, hbytes, fun _ => hstored rfl⟩
      · simp only [hname, if_false] at huploaded hbytes hstored
        rw [bodyEffect, List.foldl_cons, if_neg hname]
        exact ⟨huploaded, hbytes, hstored⟩

/-- What the attributes of posted values write to a group. -/
theorem entriesEffect_cases {entries : List AttributeEntry}
    (hentries : ∀ entry ∈ entries, entry.assigned ≠ .uploaded false) (name : String)
    (group : Group) :
    (entriesEffect entries name group).stored = group.stored ∧
      (entriesEffect entries name group).storedBytes = group.storedBytes ∧
      (group.uploaded = true → (entriesEffect entries name group).uploaded = true) := by
  induction entries generalizing group with
  | nil => exact ⟨rfl, rfl, id⟩
  | cons entry rest ih =>
      obtain ⟨hstored, hbytes, huploaded⟩ :=
        ih (fun entry hmem => hentries entry (List.mem_cons_of_mem _ hmem))
          (if name = entry.groupId then group.setAttribute entry.assigned else group)
      refine ⟨hstored.trans ?_, hbytes.trans ?_, fun h => huploaded ?_⟩
      · split
        · cases entry.assigned <;> rfl
        · rfl
      · split
        · cases entry.assigned <;> rfl
        · rfl
      · split
        · cases hassigned : entry.assigned with
          | uploaded value =>
              cases value with
              | false => exact absurd hassigned (hentries entry List.mem_cons_self)
              | true => rfl
          | uploadedBytes value => exact h
        · exact h

theorem ValuePost.entries_ne_uploaded_false (post : ValuePost) :
    ∀ entry ∈ post.entries, entry.assigned ≠ .uploaded false := by
  intro entry hmem
  obtain ⟨i, -, hentry⟩ := List.mem_flatMap.mp hmem
  rcases List.mem_cons.mp hentry with rfl | hentry
  · simp
  · rw [List.mem_singleton.mp hentry]
    simp

theorem all_of_mapGroups {flag : Group → Bool} {effect : String → Group → Group}
    (heffect : ∀ name group, flag group = true → flag (effect name group) = true)
    (h : (file.groups.all fun entry => flag entry.2) = true) :
    ((file.mapGroups effect).groups.all fun entry => flag entry.2) = true := by
  rw [List.all_eq_true] at h ⊢
  intro entry hmem
  obtain ⟨entry', hmem', rfl⟩ := List.mem_map.mp hmem
  exact heffect _ _ (h entry' hmem')

end Effects

/-! ## Items -/

/-- A body has the size that its groups require, and the groups exist. -/
structure ValuePost.Valid (data : Creation) (post : ValuePost) : Prop where
  groups : ∀ i ∈ post.groupIds, i < data.slices
  size : post.body.length = post.groupIds.length * data.bodySize

theorem ValuePost.Valid.bodyPartSize {data : Creation} {post : ValuePost} (h : post.Valid data) :
    post.bodyPartSize = data.bodySize := by
  have hpos : 0 < post.groupIds.length := List.length_pos_of_ne_nil post.nonempty
  rw [ValuePost.bodyPartSize, h.size, Nat.mul_div_cancel_left _ hpos]

/-- The items that posted values put to the queue. -/
inductive PostedItem
  | attributes (post : ValuePost)
  | body (post : ValuePost)

def PostedItem.item : PostedItem → Item
  | .attributes post => post.attributesItem
  | .body post => post.bodyItem

def PostedItem.post : PostedItem → ValuePost
  | .attributes post => post
  | .body post => post

/-- The item is a body that fits no group of the data. -/
def PostedItem.Misfits (data : Creation) : PostedItem → Prop
  | .attributes _ => False
  | .body post => post.bodyPartSize ≠ data.bodySize ∨ data.shape.echos = 0

instance (data : Creation) : (item : PostedItem) → Decidable (item.Misfits data)
  | .attributes _ => inferInstanceAs (Decidable False)
  | .body post =>
      inferInstanceAs (Decidable (post.bodyPartSize ≠ data.bodySize ∨ data.shape.echos = 0))

/-- The worker cannot write the first group of the item: the file object is closed, the group
is missing, or the body does not fit. -/
def Blocked (data : Creation) (keepFilesOpen : Bool) (s : DataState) (item : PostedItem) : Prop :=
  (s.opened keepFilesOpen).isOpen = false ∨
    data.slices ≤ item.post.groupIds.head item.post.nonempty ∨ item.Misfits data

instance (data : Creation) (keepFilesOpen : Bool) (s : DataState) (item : PostedItem) :
    Decidable (Blocked data keepFilesOpen s item) :=
  inferInstanceAs (Decidable (_ ∨ _ ∨ _))

/-- No missing group is named after a group that has been written. -/
def KeepsTotals (data : Creation) (keepFilesOpen : Bool) (s : DataState) (item : PostedItem) :
    Prop :=
  Blocked data keepFilesOpen s item ∨ ∀ i ∈ item.post.groupIds, i < data.slices

instance (data : Creation) (keepFilesOpen : Bool) (s : DataState) (item : PostedItem) :
    Decidable (KeepsTotals data keepFilesOpen s item) :=
  inferInstanceAs (Decidable (_ ∨ _))

section Run

variable {data : Creation} {keepFilesOpen : Bool} {s t : DataState} {file : H5File}

theorem agree_after_body (data : Creation) (hagree : Agree file) (post : ValuePost) (time : ℕ) :
    Agree ((file.mapGroups (bodyEffect data post.parts)).record storeTotals
      (storeScan (file.mapGroups (bodyEffect data post.parts))) false time) where
  stored := by
    refine totalsAgree_record storeTotals_distinct hagree.stored.flag (fun hall => ?_)
      (fun h => by cases h)
    exact all_of_mapGroups (fun name group => (bodyEffect_cases data post.parts name group).2.2) hall
  uploaded := by
    refine (hagree.uploaded.mapGroups
      (fun name group => (bodyEffect_cases data post.parts name group).1)
      fun name group => (bodyEffect_cases data post.parts name group).2.1).of_attrs
        (H5File.groups_record ..) ?_ ?_
    · exact attrs_record_of_not_mem (by decide)
    · exact attrs_record_of_not_mem (by decide)

theorem agree_after_attributes (hagree : Agree file) (post : ValuePost) (time : ℕ) :
    Agree ((file.mapGroups (entriesEffect post.entries)).record uploadTotals
      (uploadScan (file.mapGroups (entriesEffect post.entries)))
      (file.groups.all fun entry => entry.2.uploaded) time) where
  stored := by
    refine (hagree.stored.mapGroups
      (fun name group => (entriesEffect_cases post.entries_ne_uploaded_false name group).1)
      fun name group => (entriesEffect_cases post.entries_ne_uploaded_false name group).2.1).of_attrs
        (H5File.groups_record ..) ?_ ?_
    · exact attrs_record_of_not_mem (by decide)
    · exact attrs_record_of_not_mem (by decide)
  uploaded := by
    refine totalsAgree_record uploadTotals_distinct hagree.uploaded.flag (fun hall => ?_) id
    exact all_of_mapGroups
      (fun name group => (entriesEffect_cases post.entries_ne_uploaded_false name group).2.2) hall

/-- One item keeps the agreement, whether it succeeds or raises. -/
theorem step_agree (hfile : s.h5 = some file) (hfit : Fits data file) (hagree : Agree file)
    {item : PostedItem} (hitem : KeepsTotals data keepFilesOpen s item)
    (hstep : afterItem keepFilesOpen s item.item = some t) :
    ∃ file', t.h5 = some file' ∧ Fits data file' ∧ Agree file' := by
  have hstate : t = stateOf (handleItem keepFilesOpen item.item s) :=
    (afterItem_eq_some.mp hstep).2.symm
  have hopened : (s.opened keepFilesOpen).h5 = some file := (sameFile_opened s).h5.trans hfile
  cases item with
  | body post =>
      rw [PostedItem.item, handleItem_body hfile] at hstate
      by_cases hblocked : Blocked data keepFilesOpen s (.body post)
      · -- nothing is written
        obtain ⟨exception, u, hrun, hu⟩ := writeBodyItemToFile_fails hfit hopened post hblocked
        rw [bind_error hrun] at hstate
        refine ⟨file, ?_, hfit, hagree⟩
        rcases hu with rfl | ⟨-, rfl⟩ <;> rw [hstate] <;> exact hopened
      · have hgroups := hitem.resolve_left hblocked
        simp only [Blocked, PostedItem.Misfits, not_or, not_not, Bool.not_eq_false] at hblocked
        have hrun := writeBodyItemToFile_eq hfit hopened hblocked.1 hblocked.2.2.2 post hgroups
          hblocked.2.2.1
        rw [bind_ok hrun] at hstate
        have hsame := congrArg DataState.h5 hstate
        rw [(keepsFile_finishBody _).h5, DataState.h5_record (DataState.h5_storeBodies _ hopened _)]
          at hsame
        refine ⟨_, hsame, ?_, agree_after_body data hagree post _⟩
        exact (hfit.mapGroups (bodyEffect_sameLayout _)).record _ _ _ _
  | attributes post =>
      rw [PostedItem.item, handleItem_attributes hfile] at hstate
      by_cases hblocked : Blocked data keepFilesOpen s (.attributes post)
      · -- the exception comes before the first attribute
        obtain ⟨exception, hrun⟩ := writeAttributesItemToFile_fails hfit hopened post
          (by simpa [Blocked, PostedItem.Misfits, PostedItem.post] using hblocked)
        rw [bind_error hrun] at hstate
        exact ⟨file, by rw [hstate]; exact hopened, hfit, hagree⟩
      · have hgroups := hitem.resolve_left hblocked
        simp only [Blocked, not_or, Bool.not_eq_false] at hblocked
        have hrun := writeAttributesItemToFile_eq hfit hopened hblocked.1 post hgroups
          hagree.uploaded.flag
        rw [bind_ok hrun] at hstate
        have hsame := congrArg DataState.h5 hstate
        rw [(keepsFile_finishItem _).h5, DataState.h5_record (DataState.h5_applyEntries hopened _)]
          at hsame
        refine ⟨_, hsame, ?_, agree_after_attributes hagree post _⟩
        exact (hfit.mapGroups (entriesEffect_sameLayout _)).record _ _ _ _

end Run

theorem Created.agree {keepFilesOpen : Bool} (created : Created keepFilesOpen)
    (hslices : 0 < created.data.slices)
    (havoids : ∀ name ∈ [storeTotals.bytes, storeTotals.flag, uploadTotals.bytes, uploadTotals.flag],
      created.data.Avoids name) : Agree created.file := by
  have hbytes : ∀ bytes : Group → ℕ, bytes created.data.group = 0 →
      (created.file.groups.map fun entry => bytes entry.2).sum = 0 := by
    intro bytes hzero
    rw [created.groups_file, List.map_map]
    simp [Function.comp_def, hzero]
  refine ⟨⟨?_, ?_⟩, ⟨?_, ?_⟩⟩
  · rw [hbytes _ rfl]
    exact created.attrs_file (by simp [Creation.ownAttributes, storeTotals]) (havoids _ (by simp))
  · rw [created.not_all_groups hslices rfl]
    exact created.attrs_file (by simp [Creation.ownAttributes, storeTotals]) (havoids _ (by simp))
  · rw [hbytes _ rfl]
    exact created.attrs_file (by simp [Creation.ownAttributes, uploadTotals]) (havoids _ (by simp))
  · rw [created.not_all_groups hslices rfl]
    exact created.attrs_file (by simp [Creation.ownAttributes, uploadTotals]) (havoids _ (by simp))

/-- **Totals.**  Handle the items of posted values in any number and order after the creation.
As long as no item names a missing group after one that it writes, the totals agree with the
groups after each item, also after the items that raise. -/
theorem totals_agree_of_whole_group_lists {keepFilesOpen : Bool} (created : Created keepFilesOpen)
    (hslices : 0 < created.data.slices)
    (havoids : ∀ name ∈ [storeTotals.bytes, storeTotals.flag, uploadTotals.bytes, uploadTotals.flag],
      created.data.Avoids name)
    {s : DataState}
    (hreach : Reachable (restrict (KeepsTotals created.data keepFilesOpen)
      fun s item => afterItem keepFilesOpen s item.item) created.state s) :
    ∃ file, s.h5 = some file ∧ Agree file := by
  obtain ⟨file, hfile, -, hagree⟩ := hreach.invariant
    (P := fun s => ∃ file, s.h5 = some file ∧ Fits created.data file ∧ Agree file)
    ⟨_, created.h5_eq, created.fits, created.agree hslices havoids⟩
    fun s item t _ ⟨file, hfile, hfit, hagree⟩ hstep => by
      obtain ⟨hitem, hstep⟩ := restrict_eq_some.mp hstep
      exact step_agree hfile hfit hagree hitem hstep
  exact ⟨file, hfile, hagree⟩

/-- The body of one slice, and the attributes and the body of both. -/
def bothSlicesItems : List PostedItem :=
  [.body (slicesPost 1 [] [5, 6, 7, 8]),
    .attributes (slicesPost 1 [0] [5, 6, 7, 8, 1, 2, 3, 4]),
    .body (slicesPost 1 [0] [5, 6, 7, 8, 1, 2, 3, 4])]

theorem totals_agree_two_slices :
    ∃ s file, Reachable (restrict (KeepsTotals twoSlices false)
        fun s item => afterItem false s (PostedItem.item item)) (createdSlices false).state s ∧
      s.h5 = some file ∧ file.truthOf "cwa_stored" = some true ∧ Agree file := by
  obtain ⟨s, hreach, hend⟩ := Reachable.exists_of_run
    (show (run (restrict (KeepsTotals twoSlices false)
        fun s item => afterItem false s (PostedItem.item item)) (createdSlices false).state
      bothSlicesItems).any (fun s => decide
        ((s.h5.bind fun file => file.truthOf "cwa_stored") = some true)) = true by decide +kernel)
  obtain ⟨file, hfile, hagree⟩ :=
    totals_agree_of_whole_group_lists (createdSlices false) (by decide) (by decide) hreach
  have hstored := of_decide_eq_true hend
  rw [hfile] at hstored
  exact ⟨s, file, hreach, hfile, hstored, hagree⟩

/-- A body for the only group and for a missing one: the group is stored, and the totals are
those of before. -/
theorem totals_disagree_of_missing_group :
    ∃ s file, Reachable (fun s item => afterItem false s (PostedItem.item item))
        (createdPixel false).state s ∧ s.h5 = some file ∧ ¬ Agree file := by
  refine ⟨_, _, .step (.body ⟨[0, 99], [7, 8, 7, 8], by decide⟩) .initial rfl, rfl, ?_⟩
  intro h
  exact absurd h.stored.flag (by decide +kernel)

end ComputeWebApp.Api
