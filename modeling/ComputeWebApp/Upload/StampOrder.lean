import ComputeWebApp.Upload.Agreement

/-!
# Stored implies uploaded

A group or a file that is stored has been uploaded before: `StoredUploaded` is said of every
state of the file that a reader can see, also of those in the middle of an item.  It is kept by
the items of a post as long as the attributes of the post are handled before its body
(`body_healthy`, `attributes_healthy`).
-/

namespace ComputeWebApp.Api

open ByteStream

/-- A flag of the file is set. -/
def H5File.isSet (file : H5File) (name : String) : Prop :=
  (file.attrs name).bind AttrValue.truthy = some true

structure StoredUploaded (file : H5File) : Prop where
  groups : ∀ entry ∈ file.groups, entry.2.stored = true → entry.2.uploaded = true
  flag : file.isSet "cwa_stored" → file.isSet "cwa_uploaded" ∧
    ∃ time, file.attrs "cwa_store_end_time" = some (.time time)
  times : ∀ time, file.attrs "cwa_store_end_time" = some (.time time) →
    ∃ earlier < time, file.attrs "cwa_upload_end_time" = some (.time earlier)

/-- The groups of a post are uploaded. -/
def GroupsUploaded (post : ValuePost) (file : H5File) : Prop :=
  ∀ entry ∈ file.groups, ∀ i ∈ post.groupIds, entry.1 = groupName i → entry.2.uploaded = true

section Effects

variable {data : Creation} {file : H5File}

theorem StoredUploaded.of_attrs {file' : H5File} (h : StoredUploaded file)
    (hattrs : file'.attrs = file.attrs)
    (hgroups : ∀ entry ∈ file'.groups, entry.2.stored = true → entry.2.uploaded = true) :
    StoredUploaded file' where
  groups := hgroups
  flag := by
    unfold H5File.isSet
    rw [hattrs]
    exact h.flag
  times := by
    rw [hattrs]
    exact h.times

/-- A change of one group that keeps it uploaded. -/
theorem mem_updateGroup {name : String} {change : Group → Group} {entry : String × Group}
    (h : entry ∈ (file.updateGroup name change).groups) :
    ∃ group, (entry.1, group) ∈ file.groups ∧
      (entry.1 ≠ name ∧ entry.2 = group ∨ entry.1 = name ∧ entry.2 = change group) := by
  obtain ⟨⟨other, group⟩, hmem, rfl⟩ := List.mem_map.mp h
  refine ⟨group, hmem, ?_⟩
  by_cases hname : other = name
  · exact .inr ⟨hname, if_pos hname⟩
  · exact .inl ⟨hname, if_neg hname⟩

/-- In the middle of a body whose groups are uploaded. -/
theorem partChanges_storedUploaded {post : ValuePost} {part : ℕ × Bytes} (hpart : part ∈ post.parts)
    {change : H5File → H5File} (hchange : change ∈ partChanges data part) (file' : H5File)
    (h : file'.attrs = file.attrs ∧ GroupsUploaded post file' ∧
      ∀ entry ∈ file'.groups, entry.2.stored = true → entry.2.uploaded = true) :
    (change file').attrs = file.attrs ∧ GroupsUploaded post (change file') ∧
      ∀ entry ∈ (change file').groups, entry.2.stored = true → entry.2.uploaded = true := by
  obtain ⟨hattrs, huploaded, hstored⟩ := h
  have hi := (ValuePost.mem_parts hpart).1
  have hupdate : ∀ update : Group → Group, (∀ group, (update group).uploaded = group.uploaded) →
      GroupsUploaded post (file'.updateGroup (groupName part.1) update) ∧
        ∀ entry ∈ (file'.updateGroup (groupName part.1) update).groups,
          entry.2.stored = true → entry.2.uploaded = true := by
    intro update hupdate
    refine ⟨fun entry hmem i hi hname => ?_, fun entry hmem hentry => ?_⟩
    · obtain ⟨group, hgroup, ⟨-, heq⟩ | ⟨-, heq⟩⟩ := mem_updateGroup hmem
      · rw [heq]
        exact huploaded _ hgroup i hi hname
      · rw [heq, hupdate]
        exact huploaded _ hgroup i hi hname
    · obtain ⟨group, hgroup, ⟨-, heq⟩ | ⟨hname, heq⟩⟩ := mem_updateGroup hmem
      · rw [heq] at hentry ⊢
        exact hstored _ hgroup hentry
      · rw [heq, hupdate]
        exact huploaded _ hgroup part.1 hi hname
  simp only [partChanges, List.mem_cons, List.not_mem_nil, or_false] at hchange
  rcases hchange with rfl | rfl | rfl | rfl
  · exact ⟨hattrs, hupdate _ fun _ => rfl⟩
  · exact ⟨hattrs, hupdate _ fun _ => rfl⟩
  · exact ⟨hattrs, hupdate _ fun _ => rfl⟩
  · exact ⟨hattrs, hupdate _ fun _ => rfl⟩

/-- In the middle of the attributes of a post. -/
theorem entryChange_storedUploaded {post : ValuePost} {entry : AttributeEntry}
    (hentry : entry ∈ post.entries) (file' : H5File)
    (h : file'.attrs = file.attrs ∧
      ∀ entry ∈ file'.groups, entry.2.stored = true → entry.2.uploaded = true) :
    (entryChange entry file').attrs = file.attrs ∧
      ∀ other ∈ (entryChange entry file').groups,
        other.2.stored = true → other.2.uploaded = true := by
  refine ⟨h.1, fun other hmem hstored => ?_⟩
  obtain ⟨group, hgroup, ⟨-, heq⟩ | ⟨-, heq⟩⟩ := mem_updateGroup hmem
  · rw [heq] at hstored ⊢
    exact h.2 _ hgroup hstored
  · rw [heq] at hstored ⊢
    have hassigned := post.entries_ne_uploaded_false entry hentry
    cases hcase : entry.assigned with
    | uploaded value =>
        cases value with
        | false => exact absurd hcase hassigned
        | true => rfl
    | uploadedBytes value =>
        rw [hcase] at hstored
        exact h.2 _ hgroup hstored

theorem uploaded_entriesEffect {entries : List AttributeEntry} {i : ℕ}
    (hentries : ∀ entry ∈ entries, entry.assigned ≠ .uploaded false)
    (hmem : ⟨groupName i, .uploaded true⟩ ∈ entries) (group : Group) :
    (entriesEffect entries (groupName i) group).uploaded = true := by
  induction entries generalizing group with
  | nil => cases hmem
  | cons entry rest ih =>
      have hrest := fun entry hmem => hentries entry (List.mem_cons_of_mem _ hmem)
      rcases List.mem_cons.mp hmem with rfl | hmem
      · refine (entriesEffect_cases hrest (groupName i) _).2.2 ?_
        simp [Group.setAttribute]
      · exact ih hrest hmem _

/-- The attributes of a post upload its groups. -/
theorem groupsUploaded_entries (post : ValuePost) :
    GroupsUploaded post (file.mapGroups (entriesEffect post.entries)) := by
  intro entry hmem i hi hname
  obtain ⟨⟨other, group⟩, -, rfl⟩ := List.mem_map.mp hmem
  obtain rfl : other = groupName i := hname
  exact uploaded_entriesEffect post.entries_ne_uploaded_false
    (List.mem_flatMap.mpr ⟨i, hi, List.mem_cons_self⟩) group

/-- What is uploaded stays so. -/
theorem GroupsUploaded.mapGroups {post : ValuePost} (h : GroupsUploaded post file)
    {effect : String → Group → Group}
    (heffect : ∀ name group, group.uploaded = true → (effect name group).uploaded = true) :
    GroupsUploaded post (file.mapGroups effect) := by
  intro entry hmem i hi hname
  obtain ⟨entry', hmem', rfl⟩ := List.mem_map.mp hmem
  exact heffect _ _ (h entry' hmem' i hi hname)

end Effects

/-! ## Recording -/

section Recording

variable {totals : Totals} {vars : Scan} {already : Bool} {s : DataState} {file : H5File}

/-- A state of the file while totals are recorded. -/
structure Recording (totals : Totals) (complete : Bool) (time : ℕ) (file seen : H5File) :
    Prop where
  groups : seen.groups = file.groups
  others : ∀ name ∉ [totals.bytes, totals.progress, totals.endTime, totals.flag],
    seen.attrs name = file.attrs name
  stamp : seen.attrs totals.endTime = file.attrs totals.endTime ∧
      seen.attrs totals.flag = file.attrs totals.flag ∨
    complete = true ∧ seen.attrs totals.endTime = some (.time time) ∧
      (seen.attrs totals.flag = file.attrs totals.flag ∨
        seen.attrs totals.flag = some (.bool true))

namespace Recording

variable {complete : Bool} {time : ℕ} {seen : H5File}

theorem refl : Recording totals complete time file file :=
  ⟨rfl, fun _ _ => rfl, .inl ⟨rfl, rfl⟩⟩

/-- One of the four attributes is set. -/
theorem setAttr (h : Recording totals complete time file seen) {name : String} {value : AttrValue}
    (hname : name ∈ [totals.bytes, totals.progress, totals.endTime, totals.flag])
    (hstamp : (seen.setAttr name value).attrs totals.endTime = file.attrs totals.endTime ∧
        (seen.setAttr name value).attrs totals.flag = file.attrs totals.flag ∨
      complete = true ∧ (seen.setAttr name value).attrs totals.endTime = some (.time time) ∧
        ((seen.setAttr name value).attrs totals.flag = file.attrs totals.flag ∨
          (seen.setAttr name value).attrs totals.flag = some (.bool true))) :
    Recording totals complete time file (seen.setAttr name value) where
  groups := h.groups
  others := fun other hother => by
    have hne : other ≠ name := fun heq => hother (heq ▸ hname)
    rw [H5File.attrs_setAttr, Function.update_of_ne hne, h.others other hother]
  stamp := hstamp

/-- The counts do not matter for the stamp and the flag. -/
theorem setCount (h : Recording totals complete time file seen) {name : String}
    (hname : name ∈ [totals.bytes, totals.progress, totals.endTime, totals.flag])
    (htime : totals.endTime ≠ name) (hflag : totals.flag ≠ name) (value : AttrValue) :
    Recording totals complete time file (seen.setAttr name value) := by
  refine h.setAttr hname ?_
  rw [H5File.attrs_setAttr, Function.update_of_ne htime, Function.update_of_ne hflag]
  exact h.stamp

end Recording

theorem mem_published_record (htotals : totals.Distinct) (hfile : s.h5 = some file)
    {seen : H5File} (hseen : seen ∈ (s.record totals vars already).published) :
    seen ∈ s.published ∨ Recording totals (vars.done && !already) s.clock file seen := by
  simp only [Totals.Distinct, List.nodup_cons, List.mem_cons, not_or] at htotals
  have hflagBytes : totals.flag ≠ totals.bytes := fun h => htotals.1.2.2.1 h.symm
  have hflagProgress : totals.flag ≠ totals.progress := fun h => htotals.2.1.2.1 h.symm
  have htimeBytes : totals.endTime ≠ totals.bytes := fun h => htotals.1.2.1 h.symm
  have htimeProgress : totals.endTime ≠ totals.progress := fun h => htotals.2.1.1 h.symm
  have hflagTime : totals.flag ≠ totals.endTime := fun h => htotals.2.2.1.1 h.symm
  have hbytes : ∀ value, Recording totals (vars.done && !already) s.clock file
      (file.setAttr totals.bytes value) := fun value =>
    Recording.refl.setCount (by simp) htimeBytes hflagBytes value
  have hprogress : ∀ value value', Recording totals (vars.done && !already) s.clock file
      ((file.setAttr totals.bytes value).setAttr totals.progress value') := fun value value' =>
    (hbytes value).setCount (by simp) htimeProgress hflagProgress value'
  unfold DataState.record at hseen
  dsimp only at hseen
  by_cases hcomplete : (vars.done && !already) = true
  · rw [if_pos hcomplete] at hseen
    simp only [DataState.write, hfile, List.mem_cons] at hseen
    have htime : ∀ value value', Recording totals (vars.done && !already) s.clock file
        (((file.setAttr totals.bytes value).setAttr totals.progress value').setAttr
          totals.endTime (.time s.clock)) := fun value value' =>
      (hprogress value value').setAttr (by simp)
        (.inr ⟨hcomplete, by simp, .inl (by simp [hflagBytes, hflagProgress, hflagTime])⟩)
    rcases hseen with rfl | rfl | rfl | rfl | hmem
    · exact .inr ((htime _ _).setAttr (by simp)
        (.inr ⟨hcomplete, by simp [htotals], .inr (by simp)⟩))
    · exact .inr (htime _ _)
    · exact .inr (hprogress _ _)
    · exact .inr (hbytes _)
    · exact .inl hmem
  · rw [if_neg hcomplete] at hseen
    simp only [DataState.write, hfile, List.mem_cons] at hseen
    rcases hseen with rfl | rfl | hmem
    · exact .inr (hprogress _ _)
    · exact .inr (hbytes _)
    · exact .inl hmem

end Recording

/-! ## Items -/

section Items

variable {data : Creation} {keepFilesOpen : Bool} {s t : DataState} {file : H5File}

/-- The state between two items: flags and stamps go with the groups, and whatever a reader has
seen is stored only when it was uploaded before. -/
structure Healthy (data : Creation) (keepFilesOpen : Bool) (s : DataState) (file : H5File) :
    Prop where
  h5 : s.h5 = some file
  fits : Fits data file
  usable : Usable keepFilesOpen s
  storedFlag : file.attrs "cwa_stored" = some (.bool (allStored file))
  uploadedFlag : file.attrs "cwa_uploaded" = some (.bool (allUploaded file))
  storeStamp : allStored file = true →
    ∃ time, file.attrs "cwa_store_end_time" = some (.time time)
  uploadStamp : allUploaded file = true →
    ∃ time < s.clock, file.attrs "cwa_upload_end_time" = some (.time time)
  stamped : ∀ time, file.attrs "cwa_upload_end_time" = some (.time time) → allUploaded file = true
  current : file ∈ s.published
  seen : ∀ seen ∈ s.published, StoredUploaded seen

theorem Healthy.of_sameFile (h : Healthy data keepFilesOpen s file)
    (hsame : SameFile keepFilesOpen s t) : Healthy data keepFilesOpen t file :=
  ⟨hsame.h5.trans h.h5, h.fits, hsame.usable h.usable, h.storedFlag, h.uploadedFlag, h.storeStamp,
    by rw [hsame.clock]; exact h.uploadStamp, h.stamped, by rw [hsame.published]; exact h.current,
    by rw [hsame.published]; exact h.seen⟩

theorem isSet_congr {file' : H5File} {name : String} (h : file'.attrs name = file.attrs name) :
    file'.isSet name ↔ file.isSet name := by
  unfold H5File.isSet
  rw [h]

theorem isSet_of_bool {name : String} {value : Bool} (h : file.attrs name = some (.bool value)) :
    file.isSet name ↔ value = true := by
  unfold H5File.isSet
  rw [h]
  simp [AttrValue.truthy]

theorem allUploaded_of_allStored
    (h : ∀ entry ∈ file.groups, entry.2.stored = true → entry.2.uploaded = true)
    (hall : allStored file = true) : allUploaded file = true :=
  List.all_eq_true.mpr fun entry hmem => h entry hmem (List.all_eq_true.mp hall entry hmem)

/-- The end of a body item.  `u` and `file'` are what the parts of the body have left. -/
theorem Healthy.record_stored (h : Healthy data keepFilesOpen s file) {u : DataState}
    {file' : H5File} (hfile : u.h5 = some file') (hfit : Fits data file') (hopen : u.isOpen = true)
    (hclock : u.clock = s.clock) (hattrs : file'.attrs = file.attrs)
    (hstored : allStored file = true → allStored file' = true)
    (huploaded : allUploaded file' = allUploaded file)
    (hgroups : ∀ entry ∈ file'.groups, entry.2.stored = true → entry.2.uploaded = true)
    (hseen : ∀ seen ∈ u.published, StoredUploaded seen) :
    Healthy data keepFilesOpen (u.record storeTotals (storeScan file') false)
      (file'.record storeTotals (storeScan file') false u.clock) := by
  have hcurrent := h.seen file h.current
  have huploadedFlag : file'.attrs "cwa_uploaded" = some (.bool (allUploaded file')) := by
    rw [hattrs, huploaded, h.uploadedFlag]
  have hdone : ((storeScan file').done && !false) = allStored file' := by
    rw [storeScan_done, Bool.not_false, Bool.and_true]
  refine ⟨DataState.h5_record hfile _ _ _, hfit.record _ _ _ _, fun _ _ => by simpa, ?_, ?_, ?_, ?_,
    ?_, mem_published_of_record hfile _ _ _, ?_⟩
  · rw [allStored_record]
    exact attrs_record_flag_eq storeTotals_distinct (by rw [hattrs]; exact h.storedFlag) hstored
      (fun hfalse => by cases hfalse)
  · rw [allUploaded_record, attrs_record_of_not_mem (by decide), huploadedFlag]
  · rw [allStored_record]
    intro hall
    refine ⟨u.clock, (attrs_record_endTime storeTotals_distinct).trans ?_⟩
    rw [hdone, if_pos hall]
  · rw [allUploaded_record, attrs_record_of_not_mem (by decide), hattrs, huploaded]
    intro hall
    obtain ⟨time, hlt, htime⟩ := h.uploadStamp hall
    refine ⟨time, ?_, htime⟩
    rw [DataState.clock_record, hclock]
    split <;> omega
  · rw [allUploaded_record, attrs_record_of_not_mem (by decide), hattrs, huploaded]
    exact h.stamped
  · intro seen hmem
    rcases mem_published_record storeTotals_distinct hfile hmem with hmem | hrecording
    · exact hseen seen hmem
    have hother : ∀ name ∈ ["cwa_uploaded", "cwa_upload_end_time"],
        seen.attrs name = file.attrs name := by
      intro name hname
      rw [hrecording.others name, hattrs]
      simp only [List.mem_cons, List.not_mem_nil, or_false] at hname
      rcases hname with rfl | rfl <;> decide
    have hset : seen.isSet "cwa_uploaded" ↔ file.isSet "cwa_uploaded" :=
      isSet_congr (hother _ (by simp))
    refine ⟨by rw [hrecording.groups]; exact hgroups, ?_, ?_⟩
    · -- the flag is set only after the stamp
      intro hflag
      rcases hrecording.stamp with ⟨hend, hkept⟩ | ⟨hall, hend, -⟩
      · rw [hattrs] at hend hkept
        obtain ⟨hset', time, htime⟩ := hcurrent.flag ((isSet_congr hkept).mp hflag)
        exact ⟨hset.mpr hset', time, hend.trans htime⟩
      · have hall' := allUploaded_of_allStored hgroups (hdone ▸ hall)
        refine ⟨hset.mpr ((isSet_of_bool h.uploadedFlag).mpr (huploaded ▸ hall')), _, hend⟩
    · intro time htime
      rw [hother _ (by simp)]
      rcases hrecording.stamp with ⟨hend, -⟩ | ⟨hall, hend, -⟩
      · rw [hattrs] at hend
        exact hcurrent.times time (hend.symm.trans htime)
      · -- the upload has been stamped by an earlier item
        obtain rfl : u.clock = time := by
          rw [show seen.attrs "cwa_store_end_time" = _ from hend] at htime
          simpa using htime
        rw [hclock]
        exact h.uploadStamp (huploaded ▸ allUploaded_of_allStored hgroups (hdone ▸ hall))

/-- The end of an attributes item. -/
theorem Healthy.record_uploaded (h : Healthy data keepFilesOpen s file) {u : DataState}
    {file' : H5File} (hfile : u.h5 = some file') (hfit : Fits data file') (hopen : u.isOpen = true)
    (hclock : u.clock = s.clock) (hattrs : file'.attrs = file.attrs)
    (hstored : allStored file' = allStored file)
    (huploaded : allUploaded file = true → allUploaded file' = true)
    (hgroups : ∀ entry ∈ file'.groups, entry.2.stored = true → entry.2.uploaded = true)
    (hseen : ∀ seen ∈ u.published, StoredUploaded seen) :
    Healthy data keepFilesOpen (u.record uploadTotals (uploadScan file') (allUploaded file))
      (file'.record uploadTotals (uploadScan file') (allUploaded file) u.clock) := by
  have hcurrent := h.seen file h.current
  have hdone := uploadScan_done file'
  refine ⟨DataState.h5_record hfile _ _ _, hfit.record _ _ _ _, fun _ _ => by simpa, ?_, ?_, ?_, ?_,
    ?_, mem_published_of_record hfile _ _ _, ?_⟩
  · rw [allStored_record, attrs_record_of_not_mem (by decide), hattrs, hstored, h.storedFlag]
  · rw [allUploaded_record]
    exact attrs_record_flag_eq uploadTotals_distinct (by rw [hattrs]; exact h.uploadedFlag) huploaded
      id
  · rw [allStored_record, attrs_record_of_not_mem (by decide), hattrs, hstored]
    exact h.storeStamp
  · rw [allUploaded_record]
    intro hall
    rw [DataState.clock_record, hdone, hall]
    cases hbefore : allUploaded file with
    | false =>
        refine ⟨u.clock, by simp, (attrs_record_endTime uploadTotals_distinct).trans ?_⟩
        simp [hdone, hall]
    | true =>
        obtain ⟨time, hlt, htime⟩ := h.uploadStamp hbefore
        refine ⟨time, by simpa [hclock] using hlt, ?_⟩
        refine (attrs_record_endTime uploadTotals_distinct).trans ?_
        rw [if_neg (by simp), hattrs]
        exact htime
  · intro time htime
    rw [allUploaded_record]
    replace htime := (attrs_record_endTime uploadTotals_distinct).symm.trans htime
    split at htime
    · rename_i hcomplete
      rw [Bool.and_eq_true] at hcomplete
      exact hdone ▸ hcomplete.1
    · rw [hattrs] at htime
      exact huploaded (h.stamped time htime)
  · intro seen hmem
    rcases mem_published_record uploadTotals_distinct hfile hmem with hmem | hrecording
    · exact hseen seen hmem
    have hother : ∀ name ∈ ["cwa_stored", "cwa_store_end_time"],
        seen.attrs name = file.attrs name := by
      intro name hname
      rw [hrecording.others name, hattrs]
      simp only [List.mem_cons, List.not_mem_nil, or_false] at hname
      rcases hname with rfl | rfl <;> decide
    refine ⟨by rw [hrecording.groups]; exact hgroups, ?_, ?_⟩
    · intro hflag
      obtain ⟨hset, time, htime⟩ := hcurrent.flag ((isSet_congr (hother _ (by simp))).mp hflag)
      refine ⟨?_, time, (hother _ (by simp)).trans htime⟩
      rcases hrecording.stamp with ⟨-, hkept⟩ | ⟨-, -, hkept | htrue⟩
      · rw [hattrs] at hkept
        exact (isSet_congr hkept).mpr hset
      · rw [hattrs] at hkept
        exact (isSet_congr hkept).mpr hset
      · exact (isSet_of_bool htrue).mpr rfl
    · intro time htime
      rw [hother _ (by simp)] at htime
      obtain ⟨earlier, hlt, hearlier⟩ := hcurrent.times time htime
      refine ⟨earlier, hlt, ?_⟩
      -- a store that has been stamped comes after the stamp of the upload
      have hbefore := h.stamped earlier hearlier
      rcases hrecording.stamp with ⟨hend, -⟩ | ⟨hcomplete, -⟩
      · rw [hattrs] at hend
        exact hend.trans hearlier
      · rw [hbefore] at hcomplete
        simp at hcomplete

/-- **Body step.**  A body whose groups are uploaded, whatever becomes of it. -/
theorem body_healthy (h : Healthy data keepFilesOpen s file) {post : ValuePost}
    (hvalid : post.Valid data) (huploaded : GroupsUploaded post file) :
    ∃ file', Healthy data keepFilesOpen (stateOf (handleItem keepFilesOpen post.bodyItem s)) file' ∧
      ∀ other, GroupsUploaded other file → GroupsUploaded other file' := by
  have hsame : SameFile keepFilesOpen s (s.opened keepFilesOpen) := sameFile_opened s
  have hopened := hsame.h5.trans h.h5
  by_cases hechos : data.shape.echos = 0
  · -- the body is not written
    obtain ⟨exception, t, hrun, ht⟩ := writeBodyItemToFile_fails h.fits hopened post
      (.inr (.inr (.inr hechos)))
    obtain rfl := ht.resolve_right fun hsize => hsize.1 hvalid.bodyPartSize
    refine ⟨file, ?_, fun _ hother => hother⟩
    rw [handleItem_body h.h5, bind_error hrun]
    exact h.of_sameFile hsame
  have hrun := writeBodyItemToFile_eq h.fits hopened h.usable.isOpen_opened hechos post hvalid.groups
    hvalid.bodyPartSize
  have heffect := fun name group => bodyEffect_cases data post.parts name group
  have hcurrent := h.seen file h.current
  have hparts : ∀ change ∈ post.parts.flatMap (partChanges data), ∀ file' : H5File,
      (file'.attrs = file.attrs ∧ GroupsUploaded post file' ∧
        ∀ entry ∈ file'.groups, entry.2.stored = true → entry.2.uploaded = true) →
      ((change file').attrs = file.attrs ∧ GroupsUploaded post (change file') ∧
        ∀ entry ∈ (change file').groups, entry.2.stored = true → entry.2.uploaded = true) := by
    intro change hchange
    obtain ⟨part, hpart, hchange⟩ := List.mem_flatMap.mp hchange
    exact partChanges_storedUploaded hpart hchange
  -- every file on the way to the last part has stored groups that are uploaded
  have hhealthy := h.record_stored (DataState.h5_storeBodies data hopened post.parts)
    (h.fits.mapGroups (bodyEffect_sameLayout _))
    (by rw [DataState.isOpen_storeBodies]; exact h.usable.isOpen_opened)
    (by rw [DataState.storeBodies, clock_writes, hsame.clock]) rfl
    (all_of_mapGroups fun name group => (heffect name group).2.2)
    (by simp [allUploaded, Function.comp_def, (heffect _ _).1])
    (by
      rw [← partsChanges_file]
      exact (writes_invariant hparts ⟨rfl, huploaded, hcurrent.groups⟩).2.2)
    fun seen hseen => by
      rcases mem_published_writes hparts hopened ⟨rfl, huploaded, hcurrent.groups⟩ hseen with
        hseen | ⟨hattrs, -, hgroups⟩
      · exact h.seen seen (hsame.published ▸ hseen)
      · exact hcurrent.of_attrs hattrs hgroups
  have hstate := congrArg stateOf ((handleItem_body h.h5 post).trans (bind_ok hrun))
  have hafter := hhealthy.of_sameFile (keepsFile_finishBody _)
  rw [← hstate] at hafter
  refine ⟨_, hafter, fun other hother entry hmem => ?_⟩
  rw [H5File.groups_record] at hmem
  exact hother.mapGroups (fun name group => (heffect name group).1.trans) entry hmem

/-- **Attributes step.**  The attributes of a post upload its groups. -/
theorem attributes_healthy (h : Healthy data keepFilesOpen s file) {post : ValuePost}
    (hvalid : post.Valid data) :
    ∃ file',
      Healthy data keepFilesOpen (stateOf (handleItem keepFilesOpen post.attributesItem s)) file' ∧
      GroupsUploaded post file' ∧
      ∀ other, GroupsUploaded other file → GroupsUploaded other file' := by
  have hsame : SameFile keepFilesOpen s (s.opened keepFilesOpen) := sameFile_opened s
  have hopened := hsame.h5.trans h.h5
  have hrun := writeAttributesItemToFile_eq h.fits hopened h.usable.isOpen_opened post hvalid.groups
    h.uploadedFlag
  have heffect := fun name group =>
    entriesEffect_cases post.entries_ne_uploaded_false name group
  have hcurrent := h.seen file h.current
  have hentries : ∀ change ∈ post.entries.map entryChange, ∀ file' : H5File,
      (file'.attrs = file.attrs ∧
        ∀ entry ∈ file'.groups, entry.2.stored = true → entry.2.uploaded = true) →
      ((change file').attrs = file.attrs ∧
        ∀ entry ∈ (change file').groups, entry.2.stored = true → entry.2.uploaded = true) := by
    intro change hchange
    obtain ⟨entry, hentry, rfl⟩ := List.mem_map.mp hchange
    exact entryChange_storedUploaded hentry
  have hhealthy := h.record_uploaded (DataState.h5_applyEntries hopened post.entries)
    (h.fits.mapGroups (entriesEffect_sameLayout _))
    (by rw [DataState.isOpen_applyEntries]; exact h.usable.isOpen_opened)
    (by rw [DataState.applyEntries, clock_writes, hsame.clock]) rfl
    (by simp [allStored, Function.comp_def, (heffect _ _).1])
    (all_of_mapGroups fun name group => (heffect name group).2.2)
    (by
      rw [← entryChanges_file]
      exact (writes_invariant hentries ⟨rfl, hcurrent.groups⟩).2)
    fun seen hseen => by
      rcases mem_published_writes hentries hopened ⟨rfl, hcurrent.groups⟩ hseen with
        hseen | ⟨hattrs, hgroups⟩
      · exact h.seen seen (hsame.published ▸ hseen)
      · exact hcurrent.of_attrs hattrs hgroups
  have hstate := congrArg stateOf ((handleItem_attributes h.h5 post).trans (bind_ok hrun))
  have hafter := hhealthy.of_sameFile (keepsFile_finishItem _)
  rw [← hstate] at hafter
  refine ⟨_, hafter, fun entry hmem => ?_, fun other hother entry hmem => ?_⟩
  · rw [H5File.groups_record] at hmem
    exact groupsUploaded_entries post entry hmem
  · rw [H5File.groups_record] at hmem
    exact hother.mapGroups (fun name group => (heffect name group).2.2) entry hmem

/-- What a reader sees while the file is created. -/
def Blank (file : H5File) : Prop :=
  (∀ entry ∈ file.groups, entry.2.stored = false) ∧ ¬ file.isSet "cwa_stored" ∧
    ∀ name time, file.attrs name ≠ some (.time time)

theorem Blank.storedUploaded (h : Blank file) : StoredUploaded file where
  groups := fun entry hmem hstored => by
    rw [h.1 entry hmem] at hstored
    cases hstored
  flag := fun hset => absurd hset h.2.1
  times := fun time htime => absurd htime (h.2.2 _ time)

theorem toAttr_ne_time {value : JsonValue} {result : AttrValue} (h : value.toAttr = .ok result)
    (time : ℕ) : result ≠ .time time := by
  rintro rfl
  cases value with
  | number value =>
      cases value <;> simp only [JsonValue.toAttr] at h <;> split at h <;> cases h
  | text value =>
      simp only [JsonValue.toAttr, npString] at h
      split at h <;> cases h
  | array values =>
      simp only [JsonValue.toAttr] at h
      split at h <;> cases h
  | _ => cases h

theorem npString_ne_time {text : String} {result : AttrValue} (h : npString text = .ok result)
    (time : ℕ) : result ≠ .time time := by
  rintro rfl
  unfold npString at h
  split at h <;> cases h

/-- The values of a creation are no time stamps, and `cwa_stored` is not set. -/
theorem values_blank (havoids : data.Avoids "cwa_stored") {entry : String × AttrValue}
    (hmem : entry ∈ data.values) :
    (∀ time, entry.2 ≠ .time time) ∧ (entry.1 = "cwa_stored" → entry.2 = .bool false) := by
  obtain ⟨⟨name, value⟩, hentry, heq⟩ := List.mem_filterMap.mp hmem
  obtain ⟨result, hresult, rfl⟩ := Option.map_eq_some_iff.mp heq
  have hvalue : value = .ok result := by
    cases value with
    | error exception => cases hresult
    | ok value => cases hresult; rfl
  subst hvalue
  obtain ⟨⟨name', value⟩, hraw, hchecked⟩ := List.mem_map.mp hentry
  obtain rfl : name' = name := congrArg Prod.fst hchecked
  have hvalue : value = .ok result := Creation.eq_of_checked (congrArg Prod.snd hchecked)
  rcases List.mem_append.mp hraw with hown | hposted
  · simp only [Creation.ownAttributes, List.mem_cons, Prod.mk.injEq, List.not_mem_nil,
      or_false] at hown
    rcases hown with ⟨rfl, h⟩ | ⟨rfl, h⟩ | ⟨rfl, h⟩ | ⟨rfl, h⟩ | ⟨rfl, h⟩ | ⟨rfl, h⟩ | ⟨rfl, h⟩ |
      ⟨rfl, h⟩ | ⟨rfl, h⟩ | ⟨rfl, h⟩ | ⟨rfl, h⟩
    · exact ⟨npString_ne_time (h.symm.trans hvalue), by simp⟩
    · exact ⟨npString_ne_time (h.symm.trans hvalue), by simp⟩
    · exact ⟨npString_ne_time (h.symm.trans hvalue), by simp⟩
    all_goals
      cases hvalue.symm.trans h
      simp
  · obtain ⟨posted, hgiven, heq⟩ := List.mem_map.mp hposted
    cases heq
    exact ⟨toAttr_ne_time hvalue, fun hname => absurd hname (havoids posted hgiven)⟩

theorem changes_blank (havoids : data.Avoids "cwa_stored") {change : H5File → H5File}
    (hchange : change ∈ data.changes) (file : H5File) (h : Blank file) : Blank (change file) := by
  obtain ⟨hgroups, hset, htime⟩ := h
  rcases List.mem_append.mp hchange with hchange | hchange
  · obtain ⟨entry, hmem, rfl⟩ := List.mem_map.mp hchange
    obtain ⟨hvalue, hstored⟩ := values_blank havoids hmem
    refine ⟨hgroups, ?_, fun name time hname => ?_⟩
    · by_cases hname : "cwa_stored" = entry.1
      · simp [H5File.isSet, ← hname, hstored hname.symm, AttrValue.truthy]
      · rwa [isSet_congr (Function.update_of_ne hname _ _)]
    · by_cases heq : name = entry.1
      · rw [heq, H5File.attrs_setAttr, Function.update_self] at hname
        exact hvalue time (Option.some.inj hname)
      · rw [H5File.attrs_setAttr, Function.update_of_ne heq] at hname
        exact htime name time hname
  · obtain ⟨i, -, rfl⟩ := List.mem_map.mp hchange
    refine ⟨fun entry hmem => ?_, hset, htime⟩
    rcases List.mem_append.mp hmem with hmem | hmem
    · exact hgroups entry hmem
    · rw [List.mem_singleton.mp hmem]
      rfl

theorem Created.healthy (created : Created keepFilesOpen) (hslices : 0 < created.data.slices)
    (havoids : ∀ name ∈ ["cwa_stored", "cwa_uploaded"], created.data.Avoids name) :
    Healthy created.data keepFilesOpen created.state created.file := by
  have hempty : Blank {} := ⟨fun _ hmem => (by cases hmem), by simp [H5File.isSet], by simp⟩
  have hchanges : ∀ change ∈ created.data.changes, ∀ file, Blank file → Blank (change file) :=
    fun _ hchange => changes_blank (havoids _ (by simp)) hchange
  have hblank : Blank created.file := writes_invariant hchanges hempty
  have hstored : allStored created.file = false := created.not_all_groups hslices rfl
  have huploaded : allUploaded created.file = false :=
    created.not_all_groups hslices rfl
  refine ⟨created.h5_eq, created.fits, ?_, ?_, ?_, by simp [hstored], by simp [huploaded],
    fun time htime => absurd htime (hblank.2.2 _ time), ?_, ?_⟩
  · intro hkeep _
    rw [created.state_eq.1]
    exact hkeep
  · rw [hstored]
    exact created.attrs_file (by simp [Creation.ownAttributes]) (havoids _ (by simp))
  · rw [huploaded]
    exact created.attrs_file (by simp [Creation.ownAttributes]) (havoids _ (by simp))
  · rw [created.state_eq.1]
    exact mem_published_of_writes rfl (by simp) created.data.changes
  · intro seen hmem
    rw [created.state_eq.1] at hmem
    rcases mem_published_writes hchanges rfl hempty hmem with hmem | hseen
    · rw [List.mem_singleton.mp hmem]
      exact hempty.storedUploaded
    · exact hseen.storedUploaded

end Items

end ComputeWebApp.Api
