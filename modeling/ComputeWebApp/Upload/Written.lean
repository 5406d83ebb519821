import Mathlib.Data.List.Perm.Basic
import ComputeWebApp.Upload.OrderIndependence
import ComputeWebApp.Upload.Release

/-!
# What the items of a data leave

`Written` says what the file of a data is once some items of posted values have been handled, in
whatever order and whether or not the worker keeps the file open: the groups are those of the
creation under the effects of the items, the totals of a kind are recomputed as soon as an item of
that kind has been handled, and nothing else has changed.  Posted attributes may have the names of
the totals, the two flags excepted.

What is on disk is then the same, apart from the time stamps, for every order of the items and for
both ways to handle the file (`Stands.onDisk_eq`).
-/

namespace ComputeWebApp.Api

open ByteStream

/-! ## Effects of items -/

namespace Item

/-- The groups that an item writes to. -/
def groupNames : Item → List String
  | .creation _ => []
  | .body groupIds _ => groupIds.map groupName
  | .attributes entries => entries.map AttributeEntry.groupId

def isBody : Item → Bool
  | .body _ _ => true
  | _ => false

def isAttributes : Item → Bool
  | .attributes _ => true
  | _ => false

/-- What an item of a value does to the group of each name. -/
def effect (data : Creation) : Item → String → Group → Group
  | .creation _ => fun _ group => group
  | .body groupIds content => bodyEffect data (bodyParts groupIds content)
  | .attributes entries => entriesEffect entries

/-- Two items of one kind have no group in common. -/
def Apart (first second : Item) : Prop :=
  first.isBody = second.isBody → first.groupNames.Disjoint second.groupNames

theorem Apart.symm {first second : Item} (h : first.Apart second) : second.Apart first :=
  fun hkind _ hsecond hfirst => h hkind.symm hfirst hsecond

theorem effect_of_not_mem {data : Creation} {item : Item} {name : String}
    (h : name ∉ item.groupNames) (group : Group) : item.effect data name group = group := by
  cases item with
  | creation => rfl
  | body groupIds content =>
      refine bodyEffect_of_not_mem (fun part hmem hname => h ?_) group
      have hid : part.1 ∈ groupIds := by
        rw [← map_fst_bodyParts groupIds content]
        exact List.mem_map_of_mem hmem
      exact hname ▸ List.mem_map_of_mem hid
  | attributes entries =>
      refine entriesEffect_of_not_mem (fun entry hmem hname => h ?_) group
      rw [hname]
      exact List.mem_map_of_mem hmem

/-- Items that are apart commute: on a group of both of them one is a body and the other one
attributes. -/
theorem Apart.effect_comm {first second : Item} (h : first.Apart second) (data : Creation)
    (name : String) (group : Group) :
    second.effect data name (first.effect data name group) =
      first.effect data name (second.effect data name group) := by
  by_cases hfirst : name ∈ first.groupNames
  · by_cases hsecond : name ∈ second.groupNames
    · have hkind : first.isBody ≠ second.isBody := fun hkind => h hkind hfirst hsecond
      cases first with
      | creation => rfl
      | body groupIds content =>
          cases second with
          | creation => rfl
          | body groupIds' content' => exact absurd rfl hkind
          | attributes entries => exact (body_entries_comm _ _ _).symm
      | attributes entries =>
          cases second with
          | creation => rfl
          | body groupIds content => exact body_entries_comm _ _ _
          | attributes entries' => exact absurd rfl hkind
    · rw [effect_of_not_mem hsecond, effect_of_not_mem hsecond]
  · rw [effect_of_not_mem hfirst, effect_of_not_mem hfirst]

end Item

/-- Each group is posted at most once: one body and one list of attributes for it. -/
def PostedOnce (items : List Item) : Prop := items.Pairwise Item.Apart

theorem PostedOnce.perm {items items' : List Item} (h : PostedOnce items)
    (hperm : items.Perm items') : PostedOnce items' :=
  List.Pairwise.perm h hperm Item.Apart.symm

/-- The items of a list, the last one first. -/
def writtenEffect (data : Creation) (items : List Item) (name : String) (group : Group) : Group :=
  items.foldr (fun item group => item.effect data name group) group

/-- The order of the items makes no difference to the groups. -/
theorem writtenEffect_perm {data : Creation} {items items' : List Item} (h : PostedOnce items)
    (hperm : items.Perm items') (name : String) (group : Group) :
    writtenEffect data items name group = writtenEffect data items' name group := by
  have hcomm : ∀ first ∈ items, ∀ second ∈ items, ∀ group,
      second.effect data name (first.effect data name group) =
        first.effect data name (second.effect data name group) := by
    refine fun first hfirst second hsecond => List.Pairwise.forall_of_forall_of_flip
      (R := fun first second : Item => ∀ group,
        second.effect data name (first.effect data name group) =
          first.effect data name (second.effect data name group))
      (fun _ _ _ => rfl) (h.imp ?_) (h.imp ?_) hfirst hsecond
    · exact fun hapart group => hapart.effect_comm data name group
    · exact fun hapart group => (hapart.effect_comm data name group).symm
  exact hperm.foldr_eq' (fun first hfirst second hsecond group =>
    hcomm first hfirst second hsecond group) group

/-! ## Totals -/

/-- A time stamp without its time. -/
def AttrValue.untimed : AttrValue → AttrValue
  | .time _ => .time 0
  | value => value

/-- The totals of a kind: those of the first file until an item of the kind has been handled, and
then those of the groups. -/
structure TotalsWritten (totals : Totals) (flag : Group → Bool) (bytes : Group → ℕ)
    (written : Bool) (first file : H5File) : Prop where
  bytes : file.attrs totals.bytes =
    if written = true then some (.int ((file.groups.map fun entry => bytes entry.2).sum : ℕ))
    else first.attrs totals.bytes
  progress : file.attrs totals.progress =
    if written = true then some (.int (progressOf flag file)) else first.attrs totals.progress
  endTime : (file.attrs totals.endTime).map AttrValue.untimed =
    if (file.groups.all fun entry => flag entry.2) = true then some (.time 0)
    else (first.attrs totals.endTime).map AttrValue.untimed

section Totals

variable {totals other : Totals} {flag : Group → Bool} {bytes : Group → ℕ} {written : Bool}
  {first file : H5File} {effect : String → Group → Group} {already : Bool} {vars : Scan} {time : ℕ}

/-- An item of the kind: the totals are recomputed, and the end time is written when the last
group is done. -/
theorem TotalsWritten.record (h : TotalsWritten totals flag bytes written first file)
    (htotals : totals.Distinct)
    (heffect : ∀ name group, flag group = true → flag (effect name group) = true)
    (halready : already = true → (file.groups.all fun entry => flag entry.2) = true) :
    TotalsWritten totals flag bytes true first
      ((file.mapGroups effect).record totals (scan flag bytes (file.mapGroups effect).groups)
        already time) where
  bytes := by rw [attrs_record_bytes htotals, scan_eq, H5File.groups_record, if_pos rfl]
  progress := by
    rw [attrs_record_progress htotals, percentage_scan, if_pos rfl,
      progressOf_congr (H5File.groups_record ..)]
  endTime := by
    rw [attrs_record_endTime htotals, H5File.groups_record, scan_eq]
    cases hall : (file.mapGroups effect).groups.all fun entry => flag entry.2 with
    | true =>
        cases halready' : already with
        | false => rfl
        | true =>
            -- it has been written before
            refine h.endTime.trans ?_
            rw [if_pos (halready halready')]
            rfl
    | false =>
        have hbefore : ¬(file.groups.all fun entry => flag entry.2) = true := fun hdone => by
          rw [all_of_mapGroups heffect hdone] at hall
          cases hall
        refine h.endTime.trans ?_
        rw [if_neg hbefore]
        rfl

/-- An item of the other kind. -/
theorem TotalsWritten.record_other (h : TotalsWritten totals flag bytes written first file)
    (hdisjoint : ∀ name ∈ [totals.bytes, totals.progress, totals.endTime],
      name ∉ [other.bytes, other.progress, other.endTime, other.flag])
    (hflag : ∀ name group, flag (effect name group) = flag group)
    (hbytes : ∀ name group, bytes (effect name group) = bytes group) :
    TotalsWritten totals flag bytes written first
      ((file.mapGroups effect).record other vars already time) := by
  have hsame : ∀ name ∈ [totals.bytes, totals.progress, totals.endTime],
      ((file.mapGroups effect).record other vars already time).attrs name = file.attrs name :=
    fun name hname => attrs_record_of_not_mem (hdisjoint name hname)
  refine ⟨?_, ?_, ?_⟩
  · rw [hsame _ (by simp), h.bytes, H5File.groups_record]
    simp [Function.comp_def, hbytes]
  · rw [hsame _ (by simp), h.progress, progressOf_congr (H5File.groups_record ..),
      progressOf_mapGroups hflag]
  · have hall : ((file.mapGroups effect).groups.all fun entry => flag entry.2) =
        file.groups.all fun entry => flag entry.2 := by simp [Function.comp_def, hflag]
    rw [hsame _ (by simp), h.endTime, H5File.groups_record, hall]

end Totals

/-! ## The file after some items -/

/-- The item belongs to a valid post of a value. -/
def Creation.Accepts (data : Creation) (item : Item) : Prop :=
  ∃ posted : PostedItem, posted.item = item ∧ posted.post.Valid data

/-- The file of a data that has groups, once some items have been handled after its creation. -/
structure Written {keepFilesOpen : Bool} (created : Created keepFilesOpen) (items : List Item)
    (s : DataState) (file : H5File) : Prop where
  accepted : ∀ item ∈ items, created.data.Accepts item
  flagged : Flagged keepFilesOpen s file
  fits : Fits created.data file
  groups : file.groups = (created.file.mapGroups (writtenEffect created.data items)).groups
  stored : TotalsWritten storeTotals Group.stored Group.storedBytes (items.any Item.isBody)
    created.file file
  uploaded : TotalsWritten uploadTotals Group.uploaded Group.uploadedBytes
    (items.any Item.isAttributes) created.file file
  others : ∀ name ∉ totalsNames, file.attrs name = created.file.attrs name

section Step

variable {keepFilesOpen : Bool} {created : Created keepFilesOpen} {items : List Item} {item : Item}
  {s : DataState} {file : H5File}

/-- A group is not stored as long as no body for it has been handled. -/
theorem stored_writtenEffect {data : Creation} {name : String}
    (haccepted : ∀ item ∈ items, data.Accepts item)
    (hbodies : ∀ item ∈ items, item.isBody = true → name ∉ item.groupNames) (group : Group) :
    (writtenEffect data items name group).stored = group.stored := by
  induction items with
  | nil => rfl
  | cons item rest ih =>
      have hrest := ih (fun item hmem => haccepted item (List.mem_cons_of_mem _ hmem))
        fun item hmem => hbodies item (List.mem_cons_of_mem _ hmem)
      refine Eq.trans ?_ hrest
      obtain ⟨posted, rfl, -⟩ := haccepted item List.mem_cons_self
      cases posted with
      | attributes post => exact (entriesEffect_cases post.entries_ne_uploaded_false name _).1
      | body post =>
          exact congrArg Group.stored (Item.effect_of_not_mem (hbodies _ List.mem_cons_self rfl) _)

theorem Written.allStored_eq_false (h : Written created items s file)
    (honce : PostedOnce (item :: items)) (hitem : created.data.Accepts item)
    (hbody : item.isBody = true) : allStored file = false := by
  obtain ⟨posted, rfl, hvalid⟩ := hitem
  cases posted with
  | attributes post => cases hbody
  | body post =>
      obtain ⟨i, hi⟩ := List.exists_mem_of_ne_nil _ post.nonempty
      have hname : groupName i ∈ (PostedItem.body post).item.groupNames := List.mem_map_of_mem hi
      have hmem : (groupName i, created.data.group) ∈ created.file.groups := by
        rw [created.groups_file]
        exact List.mem_map_of_mem (List.mem_range.mpr (hvalid.groups i hi))
      have hstored := stored_writtenEffect h.accepted (fun other hother hkind hnot =>
        (List.pairwise_cons.mp honce).1 other hother (hbody.trans hkind.symm) hname hnot)
        created.data.group
      rw [allStored, h.groups, List.all_eq_false]
      refine ⟨_, List.mem_map_of_mem hmem, ?_⟩
      rw [hstored]
      exact Bool.false_ne_true

/-- The creation is the start. -/
theorem Created.written (created : Created keepFilesOpen) (hslices : 0 < created.data.slices)
    (havoids : ∀ name ∈ flagNames, created.data.Avoids name) :
    Written created [] created.state created.file := by
  have hstored : allStored created.file = false := created.not_all_groups hslices rfl
  have huploaded : allUploaded created.file = false :=
    created.not_all_groups hslices rfl
  have hflagged : Flagged keepFilesOpen created.state created.file := by
    refine ⟨created.h5_eq, ?_, ?_, ?_, ?_, ?_, ?_⟩
    · rw [hstored]
      exact created.attrs_file (by simp [Creation.ownAttributes]) (havoids _ (by simp [flagNames]))
    · rw [huploaded]
      exact created.attrs_file (by simp [Creation.ownAttributes]) (havoids _ (by simp [flagNames]))
    · rw [hstored, created.state_eq.1]
      rfl
    · rw [created.state_eq.1]
    · rw [hstored, created.state_eq.1]
      simp
    · rw [created.state_eq.1]
  refine ⟨fun _ hmem => absurd hmem List.not_mem_nil, hflagged, created.fits,
    (congrArg H5File.groups created.file.mapGroups_id).symm, ⟨rfl, rfl, ?_⟩, ⟨rfl, rfl, ?_⟩,
    fun _ _ => rfl⟩
  · rw [created.not_all_groups hslices rfl]
    rfl
  · rw [created.not_all_groups hslices rfl]
    rfl

/-- **Step.**  The next item is handled without an exception, and adds what it writes. -/
theorem Written.step (h : Written created items s file) (hitem : created.data.Accepts item)
    (hechos : item.isBody = true → created.data.shape.echos ≠ 0)
    (honce : PostedOnce (item :: items)) :
    ∃ t file', handleItem keepFilesOpen item s = .ok () t ∧
      Written created (item :: items) t file' := by
  have haccepted : ∀ other ∈ item :: items, created.data.Accepts other :=
    List.forall_mem_cons.mpr ⟨hitem, h.accepted⟩
  have hgroups : (file.mapGroups (item.effect created.data)).groups =
      (created.file.mapGroups (writtenEffect created.data (item :: items))).groups := by
    rw [H5File.groups_mapGroups, h.groups, ← H5File.groups_mapGroups, H5File.mapGroups_mapGroups]
    rfl
  have hopen := fun hbody => h.allStored_eq_false honce hitem hbody
  obtain ⟨posted, rfl, hvalid⟩ := hitem
  cases posted with
  | attributes post =>
      have heffect := fun name group =>
        entriesEffect_cases post.entries_ne_uploaded_false name group
      obtain ⟨t, time, hrun, hflagged⟩ := handleItem_attributes_flagged h.fits h.flagged hvalid
      refine ⟨t, _, hrun, haccepted, hflagged, ?_, ?_, ?_, ?_, fun name hname => ?_⟩
      · exact (h.fits.mapGroups (entriesEffect_sameLayout _)).record _ _ _ _
      · rw [H5File.groups_record]
        exact hgroups
      · exact h.stored.record_other (by decide) (fun name group => (heffect name group).1)
          fun name group => (heffect name group).2.1
      · exact h.uploaded.record uploadTotals_distinct (fun name group => (heffect name group).2.2) id
      · rw [attrs_record_of_not_mem fun hmem => hname (by simp_all [totalsNames])]
        exact h.others name hname
  | body post =>
      have heffect := fun name group => bodyEffect_cases created.data post.parts name group
      obtain ⟨t, time, hrun, hflagged⟩ :=
        handleItem_body_flagged h.fits h.flagged (hechos rfl) hvalid (hopen rfl)
      refine ⟨t, _, hrun, haccepted, hflagged, ?_, ?_, ?_, ?_, fun name hname => ?_⟩
      · exact (h.fits.mapGroups (bodyEffect_sameLayout _)).record _ _ _ _
      · rw [H5File.groups_record]
        exact hgroups
      · exact h.stored.record storeTotals_distinct (fun name group => (heffect name group).2.2)
          fun hfalse => absurd hfalse Bool.false_ne_true
      · exact h.uploaded.record_other (by decide) (fun name group => (heffect name group).1)
          fun name group => (heffect name group).2.1
      · rw [attrs_record_of_not_mem fun hmem => hname (by simp_all [totalsNames])]
        exact h.others name hname

end Step

/-! ## What is on disk -/

/-- The file, with time stamps that have no time. -/
def H5File.untimed (file : H5File) : H5File :=
  { file with attrs := fun name => (file.attrs name).map AttrValue.untimed }

@[simp] theorem H5File.groups_untimed (file : H5File) : file.untimed.groups = file.groups := rfl

/-- The file of a data, apart from its time stamps, and whether the marker and its lock file
exist. -/
structure OnDisk where
  h5 : Option H5File
  marker : Bool
  locked : Bool

def DataState.onDisk (s : DataState) : OnDisk := ⟨s.h5.map H5File.untimed, s.marker, s.locked⟩

/-- The state of a created data after some items; no item can be posted for a data without
groups. -/
def Stands {keepFilesOpen : Bool} (created : Created keepFilesOpen) (items : List Item)
    (s : DataState) : Prop :=
  if created.data.slices = 0 then items = [] ∧ s = created.state
  else ∃ file, Written created items s file

theorem TotalsWritten.untimed_eq {totals : Totals} {flag : Group → Bool} {bytes : Group → ℕ}
    {written : Bool} {first file file' : H5File}
    (h : TotalsWritten totals flag bytes written first file)
    (h' : TotalsWritten totals flag bytes written first file')
    (hgroups : file.groups = file'.groups) :
    ∀ name ∈ [totals.bytes, totals.progress, totals.endTime],
      (file.attrs name).map AttrValue.untimed = (file'.attrs name).map AttrValue.untimed := by
  intro name hname
  simp only [List.mem_cons, List.not_mem_nil, or_false] at hname
  rcases hname with rfl | rfl | rfl
  · rw [h.bytes, h'.bytes, hgroups]
  · rw [h.progress, h'.progress, progressOf_congr hgroups]
  · rw [h.endTime, h'.endTime, hgroups]

section OnDisk

variable {keepFilesOpen keepFilesOpen' : Bool} {created : Created keepFilesOpen}
  {created' : Created keepFilesOpen'} {items items' : List Item} {s s' : DataState}
  {file file' : H5File}

theorem Written.untimed_eq (h : Written created items s file) (h' : Written created' items' s' file')
    (hdata : created.data = created'.data) (honce : PostedOnce items)
    (hperm : items.Perm items') : file.untimed = file'.untimed := by
  have hfirst : created'.file = created.file := by rw [Created.file, Created.file, hdata]
  have hgroups : file.groups = file'.groups := by
    rw [h.groups, h'.groups, hfirst, hdata, H5File.groups_mapGroups, H5File.groups_mapGroups]
    exact List.map_congr_left fun entry _ =>
      congrArg (Prod.mk entry.1) (writtenEffect_perm honce hperm _ _)
  have hstored := h'.stored
  have huploaded := h'.uploaded
  rw [hfirst, ← hperm.any_eq] at hstored huploaded
  have hattrs : ∀ name, (file.attrs name).map AttrValue.untimed =
      (file'.attrs name).map AttrValue.untimed := by
    intro name
    by_cases hname : name ∈ totalsNames
    · have hkind : name ∈ [storeTotals.bytes, storeTotals.progress, storeTotals.endTime] ∨
          name ∈ [uploadTotals.bytes, uploadTotals.progress, uploadTotals.endTime] ∨
          name = "cwa_stored" ∨ name = "cwa_uploaded" := by
        revert name
        decide
      rcases hkind with hkind | hkind | rfl | rfl
      · exact h.stored.untimed_eq hstored hgroups name hkind
      · exact h.uploaded.untimed_eq huploaded hgroups name hkind
      · rw [h.flagged.stored, h'.flagged.stored, allStored, allStored, hgroups]
      · rw [h.flagged.uploaded, h'.flagged.uploaded, allUploaded, allUploaded, hgroups]
    · rw [h.others name hname, h'.others name hname, hfirst]
  rw [H5File.untimed, H5File.untimed, hgroups, funext hattrs]

/-- **What is on disk** does not depend on the order of the items, nor on whether the worker keeps
the file open. -/
theorem Stands.onDisk_eq (h : Stands created items s) (h' : Stands created' items' s')
    (hdata : created.data = created'.data) (honce : PostedOnce items)
    (hperm : items.Perm items') : s.onDisk = s'.onDisk := by
  unfold Stands at h h'
  rw [← hdata] at h'
  by_cases hslices : created.data.slices = 0
  · rw [if_pos hslices] at h h'
    rw [h.2, h'.2, created.state_eq.1, created'.state_eq.1, Created.file, Created.file, hdata]
    rfl
  · rw [if_neg hslices] at h h'
    obtain ⟨file, hwritten⟩ := h
    obtain ⟨file', hwritten'⟩ := h'
    have huntimed := hwritten.untimed_eq hwritten' hdata honce hperm
    have hgroups : file.groups = file'.groups := by
      simpa using congrArg H5File.groups huntimed
    have hstored : allStored file = allStored file' := by rw [allStored, allStored, hgroups]
    rw [DataState.onDisk, DataState.onDisk, hwritten.flagged.h5, hwritten'.flagged.h5,
      hwritten.flagged.marker, hwritten'.flagged.marker, hwritten.flagged.locked,
      hwritten'.flagged.locked, hstored, Option.map_some, Option.map_some, huntimed]

theorem Created.stands (created : Created keepFilesOpen)
    (havoids : ∀ name ∈ flagNames, created.data.Avoids name) : Stands created [] created.state := by
  unfold Stands
  split
  · exact ⟨rfl, rfl⟩
  · rename_i hslices
    exact ⟨_, created.written (Nat.pos_of_ne_zero hslices) havoids⟩

theorem Stands.h5 (h : Stands created items s) : s.h5.isSome = true := by
  unfold Stands at h
  split at h
  · rw [h.2, created.h5_eq]
    rfl
  · obtain ⟨file, hwritten⟩ := h
    rw [hwritten.flagged.h5]
    rfl

theorem Stands.step (h : Stands created items s) {item : Item} (hitem : created.data.Accepts item)
    (hechos : item.isBody = true → created.data.shape.echos ≠ 0)
    (honce : PostedOnce (item :: items)) :
    ∃ t, handleItem keepFilesOpen item s = .ok () t ∧ Stands created (item :: items) t := by
  have hslices : created.data.slices ≠ 0 := by
    obtain ⟨posted, -, hvalid⟩ := hitem
    obtain ⟨i, hi⟩ := List.exists_mem_of_ne_nil _ posted.post.nonempty
    exact Nat.ne_zero_of_lt (hvalid.groups i hi)
  unfold Stands at h
  rw [if_neg hslices] at h
  obtain ⟨file, hwritten⟩ := h
  obtain ⟨t, file', hrun, hwritten'⟩ := hwritten.step hitem hechos honce
  refine ⟨t, hrun, ?_⟩
  unfold Stands
  rw [if_neg hslices]
  exact ⟨file', hwritten'⟩

end OnDisk

end ComputeWebApp.Api
