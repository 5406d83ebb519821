import Mathlib.Data.List.Induction
import Mathlib.Data.List.Perm.Basic
import ComputeWebApp.Upload.Agreement

/-!
# Upload order independence

The items of valid posts are handled without an exception in every order, and the order makes
no difference to the state that is reached, apart from the time stamps.

* On the groups the items commute (`effect_comm`), so that a permutation of them has the same
  effect.
* Everything else in the state is a function of the groups: `Consistent` holds of the state
  after each item (`handleItem_consistent`).
-/

namespace ComputeWebApp.Api

open ByteStream

/-! ## Posts -/

/-- The items of some posts, in the order of the posts. -/
def postedItems (posts : List ValuePost) : List PostedItem :=
  posts.flatMap fun post => [.attributes post, .body post]

/-- The worker handles items one after the other, without an exception. -/
def handleAll (keepFilesOpen : Bool) (items : List PostedItem) : WorkerM Unit :=
  forM items fun item => handleItem keepFilesOpen item.item

/-! ## The groups -/

section Effects

variable {data : Creation} {name : String}

/-- What an item does to the group of each name. -/
def PostedItem.effect (data : Creation) : PostedItem → String → Group → Group
  | .attributes post => entriesEffect post.entries
  | .body post => bodyEffect data post.parts

def itemsEffect (data : Creation) (items : List PostedItem) (name : String) (group : Group) :
    Group :=
  items.foldl (fun group item => item.effect data name group) group

theorem bodyEffect_of_not_mem {parts : List (ℕ × Bytes)}
    (h : ∀ part ∈ parts, name ≠ groupName part.1) (group : Group) :
    bodyEffect data parts name group = group := by
  induction parts generalizing group with
  | nil => rfl
  | cons part rest ih =>
      rw [bodyEffect, List.foldl_cons, if_neg (h part List.mem_cons_self)]
      exact ih (fun part hmem => h part (List.mem_cons_of_mem _ hmem)) group

theorem entriesEffect_of_not_mem {entries : List AttributeEntry}
    (h : ∀ entry ∈ entries, name ≠ entry.groupId) (group : Group) :
    entriesEffect entries name group = group := by
  induction entries generalizing group with
  | nil => rfl
  | cons entry rest ih =>
      rw [entriesEffect, List.foldl_cons, if_neg (h entry List.mem_cons_self)]
      exact ih (fun entry hmem => h entry (List.mem_cons_of_mem _ hmem)) group

/-- An item leaves the groups alone that its post does not name. -/
theorem effect_of_not_mem {item : PostedItem} (h : ∀ i ∈ item.post.groupIds, name ≠ groupName i)
    (group : Group) : item.effect data name group = group := by
  cases item with
  | attributes post =>
      refine entriesEffect_of_not_mem (fun entry hmem => ?_) group
      obtain ⟨i, hi, hname⟩ := ValuePost.mem_entries hmem
      rw [hname]
      exact h i hi
  | body post =>
      exact bodyEffect_of_not_mem (fun part hmem => h _ (ValuePost.mem_parts hmem).1) group

/-- Attributes and bodies write to different fields. -/
theorem body_entries_comm (parts : List (ℕ × Bytes)) (entries : List AttributeEntry)
    (group : Group) :
    bodyEffect data parts name (entriesEffect entries name group) =
      entriesEffect entries name (bodyEffect data parts name group) := by
  have hpart : ∀ (part : ℕ × Bytes) (group : Group),
      (if name = groupName part.1 then storePart data part.2 (entriesEffect entries name group)
        else entriesEffect entries name group) =
      entriesEffect entries name
        (if name = groupName part.1 then storePart data part.2 group else group) := by
    intro part group
    split
    · induction entries generalizing group with
      | nil => rfl
      | cons entry rest ih =>
          refine (ih _).trans (congrArg (entriesEffect rest name) ?_)
          by_cases hname : name = entry.groupId
          · simp only [if_pos hname]
            cases entry.assigned <;> rfl
          · simp only [if_neg hname]
    · rfl
  induction parts generalizing group with
  | nil => rfl
  | cons part rest ih =>
      refine Eq.trans (congrArg (bodyEffect data rest name) (hpart part group)) (ih _)

/-- Two items of one post, or of posts without a common group, commute. -/
theorem effect_comm {first second : PostedItem}
    (h : first.post = second.post ∨ first.post.groupIds.Disjoint second.post.groupIds)
    (name : String) (group : Group) :
    second.effect data name (first.effect data name group) =
      first.effect data name (second.effect data name group) := by
  by_cases hfirst : ∃ i ∈ first.post.groupIds, name = groupName i
  · by_cases hsecond : ∃ i ∈ second.post.groupIds, name = groupName i
    · -- both write to the group, so they are of one post
      obtain ⟨i, hi, hname⟩ := hfirst
      obtain ⟨j, hj, hname'⟩ := hsecond
      obtain rfl := groupName_injective (hname.symm.trans hname')
      have hpost := h.resolve_right fun hdisjoint => hdisjoint hi hj
      cases first with
      | attributes post =>
          cases second with
          | attributes post' => cases hpost; rfl
          | body post' => exact body_entries_comm _ _ _
      | body post =>
          cases second with
          | attributes post' => exact (body_entries_comm _ _ _).symm
          | body post' => cases hpost; rfl
    · have hnot : ∀ i ∈ second.post.groupIds, name ≠ groupName i :=
        fun i hi hname => hsecond ⟨i, hi, hname⟩
      rw [effect_of_not_mem hnot, effect_of_not_mem hnot]
  · have hnot : ∀ i ∈ first.post.groupIds, name ≠ groupName i :=
      fun i hi hname => hfirst ⟨i, hi, hname⟩
    rw [effect_of_not_mem hnot, effect_of_not_mem hnot]

/-- The posts have no group in common. -/
def DisjointPosts (posts : List ValuePost) : Prop :=
  posts.Pairwise fun first second => first.groupIds.Disjoint second.groupIds

theorem mem_postedItems {posts : List ValuePost} {item : PostedItem} :
    item ∈ postedItems posts ↔ item.post ∈ posts := by
  rw [postedItems, List.mem_flatMap]
  constructor
  · rintro ⟨post, hpost, hitem⟩
    rcases List.mem_cons.mp hitem with rfl | hitem
    · exact hpost
    · rw [List.mem_singleton.mp hitem]
      exact hpost
  · intro h
    refine ⟨item.post, h, ?_⟩
    cases item <;> simp [PostedItem.post]

theorem DisjointPosts.eq_or_disjoint {posts : List ValuePost} (h : DisjointPosts posts)
    {first second : ValuePost} (hfirst : first ∈ posts) (hsecond : second ∈ posts) :
    first = second ∨ first.groupIds.Disjoint second.groupIds := by
  refine List.Pairwise.forall_of_forall_of_flip (R := fun first second : ValuePost =>
    first = second ∨ first.groupIds.Disjoint second.groupIds) (fun _ _ => .inl rfl) ?_ ?_
    hfirst hsecond
  · exact h.imp .inr
  · exact h.imp fun hdisjoint => .inr fun _ hsecond hfirst => hdisjoint hfirst hsecond

/-- **The items commute.**  A permutation of the items has the same effect on the groups. -/
theorem itemsEffect_perm {posts : List ValuePost} (hdisjoint : DisjointPosts posts)
    {first second : List PostedItem} (hfirst : first.Perm (postedItems posts))
    (hsecond : second.Perm (postedItems posts)) (name : String) (group : Group) :
    itemsEffect data first name group = itemsEffect data second name group := by
  refine (hfirst.trans hsecond.symm).foldl_eq' (fun x hx y hy group => ?_) group
  exact effect_comm (hdisjoint.eq_or_disjoint (mem_postedItems.mp (hfirst.mem_iff.mp hx))
    (mem_postedItems.mp (hfirst.mem_iff.mp hy))) name group

theorem itemsEffect_of_not_mem {items : List PostedItem}
    (h : ∀ item ∈ items, ∀ i ∈ item.post.groupIds, name ≠ groupName i) (group : Group) :
    itemsEffect data items name group = group := by
  induction items generalizing group with
  | nil => rfl
  | cons item rest ih =>
      rw [itemsEffect, List.foldl_cons, effect_of_not_mem (h item List.mem_cons_self)]
      exact ih (fun item hmem => h item (List.mem_cons_of_mem _ hmem)) group

end Effects

/-! ## The rest of the state -/

/-- `⌊100 * k / n⌋` for `k` of `n` groups. -/
def progressOf (flag : Group → Bool) (file : H5File) : ℕ :=
  100 * (file.groups.countP fun entry => flag entry.2) / file.groups.length

/-- The flags of the file, the marker and the file object are what the groups of the file make
them. -/
structure Flagged (keepFilesOpen : Bool) (s : DataState) (file : H5File) : Prop where
  h5 : s.h5 = some file
  stored : file.attrs "cwa_stored" = some (.bool (allStored file))
  uploaded : file.attrs "cwa_uploaded" = some (.bool (allUploaded file))
  marker : s.marker = !allStored file
  locked : s.locked = false
  cached : s.cached = (keepFilesOpen && !(allStored file && allUploaded file))
  isOpen : s.isOpen = s.cached

/-- What the state is, apart from the time stamps, when its groups are those of the file. -/
structure Consistent (keepFilesOpen : Bool) (s : DataState) (file : H5File) : Prop where
  h5 : s.h5 = some file
  agree : Agree file
  storeProgress : file.attrs storeTotals.progress = some (.int (progressOf Group.stored file))
  uploadProgress : file.attrs uploadTotals.progress = some (.int (progressOf Group.uploaded file))
  marker : s.marker = !allStored file
  locked : s.locked = false
  cached : s.cached = (keepFilesOpen && !(allStored file && allUploaded file))
  isOpen : s.isOpen = s.cached

/-- The attributes that an item may write to. -/
def totalsNames : List String :=
  [storeTotals, uploadTotals].flatMap fun totals =>
    [totals.bytes, totals.progress, totals.endTime, totals.flag]

/-- What an item makes of the file: the groups change, and no attribute but the totals. -/
structure Writes (data : Creation) (item : PostedItem) (file file' : H5File) : Prop where
  groups : file'.groups = (file.mapGroups (item.effect data)).groups
  others : ∀ name ∉ totalsNames, file'.attrs name = file.attrs name

section Step

variable {data : Creation} {keepFilesOpen : Bool} {s : DataState} {file : H5File}

theorem progressOf_congr {flag : Group → Bool} {file' : H5File}
    (h : file'.groups = file.groups) : progressOf flag file' = progressOf flag file := by
  rw [progressOf, h]
  rfl

theorem progressOf_mapGroups {flag : Group → Bool} {effect : String → Group → Group}
    (h : ∀ name group, flag (effect name group) = flag group) :
    progressOf flag (file.mapGroups effect) = progressOf flag file := by
  simp [progressOf, List.countP_map, Function.comp_def, h]

theorem percentage_scan (flag : Group → Bool) (bytes : Group → ℕ) (file : H5File) :
    (scan flag bytes file.groups).percentage = progressOf flag file := by
  rw [scan_eq]
  rfl

theorem Consistent.flagged (h : Consistent keepFilesOpen s file) : Flagged keepFilesOpen s file :=
  ⟨h.h5, h.agree.stored.flag, h.agree.uploaded.flag, h.marker, h.locked, h.cached, h.isOpen⟩

theorem Flagged.consistent (h : Flagged keepFilesOpen s file) (hagree : Agree file)
    (hstored : file.attrs storeTotals.progress = some (.int (progressOf Group.stored file)))
    (huploaded : file.attrs uploadTotals.progress = some (.int (progressOf Group.uploaded file))) :
    Consistent keepFilesOpen s file :=
  ⟨h.h5, hagree, hstored, huploaded, h.marker, h.locked, h.cached, h.isOpen⟩

theorem Flagged.opened (h : Flagged keepFilesOpen s file) :
    s.opened keepFilesOpen = { s with isOpen := true, cached := keepFilesOpen } := by
  refine opened_eq fun hcached => ⟨?_, h.isOpen.trans hcached⟩
  rw [h.cached, Bool.and_eq_true] at hcached
  exact hcached.1

/-- Storing a body does not raise as long as some group is not stored. -/
theorem handleItem_body_flagged (hfit : Fits data file) (hs : Flagged keepFilesOpen s file)
    (hechos : data.shape.echos ≠ 0) {post : ValuePost} (hvalid : post.Valid data)
    (hopen : allStored file = false) :
    ∃ t time, handleItem keepFilesOpen post.bodyItem s = .ok () t ∧
      Flagged keepFilesOpen t ((file.mapGroups (bodyEffect data post.parts)).record storeTotals
        (storeScan (file.mapGroups (bodyEffect data post.parts))) false time) := by
  have hopened : (s.opened keepFilesOpen).h5 = some file := (sameFile_opened s).h5.trans hs.h5
  have hrun := writeBodyItemToFile_eq hfit hopened (by rw [hs.opened]) hechos post hvalid.groups
    hvalid.bodyPartSize
  have heffect := fun name group => bodyEffect_cases data post.parts name group
  have hstored : ((file.mapGroups (bodyEffect data post.parts)).record storeTotals
      (storeScan (file.mapGroups (bodyEffect data post.parts))) false
      ((s.opened keepFilesOpen).storeBodies data post.parts).clock).attrs "cwa_stored" =
        some (.bool (allStored (file.mapGroups (bodyEffect data post.parts)))) :=
    attrs_record_flag_eq storeTotals_distinct hs.stored
      (all_of_mapGroups fun name group => (heffect name group).2.2) fun hfalse => by cases hfalse
  have huploaded : ((file.mapGroups (bodyEffect data post.parts)).record storeTotals
      (storeScan (file.mapGroups (bodyEffect data post.parts))) false
      ((s.opened keepFilesOpen).storeBodies data post.parts).clock).attrs "cwa_uploaded" =
        some (.bool (allUploaded (file.mapGroups (bodyEffect data post.parts)))) := by
    rw [attrs_record_of_not_mem (by decide)]
    refine hs.uploaded.trans ?_
    simp [allUploaded, Function.comp_def, (heffect _ _).1]
  have hfinish := finishBody_eq
    (DataState.h5_record (DataState.h5_storeBodies data hopened post.parts) storeTotals
      (storeScan (file.mapGroups (bodyEffect data post.parts))) false)
    (by simp [hs.opened])
    (show _ = keepFilesOpen by simp [hs.opened, DataState.storeBodies])
    (by simp [hs.opened, DataState.storeBodies, hs.locked])
    (by simp [hs.opened, DataState.storeBodies, hs.marker, hopen])
    hstored huploaded
  refine ⟨_, ((s.opened keepFilesOpen).storeBodies data post.parts).clock,
    (handleItem_body hs.h5 post).trans ((bind_ok hrun).trans hfinish), ?_⟩
  refine ⟨?_, ?_, ?_, ?_, ?_, ?_, rfl⟩
  · exact DataState.h5_record (DataState.h5_storeBodies data hopened post.parts) _ _ _
  · rw [allStored_record]
    exact hstored
  · rw [allUploaded_record]
    exact huploaded
  · rw [allStored_record]
  · simp [hs.opened, DataState.storeBodies, hs.locked]
  · rw [allStored_record, allUploaded_record]

theorem handleItem_attributes_flagged (hfit : Fits data file) (hs : Flagged keepFilesOpen s file)
    {post : ValuePost} (hvalid : post.Valid data) :
    ∃ t time, handleItem keepFilesOpen post.attributesItem s = .ok () t ∧
      Flagged keepFilesOpen t ((file.mapGroups (entriesEffect post.entries)).record uploadTotals
        (uploadScan (file.mapGroups (entriesEffect post.entries))) (allUploaded file) time) := by
  have hopened : (s.opened keepFilesOpen).h5 = some file := (sameFile_opened s).h5.trans hs.h5
  have hrun := writeAttributesItemToFile_eq hfit hopened (by rw [hs.opened]) post hvalid.groups
    hs.uploaded
  have heffect := fun name group =>
    entriesEffect_cases post.entries_ne_uploaded_false name group
  have hmapped : allStored (file.mapGroups (entriesEffect post.entries)) = allStored file := by
    simp [allStored, Function.comp_def, (heffect _ _).1]
  have hstored : ((file.mapGroups (entriesEffect post.entries)).record uploadTotals
      (uploadScan (file.mapGroups (entriesEffect post.entries))) (allUploaded file)
      ((s.opened keepFilesOpen).applyEntries post.entries).clock).attrs "cwa_stored" =
        some (.bool (allStored (file.mapGroups (entriesEffect post.entries)))) := by
    rw [attrs_record_of_not_mem (by decide), hmapped]
    exact hs.stored
  have huploaded : ((file.mapGroups (entriesEffect post.entries)).record uploadTotals
      (uploadScan (file.mapGroups (entriesEffect post.entries))) (allUploaded file)
      ((s.opened keepFilesOpen).applyEntries post.entries).clock).attrs "cwa_uploaded" =
        some (.bool (allUploaded (file.mapGroups (entriesEffect post.entries)))) :=
    attrs_record_flag_eq uploadTotals_distinct hs.uploaded
      (all_of_mapGroups fun name group => (heffect name group).2.2) id
  have hfinish := finishItem_eq
    (DataState.h5_record (DataState.h5_applyEntries hopened post.entries) uploadTotals
      (uploadScan (file.mapGroups (entriesEffect post.entries))) (allUploaded file))
    (by simp [hs.opened])
    (show _ = keepFilesOpen by simp [hs.opened, DataState.applyEntries])
    hstored huploaded
  refine ⟨_, ((s.opened keepFilesOpen).applyEntries post.entries).clock,
    (handleItem_attributes hs.h5 post).trans ((bind_ok hrun).trans hfinish), ?_⟩
  refine ⟨?_, ?_, ?_, ?_, ?_, ?_, rfl⟩
  · exact DataState.h5_record (DataState.h5_applyEntries hopened post.entries) _ _ _
  · rw [allStored_record]
    exact hstored
  · rw [allUploaded_record]
    exact huploaded
  · rw [allStored_record, hmapped]
    simpa [hs.opened, DataState.applyEntries] using hs.marker
  · simp [hs.opened, DataState.applyEntries, hs.locked]
  · rw [allStored_record, allUploaded_record]

theorem handleItem_body_consistent (hfit : Fits data file) (hs : Consistent keepFilesOpen s file)
    (hechos : data.shape.echos ≠ 0) {post : ValuePost} (hvalid : post.Valid data)
    (hopen : allStored file = false) :
    ∃ t file', handleItem keepFilesOpen post.bodyItem s = .ok () t ∧
      Consistent keepFilesOpen t file' ∧ Writes data (.body post) file file' := by
  obtain ⟨t, time, hrun, hflagged⟩ := handleItem_body_flagged hfit hs.flagged hechos hvalid hopen
  refine ⟨t, _, hrun, hflagged.consistent (agree_after_body data hs.agree post time) ?_ ?_,
    ⟨H5File.groups_record .., ?_⟩⟩
  · rw [attrs_record_progress storeTotals_distinct, storeScan, percentage_scan,
      progressOf_congr (H5File.groups_record ..)]
  · rw [attrs_record_of_not_mem (by decide)]
    refine hs.uploadProgress.trans ?_
    rw [progressOf_congr (H5File.groups_record ..),
      progressOf_mapGroups fun name group => (bodyEffect_cases data post.parts name group).1]
  · intro name hname
    exact attrs_record_of_not_mem fun hmem => hname (by simp_all [totalsNames])

theorem handleItem_attributes_consistent (hfit : Fits data file)
    (hs : Consistent keepFilesOpen s file) {post : ValuePost} (hvalid : post.Valid data) :
    ∃ t file', handleItem keepFilesOpen post.attributesItem s = .ok () t ∧
      Consistent keepFilesOpen t file' ∧ Writes data (.attributes post) file file' := by
  obtain ⟨t, time, hrun, hflagged⟩ := handleItem_attributes_flagged hfit hs.flagged hvalid
  refine ⟨t, _, hrun, hflagged.consistent (agree_after_attributes hs.agree post time) ?_ ?_,
    ⟨H5File.groups_record .., ?_⟩⟩
  · rw [attrs_record_of_not_mem (by decide)]
    refine hs.storeProgress.trans ?_
    rw [progressOf_congr (H5File.groups_record ..), progressOf_mapGroups fun name group =>
      (entriesEffect_cases post.entries_ne_uploaded_false name group).1]
  · rw [attrs_record_progress uploadTotals_distinct, uploadScan, percentage_scan,
      progressOf_congr (H5File.groups_record ..)]
  · intro name hname
    exact attrs_record_of_not_mem fun hmem => hname (by simp_all [totalsNames])

theorem effect_sameLayout (data : Creation) (item : PostedItem) (name : String) (group : Group) :
    (item.effect data name group).SameLayout group := by
  cases item with
  | attributes post => exact entriesEffect_sameLayout _ _ _
  | body post => exact bodyEffect_sameLayout _ _ _

theorem Writes.fits {item : PostedItem} {file' : H5File} (h : Writes data item file file')
    (hfit : Fits data file) : Fits data file' := by
  have hmapped := hfit.mapGroups (effect_sameLayout data item)
  exact ⟨by rw [h.groups]; exact hmapped.names, by rw [h.groups]; exact hmapped.dtype,
    by rw [h.groups]; exact hmapped.shape, by rw [h.groups]; exact hmapped.datasets⟩

end Step

/-! ## Runs -/

section Run

variable {keepFilesOpen : Bool}

/-- The attributes that a posted attribute must not replace. -/
def bookkeepingNames : List String :=
  [storeTotals, uploadTotals].flatMap fun totals => [totals.bytes, totals.progress, totals.flag]

theorem Created.consistent (created : Created keepFilesOpen) (hslices : 0 < created.data.slices)
    (havoids : ∀ name ∈ bookkeepingNames, created.data.Avoids name) :
    Consistent keepFilesOpen created.state created.file := by
  have hnames : ∀ name ∈ [storeTotals.bytes, storeTotals.flag, uploadTotals.bytes,
      uploadTotals.flag], name ∈ bookkeepingNames := by decide
  have hagree := created.agree hslices fun name hmem => havoids name (hnames name hmem)
  have hcount : ∀ flag : Group → Bool, flag created.data.group = false →
      progressOf flag created.file = 0 := by
    intro flag hflag
    rw [progressOf, created.groups_file, List.countP_map]
    simp [Function.comp_def, hflag]
  have hstored : allStored created.file = false := by
    rw [allStored, created.groups_file, List.all_eq_false]
    exact ⟨_, List.mem_map_of_mem (List.mem_range.mpr hslices), by simp [Creation.group]⟩
  refine ⟨created.h5_eq, hagree, ?_, ?_, ?_, ?_, ?_, ?_⟩
  · rw [hcount _ rfl]
    exact created.attrs_file (by simp [Creation.ownAttributes, storeTotals])
      (havoids _ (by simp [bookkeepingNames]))
  · rw [hcount _ rfl]
    exact created.attrs_file (by simp [Creation.ownAttributes, uploadTotals])
      (havoids _ (by simp [bookkeepingNames]))
  · rw [hstored, created.state_eq.1]
    rfl
  · rw [created.state_eq.1]
  · rw [hstored, created.state_eq.1]
    simp
  · rw [created.state_eq.1]

theorem findGroup_congr {file file' : H5File} (h : file'.groups = file.groups) (name : String) :
    file'.findGroup name = file.findGroup name := by
  rw [H5File.findGroup, H5File.findGroup, h]

theorem Created.findGroup (created : Created keepFilesOpen) {i : ℕ} (hi : i < created.data.slices) :
    created.file.findGroup (groupName i) = some created.data.group := by
  obtain ⟨group, hgroup, -⟩ := created.fits.findGroup_of_lt hi
  have hmem := H5File.mem_of_findGroup hgroup
  rw [created.groups_file] at hmem
  obtain ⟨j, -, heq⟩ := List.mem_map.mp hmem
  rw [hgroup, ← (Prod.mk.inj heq).2]

/-- What a run over some items has made of a created data. -/
structure After (created : Created keepFilesOpen) (items : List PostedItem) (s : DataState)
    (file : H5File) : Prop where
  consistent : Consistent keepFilesOpen s file
  fits : Fits created.data file
  groups : file.groups = (created.file.mapGroups (itemsEffect created.data items)).groups
  others : ∀ name ∉ totalsNames, file.attrs name = created.file.attrs name

/-- No group is stored twice. -/
def StoresOnce (items : List PostedItem) : Prop :=
  items.Pairwise fun first second => ∀ post post',
    first = .body post → second = .body post' → post.groupIds.Disjoint post'.groupIds

theorem stored_itemsEffect {data : Creation} {items : List PostedItem} {i : ℕ}
    (h : ∀ post, .body post ∈ items → i ∉ post.groupIds) (group : Group) :
    (itemsEffect data items (groupName i) group).stored = group.stored := by
  induction items generalizing group with
  | nil => rfl
  | cons item rest ih =>
      refine (ih (fun post hmem => h post (List.mem_cons_of_mem _ hmem)) _).trans ?_
      cases item with
      | attributes post => exact (entriesEffect_cases post.entries_ne_uploaded_false _ _).1
      | body post =>
          refine congrArg Group.stored (effect_of_not_mem ?_ group)
          rintro j hj hname
          exact h post List.mem_cons_self (groupName_injective hname ▸ hj)

theorem After.allStored_eq_false {created : Created keepFilesOpen} {items : List PostedItem}
    {s : DataState} {file : H5File} (h : After created items s file) {i : ℕ}
    (hi : i < created.data.slices) (hbodies : ∀ post, .body post ∈ items → i ∉ post.groupIds) :
    allStored file = false := by
  have hmem : (groupName i, created.data.group) ∈ created.file.groups := by
    rw [created.groups_file]
    exact List.mem_map_of_mem (List.mem_range.mpr hi)
  rw [allStored, h.groups, List.all_eq_false]
  exact ⟨_, List.mem_map_of_mem hmem, by simp [stored_itemsEffect hbodies, Creation.group]⟩

/-- **Step.**  The next item does not raise, and its effect is added to those before. -/
theorem After.step {created : Created keepFilesOpen} {items : List PostedItem} {s : DataState}
    {file : H5File} (h : After created items s file) (hechos : created.data.shape.echos ≠ 0)
    {item : PostedItem} (hvalid : item.post.Valid created.data)
    (honce : StoresOnce (items ++ [item])) :
    ∃ t file', handleItem keepFilesOpen item.item s = .ok () t ∧
      After created (items ++ [item]) t file' := by
  -- the effect of the item comes after that of the others
  have hafter : ∀ {t : DataState} {file' : H5File}, Consistent keepFilesOpen t file' →
      Writes created.data item file file' → After created (items ++ [item]) t file' := by
    intro t file' hconsistent hwrites
    refine ⟨hconsistent, hwrites.fits h.fits, ?_, fun name hname =>
      (hwrites.others name hname).trans (h.others name hname)⟩
    rw [hwrites.groups, H5File.groups_mapGroups, h.groups]
    simp [itemsEffect, Function.comp_def]
  cases item with
  | attributes post =>
      obtain ⟨t, file', hrun, hconsistent, hwrites⟩ :=
        handleItem_attributes_consistent h.fits h.consistent hvalid
      exact ⟨t, file', hrun, hafter hconsistent hwrites⟩
  | body post =>
      obtain ⟨i, hi⟩ := List.exists_mem_of_ne_nil _ post.nonempty
      have hopen := h.allStored_eq_false (hvalid.groups i hi) fun post' hmem hi' =>
        (List.pairwise_append.mp honce).2.2 _ hmem _ List.mem_cons_self post' post rfl rfl hi' hi
      obtain ⟨t, file', hrun, hconsistent, hwrites⟩ :=
        handleItem_body_consistent h.fits h.consistent hechos hvalid hopen
      exact ⟨t, file', hrun, hafter hconsistent hwrites⟩

theorem handleAll_append (first second : List PostedItem) :
    handleAll keepFilesOpen (first ++ second) =
      handleAll keepFilesOpen first >>= fun _ => handleAll keepFilesOpen second :=
  List.forM_append

/-- **Run.**  A run over the items of valid posts, each body once, raises nothing. -/
theorem run_after {created : Created keepFilesOpen} (hslices : 0 < created.data.slices)
    (hechos : created.data.shape.echos ≠ 0)
    (havoids : ∀ name ∈ bookkeepingNames, created.data.Avoids name) {items : List PostedItem}
    (hvalid : ∀ item ∈ items, item.post.Valid created.data) (honce : StoresOnce items) :
    ∃ s file, handleAll keepFilesOpen items created.state = .ok () s ∧
      After created items s file := by
  induction items using List.reverseRecOn with
  | nil =>
      exact ⟨_, _, rfl, created.consistent hslices havoids, created.fits,
        (congrArg H5File.groups created.file.mapGroups_id).symm, fun _ _ => rfl⟩
  | append_singleton items item ih =>
      obtain ⟨s, file, hrun, hafter⟩ := ih
        (fun item hmem => hvalid item (List.mem_append_left _ hmem)) (List.pairwise_append.mp honce).1
      obtain ⟨t, file', hitem, hafter'⟩ := hafter.step hechos (hvalid item (by simp)) honce
      refine ⟨t, file', ?_, hafter'⟩
      rw [handleAll_append, bind_ok hrun, handleAll, List.forM_cons, bind_ok hitem]
      rfl

/-- Every order of the items stores every group at most once. -/
theorem storesOnce_of_perm {posts : List ValuePost} (hdisjoint : DisjointPosts posts)
    {items : List PostedItem} (hperm : items.Perm (postedItems posts)) : StoresOnce items := by
  have hsymm : ∀ {first second : PostedItem},
      (∀ post post', first = .body post → second = .body post' →
        post.groupIds.Disjoint post'.groupIds) →
      ∀ post post', second = .body post → first = .body post' →
        post.groupIds.Disjoint post'.groupIds :=
    fun h post post' hsecond hfirst i hi hi' => h post' post hfirst hsecond hi' hi
  refine (hperm.pairwise_iff hsymm).mpr (List.pairwise_flatMap.mpr ⟨?_, ?_⟩)
  · intro post _
    simp
  · refine hdisjoint.imp fun hposts first hfirst second hsecond post post' heq heq' => ?_
    subst heq heq'
    simp only [List.mem_cons, List.not_mem_nil, reduceCtorEq, false_or, or_false,
      PostedItem.body.injEq] at hfirst hsecond
    rwa [hfirst, hsecond]

/-! ### The state that is reached -/

/-- The state without the time stamps and without the earlier states of the file. -/
def DataState.timeless (s : DataState) : DataState :=
  { s with
    h5 := s.h5.map fun file => { file with
      attrs := fun name =>
        if name ∈ [storeTotals.endTime, uploadTotals.endTime] then none else file.attrs name }
    clock := 0
    published := [] }

/-- The groups determine the rest. -/
theorem After.timeless_eq {created : Created keepFilesOpen} {items items' : List PostedItem}
    {s s' : DataState} {file file' : H5File} (h : After created items s file)
    (h' : After created items' s' file') (hgroups : file.groups = file'.groups) :
    s.timeless = s'.timeless := by
  have hstored : allStored file = allStored file' := by rw [allStored, allStored, hgroups]
  have huploaded : allUploaded file = allUploaded file' := by
    rw [allUploaded, allUploaded, hgroups]
  have hattrs : ∀ name ∉ [storeTotals.endTime, uploadTotals.endTime],
      file.attrs name = file'.attrs name := by
    intro name hname
    by_cases htotals : name ∈ totalsNames
    · have hcases : name = storeTotals.bytes ∨ name = storeTotals.progress ∨
          name = storeTotals.flag ∨ name = uploadTotals.bytes ∨ name = uploadTotals.progress ∨
          name = uploadTotals.flag := by
        simp only [totalsNames, List.flatMap_cons, List.flatMap_nil, List.mem_append, List.mem_cons,
          List.not_mem_nil, or_false, not_or] at htotals hname
        tauto
      rcases hcases with rfl | rfl | rfl | rfl | rfl | rfl
      · rw [h.consistent.agree.stored.bytes, h'.consistent.agree.stored.bytes, hgroups]
      · rw [h.consistent.storeProgress, h'.consistent.storeProgress, progressOf_congr hgroups]
      · rw [h.consistent.agree.stored.flag, h'.consistent.agree.stored.flag, hgroups]
      · rw [h.consistent.agree.uploaded.bytes, h'.consistent.agree.uploaded.bytes, hgroups]
      · rw [h.consistent.uploadProgress, h'.consistent.uploadProgress, progressOf_congr hgroups]
      · rw [h.consistent.agree.uploaded.flag, h'.consistent.agree.uploaded.flag, hgroups]
    · rw [h.others name htotals, h'.others name htotals]
  have hfile : (fun name => if name ∈ [storeTotals.endTime, uploadTotals.endTime] then none
      else file.attrs name) = fun name =>
      if name ∈ [storeTotals.endTime, uploadTotals.endTime] then none else file'.attrs name := by
    funext name
    split
    · rfl
    · exact hattrs name (by assumption)
  have hmarker : s.marker = s'.marker := by
    rw [h.consistent.marker, h'.consistent.marker, hstored]
  have hcached : s.cached = s'.cached := by
    rw [h.consistent.cached, h'.consistent.cached, hstored, huploaded]
  rw [DataState.timeless, DataState.timeless, h.consistent.h5, h'.consistent.h5, hmarker, hcached,
    h.consistent.isOpen, h'.consistent.isOpen, hcached, h.consistent.locked, h'.consistent.locked]
  simp only [Option.map_some, hgroups, hfile]

/-- The images of a group are those of a body for it: every element is at its own place in the
body, the magnitudes in the first half and the phases in the second one. -/
structure Decoded (data : Creation) (part : Bytes) (group : Group) : Prop where
  magnitude : ∀ row < data.height, ∀ column < data.width, ∀ echo < data.shape.echos,
    element group.magnitude row column echo =
      some ((part.drop (((echo * data.height + row) * data.width + column) *
        data.dtype.itemsize)).take data.dtype.itemsize)
  phase : ∀ row < data.height, ∀ column < data.width, ∀ echo < data.shape.echos,
    element group.phase row column echo =
      some ((part.drop ((((data.shape.echos + echo) * data.height + row) * data.width + column) *
        data.dtype.itemsize)).take data.dtype.itemsize)

/-- The size of one image in a part of the right size. -/
theorem bodyPartSize_eq {data : Creation} (hechos : data.shape.echos ≠ 0) {part : Bytes}
    (hsize : part.length = data.bodySize) :
    part.length / (2 * data.shape.echos) =
      data.shape.height * data.shape.width * data.dtype.itemsize := by
  rw [hsize, Creation.bodySize, expectedBodySize]
  refine Nat.div_eq_of_eq_mul_left (by omega) ?_
  ring

theorem decoded_storePart {data : Creation} (hechos : data.shape.echos ≠ 0) {part : Bytes}
    (hsize : part.length = data.bodySize) (group : Group) :
    Decoded data part (storePart data part group) := by
  have hpart := bodyPartSize_eq hechos hsize
  refine ⟨?_, ?_⟩
  · intro row hrow column hcolumn echo hecho
    have helement := element_sliceArray part hpart 0 hrow hcolumn hecho
    rwa [Nat.zero_add] at helement
  · intro row hrow column hcolumn echo hecho
    exact element_sliceArray part hpart data.shape.echos hrow hcolumn hecho

/-- A part of a body overwrites what other parts have left. -/
theorem storePart_bodyEffect (data : Creation) (part : Bytes) (parts : List (ℕ × Bytes))
    (name : String) (group : Group) :
    storePart data part (bodyEffect data parts name group) = storePart data part group := by
  induction parts generalizing group with
  | nil => rfl
  | cons part' rest ih =>
      refine (ih _).trans ?_
      by_cases hname : name = groupName part'.1
      · simp only [if_pos hname]
        rfl
      · simp only [if_neg hname]

/-- Of the parts for one group the last one counts. -/
theorem bodyEffect_of_last {data : Creation} {parts : List (ℕ × Bytes)} {k i : ℕ} {part : Bytes}
    (hk : parts[k]? = some (i, part)) (hlast : ∀ l, k < l → ∀ part', parts[l]? ≠ some (i, part'))
    (group : Group) : bodyEffect data parts (groupName i) group = storePart data part group := by
  obtain ⟨hlt, hget⟩ := List.getElem?_eq_some_iff.mp hk
  have hafter : ∀ part' ∈ parts.drop (k + 1), groupName i ≠ groupName part'.1 := by
    rintro ⟨j, part'⟩ hmem hname
    obtain rfl := groupName_injective hname
    obtain ⟨l, hl⟩ := List.mem_iff_getElem?.mp hmem
    rw [List.getElem?_drop] at hl
    exact hlast _ (by omega) part' hl
  calc bodyEffect data parts (groupName i) group
      = bodyEffect data (parts.take k ++ (i, part) :: parts.drop (k + 1)) (groupName i) group := by
        rw [← hget, List.getElem_cons_drop, List.take_append_drop]
    _ = bodyEffect data (parts.drop (k + 1)) (groupName i)
          (storePart data part (bodyEffect data (parts.take k) (groupName i) group)) := by
        simp [bodyEffect]
    _ = storePart data part group := by
        rw [bodyEffect_of_not_mem hafter, storePart_bodyEffect]

theorem entriesEffect_flatMap (size i : ℕ) (ids : List ℕ) (group : Group) :
    entriesEffect (ids.flatMap fun groupId =>
      [⟨groupName groupId, .uploaded true⟩, ⟨groupName groupId, .uploadedBytes size⟩])
      (groupName i) group =
    if i ∈ ids then { group with uploaded := true, uploadedBytes := size } else group := by
  induction ids generalizing group with
  | nil => rfl
  | cons j rest ih =>
      refine (ih _).trans ?_
      by_cases hj : i = j
      · subst hj
        by_cases hrest : i ∈ rest <;> simp [hrest, Group.setAttribute]
      · have hname : groupName i ≠ groupName j := fun h => hj (groupName_injective h)
        simp [hname, hj]

theorem entriesEffect_of_mem {post : ValuePost} {i : ℕ} (hi : i ∈ post.groupIds) (group : Group) :
    entriesEffect post.entries (groupName i) group =
      { group with uploaded := true, uploadedBytes := post.bodyPartSize } :=
  (entriesEffect_flatMap post.bodyPartSize i post.groupIds group).trans (if_pos hi)

/-- What a posted group holds in the end: its upload and its part of the body, each with the
size of that part. -/
theorem itemsEffect_posted {data : Creation} {posts : List ValuePost}
    (hdisjoint : DisjointPosts posts) {items : List PostedItem}
    (hperm : items.Perm (postedItems posts)) {post : ValuePost} (hpost : post ∈ posts) {k i : ℕ}
    {part : Bytes} (hk : post.parts[k]? = some (i, part))
    (hlast : ∀ l, k < l → ∀ part', post.parts[l]? ≠ some (i, part')) (group : Group) :
    itemsEffect data items (groupName i) group =
      storePart data part { group with uploaded := true, uploadedBytes := post.bodyPartSize } := by
  have hi : i ∈ post.groupIds := (ValuePost.mem_parts (List.mem_of_getElem? hk)).1
  obtain ⟨before, after, rfl⟩ := List.append_of_mem hpost
  obtain ⟨-, hrest, hbefore⟩ := List.pairwise_append.mp hdisjoint
  have hother : ∀ others : List ValuePost, (∀ other ∈ others, i ∉ other.groupIds) →
      ∀ group, itemsEffect data (postedItems others) (groupName i) group = group := by
    refine fun others hothers group => itemsEffect_of_not_mem ?_ group
    intro item hmem j hj hname
    exact hothers _ (mem_postedItems.mp hmem) (groupName_injective hname ▸ hj)
  calc itemsEffect data items (groupName i) group
      = itemsEffect data (postedItems (before ++ post :: after)) (groupName i) group :=
        itemsEffect_perm hdisjoint hperm (.refl _) _ _
    _ = itemsEffect data (postedItems after) (groupName i)
          (bodyEffect data post.parts (groupName i) (entriesEffect post.entries (groupName i)
            (itemsEffect data (postedItems before) (groupName i) group))) := by
        simp [postedItems, itemsEffect, PostedItem.effect]
    _ = bodyEffect data post.parts (groupName i) (entriesEffect post.entries (groupName i) group) := by
        rw [hother after fun other hmem => (List.pairwise_cons.mp hrest).1 other hmem hi,
          hother before fun other hmem hi' => hbefore other hmem post List.mem_cons_self hi' hi]
    _ = storePart data part
          { group with uploaded := true, uploadedBytes := post.bodyPartSize } := by
        rw [bodyEffect_of_last hk hlast, entriesEffect_of_mem hi]

theorem getElem?_parts {post : ValuePost} {k i : ℕ} (hk : post.groupIds[k]? = some i) :
    post.parts[k]? = some (i, (post.body.drop (k * post.bodyPartSize)).take post.bodyPartSize) := by
  have hlt := (List.getElem?_eq_some_iff.mp hk).1
  rw [ValuePost.parts, bodyParts, List.getElem?_zip_eq_some]
  refine ⟨hk, ?_⟩
  rw [List.getElem?_map, List.getElem?_range hlt]
  rfl

theorem exists_last_index {ids : List ℕ} {i : ℕ} (h : i ∈ ids) :
    ∃ k : ℕ, ids[k]? = some i ∧ ∀ l : ℕ, k < l → ids[l]? ≠ some i := by
  induction ids with
  | nil => cases h
  | cons j rest ih =>
      by_cases hrest : i ∈ rest
      · obtain ⟨k, hk, hlast⟩ := ih hrest
        refine ⟨k + 1, by simpa using hk, fun l hl => ?_⟩
        obtain ⟨l, rfl⟩ : ∃ m, l = m + 1 := ⟨l - 1, by omega⟩
        simpa using hlast l (by omega)
      · obtain rfl : i = j := (List.mem_cons.mp h).resolve_right hrest
        refine ⟨0, rfl, fun l hl hget => ?_⟩
        obtain ⟨l, rfl⟩ : ∃ m, l = m + 1 := ⟨l - 1, by omega⟩
        exact hrest (List.mem_of_getElem? (by simpa using hget))

/-- What a run over all items leaves. -/
structure Uploaded (created : Created keepFilesOpen) (posts : List ValuePost) (s : DataState)
    (file : H5File) : Prop where
  consistent : Consistent keepFilesOpen s file
  /-- A group of a post, at its last place in the list of groups. -/
  posted : ∀ post ∈ posts, ∀ k i, post.groupIds[k]? = some i →
    (∀ l, k < l → post.groupIds[l]? ≠ some i) →
    ∃ group, file.findGroup (groupName i) = some group ∧
      group.uploaded = true ∧ group.uploadedBytes = created.data.bodySize ∧
      group.stored = true ∧ group.storedBytes = created.data.bodySize ∧
      Decoded created.data
        ((post.body.drop (k * created.data.bodySize)).take created.data.bodySize) group
  unposted : ∀ i < created.data.slices, (∀ post ∈ posts, i ∉ post.groupIds) →
    file.findGroup (groupName i) = some created.data.group
  complete : (∀ i < created.data.slices, ∃ post ∈ posts, i ∈ post.groupIds) →
    allStored file = true ∧ allUploaded file = true ∧ s.marker = false ∧ s.cached = false

theorem After.uploaded {created : Created keepFilesOpen} {posts : List ValuePost}
    (hechos : created.data.shape.echos ≠ 0) (hvalid : ∀ post ∈ posts, post.Valid created.data)
    (hdisjoint : DisjointPosts posts) {items : List PostedItem}
    (hperm : items.Perm (postedItems posts)) {s : DataState} {file : H5File}
    (h : After created items s file) : Uploaded created posts s file := by
  have hfind : ∀ i < created.data.slices, file.findGroup (groupName i) =
      some (itemsEffect created.data items (groupName i) created.data.group) := by
    intro i hi
    rw [findGroup_congr h.groups, H5File.findGroup_mapGroups, created.findGroup hi]
    rfl
  have hlastParts : ∀ {post : ValuePost} {k i : ℕ}, (∀ l, k < l → post.groupIds[l]? ≠ some i) →
      ∀ l, k < l → ∀ part', post.parts[l]? ≠ some (i, part') := by
    intro post k i hlast l hl part' hpart
    rw [ValuePost.parts, bodyParts, List.getElem?_zip_eq_some] at hpart
    exact hlast l hl hpart.1
  -- of all items only the last part of a group counts
  have hposted : ∀ post ∈ posts, ∀ k i, post.groupIds[k]? = some i →
      (∀ l, k < l → post.groupIds[l]? ≠ some i) →
      itemsEffect created.data items (groupName i) created.data.group =
        storePart created.data
          ((post.body.drop (k * created.data.bodySize)).take created.data.bodySize)
          { created.data.group with uploaded := true, uploadedBytes := created.data.bodySize } := by
    intro post hpost k i hk hlast
    have hparts := getElem?_parts hk
    rw [(hvalid post hpost).bodyPartSize] at hparts
    rw [itemsEffect_posted hdisjoint hperm hpost hparts (hlastParts hlast),
      (hvalid post hpost).bodyPartSize]
  have hsize : ∀ post ∈ posts, ∀ k i, post.groupIds[k]? = some i →
      ((post.body.drop (k * created.data.bodySize)).take created.data.bodySize).length =
        created.data.bodySize := by
    intro post hpost k i hk
    have hparts := getElem?_parts hk
    rw [(hvalid post hpost).bodyPartSize] at hparts
    rw [(ValuePost.mem_parts (List.mem_of_getElem? hparts)).2, (hvalid post hpost).bodyPartSize]
  refine ⟨h.consistent, ?_, ?_, ?_⟩
  · intro post hpost k i hk hlast
    have hi := (hvalid post hpost).groups i (List.mem_of_getElem? hk)
    refine ⟨_, (hfind i hi).trans (congrArg some (hposted post hpost k i hk hlast)), rfl, rfl, rfl,
      hsize post hpost k i hk, decoded_storePart hechos (hsize post hpost k i hk) _⟩
  · intro i hi hunposted
    rw [hfind i hi, itemsEffect_of_not_mem]
    intro item hmem j hj hname
    exact hunposted _ (mem_postedItems.mp (hperm.mem_iff.mp hmem)) (groupName_injective hname ▸ hj)
  · -- every group has been posted, so the marker and the cached file are gone
    intro hall
    have hgroup : ∀ entry ∈ file.groups, entry.2.stored = true ∧ entry.2.uploaded = true := by
      intro entry hmem
      rw [h.groups, H5File.groups_mapGroups, created.groups_file, List.map_map] at hmem
      obtain ⟨i, hi, rfl⟩ := List.mem_map.mp hmem
      obtain ⟨post, hpost, hmem⟩ := hall i (List.mem_range.mp hi)
      obtain ⟨k, hk, hlast⟩ := exists_last_index hmem
      rw [Function.comp_apply, hposted post hpost k i hk hlast]
      exact ⟨rfl, rfl⟩
    have hstored : allStored file = true :=
      List.all_eq_true.mpr fun entry hmem => (hgroup entry hmem).1
    have huploaded : allUploaded file = true :=
      List.all_eq_true.mpr fun entry hmem => (hgroup entry hmem).2
    refine ⟨hstored, huploaded, ?_, ?_⟩
    · rw [h.consistent.marker, hstored]
      rfl
    · rw [h.consistent.cached, hstored, huploaded]
      simp

/-- An item of a run, handled after the items `first`.  The marker is removed by the item that
stores the last group, which is a body, and does not come back. -/
def HandledItem (created : Created keepFilesOpen) (first : List PostedItem) (item : PostedItem) :
    Prop :=
  ∃ s t before after,
    handleAll keepFilesOpen first created.state = .ok () s ∧
    handleItem keepFilesOpen item.item s = .ok () t ∧
    Consistent keepFilesOpen s before ∧ Consistent keepFilesOpen t after ∧
    (s.marker = true ∧ t.marker = false ↔
      (∃ post, item = .body post) ∧ allStored before = false ∧ allStored after = true) ∧
    (s.marker = false → t.marker = false)

theorem After.handledItem {created : Created keepFilesOpen} {first : List PostedItem}
    {item : PostedItem} {s : DataState} {file : H5File}
    (hrun : handleAll keepFilesOpen first created.state = .ok () s) (h : After created first s file)
    (hechos : created.data.shape.echos ≠ 0) (hvalid : item.post.Valid created.data)
    (honce : StoresOnce (first ++ [item])) : HandledItem created first item := by
  obtain ⟨t, file', hitem, h'⟩ := h.step hechos hvalid honce
  have hgroups : file'.groups = (file.mapGroups (item.effect created.data)).groups := by
    rw [h'.groups, H5File.groups_mapGroups, H5File.groups_mapGroups, h.groups]
    simp [itemsEffect, Function.comp_def]
  have hmono : allStored file = true → allStored file' = true := by
    intro hall
    rw [allStored, hgroups]
    refine all_of_mapGroups (fun name group hstored => ?_) hall
    cases item with
    | attributes post =>
        exact (entriesEffect_cases post.entries_ne_uploaded_false name group).1.trans hstored
    | body post => exact (bodyEffect_cases _ post.parts name group).2.2 hstored
  have hbody : allStored file = false → allStored file' = true → ∃ post, item = .body post := by
    intro hbefore hall
    cases item with
    | body post => exact ⟨post, rfl⟩
    | attributes post =>
        have hsame : allStored file' = allStored file := by
          rw [allStored, hgroups]
          simp [allStored, Function.comp_def, PostedItem.effect,
            (entriesEffect_cases post.entries_ne_uploaded_false _ _).1]
        rw [hsame, hbefore] at hall
        cases hall
  refine ⟨s, t, file, file', hrun, hitem, h.consistent, h'.consistent, ?_, ?_⟩
  · rw [h.consistent.marker, h'.consistent.marker]
    simp only [Bool.not_eq_true', Bool.not_eq_false']
    exact ⟨fun hflags => ⟨hbody hflags.1 hflags.2, hflags⟩, fun hcomplete => hcomplete.2⟩
  · rw [h.consistent.marker, h'.consistent.marker]
    simpa using hmono

/-- **Upload order independence.**  After the creation, the items of valid posts without a
common group are handled without an exception in every order, and the state that is reached is
the same for every order, apart from the time stamps. -/
theorem upload_order_independent (created : Created keepFilesOpen)
    (hslices : 0 < created.data.slices) (hechos : created.data.shape.echos ≠ 0)
    (havoids : ∀ name ∈ bookkeepingNames, created.data.Avoids name) (posts : List ValuePost)
    (hvalid : ∀ post ∈ posts, post.Valid created.data) (hdisjoint : DisjointPosts posts) :
    ∃ final : DataState, ∀ items : List PostedItem, items.Perm (postedItems posts) →
      (∀ first item second, items = first ++ item :: second → HandledItem created first item) ∧
        ∃ s file, handleAll keepFilesOpen items created.state = .ok () s ∧ s.timeless = final ∧
          Uploaded created posts s file := by
  have hitems : ∀ {items : List PostedItem}, items.Perm (postedItems posts) →
      ∀ item ∈ items, item.post.Valid created.data :=
    fun hperm item hmem => hvalid _ (mem_postedItems.mp (hperm.mem_iff.mp hmem))
  obtain ⟨s₀, file₀, -, hafter₀⟩ := run_after hslices hechos havoids (hitems (.refl _))
    (storesOnce_of_perm hdisjoint (.refl _))
  refine ⟨s₀.timeless, fun items hperm => ⟨?_, ?_⟩⟩
  · rintro first item second rfl
    have honce := storesOnce_of_perm hdisjoint hperm
    have hsub : (first ++ [item]).Sublist (first ++ item :: second) := by simp
    obtain ⟨s, file, hrun, hafter⟩ := run_after hslices hechos havoids
      (fun item hmem => hitems hperm item (List.mem_append_left _ hmem))
      (List.pairwise_append.mp honce).1
    exact hafter.handledItem hrun hechos (hitems hperm item (by simp)) (honce.sublist hsub)
  · obtain ⟨s, file, hrun, hafter⟩ := run_after hslices hechos havoids (hitems hperm)
      (storesOnce_of_perm hdisjoint hperm)
    refine ⟨s, file, hrun, hafter.timeless_eq hafter₀ ?_,
      hafter.uploaded hechos hvalid hdisjoint hperm⟩
    rw [hafter.groups, hafter₀.groups, H5File.groups_mapGroups, H5File.groups_mapGroups]
    exact List.map_congr_left fun entry _ =>
      congrArg (Prod.mk entry.1) (itemsEffect_perm hdisjoint hperm (.refl _) _ _)

end Run

/-- The items of two posts, one for each slice, in any order. -/
theorem upload_order_independent_two_slices :
    ∃ final : DataState, ∀ items : List PostedItem,
      items.Perm (postedItems [slicesPost 1 [] [5, 6, 7, 8], slicesPost 0 [] [1, 2, 3, 4]]) →
      (∀ first item second, items = first ++ item :: second →
        HandledItem (createdSlices true) first item) ∧
        ∃ s file, handleAll true items (createdSlices true).state = .ok () s ∧
          s.timeless = final ∧ Uploaded (createdSlices true)
            [slicesPost 1 [] [5, 6, 7, 8], slicesPost 0 [] [1, 2, 3, 4]] s file := by
  refine upload_order_independent (createdSlices true) (by decide) (by decide) (by decide)
    [slicesPost 1 [] [5, 6, 7, 8], slicesPost 0 [] [1, 2, 3, 4]] (fun post hmem => ?_) ?_
  · rcases List.mem_cons.mp hmem with rfl | hmem
    · exact ⟨by decide, by decide⟩
    · rw [List.mem_singleton.mp hmem]
      exact ⟨by decide, by decide⟩
  · simp [DisjointPosts, List.Disjoint, slicesPost]

/-- A posted attribute `cwa_stored` makes the first body remove the marker, and the second one
raises; without an echo every body raises. -/
theorem upload_raises :
    (∃ created : Created false, 0 < created.data.slices ∧ ∃ posts : List ValuePost,
      (∀ post ∈ posts, post.Valid created.data) ∧ DisjointPosts posts ∧
      stopOf (handleAll false (postedItems posts) created.state) =
        some (.raised .fileNotFoundError)) ∧
    ∃ created : Created false, 0 < created.data.slices ∧ ∃ posts : List ValuePost,
      (∀ post ∈ posts, post.Valid created.data) ∧ DisjointPosts posts ∧
      stopOf (handleAll false (postedItems posts) created.state) =
        some (.raised .zeroDivisionError) := by
  refine ⟨⟨⟨{ onePixel with
      sliceLocations := [.int 0, .int 1], attributes := [("cwa_stored", .bool true)] }, _, rfl⟩,
    by decide, [⟨[0], [7, 8], by decide⟩, ⟨[1], [7, 8], by decide⟩], ?_, ?_, by decide +kernel⟩,
    ⟨⟨{ onePixel with echoTimes := [] }, _, rfl⟩, by decide, [⟨[0], [], by decide⟩],
      ?_, ?_, by decide +kernel⟩⟩
  · intro post hmem
    rcases List.mem_cons.mp hmem with rfl | hmem
    · exact ⟨by decide, by decide⟩
    · rw [List.mem_singleton.mp hmem]
      exact ⟨by decide, by decide⟩
  · simp [DisjointPosts, List.Disjoint]
  · intro post hmem
    rw [List.mem_singleton.mp hmem]
    exact ⟨by decide, by decide⟩
  · exact List.pairwise_singleton ..

end ComputeWebApp.Api
