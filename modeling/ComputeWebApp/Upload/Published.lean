import ComputeWebApp.Library.Transition
import ComputeWebApp.Upload.Agreement
import ComputeWebApp.Upload.SliceLayout

/-!
# What readers see of a data

A file is read while the write worker writes to it: after each write a reader may see the state
that the write leaves (`DataState.published`).  A group is stored by four writes, the images first
and the attribute `cwa_stored` after them.

As long as all bodies that are posted for a group are the same (`SamePart`), a group that a reader
sees stored holds the whole part that was posted for it, and later states of the file have the same
images, whatever else is posted and whether or not it is accepted.
-/

namespace ComputeWebApp.Api

open ByteStream Transition

/-! ## States of the file -/

/-- The file is the last of the states that have been published since `older`, each of them has
`P`, and each is related to the earlier ones. -/
def Tells (P : H5File → Prop) (R : H5File → H5File → Prop) (older : List H5File) (s : DataState) :
    Prop :=
  ∃ file earlier, s.h5 = some file ∧ s.published = file :: earlier ++ older ∧
    (∀ seen ∈ file :: earlier, P seen) ∧ (file :: earlier).Pairwise fun later old => R old later

section Tells

variable {α β : Type} {P : H5File → Prop} {R : H5File → H5File → Prop} {older : List H5File}
  {s t : DataState} {file : H5File} {keepFilesOpen : Bool}

theorem Tells.h5 (h : Tells P R older s) : ∃ file, s.h5 = some file ∧ P file := by
  obtain ⟨file, earlier, hfile, -, hholds, -⟩ := h
  exact ⟨file, hfile, hholds file List.mem_cons_self⟩

theorem Tells.congr (h : Tells P R older s) (hfile : t.h5 = s.h5)
    (hpublished : t.published = s.published) : Tells P R older t := by
  rwa [Tells, hfile, hpublished]

/-- One more state is published. -/
theorem Tells.write (htrans : ∀ {first second third}, R first second → R second third → R first third)
    (h : Tells P R older s) (change : H5File → H5File) (hfile : s.h5 = some file)
    (hP : P (change file)) (hR : R file (change file)) : Tells P R older (s.write change) := by
  obtain ⟨file', earlier, hfile', hpublished, hholds, hordered⟩ := h
  obtain rfl : file' = file := Option.some.inj (hfile'.symm.trans hfile)
  refine ⟨change file', file' :: earlier, ?_, ?_, ?_, ?_⟩
  · rw [DataState.h5_write, hfile]
    rfl
  · rw [DataState.published_write hfile, hpublished]
    rfl
  · intro seen hseen
    rcases List.mem_cons.mp hseen with rfl | hseen
    · exact hP
    · exact hholds seen hseen
  · refine List.pairwise_cons.mpr ⟨fun old hold => ?_, hordered⟩
    rcases List.mem_cons.mp hold with rfl | hold
    · exact hR
    · exact htrans (List.rel_of_pairwise_cons hordered hold) hR

/-! ### Functions of the worker -/

/-- From a state with the property the function ends in one with the property. -/
def Maintains (I : DataState → Prop) (m : WorkerM α) : Prop :=
  ∀ s, I s → I (stateOf (m s))

variable {I : DataState → Prop}

theorem Maintains.bind {m : WorkerM α} {f : α → WorkerM β} (hm : Maintains I m)
    (hf : ∀ a, Maintains I (f a)) : Maintains I (m >>= f) := by
  intro s hs
  have hI := hm s hs
  cases hrun : m s with
  | ok a t =>
      rw [bind_ok hrun]
      rw [hrun] at hI
      exact hf a t hI
  | error stop t =>
      rw [bind_error hrun]
      rwa [hrun] at hI

theorem maintains_forM {entries : List α} {write : α → WorkerM Unit}
    (hwrite : ∀ entry ∈ entries, Maintains I (write entry)) : Maintains I (forM entries write) := by
  induction entries with
  | nil => exact fun _ hs => hs
  | cons entry rest ih =>
      rw [List.forM_cons]
      exact (hwrite entry List.mem_cons_self).bind fun _ =>
        ih fun other hmem => hwrite other (List.mem_cons_of_mem _ hmem)

theorem maintains_writeFile {change : H5File → H5File}
    (hchange : ∀ s, I s → I (s.write change)) : Maintains I (writeFile change) := by
  refine Maintains.bind (fun s hs => ?_) fun _ => hchange
  rwa [(readsOnly_openFile s).2]

theorem ReadsOnly.maintains {m : WorkerM α} (hm : ReadsOnly m) : Maintains I m := by
  intro s hs
  rwa [(hm s).2]

/-- What leaves the file alone publishes nothing. -/
theorem KeepsFile.maintains {m : WorkerM α} (hm : KeepsFile keepFilesOpen m) :
    Maintains (Tells P R older) m :=
  fun s hs => hs.congr (hm s).h5 (hm s).published

end Tells

/-! ## Stored groups -/

/-- The part that an item stores in a group. -/
def PostedItem.Stores : PostedItem → ℕ → Bytes → Prop
  | .body post => fun i part => (i, part) ∈ post.parts
  | .attributes _ => fun _ _ => False

/-- All bodies that are posted for a group are the same. -/
def SamePart (items : List PostedItem) : Prop :=
  ∀ first ∈ items, ∀ second ∈ items, ∀ i part part',
    first.Stores i part → second.Stores i part' → part = part'

/-- The images of a group are those of the part. -/
structure ImagesOf (data : Creation) (part : Bytes) (group : Group) : Prop where
  magnitude : group.magnitude = (storePart data part group).magnitude
  phase : group.phase = (storePart data part group).phase

/-- The file has the groups and the attributes of the data, and a stored group has the images of a
part that has been posted for it. -/
structure Filled (data : Creation) (items : List PostedItem) (file : H5File) : Prop where
  fits : Fits data file
  names : ∀ name, (file.attrs name).isSome = true ↔ name ∈ data.allAttributes.map Prod.fst
  images : ∀ i group, file.findGroup (groupName i) = some group → group.stored = true →
    ∃ item ∈ items, ∃ part, item.Stores i part ∧ part.length = data.bodySize ∧
      data.shape.echos ≠ 0 ∧ ImagesOf data part group

/-- Stored groups stay stored. -/
def StaysStored (earlier later : H5File) : Prop :=
  ∀ name group, earlier.findGroup name = some group → group.stored = true →
    ∃ group', later.findGroup name = some group' ∧ group'.stored = true

/-- The attributes are the same, but for the values of the totals. -/
structure SameAttributes (attrs attrs' : String → Option AttrValue) : Prop where
  names : ∀ name, (attrs' name).isSome = (attrs name).isSome
  others : ∀ name ∉ totalsNames, attrs' name = attrs name

theorem SameAttributes.refl (attrs : String → Option AttrValue) : SameAttributes attrs attrs :=
  ⟨fun _ => rfl, fun _ _ => rfl⟩

theorem SameAttributes.trans {first second third : String → Option AttrValue}
    (h : SameAttributes first second) (h' : SameAttributes second third) :
    SameAttributes first third :=
  ⟨fun name => (h'.names name).trans (h.names name),
    fun name hname => (h'.others name hname).trans (h.others name hname)⟩

/-- What readers may see after `earlier`. -/
structure Succeeds (earlier later : H5File) : Prop where
  stays : StaysStored earlier later
  attributes : SameAttributes earlier.attrs later.attrs

section Stored

variable {data : Creation} {items : List PostedItem} {older : List H5File} {s : DataState}
  {file : H5File} {keepFilesOpen : Bool}

theorem staysStored_refl (file : H5File) : StaysStored file file :=
  fun _ group hgroup hstored => ⟨group, hgroup, hstored⟩

theorem StaysStored.trans {first second third : H5File} (h : StaysStored first second)
    (h' : StaysStored second third) : StaysStored first third := by
  intro name group hgroup hstored
  obtain ⟨group', hgroup', hstored'⟩ := h name group hgroup hstored
  exact h' name group' hgroup' hstored'

theorem succeeds_refl (file : H5File) : Succeeds file file := ⟨staysStored_refl file, .refl _⟩

theorem Succeeds.trans {first second third : H5File} (h : Succeeds first second)
    (h' : Succeeds second third) : Succeeds first third :=
  ⟨h.stays.trans h'.stays, h.attributes.trans h'.attributes⟩

theorem findGroup_updateGroup (file : H5File) (name other : String) (change : Group → Group) :
    (file.updateGroup name change).findGroup other =
      (file.findGroup other).map fun group => if other = name then change group else group :=
  H5File.findGroup_mapGroups file _ other

theorem findGroup_updateGroup_self (file : H5File) (name : String) (change : Group → Group) :
    (file.updateGroup name change).findGroup name = (file.findGroup name).map change := by
  rw [findGroup_updateGroup]
  simp

theorem staysStored_updateGroup {name : String} {change : Group → Group}
    (hstored : ∀ group, group.stored = true → (change group).stored = true) (file : H5File) :
    StaysStored file (file.updateGroup name change) := by
  intro other group hgroup hset
  refine ⟨if other = name then change group else group, ?_, ?_⟩
  · rw [findGroup_updateGroup, hgroup]
    rfl
  · split
    · exact hstored group hset
    · exact hset

/-- A write to one group, whose images stay right or are made right. -/
theorem Filled.updateGroup (h : Filled data items file) {i : ℕ} {change : Group → Group}
    (hsame : ∀ group, (change group).SameLayout group)
    (himages : ∀ group, file.findGroup (groupName i) = some group → (change group).stored = true →
      ∃ item ∈ items, ∃ part, item.Stores i part ∧ part.length = data.bodySize ∧
        data.shape.echos ≠ 0 ∧ ImagesOf data part (change group)) :
    Filled data items (file.updateGroup (groupName i) change) where
  fits := h.fits.updateGroup hsame
  names := h.names
  images := by
    intro j group' hgroup' hstored
    rw [findGroup_updateGroup] at hgroup'
    obtain ⟨group, hgroup, rfl⟩ := Option.map_eq_some_iff.mp hgroup'
    by_cases hname : groupName j = groupName i
    · obtain rfl := groupName_injective hname
      simp only [if_true] at hstored ⊢
      exact himages group hgroup hstored
    · simp only [if_neg hname] at hstored ⊢
      exact h.images j group hgroup hstored

/-- `create_file` creates the totals. -/
theorem mem_allAttributes_of_totals {name : String} (hname : name ∈ totalsNames) :
    name ∈ data.allAttributes.map Prod.fst := by
  rw [Creation.allAttributes, Creation.map_fst_checked, List.map_append]
  refine List.mem_append_left _ ?_
  simp only [totalsNames, storeTotals, uploadTotals, List.flatMap_cons, List.flatMap_nil,
    List.append_nil, List.cons_append, List.nil_append] at hname
  simp only [Creation.ownAttributes, List.map_cons, List.map_nil]
  revert name
  decide

/-- A total gets a new value. -/
theorem Filled.setAttr (h : Filled data items file) {name : String} (hname : name ∈ totalsNames)
    (value : AttrValue) :
    Filled data items (file.setAttr name value) ∧ Succeeds file (file.setAttr name value) := by
  have hnames : ∀ other, ((file.setAttr name value).attrs other).isSome =
      (file.attrs other).isSome := by
    intro other
    by_cases heq : other = name
    · subst heq
      rw [(h.names other).mpr (mem_allAttributes_of_totals hname)]
      show (Function.update file.attrs other (some value) other).isSome = true
      rw [Function.update_self]
      rfl
    · show (Function.update file.attrs name (some value) other).isSome = _
      rw [Function.update_of_ne heq]
  refine ⟨⟨h.fits.setAttr name value, fun other => ?_, h.images⟩,
    ⟨staysStored_refl file, hnames, fun other hother => ?_⟩⟩
  · rw [hnames, h.names]
  · refine Function.update_of_ne ?_ _ _
    rintro rfl
    exact hother hname

/-- The state is one that readers see, and what they have seen before is still there. -/
abbrev TellsFilled (data : Creation) (items : List PostedItem) (older : List H5File) :
    DataState → Prop :=
  Tells (Filled data items) Succeeds older

theorem TellsFilled.updateGroup (h : TellsFilled data items older s) (hfile : s.h5 = some file)
    (i : ℕ) (change : Group → Group) (hsame : ∀ group, (change group).SameLayout group)
    (hstored : ∀ group, group.stored = true → (change group).stored = true)
    (himages : ∀ group, file.findGroup (groupName i) = some group → (change group).stored = true →
      ∃ item ∈ items, ∃ part, item.Stores i part ∧ part.length = data.bodySize ∧
        data.shape.echos ≠ 0 ∧ ImagesOf data part (change group)) :
    TellsFilled data items older
      (s.write fun file => file.updateGroup (groupName i) change) := by
  obtain ⟨file', hfile', hfilled⟩ := h.h5
  obtain rfl : file' = file := Option.some.inj (hfile'.symm.trans hfile)
  exact Tells.write (R := Succeeds) Succeeds.trans h _ hfile
    (hfilled.updateGroup hsame himages) ⟨staysStored_updateGroup hstored file', .refl _⟩

theorem h5_updateGroup (hfile : s.h5 = some file) (name : String) (change : Group → Group) :
    (s.write fun file => file.updateGroup name change).h5 = some (file.updateGroup name change) := by
  rw [DataState.h5_write, hfile]
  rfl

/-- The four writes for a part: the images come first, and are right when the group is marked as
stored. -/
theorem TellsFilled.storePart (h : TellsFilled data items older s) (hsame : SamePart items)
    {item : PostedItem} (hitem : item ∈ items) {i : ℕ} {part : Bytes}
    (hstores : item.Stores i part) (hsize : part.length = data.bodySize)
    (hechos : data.shape.echos ≠ 0) :
    TellsFilled data items older (s.storeBodies data [(i, part)]) := by
  obtain ⟨file, hfile, hfilled⟩ := h.h5
  -- what a stored group has before is the same part
  have hpart : ∀ group, file.findGroup (groupName i) = some group → group.stored = true →
      ImagesOf data part group := by
    intro group hgroup hstored
    obtain ⟨other, hother, part', hstores', -, -, himages⟩ := hfilled.images i group hgroup hstored
    rwa [hsame item hitem other hother i part part' hstores hstores']
  have hright : ∀ group, ImagesOf data part group → ∃ item ∈ items, ∃ part, item.Stores i part ∧
      part.length = data.bodySize ∧ data.shape.echos ≠ 0 ∧ ImagesOf data part group :=
    fun group himages => ⟨item, hitem, part, hstores, hsize, hechos, himages⟩
  let images := ComputeWebApp.Api.storePart data part
  let magnitude : Group → Group := fun group => { group with magnitude := (images group).magnitude }
  let phase : Group → Group := fun group => { group with phase := (images group).phase }
  let stored : Group → Group := fun group => { group with stored := true }
  have hfirst := h.updateGroup hfile i magnitude (fun _ => ⟨rfl, rfl, rfl⟩) (fun _ => id)
    fun group hgroup hstored =>
      hright _ ⟨rfl, (hpart group hgroup hstored).phase⟩
  have hfile₁ := h5_updateGroup hfile (groupName i) magnitude
  have hsecond := TellsFilled.updateGroup hfirst hfile₁ i phase (fun _ => ⟨rfl, rfl, rfl⟩)
    (fun _ => id) fun group hgroup _ => by
      rw [findGroup_updateGroup_self] at hgroup
      obtain ⟨old, -, rfl⟩ := Option.map_eq_some_iff.mp hgroup
      exact hright _ ⟨rfl, rfl⟩
  have hfile₂ := h5_updateGroup hfile₁ (groupName i) phase
  have hthird := TellsFilled.updateGroup hsecond hfile₂ i stored (fun _ => ⟨rfl, rfl, rfl⟩)
    (fun _ _ => rfl) fun group hgroup _ => by
      rw [findGroup_updateGroup_self, findGroup_updateGroup_self, Option.map_map] at hgroup
      obtain ⟨old, -, rfl⟩ := Option.map_eq_some_iff.mp hgroup
      exact hright _ ⟨rfl, rfl⟩
  have hfile₃ := h5_updateGroup hfile₂ (groupName i) stored
  exact TellsFilled.updateGroup hthird hfile₃ i _ (fun _ => ⟨rfl, rfl, rfl⟩) (fun _ => id)
    fun group hgroup _ => by
      rw [findGroup_updateGroup_self, findGroup_updateGroup_self, findGroup_updateGroup_self,
        Option.map_map, Option.map_map] at hgroup
      obtain ⟨old, -, rfl⟩ := Option.map_eq_some_iff.mp hgroup
      exact hright _ ⟨rfl, rfl⟩

theorem ImagesOf.encodeGroup {part : Bytes} {group : Group} (h : ImagesOf data part group)
    (hechos : data.shape.echos ≠ 0) (hsize : part.length = data.bodySize) :
    encodeGroup group = part := by
  rw [ComputeWebApp.Api.encodeGroup, h.magnitude, h.phase]
  exact encodeGroup_storePart hechos hsize group

/-- A stored group has its images for ever. -/
theorem StaysStored.images {earlier later : H5File} (hsame : SamePart items)
    (hearlier : Filled data items earlier) (hlater : Filled data items later)
    (hstays : StaysStored earlier later) {name : String} {group : Group}
    (hgroup : earlier.findGroup name = some group) (hstored : group.stored = true) :
    ∃ group', later.findGroup name = some group' ∧ group'.stored = true ∧
      group'.magnitude = group.magnitude ∧ group'.phase = group.phase := by
  obtain ⟨i, -, rfl⟩ := (hearlier.fits.isSome_findGroup name).mp (by rw [hgroup]; rfl)
  obtain ⟨group', hgroup', hstored'⟩ := hstays _ group hgroup hstored
  obtain ⟨item, hitem, part, hstores, -, -, himages⟩ := hearlier.images i group hgroup hstored
  obtain ⟨item', hitem', part', hstores', -, -, himages'⟩ :=
    hlater.images i group' hgroup' hstored'
  obtain rfl := hsame item hitem item' hitem' i part part' hstores hstores'
  refine ⟨group', hgroup', hstored', ?_, ?_⟩
  · rw [himages.magnitude, himages'.magnitude]
    rfl
  · rw [himages.phase, himages'.phase]
    rfl

/-! ### The functions of the worker -/

theorem maintains_setAttr {name : String} (hname : name ∈ totalsNames) (value : AttrValue) :
    Maintains (TellsFilled data items older) (setAttr name value) := by
  refine maintains_writeFile fun s hs => ?_
  obtain ⟨file, hfile, hfilled⟩ := hs.h5
  obtain ⟨hafter, hsucceeds⟩ := hfilled.setAttr hname value
  exact Tells.write (R := Succeeds) Succeeds.trans hs _ hfile hafter hsucceeds

theorem maintains_now : Maintains (TellsFilled data items older) now :=
  fun _ hs => hs.congr rfl rfl

theorem maintains_writeBodyToFileGroup (hsame : SamePart items) {item : PostedItem}
    (hitem : item ∈ items) {i : ℕ} {part : Bytes} (hstores : item.Stores i part) :
    Maintains (TellsFilled data items older) (writeBodyToFileGroup part i) := by
  intro s hs
  obtain ⟨file, hfile, hfilled⟩ := hs.h5
  by_cases hgood : s.isOpen = true ∧ i < data.slices ∧ part.length = data.bodySize ∧
      data.shape.echos ≠ 0
  · obtain ⟨hopen, hslice, hsize, hechos⟩ := hgood
    have hrun := writeBodyToFileGroup_eq hfilled.fits hfile hopen hechos
      (show ((i, part) : ℕ × Bytes).1 < data.slices from hslice) hsize
    rw [hrun]
    exact hs.storePart hsame hitem hstores hsize hechos
  · -- the part is not written
    have hbad : s.isOpen = false ∨ data.slices ≤ i ∨ part.length ≠ data.bodySize ∨
        data.shape.echos = 0 := by
      by_contra hnone
      push Not at hnone
      exact hgood ⟨by simpa using hnone.1, hnone.2⟩
    rcases writeBodyToFileGroup_fails hfilled.fits hfile hbad with ⟨exception, hfails⟩ | ⟨-, hcloses⟩
    · rw [hfails]
      exact hs
    · rw [hcloses]
      exact hs.congr rfl rfl

theorem maintains_recordStored : Maintains (TellsFilled data items older) recordStored := by
  refine readsOnly_openFile.maintains.bind fun file => ?_
  refine (readsOnly_percent _).maintains.bind fun storeProgress => ?_
  refine (maintains_setAttr (by decide) _).bind fun _ => ?_
  refine (maintains_setAttr (by decide) _).bind fun _ => ?_
  split
  · exact maintains_now.bind fun time => (maintains_setAttr (by decide) _).bind fun _ =>
      maintains_setAttr (by decide) _
  · exact (readsOnly_pure ()).maintains

theorem maintains_recordUploaded : Maintains (TellsFilled data items older) recordUploaded := by
  refine readsOnly_openFile.maintains.bind fun file => ?_
  refine (readsOnly_percent _).maintains.bind fun uploadProgress => ?_
  refine (maintains_setAttr (by decide) _).bind fun _ => ?_
  refine (maintains_setAttr (by decide) _).bind fun _ => ?_
  split
  · refine (readsOnly_truth _).maintains.bind fun uploaded => ?_
    cases uploaded with
    | true => exact (readsOnly_pure ()).maintains
    | false =>
        exact maintains_now.bind fun time => (maintains_setAttr (by decide) _).bind fun _ =>
          maintains_setAttr (by decide) _
  · exact (readsOnly_pure ()).maintains

/-- Attributes of a group leave its images alone, and whether it is stored. -/
theorem maintains_writeEntry (post : ValuePost) {entry : AttributeEntry}
    (hentry : entry ∈ post.entries) :
    Maintains (TellsFilled data items older) (writeEntry entry) := by
  obtain ⟨i, -, hname⟩ := ValuePost.mem_entries hentry
  refine readsOnly_openFile.maintains.bind fun file => ?_
  split
  · exact (readsOnly_raise _).maintains
  · rw [hname]
    refine maintains_writeFile fun s hs => ?_
    obtain ⟨file', hfile, hfilled⟩ := hs.h5
    have hsame : ∀ group : Group, (group.setAttribute entry.assigned).stored = group.stored ∧
        (group.setAttribute entry.assigned).magnitude = group.magnitude ∧
        (group.setAttribute entry.assigned).phase = group.phase := by
      intro group
      cases entry.assigned <;> exact ⟨rfl, rfl, rfl⟩
    refine TellsFilled.updateGroup hs hfile i _ (fun group => setAttribute_sameLayout group _)
      (fun group hstored => ?_) fun group hgroup hstored => ?_
    · rwa [(hsame group).1]
    · rw [(hsame group).1] at hstored
      obtain ⟨item, hitem, part, hstores, hsize, hechos, himages⟩ :=
        hfilled.images i group hgroup hstored
      refine ⟨item, hitem, part, hstores, hsize, hechos, ?_, ?_⟩
      · rw [(hsame group).2.1, himages.magnitude]
        rfl
      · rw [(hsame group).2.2, himages.phase]
        rfl

/-- **Step lemma**: an item of a posted value, accepted or not. -/
theorem maintains_handleItem (hsame : SamePart items) {item : PostedItem} (hitem : item ∈ items) :
    Maintains (TellsFilled data items older) (handleItem keepFilesOpen item.item) := by
  intro s hs
  obtain ⟨file, hfile, -⟩ := hs.h5
  have hopened : TellsFilled data items older (s.opened keepFilesOpen) :=
    hs.congr (sameFile_opened s).h5 (sameFile_opened s).published
  cases item with
  | body post =>
      rw [PostedItem.item, handleItem_body hfile post, writeBodyItemToFile_eq_bind post.nonempty]
      refine Maintains.bind (Maintains.bind ?_ fun _ => maintains_recordStored)
        (fun _ => keepsFile_finishBody.maintains) _ hopened
      exact maintains_forM fun part hpart =>
        maintains_writeBodyToFileGroup hsame hitem (show (part.1, part.2) ∈ post.parts from hpart)
  | attributes post =>
      rw [PostedItem.item, handleItem_attributes hfile post, writeAttributesItemToFile_eq_bind]
      refine Maintains.bind (Maintains.bind ?_ fun _ => maintains_recordUploaded)
        (fun _ => keepsFile_finishItem.maintains) _ hopened
      exact maintains_forM fun entry hentry => maintains_writeEntry post hentry

end Stored

/-! ## Runs -/

/-- The state that the items leave, one after the other, up to the first one that the worker never
ends. -/
def afterItems (keepFilesOpen : Bool) (s : DataState) : List PostedItem → DataState
  | [] => s
  | item :: rest =>
      match afterItem keepFilesOpen s item.item with
      | none => stateOf (handleItem keepFilesOpen item.item s)
      | some t => afterItems keepFilesOpen t rest

/-- Where the worker ends every item it is what a run reaches. -/
theorem afterItems_of_run {keepFilesOpen : Bool} {items : List PostedItem} {s t : DataState}
    (h : run (fun s item => afterItem keepFilesOpen s (PostedItem.item item)) s items = some t) :
    afterItems keepFilesOpen s items = t := by
  induction items generalizing s with
  | nil => exact Option.some.inj h
  | cons item rest ih =>
      obtain ⟨u, hu, hrest⟩ := Option.bind_eq_some_iff.mp h
      rw [afterItems, show afterItem keepFilesOpen s item.item = some u from hu]
      exact ih hrest

/-- What each item maintains is there after all of them, and when one of them does not end. -/
theorem maintained_afterItems {keepFilesOpen : Bool} {items : List PostedItem}
    {I : DataState → Prop}
    (hitem : ∀ item ∈ items, Maintains I (handleItem keepFilesOpen item.item))
    {s : DataState} (hs : I s) : I (afterItems keepFilesOpen s items) := by
  induction items generalizing s with
  | nil => exact hs
  | cons item rest ih =>
      have hafter := hitem item List.mem_cons_self s hs
      rw [afterItems]
      cases hstep : afterItem keepFilesOpen s item.item with
      | none => exact hafter
      | some t =>
          obtain ⟨-, rfl⟩ := afterItem_eq_some.mp hstep
          exact ih (fun other hmem => hitem other (List.mem_cons_of_mem _ hmem)) hafter

/-- The states of the file that readers may see after the creation, the oldest one first. -/
def Created.history {keepFilesOpen : Bool} (created : Created keepFilesOpen) (s : DataState) :
    List H5File :=
  s.published.reverse.drop (created.state.published.length - 1)

section Run

variable {keepFilesOpen : Bool} {items : List PostedItem} {s : DataState}

/-- The file stays the last state that has been published. -/
theorem head?_published_writes (changes : List (H5File → H5File)) {s : DataState}
    (hlast : s.published.head? = s.h5) :
    (changes.foldl DataState.write s).published.head? = (changes.foldl DataState.write s).h5 := by
  induction changes generalizing s with
  | nil => exact hlast
  | cons change rest ih =>
      refine ih ?_
      cases hfile : s.h5 with
      | none => simpa [DataState.write, hfile] using hlast
      | some file => simp [DataState.write, hfile]

theorem Created.published_eq (created : Created keepFilesOpen) :
    created.state.published = created.file :: created.state.published.tail := by
  have hhead : created.state.published.head? = some created.file := by
    rw [created.state_eq.1]
    exact (head?_published_writes created.data.changes rfl).trans (h5_writes rfl _)
  exact (List.cons_head?_tail hhead).symm

/-- No group of a new file is stored. -/
theorem Created.tells (created : Created keepFilesOpen) (items : List PostedItem) :
    TellsFilled created.data items created.state.published.tail created.state := by
  refine ⟨created.file, [], created.h5_eq, created.published_eq, fun seen hseen => ?_,
    List.pairwise_singleton _ _⟩
  obtain rfl := List.mem_singleton.mp hseen
  refine ⟨created.fits, fun _ => created.isSome_attrs_file, fun i group hgroup hstored => ?_⟩
  have hmem := H5File.mem_of_findGroup hgroup
  rw [created.groups_file] at hmem
  obtain ⟨j, -, heq⟩ := List.mem_map.mp hmem
  obtain rfl : created.data.group = group := congrArg Prod.snd heq
  cases hstored

/-- **Run lemma.** -/
theorem Created.tells_run (created : Created keepFilesOpen) (hsame : SamePart items) :
    TellsFilled created.data items created.state.published.tail
      (afterItems keepFilesOpen created.state items) :=
  maintained_afterItems (fun _ hitem => maintains_handleItem hsame hitem) (created.tells items)

/-- What readers see since the creation. -/
theorem Created.history_of_tells (created : Created keepFilesOpen) {P : H5File → Prop}
    {R : H5File → H5File → Prop} (h : Tells P R created.state.published.tail s) :
    (∀ seen ∈ created.history s, P seen) ∧ (created.history s).Pairwise R ∧
      (created.history s).getLast? = s.h5 := by
  obtain ⟨file, earlier, hfile, hpublished, hholds, hordered⟩ := h
  have hhistory : created.history s = (file :: earlier).reverse := by
    rw [history, hpublished, List.reverse_append, List.drop_append_of_le_length (by simp),
      List.drop_of_length_le (by simp)]
    simp
  rw [hhistory]
  refine ⟨fun seen hseen => hholds seen (List.mem_reverse.mp hseen),
    List.pairwise_reverse.mpr hordered, ?_⟩
  rw [List.getLast?_reverse, hfile]
  rfl

/-- **A group that a reader sees stored is complete and final.**  Post any items after the creation,
accepted or not, the bodies for one group being the same, up to one that the worker never ends.  In
every state that a reader may see, a stored group encodes the whole part that has been posted for
it, and in all later ones it is stored and has the same images. -/
theorem stored_groups_are_final (created : Created keepFilesOpen) (hsame : SamePart items)
    (hs : afterItems keepFilesOpen created.state items = s) :
    (∀ seen ∈ created.history s, ∀ i group, seen.findGroup (groupName i) = some group →
      group.stored = true → ∃ item ∈ items, ∃ part, item.Stores i part ∧ encodeGroup group = part) ∧
    (created.history s).Pairwise fun earlier later => ∀ name group,
      earlier.findGroup name = some group → group.stored = true →
        ∃ group', later.findGroup name = some group' ∧ group'.stored = true ∧
          group'.magnitude = group.magnitude ∧ group'.phase = group.phase := by
  obtain ⟨hfilled, hordered, -⟩ := created.history_of_tells (hs ▸ created.tells_run hsame)
  constructor
  · intro seen hseen i group hgroup hstored
    obtain ⟨item, hitem, part, hstores, hsize, hechos, himages⟩ :=
      (hfilled seen hseen).images i group hgroup hstored
    exact ⟨item, hitem, part, hstores, himages.encodeGroup hechos hsize⟩
  · refine hordered.imp_of_mem ?_
    intro earlier later hearlier hlater hstays name group hgroup hstored
    exact StaysStored.images hsame (hfilled earlier hearlier) (hfilled later hlater) hstays.stays
      hgroup hstored

end Run

/-- What is posted for two slices: the attributes and the body of both, then each slice again.  The
body of the second slice finds no marker and leaves the lock, for which the last one waits. -/
def twoSlicesItems : List PostedItem :=
  [.attributes (slicesPost 1 [0] [5, 6, 7, 8, 1, 2, 3, 4]),
    .body (slicesPost 1 [0] [5, 6, 7, 8, 1, 2, 3, 4]),
    .body (slicesPost 1 [] [5, 6, 7, 8]), .body (slicesPost 0 [] [1, 2, 3, 4])]

theorem samePart_twoSlicesItems : SamePart twoSlicesItems := by
  have hstores : ∀ item ∈ twoSlicesItems, ∀ i part, item.Stores i part →
      part = if i = 1 then [5, 6, 7, 8] else [1, 2, 3, 4] := by
    intro item hitem i part h
    simp only [twoSlicesItems, List.mem_cons, List.not_mem_nil, or_false] at hitem
    rcases hitem with rfl | rfl | rfl | rfl <;>
      simp [PostedItem.Stores, ValuePost.parts, bodyParts, List.range_succ, slicesPost] at h <;>
      grind
  intro first hfirst second hsecond i part part' h h'
  rw [hstores first hfirst i part h, hstores second hsecond i part' h']

/-- The last body leaves a state in which both slices are stored. -/
theorem stored_groups_are_final_two_slices :
    ∃ s seen group, afterItems false (createdSlices false).state twoSlicesItems = s ∧
      run (fun s item => afterItem false s (PostedItem.item item)) (createdSlices false).state
        twoSlicesItems = none ∧
      seen ∈ (createdSlices false).history s ∧ seen.findGroup (groupName 1) = some group ∧
      group.stored = true ∧
      ∃ item ∈ twoSlicesItems, ∃ part, item.Stores 1 part ∧ encodeGroup group = part := by
  have hend : ((((createdSlices false).history (afterItems false (createdSlices false).state
      twoSlicesItems)).getLast?.bind fun seen => seen.findGroup (groupName 1)).any
        Group.stored) = true := by decide +kernel
  obtain ⟨group, hgroup, hstored⟩ := (Option.any_eq_true _ _).mp hend
  obtain ⟨seen, hseen, hgroup⟩ := Option.bind_eq_some_iff.mp hgroup
  have hseen := List.mem_of_getLast? hseen
  have hspins : (run (fun s item => afterItem false s (PostedItem.item item))
      (createdSlices false).state twoSlicesItems).isNone = true := by decide +kernel
  exact ⟨_, seen, group, rfl, Option.isNone_iff_eq_none.mp hspins, hseen, hgroup, hstored,
    (stored_groups_are_final (createdSlices false) samePart_twoSlicesItems rfl).1 seen hseen 1 group
      hgroup hstored⟩

end ComputeWebApp.Api
