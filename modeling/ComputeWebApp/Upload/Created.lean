import ComputeWebApp.Upload.WorkerEffects

/-!
# A created data

What the creation item leaves, when it succeeds: the groups of the slices, the attributes of
`create_file`, each with its first value unless a posted attribute has the same name, and the
marker `<data_id>.json`.
-/

namespace ComputeWebApp.Api

/-! ## Attributes and groups -/

/-- The attributes of `create_file`: its own ones, then the posted ones. -/
def Creation.allAttributes (data : Creation) : List (String × Except Exn AttrValue) :=
  (data.ownAttributes ++ data.postedAttributes).map data.checked

/-- The data can be created: its attributes and numbers have types of HDF5 and are not refused, and
so is the shape of its datasets, when it has any. -/
structure Creation.Creatable (data : Creation) : Prop where
  attributes : ∀ entry ∈ data.allAttributes, entry.2.toBool = true
  sliceLocations : data.sliceLocations.all JsonNumber.hasType = true
  echoTimes : data.echoTimes.all JsonNumber.hasType = true
  datasets : data.slices ≠ 0 → data.hasDatasets = true

instance (data : Creation) : Decidable data.Creatable :=
  decidable_of_iff ((∀ entry ∈ data.allAttributes, entry.2.toBool = true) ∧
      data.sliceLocations.all JsonNumber.hasType = true ∧
      data.echoTimes.all JsonNumber.hasType = true ∧
      (data.slices ≠ 0 → data.hasDatasets = true))
    ⟨fun ⟨h₁, h₂, h₃, h₄⟩ => ⟨h₁, h₂, h₃, h₄⟩, fun ⟨h₁, h₂, h₃, h₄⟩ => ⟨h₁, h₂, h₃, h₄⟩⟩

/-- The values that a creation stores. -/
def Creation.values (data : Creation) : List (String × AttrValue) :=
  data.allAttributes.filterMap fun entry => entry.2.toOption.map fun value => (entry.1, value)

/-- The writes of a successful creation. -/
def Creation.changes (data : Creation) : List (H5File → H5File) :=
  (data.values.map fun entry file => file.setAttr entry.1 entry.2) ++
    (List.range data.slices).map fun i file => file.createGroup (groupName i) data.group

theorem createAttrs_ok {entries : List (String × Except Exn AttrValue)} {s t : DataState}
    {file : H5File} (hfile : s.h5 = some file) (hopen : s.isOpen = true)
    (h : createAttrs entries s = .ok () t) :
    t = ((entries.filterMap fun entry => entry.2.toOption.map fun value => (entry.1, value)).map
      fun entry file => file.setAttr entry.1 entry.2).foldl DataState.write s ∧
      ∀ entry ∈ entries, ∃ value, entry.2 = .ok value := by
  induction entries generalizing s file with
  | nil =>
      cases h
      exact ⟨rfl, fun _ hmem => by cases hmem⟩
  | cons entry rest ih =>
      obtain ⟨name, value⟩ := entry
      rw [createAttrs, List.forM_cons] at h
      cases value with
      | error exception =>
          rw [bind_error (show createAttr name (.error exception) s = .error (.raised exception) s from
            rfl)] at h
          cases h
      | ok value =>
          rw [bind_ok (show createAttr name (.ok value) s = _ from setAttr_eq hfile hopen name value)]
            at h
          obtain ⟨ht, hrest⟩ := ih (by rw [DataState.h5_write, hfile]; rfl) (by simpa) h
          refine ⟨ht, ?_⟩
          intro entry hmem
          rcases List.mem_cons.mp hmem with rfl | hmem
          · exact ⟨value, rfl⟩
          · exact hrest entry hmem

theorem createNumbers_eq {numbers : List JsonNumber}
    (h : numbers.all JsonNumber.hasType = true) : createNumbers numbers = pure () := if_pos h

theorem createNumbers_ok {numbers : List JsonNumber} {s t : DataState}
    (h : createNumbers numbers s = .ok () t) :
    numbers.all JsonNumber.hasType = true ∧ createNumbers numbers = pure () := by
  cases hall : numbers.all JsonNumber.hasType with
  | true => exact ⟨rfl, createNumbers_eq hall⟩
  | false =>
      rw [createNumbers, hall] at h
      cases h

theorem createAttributes_eq {data : Creation}
    (hslices : data.sliceLocations.all JsonNumber.hasType = true)
    (hechos : data.echoTimes.all JsonNumber.hasType = true) :
    createAttributes data = createAttrs data.allAttributes := by
  rw [createAttributes, createNumbers_eq hslices, createNumbers_eq hechos, createAttrs, createAttrs,
    createAttrs, Creation.allAttributes, List.map_append, List.forM_append]
  rfl

theorem createAttributes_ok {data : Creation} {s t : DataState}
    (h : createAttributes data s = .ok () t) :
    createAttrs data.allAttributes s = .ok () t ∧
      data.sliceLocations.all JsonNumber.hasType = true ∧
      data.echoTimes.all JsonNumber.hasType = true := by
  obtain ⟨_, own, -, hnumbers⟩ := ok_of_bind h
  obtain ⟨_, after, hslices, htimes⟩ := ok_of_bind hnumbers
  obtain ⟨_, _, hechos, -⟩ := ok_of_bind htimes
  have hslices := (createNumbers_ok hslices).1
  have hechos := (createNumbers_ok hechos).1
  exact ⟨createAttributes_eq hslices hechos ▸ h, hslices, hechos⟩

theorem createGroups_eq {data : Creation} (h : data.slices ≠ 0 → data.hasDatasets = true) :
    createGroups data = forM (List.range data.slices) fun i =>
      writeFile fun file => file.createGroup (groupName i) data.group := by
  have hnot : ¬(data.slices ≠ 0 ∧ data.hasDatasets = false) := by
    rintro ⟨hslices, hfalse⟩
    rw [h hslices] at hfalse
    cases hfalse
  rw [createGroups, if_neg hnot]
  exact bind_pure _

theorem createGroups_ok {data : Creation} {s t : DataState} (h : createGroups data s = .ok () t) :
    data.slices ≠ 0 → data.hasDatasets = true := by
  intro hslices
  by_contra hnot
  obtain ⟨_, u, -, hraise⟩ := ok_of_bind h
  rw [if_pos ⟨hslices, by simpa using hnot⟩] at hraise
  cases hraise

theorem forM_createGroup_eq (data : Creation) (indices : List ℕ) {s : DataState} {file : H5File}
    (hfile : s.h5 = some file) (hopen : s.isOpen = true) :
    forM indices (fun i => writeFile fun file => file.createGroup (groupName i) data.group) s =
      .ok () ((indices.map fun i file => file.createGroup (groupName i) data.group).foldl
        DataState.write s) := by
  induction indices generalizing s file with
  | nil => rfl
  | cons i rest ih =>
      rw [List.forM_cons, bind_ok (writeFile_eq hfile hopen _)]
      exact ih (by rw [DataState.h5_write, hfile]; rfl) (by simpa)

/-- The file of a creation, before anything is written to it. -/
def DataState.truncated (s : DataState) : DataState :=
  { s with h5 := some {}, isOpen := true, published := {} :: s.published }

/-- What a creation does once the file has been opened. -/
def Creation.fill (data : Creation) (keepFilesOpen : Bool) : WorkerM Unit := do
  createAttributes data
  createGroups data
  lockFile
  modify fun s => { s with marker := true }
  unlockFile
  if keepFilesOpen then modify fun s => { s with cached := true } else closeFile

theorem handleItem_creation (keepFilesOpen : Bool) (data : Creation) (s : DataState) :
    handleItem keepFilesOpen (.creation data) s = data.fill keepFilesOpen s.truncated := by
  simp only [handleItem, createFile, bind_assoc]
  rfl

namespace Created

variable {keepFilesOpen : Bool}

/-- The file that a creation leaves. -/
def file (created : Created keepFilesOpen) : H5File :=
  created.data.changes.foldl (fun file change => change file) {}

/-- What the creation item leaves. -/
theorem state_eq (created : Created keepFilesOpen) :
    created.state =
      { h5 := some created.file
        marker := true
        cached := keepFilesOpen
        isOpen := keepFilesOpen
        published := (created.data.changes.foldl DataState.write
          { h5 := some {}, isOpen := true, published := [{}] }).published } ∧
      (∀ entry ∈ created.data.allAttributes, ∃ value, entry.2 = .ok value) ∧
      (created.data.slices ≠ 0 → created.data.hasDatasets = true) := by
  obtain ⟨data, state, hcreates⟩ := created
  rw [handleItem_creation, show DataState.truncated {} =
    { h5 := some {}, isOpen := true, published := [{}] } from rfl] at hcreates
  obtain ⟨_, t, hattrs, hrest⟩ := ok_of_bind hcreates
  obtain ⟨ht, hvalues⟩ := createAttrs_ok rfl rfl (createAttributes_ok hattrs).1
  obtain ⟨_, u, hgroups, hrest⟩ := ok_of_bind hrest
  have hdatasets := createGroups_ok hgroups
  refine ⟨?_, hvalues, hdatasets⟩
  rw [createGroups_eq hdatasets, forM_createGroup_eq data (List.range data.slices)
    (by rw [ht]; exact h5_writes rfl _) (by rw [ht, writes_eq])] at hgroups
  have hchanges : ((List.range data.slices).map fun i file =>
      H5File.createGroup file (groupName i) data.group).foldl DataState.write t =
        data.changes.foldl DataState.write { h5 := some {}, isOpen := true, published := [{}] } := by
    rw [ht, Creation.changes, List.foldl_append]
    rfl
  rw [hchanges, writes_eq, h5_writes rfl] at hgroups
  injection hgroups with _ hu
  rw [← hu] at hrest
  simp only [lockFile, unlockFile] at hrest
  cases keepFilesOpen with
  | false =>
      injection hrest with _ hstate
      exact hstate.symm
  | true =>
      injection hrest with _ hstate
      exact hstate.symm

theorem h5_eq (created : Created keepFilesOpen) : created.state.h5 = some created.file := by
  rw [created.state_eq.1]

theorem groups_foldl_setAttr (values : List (String × AttrValue)) (file : H5File) :
    ((values.map fun entry file => H5File.setAttr file entry.1 entry.2).foldl
      (fun file change => change file) file).groups = file.groups := by
  induction values generalizing file with
  | nil => rfl
  | cons entry rest ih => exact ih _

theorem groups_foldl_createGroup (group : Group) (indices : List ℕ) (file : H5File) :
    ((indices.map fun i file => H5File.createGroup file (groupName i) group).foldl
      (fun file change => change file) file).groups =
      file.groups ++ indices.map fun i => (groupName i, group) := by
  induction indices generalizing file with
  | nil => simp
  | cons i rest ih =>
      refine (ih _).trans ?_
      simp [H5File.createGroup]

theorem attrs_foldl_createGroup (group : Group) (indices : List ℕ) (file : H5File) :
    ((indices.map fun i file => H5File.createGroup file (groupName i) group).foldl
      (fun file change => change file) file).attrs = file.attrs := by
  induction indices generalizing file with
  | nil => rfl
  | cons i rest ih => exact ih _

theorem groups_file (created : Created keepFilesOpen) :
    created.file.groups =
      (List.range created.data.slices).map fun i => (groupName i, created.data.group) := by
  rw [file, Creation.changes, List.foldl_append, groups_foldl_createGroup, groups_foldl_setAttr]
  rfl

/-- A flag that a new group does not have is not set in all groups. -/
theorem not_all_groups (created : Created keepFilesOpen) (hslices : 0 < created.data.slices)
    {flag : Group → Bool} (hflag : flag created.data.group = false) :
    (created.file.groups.all fun entry => flag entry.2) = false := by
  rw [created.groups_file, List.all_eq_false]
  exact ⟨_, List.mem_map_of_mem (List.mem_range.mpr hslices), by simp [hflag]⟩

theorem fits (created : Created keepFilesOpen) : Fits created.data created.file where
  names := by rw [groups_file]; simp
  dtype := by
    intro entry hmem
    rw [groups_file] at hmem
    obtain ⟨i, -, rfl⟩ := List.mem_map.mp hmem
    rfl
  shape := by
    intro entry hmem
    rw [groups_file] at hmem
    obtain ⟨i, -, rfl⟩ := List.mem_map.mp hmem
    rfl
  datasets := by
    intro entry hmem
    rw [groups_file] at hmem
    obtain ⟨i, hi, rfl⟩ := List.mem_map.mp hmem
    exact created.state_eq.2.2 (Nat.ne_zero_of_lt (List.mem_range.mp hi))

end Created

/-! ### First values of the attributes -/

section Attributes

variable {name : String} {value : AttrValue}

/-- Assign the attributes one after the other. -/
def assign (attrs : String → Option AttrValue) (values : List (String × AttrValue)) :
    String → Option AttrValue :=
  values.foldl (fun attrs entry => Function.update attrs entry.1 (some entry.2)) attrs

theorem assign_of_not_mem {values : List (String × AttrValue)}
    (h : ∀ entry ∈ values, entry.1 ≠ name) (attrs : String → Option AttrValue) :
    assign attrs values name = attrs name := by
  induction values generalizing attrs with
  | nil => rfl
  | cons entry rest ih =>
      refine (ih (fun entry hmem => h entry (List.mem_cons_of_mem _ hmem)) _).trans ?_
      exact Function.update_of_ne (h entry List.mem_cons_self).symm _ _

theorem assign_of_mem {values : List (String × AttrValue)}
    (hnodup : (values.map Prod.fst).Nodup) (hmem : (name, value) ∈ values)
    (attrs : String → Option AttrValue) : assign attrs values name = some value := by
  induction values generalizing attrs with
  | nil => cases hmem
  | cons entry rest ih =>
      obtain ⟨hnot, hrest⟩ := List.nodup_cons.mp hnodup
      rcases List.mem_cons.mp hmem with rfl | hmem
      · show assign (Function.update attrs name (some value)) rest name = some value
        have hnot' : ∀ entry ∈ rest, entry.1 ≠ name := by
          rintro entry hmem' rfl
          exact hnot (List.mem_map.mpr ⟨entry, hmem', rfl⟩)
        rw [assign_of_not_mem hnot', Function.update_self]
      · exact ih hrest hmem _

theorem isSome_assign {values : List (String × AttrValue)} (attrs : String → Option AttrValue) :
    (assign attrs values name).isSome = true ↔
      (attrs name).isSome = true ∨ name ∈ values.map Prod.fst := by
  induction values generalizing attrs with
  | nil => simp [assign]
  | cons entry rest ih =>
      have hset : (Function.update attrs entry.1 (some entry.2) name).isSome = true ↔
          (attrs name).isSome = true ∨ name = entry.1 := by
        by_cases hname : name = entry.1
        · subst hname
          simp
        · rw [Function.update_of_ne hname]
          simp [hname]
      refine (ih _).trans ?_
      rw [hset, List.map_cons, List.mem_cons, or_assoc]

/-- No posted attribute has the name. -/
def Creation.Avoids (data : Creation) (name : String) : Prop :=
  ∀ entry ∈ data.attributes, entry.1 ≠ name

instance (data : Creation) (name : String) : Decidable (data.Avoids name) :=
  inferInstanceAs (Decidable (∀ entry ∈ data.attributes, entry.1 ≠ name))

theorem attrs_foldl_setAttr (values : List (String × AttrValue)) (file : H5File) :
    ((values.map fun entry file => H5File.setAttr file entry.1 entry.2).foldl
      (fun file change => change file) file).attrs = assign file.attrs values := by
  induction values generalizing file with
  | nil => rfl
  | cons entry rest ih => exact ih _

theorem Created.attrs_file_eq_assign {keepFilesOpen : Bool} (created : Created keepFilesOpen) :
    created.file.attrs = assign (fun _ => none) created.data.values := by
  rw [file, Creation.changes, List.foldl_append, attrs_foldl_createGroup, attrs_foldl_setAttr]

/-- The attributes with a value keep their order. -/
theorem names_sublist (entries : List (String × Except Exn AttrValue)) :
    ((entries.filterMap fun entry =>
      entry.2.toOption.map fun value => (entry.1, value)).map Prod.fst).Sublist
      (entries.map Prod.fst) := by
  induction entries with
  | nil => exact .refl _
  | cons entry rest ih =>
      obtain ⟨name, value⟩ := entry
      cases value with
      | error exception => exact ih.cons _
      | ok value => exact ih.cons_cons _

@[simp] theorem Creation.map_fst_checked (data : Creation)
    (entries : List (String × Except Exn AttrValue)) :
    (entries.map data.checked).map Prod.fst = entries.map Prod.fst := by
  rw [List.map_map]
  rfl

/-- What is accepted is stored as it is. -/
theorem Creation.eq_of_checked {data : Creation} {entry : String × Except Exn AttrValue}
    (h : (data.checked entry).2 = .ok value) : entry.2 = .ok value := by
  obtain ⟨name, given⟩ := entry
  cases given with
  | error exception => cases h
  | ok given =>
      cases hrefuses : data.refusesAttribute name given with
      | false =>
          simp only [checked, Except.bind, hrefuses, Bool.false_eq_true, if_false] at h
          exact h
      | true =>
          simp only [checked, Except.bind, hrefuses, if_true] at h
          cases h

/-- The attributes of `create_file` itself have been converted and accepted. -/
theorem Created.own_ok {keepFilesOpen : Bool} (created : Created keepFilesOpen)
    {entry : String × Except Exn AttrValue} (hmem : entry ∈ created.data.ownAttributes) :
    ∃ value, entry.2 = .ok value ∧ (created.data.checked entry).2 = .ok value := by
  obtain ⟨value, hvalue⟩ :=
    created.state_eq.2.1 _ (List.mem_map_of_mem (List.mem_append_left _ hmem))
  exact ⟨value, Creation.eq_of_checked hvalue, hvalue⟩

/-- The file has the attributes of `create_file` and the posted ones. -/
theorem Created.isSome_attrs_file {keepFilesOpen : Bool} (created : Created keepFilesOpen) :
    (created.file.attrs name).isSome = true ↔
      name ∈ created.data.allAttributes.map Prod.fst := by
  rw [attrs_file_eq_assign, isSome_assign]
  refine ⟨fun h => ?_, fun h => .inr ?_⟩
  · rcases h with h | h
    · cases h
    · exact (names_sublist _).subset h
  · obtain ⟨entry, hentry, rfl⟩ := List.mem_map.mp h
    obtain ⟨value, hvalue⟩ := created.state_eq.2.1 entry hentry
    exact List.mem_map.mpr ⟨(entry.1, value), List.mem_filterMap.mpr
      ⟨entry, hentry, by rw [hvalue]; rfl⟩, rfl⟩

/-- An attribute of `create_file` has its first value, unless a posted one has its name. -/
theorem Created.attrs_file {keepFilesOpen : Bool} (created : Created keepFilesOpen)
    (hown : (name, .ok value) ∈ created.data.ownAttributes) (havoids : created.data.Avoids name) :
    created.file.attrs name = some value := by
  have hposted : ∀ entry ∈ (created.data.postedAttributes.map created.data.checked).filterMap
      fun entry => entry.2.toOption.map fun value => (entry.1, value), entry.1 ≠ name := by
    rintro entry hmem rfl
    have hname := (names_sublist _).subset (List.mem_map_of_mem hmem)
    rw [Creation.map_fst_checked] at hname
    obtain ⟨posted, hposted, heq⟩ := List.mem_map.mp hname
    obtain ⟨given, hgiven, rfl⟩ := List.mem_map.mp hposted
    exact havoids given hgiven heq
  have hnodup : (created.data.ownAttributes.map Prod.fst).Nodup := by
    simp [Creation.ownAttributes]
  have haccepted : (created.data.checked (name, .ok value)).2 = .ok value := by
    obtain ⟨accepted, heq, haccepted⟩ := created.own_ok hown
    cases heq
    exact haccepted
  rw [attrs_file_eq_assign, Creation.values, Creation.allAttributes, List.map_append,
    List.filterMap_append, assign, List.foldl_append]
  refine (assign_of_not_mem hposted _).trans (assign_of_mem ?_ ?_ _)
  · refine List.Nodup.sublist (names_sublist _) ?_
    rwa [Creation.map_fst_checked]
  · exact List.mem_filterMap.mpr ⟨_, List.mem_map_of_mem hown, by rw [haccepted]; rfl⟩

end Attributes

/-! ### Small datas -/

/-- One slice of one pixel. -/
def onePixel : Creation where
  name := "one"
  version := "1.0"
  postTime := ""
  sliceLocations := [.int 0]
  echoTimes := [.int 1]
  dtype := .u1
  imageWidth := 1
  imageHeight := 1

/-- Data can be created. -/
def createdPixel (keepFilesOpen : Bool) : Created keepFilesOpen where
  data := onePixel
  state := stateOf (handleItem keepFilesOpen (.creation onePixel) {})
  creates := by cases keepFilesOpen <;> rfl

/-- Two slices of two pixels. -/
def twoSlices : Creation := { onePixel with sliceLocations := [.int 0, .int 1], imageWidth := 2 }

def createdSlices (keepFilesOpen : Bool) : Created keepFilesOpen where
  data := twoSlices
  state := stateOf (handleItem keepFilesOpen (.creation twoSlices) {})
  creates := by cases keepFilesOpen <;> rfl

/-- A value for one group or more. -/
def slicesPost (i : ℕ) (others : List ℕ) (body : ByteStream.Bytes) : ValuePost :=
  ⟨i :: others, body, List.cons_ne_nil i others⟩

end ComputeWebApp.Api
