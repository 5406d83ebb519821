import ComputeWebApp.Upload.WriteWorker

/-!
# What the write worker does to a state

One lemma for each function of the worker says what it makes of a state, as a function on
states: `storeBodies` for the parts of a body, `applyEntries` for attributes of groups,
`record` for the totals that follow.  The other modules use these and do not unfold the worker.

On the groups an item acts pointwise: `bodyEffect` and `entriesEffect` are what it does to
the group of each name.
-/

namespace ComputeWebApp.Api

open ByteStream

/-! ## Running the monad -/

section Monad

variable {α β : Type} {m : WorkerM α} {f : α → WorkerM β} {s t : DataState}

theorem bind_ok {a : α} (h : m s = .ok a t) : (m >>= f) s = f a t := by
  simp [bind, EStateM.bind, h]

theorem bind_error {stop : Stop} (h : m s = .error stop t) : (m >>= f) s = .error stop t := by
  simp [bind, EStateM.bind, h]

theorem ok_of_bind {b : β} {u : DataState} (h : (m >>= f) s = .ok b u) :
    ∃ a t, m s = .ok a t ∧ f a t = .ok b u := by
  cases hm : m s with
  | ok a t => exact ⟨a, t, rfl, (bind_ok hm).symm.trans h⟩
  | error stop t =>
      rw [bind_error hm] at h
      cases h

@[simp] theorem pure_apply (a : α) : (pure a : WorkerM α) s = .ok a s := rfl

@[simp] theorem get_bind_apply (f : DataState → WorkerM β) : (get >>= f) s = f s s := rfl

@[simp] theorem modify_apply (change : DataState → DataState) :
    (modify change : WorkerM Unit) s = .ok () (change s) := rfl

@[simp] theorem set_apply (t : DataState) : (set t : WorkerM Unit) s = .ok () t := rfl

@[simp] theorem throw_apply (stop : Stop) : (throw stop : WorkerM α) s = .error stop s := rfl

@[simp] theorem raise_apply (exception : Exn) :
    (raise exception : WorkerM α) s = .error (.raised exception) s := rfl

@[simp] theorem now_apply : now s = .ok s.clock { s with clock := s.clock + 1 } := rfl

/-- The state in which a function ends, early or not. -/
def stateOf {α : Type} : EStateM.Result Stop DataState α → DataState
  | .ok _ t => t
  | .error _ t => t

/-- How a function ends early; none when it does not. -/
def stopOf {α : Type} : EStateM.Result Stop DataState α → Option Stop
  | .ok _ _ => none
  | .error stop _ => some stop

end Monad

/-! ## Writes -/

section Writes

variable {s : DataState} {file : H5File}

namespace DataState

@[simp] theorem h5_write (s : DataState) (change : H5File → H5File) :
    (s.write change).h5 = s.h5.map change := by
  unfold write
  split <;> simp_all

@[simp] theorem isOpen_write (s : DataState) (change : H5File → H5File) :
    (s.write change).isOpen = s.isOpen := by
  unfold write
  split <;> rfl

@[simp] theorem cached_write (s : DataState) (change : H5File → H5File) :
    (s.write change).cached = s.cached := by
  unfold write
  split <;> rfl

@[simp] theorem marker_write (s : DataState) (change : H5File → H5File) :
    (s.write change).marker = s.marker := by
  unfold write
  split <;> rfl

@[simp] theorem locked_write (s : DataState) (change : H5File → H5File) :
    (s.write change).locked = s.locked := by
  unfold write
  split <;> rfl

@[simp] theorem clock_write (s : DataState) (change : H5File → H5File) :
    (s.write change).clock = s.clock := by
  unfold write
  split <;> rfl

theorem published_write (hfile : s.h5 = some file) (change : H5File → H5File) :
    (s.write change).published = change file :: s.published := by
  simp [write, hfile]

end DataState

theorem openFile_eq (hfile : s.h5 = some file) (hopen : s.isOpen = true) :
    openFile s = .ok file s := by
  simp [openFile, hfile, hopen]

theorem openFile_closed (hopen : s.isOpen = false) :
    openFile s = .error (.raised .valueError) s := by
  simp [openFile, hopen]

theorem writeFile_eq (hfile : s.h5 = some file) (hopen : s.isOpen = true)
    (change : H5File → H5File) : writeFile change s = .ok () (s.write change) := by
  rw [writeFile, bind_ok (openFile_eq hfile hopen)]
  rfl

theorem setAttr_eq (hfile : s.h5 = some file) (hopen : s.isOpen = true) (name : String)
    (value : AttrValue) :
    setAttr name value s = .ok () (s.write fun file => file.setAttr name value) :=
  writeFile_eq hfile hopen _

/-- The truth value of an attribute of the file, if it has one. -/
def H5File.truthOf (file : H5File) (name : String) : Option Bool :=
  (file.attrs name).bind AttrValue.truthy

theorem truth_of_truthOf (hfile : s.h5 = some file) (hopen : s.isOpen = true) {name : String}
    {value : Bool} (htruth : file.truthOf name = some value) : truth name s = .ok value s := by
  obtain ⟨attr, hattr, hvalue⟩ := Option.bind_eq_some_iff.mp htruth
  rw [truth, bind_ok (openFile_eq hfile hopen)]
  simp [hattr, hvalue]

theorem truth_raises (hfile : s.h5 = some file) (hopen : s.isOpen = true) {name : String}
    (htruth : file.truthOf name = none) :
    ∃ exception, truth name s = .error (.raised exception) s := by
  rw [truth, bind_ok (openFile_eq hfile hopen)]
  cases hattr : file.attrs name with
  | none => exact ⟨_, rfl⟩
  | some attr =>
      have hvalue : attr.truthy = none := by simpa [H5File.truthOf, hattr] using htruth
      exact ⟨.valueError, by simp [hvalue]⟩

theorem truth_eq (hfile : s.h5 = some file) (hopen : s.isOpen = true) {name : String}
    {value : Bool} (hattr : file.attrs name = some (.bool value)) :
    truth name s = .ok value s :=
  truth_of_truthOf hfile hopen (by simp [H5File.truthOf, hattr, AttrValue.truthy])

end Writes

/-! ## Sequences of writes -/

section Writes

variable {s : DataState} {file : H5File}

/-- What writes publish meets a condition that each of them keeps. -/
theorem mem_published_writes {I : H5File → Prop} {changes : List (H5File → H5File)}
    (hchanges : ∀ change ∈ changes, ∀ file, I file → I (change file)) (hfile : s.h5 = some file)
    (hI : I file) {seen : H5File} (hseen : seen ∈ (changes.foldl DataState.write s).published) :
    seen ∈ s.published ∨ I seen := by
  induction changes generalizing s file with
  | nil => exact .inl hseen
  | cons change rest ih =>
      have hI' := hchanges change List.mem_cons_self file hI
      have hrest := ih (fun change' hmem => hchanges change' (List.mem_cons_of_mem _ hmem))
        (by rw [DataState.h5_write, hfile]; rfl) hI' hseen
      rw [DataState.published_write hfile, List.mem_cons] at hrest
      rcases hrest with (rfl | hmem) | hseen
      · exact .inr hI'
      · exact .inl hmem
      · exact .inr hseen

/-- The file stays the last state that has been published. -/
theorem mem_published_of_writes (hfile : s.h5 = some file) (hmem : file ∈ s.published)
    (changes : List (H5File → H5File)) :
    changes.foldl (fun file change => change file) file ∈
      (changes.foldl DataState.write s).published := by
  induction changes generalizing s file with
  | nil => exact hmem
  | cons change rest ih =>
      refine ih (by rw [DataState.h5_write, hfile]; rfl) ?_
      rw [DataState.published_write hfile]
      exact List.mem_cons_self

theorem writes_invariant {I : H5File → Prop} {changes : List (H5File → H5File)}
    (hchanges : ∀ change ∈ changes, ∀ file, I file → I (change file)) (hI : I file) :
    I (changes.foldl (fun file change => change file) file) := by
  induction changes generalizing file with
  | nil => exact hI
  | cons change rest ih =>
      exact ih (fun change' hmem => hchanges change' (List.mem_cons_of_mem _ hmem))
        (hchanges change List.mem_cons_self file hI)

theorem h5_writes (hfile : s.h5 = some file) (changes : List (H5File → H5File)) :
    (changes.foldl DataState.write s).h5 =
      some (changes.foldl (fun file change => change file) file) := by
  induction changes generalizing s file with
  | nil => exact hfile
  | cons change rest ih => exact ih (by rw [DataState.h5_write, hfile]; rfl)

/-- Writes change the file and what has been seen of it only. -/
theorem writes_eq (changes : List (H5File → H5File)) :
    changes.foldl DataState.write s =
      { s with
        h5 := (changes.foldl DataState.write s).h5
        published := (changes.foldl DataState.write s).published } := by
  induction changes generalizing s with
  | nil => rfl
  | cons change rest ih =>
      rw [List.foldl_cons, ih]
      unfold DataState.write
      split <;> rfl

@[simp] theorem isOpen_writes (changes : List (H5File → H5File)) :
    (changes.foldl DataState.write s).isOpen = s.isOpen := by
  rw [writes_eq]

@[simp] theorem cached_writes (changes : List (H5File → H5File)) :
    (changes.foldl DataState.write s).cached = s.cached := by
  rw [writes_eq]

@[simp] theorem marker_writes (changes : List (H5File → H5File)) :
    (changes.foldl DataState.write s).marker = s.marker := by
  rw [writes_eq]

@[simp] theorem locked_writes (changes : List (H5File → H5File)) :
    (changes.foldl DataState.write s).locked = s.locked := by
  rw [writes_eq]

@[simp] theorem clock_writes (changes : List (H5File → H5File)) :
    (changes.foldl DataState.write s).clock = s.clock := by
  rw [writes_eq]

end Writes

/-! ## Files of a created data -/

/-- The file has the groups of the created data, each with its type and shape. -/
structure Fits (data : Creation) (file : H5File) : Prop where
  names : file.groups.map Prod.fst = (List.range data.slices).map groupName
  dtype : ∀ entry ∈ file.groups, entry.2.dtype = data.dtype
  shape : ∀ entry ∈ file.groups, entry.2.shape = data.shape
  datasets : ∀ entry ∈ file.groups, entry.2.datasets = true

/-- The size of a body for one group. -/
def Creation.bodySize (data : Creation) : ℕ := expectedBodySize data.dtype data.shape

namespace Fits

variable {data : Creation} {file : H5File}

theorem length_groups (h : Fits data file) : file.groups.length = data.slices := by
  simpa using congrArg List.length h.names

theorem isSome_lookup (name : String) (groups : List (String × Group)) :
    (groups.lookup name).isSome ↔ name ∈ groups.map Prod.fst := by
  induction groups with
  | nil => simp
  | cons entry rest ih =>
      obtain ⟨other, group⟩ := entry
      rw [List.lookup_cons, List.map_cons, List.mem_cons, ← ih]
      by_cases hname : name = other
      · simp [hname]
      · simp [hname, beq_false_of_ne hname]

theorem isSome_findGroup (h : Fits data file) (name : String) :
    (file.findGroup name).isSome ↔ ∃ i < data.slices, name = groupName i := by
  rw [H5File.findGroup, isSome_lookup, h.names]
  simp only [List.mem_map, List.mem_range]
  exact ⟨fun ⟨i, hi, hname⟩ => ⟨i, hi, hname.symm⟩, fun ⟨i, hi, hname⟩ => ⟨i, hi, hname.symm⟩⟩

theorem findGroup_of_lt (h : Fits data file) {i : ℕ} (hi : i < data.slices) :
    ∃ group, file.findGroup (groupName i) = some group ∧ group.dtype = data.dtype ∧
      group.shape = data.shape := by
  obtain ⟨group, hgroup⟩ := Option.isSome_iff_exists.mp ((h.isSome_findGroup _).mpr ⟨i, hi, rfl⟩)
  have hmem := H5File.mem_of_findGroup hgroup
  exact ⟨group, hgroup, h.dtype _ hmem, h.shape _ hmem⟩

theorem datasets_of_findGroup (h : Fits data file) {name : String} {group : Group}
    (hgroup : file.findGroup name = some group) : group.datasets = true :=
  h.datasets _ (H5File.mem_of_findGroup hgroup)

theorem findGroup_of_le (h : Fits data file) {i : ℕ} (hi : data.slices ≤ i) :
    file.findGroup (groupName i) = none := by
  rw [← Option.not_isSome_iff_eq_none, h.isSome_findGroup]
  rintro ⟨j, hj, hname⟩
  have := groupName_injective hname
  omega

theorem setAttr (h : Fits data file) (name : String) (value : AttrValue) :
    Fits data (file.setAttr name value) := ⟨h.names, h.dtype, h.shape, h.datasets⟩

theorem mapGroups (h : Fits data file) {effect : String → Group → Group}
    (hsame : ∀ name group, (effect name group).SameLayout group) :
    Fits data (file.mapGroups effect) where
  names := by simpa [Function.comp_def] using h.names
  dtype := by
    intro entry hmem
    obtain ⟨entry', hmem', rfl⟩ := List.mem_map.mp hmem
    exact (hsame _ _).dtype.trans (h.dtype _ hmem')
  shape := by
    intro entry hmem
    obtain ⟨entry', hmem', rfl⟩ := List.mem_map.mp hmem
    exact (hsame _ _).shape.trans (h.shape _ hmem')
  datasets := by
    intro entry hmem
    obtain ⟨entry', hmem', rfl⟩ := List.mem_map.mp hmem
    exact (hsame _ _).datasets.trans (h.datasets _ hmem')

theorem updateGroup (h : Fits data file) {name : String} {change : Group → Group}
    (hsame : ∀ group, (change group).SameLayout group) :
    Fits data (file.updateGroup name change) := by
  refine h.mapGroups fun other group => ?_
  split
  · exact hsame group
  · exact .refl _

end Fits

/-! ## Bodies -/

section Bodies

variable {data : Creation} {s : DataState} {file : H5File}

/-- What a part of a body makes of its group. -/
def storePart (data : Creation) (part : Bytes) (group : Group) : Group :=
  let bodyPartSize := part.length / (2 * data.shape.echos)
  { group with
    magnitude := sliceArray data.dtype data.shape part bodyPartSize 0
    phase := sliceArray data.dtype data.shape part bodyPartSize data.shape.echos
    stored := true
    storedBytes := part.length }

def bodyEffect (data : Creation) (parts : List (ℕ × Bytes)) (name : String) (group : Group) :
    Group :=
  parts.foldl
    (fun group part => if name = groupName part.1 then storePart data part.2 group else group) group

/-- The four writes for a part of a body. -/
def partChanges (data : Creation) (part : ℕ × Bytes) : List (H5File → H5File) :=
  let bodyPartSize := part.2.length / (2 * data.shape.echos)
  let update := fun change file => H5File.updateGroup file (groupName part.1) change
  [update fun group =>
      { group with magnitude := sliceArray data.dtype data.shape part.2 bodyPartSize 0 },
    update fun group =>
      { group with phase := sliceArray data.dtype data.shape part.2 bodyPartSize data.shape.echos },
    update fun group => { group with stored := true },
    update fun group => { group with storedBytes := part.2.length }]

/-- The writes for the parts of a body. -/
def DataState.storeBodies (s : DataState) (data : Creation) (parts : List (ℕ × Bytes)) :
    DataState :=
  (parts.flatMap (partChanges data)).foldl write s

@[simp] theorem DataState.isOpen_storeBodies (parts : List (ℕ × Bytes)) :
    (s.storeBodies data parts).isOpen = s.isOpen := by
  simp [storeBodies]

theorem partChanges_file (part : ℕ × Bytes) (file : H5File) :
    (partChanges data part).foldl (fun file change => change file) file =
      file.mapGroups (bodyEffect data [part]) := by
  simp only [partChanges, List.foldl_cons, List.foldl_nil, H5File.updateGroup,
    H5File.mapGroups_mapGroups]
  congr 1
  funext name group
  by_cases hname : name = groupName part.1 <;> simp [bodyEffect, storePart, hname]

theorem partsChanges_file (parts : List (ℕ × Bytes)) (file : H5File) :
    (parts.flatMap (partChanges data)).foldl (fun file change => change file) file =
      file.mapGroups (bodyEffect data parts) := by
  induction parts generalizing file with
  | nil => exact file.mapGroups_id.symm
  | cons part rest ih =>
      rw [List.flatMap_cons, List.foldl_append, partChanges_file, ih, H5File.mapGroups_mapGroups]
      rfl

theorem DataState.h5_storeBodies (data : Creation) (hfile : s.h5 = some file)
    (parts : List (ℕ × Bytes)) :
    (s.storeBodies data parts).h5 = some (file.mapGroups (bodyEffect data parts)) := by
  rw [storeBodies, h5_writes hfile, partsChanges_file]

theorem writeBodyToFileGroup_eq (hfit : Fits data file) (hfile : s.h5 = some file)
    (hopen : s.isOpen = true) (hechos : data.shape.echos ≠ 0) {part : ℕ × Bytes}
    (hslice : part.1 < data.slices) (hsize : part.2.length = data.bodySize) :
    writeBodyToFileGroup part.2 part.1 s = .ok () (s.storeBodies data [part]) := by
  obtain ⟨group, hgroup, hdtype, hshape⟩ := hfit.findGroup_of_lt hslice
  have hwrite : ∀ (t : DataState) (change : Group → Group), t.h5.isSome = true →
      t.isOpen = true → writeGroup part.1 change t =
        .ok () (t.write fun file => file.updateGroup (groupName part.1) change) := by
    intro t change hsome ht
    obtain ⟨file', hfile'⟩ := Option.isSome_iff_exists.mp hsome
    exact writeFile_eq hfile' ht _
  rw [writeBodyToFileGroup, get_bind_apply]
  simp only [hopen, if_true, hfile, Option.bind_some, hgroup, hdtype, hshape,
    hfit.datasets_of_findGroup hgroup, Bool.true_eq_false, if_false]
  rw [if_neg (by rw [hsize, Creation.bodySize]; simp), if_neg hechos]
  rw [bind_ok (hwrite s _ (by simp [hfile]) hopen), bind_ok (hwrite _ _ (by simp [hfile]) (by simpa)),
    bind_ok (hwrite _ _ (by simp [hfile]) (by simpa)), hwrite _ _ (by simp [hfile]) (by simpa)]
  rfl

theorem storePart_sameLayout (part : Bytes) (group : Group) :
    (storePart data part group).SameLayout group := ⟨rfl, rfl, rfl⟩

theorem bodyEffect_sameLayout (parts : List (ℕ × Bytes)) (name : String) (group : Group) :
    (bodyEffect data parts name group).SameLayout group := by
  induction parts generalizing group with
  | nil => exact .refl _
  | cons part rest ih =>
      refine (ih _).trans ?_
      dsimp only
      split
      · exact storePart_sameLayout _ _
      · exact .refl _

theorem writeBodiesToFile_eq (hfit : Fits data file) (hfile : s.h5 = some file)
    (hopen : s.isOpen = true) (hechos : data.shape.echos ≠ 0) {parts : List (ℕ × Bytes)}
    (hparts : ∀ part ∈ parts, part.1 < data.slices ∧ part.2.length = data.bodySize) :
    writeBodiesToFile parts s = .ok () (s.storeBodies data parts) := by
  induction parts generalizing s file with
  | nil => rfl
  | cons part rest ih =>
      obtain ⟨hslice, hsize⟩ := hparts part List.mem_cons_self
      rw [writeBodiesToFile, List.forM_cons,
        bind_ok (writeBodyToFileGroup_eq hfit hfile hopen hechos hslice hsize)]
      refine (ih (hfit.mapGroups (bodyEffect_sameLayout _))
        (DataState.h5_storeBodies data hfile [part]) (by simpa)
        fun part' hmem => hparts part' (List.mem_cons_of_mem _ hmem)).trans ?_
      simp [DataState.storeBodies]

end Bodies

/-! ## Attributes of groups -/

section Entries

variable {data : Creation} {s : DataState} {file : H5File}

def entriesEffect (entries : List AttributeEntry) (name : String) (group : Group) : Group :=
  entries.foldl
    (fun group entry => if name = entry.groupId then group.setAttribute entry.assigned else group)
    group

/-- The write for an attribute of a group. -/
def entryChange (entry : AttributeEntry) (file : H5File) : H5File :=
  file.updateGroup entry.groupId fun group => group.setAttribute entry.assigned

def DataState.applyEntries (s : DataState) (entries : List AttributeEntry) : DataState :=
  (entries.map entryChange).foldl write s

@[simp] theorem DataState.isOpen_applyEntries (entries : List AttributeEntry) :
    (s.applyEntries entries).isOpen = s.isOpen := by
  simp [applyEntries]

theorem entryChanges_file (entries : List AttributeEntry) (file : H5File) :
    (entries.map entryChange).foldl (fun file change => change file) file =
      file.mapGroups (entriesEffect entries) := by
  induction entries generalizing file with
  | nil => exact file.mapGroups_id.symm
  | cons entry rest ih =>
      refine (ih (entryChange entry file)).trans ?_
      rw [entryChange, H5File.updateGroup, H5File.mapGroups_mapGroups]
      rfl

theorem DataState.h5_applyEntries (hfile : s.h5 = some file) (entries : List AttributeEntry) :
    (s.applyEntries entries).h5 = some (file.mapGroups (entriesEffect entries)) := by
  rw [applyEntries, h5_writes hfile, entryChanges_file]

theorem writeEntry_eq (hfile : s.h5 = some file) (hopen : s.isOpen = true) {entry : AttributeEntry}
    (hgroup : (file.findGroup entry.groupId).isSome) :
    writeEntry entry s = .ok () (s.applyEntries [entry]) := by
  obtain ⟨group, hgroup⟩ := Option.isSome_iff_exists.mp hgroup
  rw [writeEntry, bind_ok (openFile_eq hfile hopen)]
  simp only [hgroup]
  exact writeFile_eq hfile hopen _

theorem setAttribute_sameLayout (group : Group) (assigned : GroupAttribute) :
    (group.setAttribute assigned).SameLayout group := by
  cases assigned <;> exact ⟨rfl, rfl, rfl⟩

theorem entriesEffect_sameLayout (entries : List AttributeEntry) (name : String) (group : Group) :
    (entriesEffect entries name group).SameLayout group := by
  induction entries generalizing group with
  | nil => exact .refl _
  | cons entry rest ih =>
      refine (ih _).trans ?_
      dsimp only
      split
      · exact setAttribute_sameLayout _ _
      · exact .refl _

theorem forM_writeEntry_eq (hfile : s.h5 = some file) (hopen : s.isOpen = true)
    {entries : List AttributeEntry}
    (hentries : ∀ entry ∈ entries, (file.findGroup entry.groupId).isSome = true) :
    forM entries writeEntry s = .ok () (s.applyEntries entries) := by
  induction entries generalizing s file with
  | nil => rfl
  | cons entry rest ih =>
      rw [List.forM_cons, bind_ok (writeEntry_eq hfile hopen (hentries entry List.mem_cons_self))]
      refine ih (DataState.h5_applyEntries hfile [entry]) (by simpa) fun entry' hmem => ?_
      rw [H5File.findGroup_mapGroups, Option.isSome_map]
      exact hentries entry' (List.mem_cons_of_mem _ hmem)

end Entries

/-! ## Totals -/

/-- The file-level attributes that the result of a scan is written to. -/
structure Totals where
  bytes : String
  progress : String
  endTime : String
  flag : String

def storeTotals : Totals :=
  ⟨"cwa_stored_bytes", "cwa_store_progress", "cwa_store_end_time", "cwa_stored"⟩

def uploadTotals : Totals :=
  ⟨"cwa_uploaded_bytes", "cwa_upload_progress", "cwa_upload_end_time", "cwa_uploaded"⟩

def Scan.percentage (vars : Scan) : ℕ := 100 * vars.progress / vars.groupCount

section Record

variable {s : DataState} {file : H5File}

namespace DataState

/-- The writes that end an item: the totals and, when every group is done and the flag was
not set, the end time and the flag. -/
def record (s : DataState) (totals : Totals) (vars : Scan) (already : Bool) : DataState :=
  let s := s.write fun file => file.setAttr totals.bytes (.int vars.bytes)
  let s := s.write fun file => file.setAttr totals.progress (.int vars.percentage)
  if vars.done && !already then
    let time := s.clock
    let s := { s with clock := s.clock + 1 }
    let s := s.write fun file => file.setAttr totals.endTime (.time time)
    s.write fun file => file.setAttr totals.flag (.bool true)
  else s

@[simp] theorem isOpen_record (s : DataState) (totals : Totals) (vars : Scan) (already : Bool) :
    (s.record totals vars already).isOpen = s.isOpen := by
  unfold record
  dsimp only
  split <;> simp

@[simp] theorem cached_record (s : DataState) (totals : Totals) (vars : Scan) (already : Bool) :
    (s.record totals vars already).cached = s.cached := by
  unfold record
  dsimp only
  split <;> simp

@[simp] theorem marker_record (s : DataState) (totals : Totals) (vars : Scan) (already : Bool) :
    (s.record totals vars already).marker = s.marker := by
  unfold record
  dsimp only
  split <;> simp

@[simp] theorem locked_record (s : DataState) (totals : Totals) (vars : Scan) (already : Bool) :
    (s.record totals vars already).locked = s.locked := by
  unfold record
  dsimp only
  split <;> simp

theorem clock_record (s : DataState) (totals : Totals) (vars : Scan) (already : Bool) :
    (s.record totals vars already).clock =
      if (vars.done && !already) = true then s.clock + 1 else s.clock := by
  unfold record
  dsimp only
  split <;> simp

end DataState

/-- What `DataState.record` makes of the file. -/
def H5File.record (file : H5File) (totals : Totals) (vars : Scan) (already : Bool) (time : ℕ) :
    H5File :=
  let file := (file.setAttr totals.bytes (.int vars.bytes)).setAttr totals.progress
    (.int vars.percentage)
  if vars.done && !already then
    (file.setAttr totals.endTime (.time time)).setAttr totals.flag (.bool true)
  else file

theorem DataState.h5_record (hfile : s.h5 = some file) (totals : Totals) (vars : Scan)
    (already : Bool) :
    (s.record totals vars already).h5 = some (file.record totals vars already s.clock) := by
  unfold record H5File.record
  by_cases hdone : (vars.done && !already) = true <;> simp [hdone, hfile]

/-- The file is the last state that has been published. -/
theorem mem_published_of_record (hfile : s.h5 = some file) (totals : Totals) (vars : Scan)
    (already : Bool) :
    file.record totals vars already s.clock ∈ (s.record totals vars already).published := by
  unfold H5File.record DataState.record
  by_cases hdone : (vars.done && !already) = true <;> simp [hdone, DataState.write, hfile]

@[simp] theorem H5File.groups_record (file : H5File) (totals : Totals) (vars : Scan)
    (already : Bool) (time : ℕ) : (file.record totals vars already time).groups = file.groups := by
  unfold record
  dsimp only
  split <;> rfl

end Record

section Items

variable {data : Creation} {s : DataState} {file : H5File}

namespace ValuePost

def parts (post : ValuePost) : List (ℕ × Bytes) := bodyParts post.groupIds post.body

theorem mem_parts {post : ValuePost} {part : ℕ × Bytes} (h : part ∈ post.parts) :
    part.1 ∈ post.groupIds ∧ part.2.length = post.bodyPartSize := by
  obtain ⟨hid, hbody⟩ := List.of_mem_zip (show (part.1, part.2) ∈ _ from h)
  refine ⟨hid, ?_⟩
  obtain ⟨i, hi, hpart⟩ := List.mem_map.mp hbody
  rw [← hpart, List.length_take, List.length_drop]
  have hend : (i + 1) * post.bodyPartSize ≤ post.body.length :=
    (Nat.mul_le_mul_right _ (List.mem_range.mp hi)).trans (Nat.mul_div_le _ _)
  rw [Nat.succ_mul] at hend
  show min post.bodyPartSize (post.body.length - i * post.bodyPartSize) = post.bodyPartSize
  omega

theorem mem_entries {post : ValuePost} {entry : AttributeEntry} (h : entry ∈ post.entries) :
    ∃ i ∈ post.groupIds, entry.groupId = groupName i := by
  obtain ⟨i, hi, hentry⟩ := List.mem_flatMap.mp h
  refine ⟨i, hi, ?_⟩
  rcases List.mem_cons.mp hentry with rfl | hentry
  · rfl
  · rw [List.mem_singleton.mp hentry]

end ValuePost

/-- The totals of the file are recorded from its groups. -/
def storeScan (file : H5File) : Scan := scan Group.stored Group.storedBytes file.groups

def uploadScan (file : H5File) : Scan := scan Group.uploaded Group.uploadedBytes file.groups

theorem percent_eq {vars : Scan} (hcount : vars.groupCount ≠ 0) :
    vars.percent s = .ok (.int vars.percentage) s := by
  rw [Scan.percent, if_neg hcount]
  rfl

/-- What `__write_body_item_to_file` does once the parts of the body are written. -/
def recordStored : WorkerM Unit := do
  let file ← openFile
  let vars := scan Group.stored Group.storedBytes file.groups
  let storeProgress ← vars.percent
  setAttr "cwa_stored_bytes" (.int vars.bytes)
  setAttr "cwa_store_progress" storeProgress
  if vars.done then do
    let time ← now
    setAttr "cwa_store_end_time" (.time time)
    setAttr "cwa_stored" (.bool true)
  else pure ()

/-- What `__write_attributes_item_to_file` does once the attributes are assigned. -/
def recordUploaded : WorkerM Unit := do
  let file ← openFile
  let vars := scan Group.uploaded Group.uploadedBytes file.groups
  let uploadProgress ← vars.percent
  setAttr "cwa_uploaded_bytes" (.int vars.bytes)
  setAttr "cwa_upload_progress" uploadProgress
  if vars.done then do
    if ← truth "cwa_uploaded" then pure ()
    else do
      let time ← now
      setAttr "cwa_upload_end_time" (.time time)
      setAttr "cwa_uploaded" (.bool true)
  else pure ()

theorem writeBodyItemToFile_eq_bind {groupIds : List ℕ} (hids : groupIds ≠ []) (body : Bytes) :
    writeBodyItemToFile groupIds body =
      writeBodiesToFile (bodyParts groupIds body) >>= fun _ => recordStored := by
  rw [writeBodyItemToFile, if_neg (by simpa using hids)]
  rfl

theorem writeAttributesItemToFile_eq_bind (entries : List AttributeEntry) :
    writeAttributesItemToFile entries = forM entries writeEntry >>= fun _ => recordUploaded := rfl

theorem groupCount_scan (flag : Group → Bool) (bytes : Group → ℕ) {groups : List (String × Group)}
    (hgroups : groups ≠ []) : (scan flag bytes groups).groupCount ≠ 0 := by
  rw [scan_eq]
  exact fun hzero => hgroups (List.length_eq_zero_iff.mp hzero)

theorem recordStored_eq (hfile : s.h5 = some file) (hopen : s.isOpen = true)
    (hgroups : file.groups ≠ []) :
    recordStored s = .ok () (s.record storeTotals (storeScan file) false) := by
  have hcount : (storeScan file).groupCount ≠ 0 := groupCount_scan _ _ hgroups
  rw [recordStored, bind_ok (openFile_eq hfile hopen),
    show scan Group.stored Group.storedBytes _ = storeScan file from rfl,
    bind_ok (percent_eq hcount), bind_ok (setAttr_eq hfile hopen _ _),
    bind_ok (setAttr_eq (by rw [DataState.h5_write, hfile]; rfl) (by simpa) _ _)]
  cases hdone : (storeScan file).done with
  | false => simp [DataState.record, hdone, storeTotals]
  | true =>
      rw [if_pos rfl, bind_ok now_apply,
        bind_ok (setAttr_eq (by simp [hfile]; rfl) (by simpa) _ _),
        setAttr_eq (by simp [hfile]; rfl) (by simpa) _ _]
      simp [DataState.record, hdone, storeTotals]

/-- The upload is recorded, as far as `cwa_uploaded` has a truth value when it is needed. -/
theorem recordUploaded_eq (hfile : s.h5 = some file) (hopen : s.isOpen = true)
    (hgroups : file.groups ≠ []) {already : Bool}
    (hflag : (uploadScan file).done = true → file.truthOf "cwa_uploaded" = some already) :
    recordUploaded s = .ok () (s.record uploadTotals (uploadScan file) already) := by
  have hcount : (uploadScan file).groupCount ≠ 0 := groupCount_scan _ _ hgroups
  rw [recordUploaded, bind_ok (openFile_eq hfile hopen),
    show scan Group.uploaded Group.uploadedBytes _ = uploadScan file from rfl,
    bind_ok (percent_eq hcount), bind_ok (setAttr_eq hfile hopen _ _),
    bind_ok (setAttr_eq (by rw [DataState.h5_write, hfile]; rfl) (by simpa) _ _)]
  cases hdone : (uploadScan file).done with
  | false => simp [DataState.record, hdone, uploadTotals]
  | true =>
      have htruth : ((file.setAttr "cwa_uploaded_bytes" (.int (uploadScan file).bytes)).setAttr
          "cwa_upload_progress" (.int (uploadScan file).percentage)).truthOf "cwa_uploaded" =
            some already := by
        simpa [H5File.truthOf] using hflag hdone
      rw [if_pos rfl, bind_ok (truth_of_truthOf (by simp [hfile]) (by simpa) htruth)]
      cases already with
      | true => simp [DataState.record, hdone, uploadTotals]
      | false =>
          rw [if_neg (by decide), bind_ok now_apply,
            bind_ok (setAttr_eq (by simp [hfile]; rfl) (by simpa) _ _),
            setAttr_eq (by simp [hfile]; rfl) (by simpa) _ _]
          simp [DataState.record, hdone, uploadTotals]

/-- A file that has the group of a posted value has groups. -/
theorem Fits.groups_ne_nil (hfit : Fits data file) (post : ValuePost)
    (hgroups : ∀ i ∈ post.groupIds, i < data.slices) : file.groups ≠ [] := by
  obtain ⟨i, hi⟩ := List.exists_mem_of_ne_nil _ post.nonempty
  have hlt := hgroups i hi
  have hlength := hfit.length_groups
  rintro hnil
  rw [hnil] at hlength
  exact absurd hlength (by rw [List.length_nil]; omega)

/-- A body for groups that exist, with the right size. -/
theorem writeBodyItemToFile_eq (hfit : Fits data file) (hfile : s.h5 = some file)
    (hopen : s.isOpen = true) (hechos : data.shape.echos ≠ 0) (post : ValuePost)
    (hgroups : ∀ i ∈ post.groupIds, i < data.slices) (hsize : post.bodyPartSize = data.bodySize) :
    writeBodyItemToFile post.groupIds post.body s =
      .ok () ((s.storeBodies data post.parts).record storeTotals
        (storeScan (file.mapGroups (bodyEffect data post.parts))) false) := by
  have hparts : ∀ part ∈ post.parts, part.1 < data.slices ∧ part.2.length = data.bodySize :=
    fun part hmem => ⟨hgroups _ (ValuePost.mem_parts hmem).1,
      (ValuePost.mem_parts hmem).2.trans hsize⟩
  have hmapped : Fits data (file.mapGroups (bodyEffect data post.parts)) :=
    hfit.mapGroups (bodyEffect_sameLayout _)
  rw [writeBodyItemToFile_eq_bind post.nonempty,
    show bodyParts post.groupIds post.body = post.parts from rfl,
    bind_ok (writeBodiesToFile_eq hfit hfile hopen hechos hparts)]
  exact recordStored_eq (DataState.h5_storeBodies data hfile post.parts) (by simpa)
    (hmapped.groups_ne_nil post hgroups)

/-- Attributes of groups that exist. -/
theorem writeAttributesItemToFile_eq (hfit : Fits data file) (hfile : s.h5 = some file)
    (hopen : s.isOpen = true) (post : ValuePost) (hgroups : ∀ i ∈ post.groupIds, i < data.slices)
    {already : Bool} (hflag : file.attrs "cwa_uploaded" = some (.bool already)) :
    writeAttributesItemToFile post.entries s =
      .ok () ((s.applyEntries post.entries).record uploadTotals
        (uploadScan (file.mapGroups (entriesEffect post.entries))) already) := by
  have hentries : ∀ entry ∈ post.entries, (file.findGroup entry.groupId).isSome = true := by
    intro entry hmem
    obtain ⟨i, hi, hname⟩ := ValuePost.mem_entries hmem
    exact (hfit.isSome_findGroup _).mpr ⟨i, hgroups i hi, hname⟩
  have hmapped : Fits data (file.mapGroups (entriesEffect post.entries)) :=
    hfit.mapGroups (entriesEffect_sameLayout _)
  rw [writeAttributesItemToFile_eq_bind, bind_ok (forM_writeEntry_eq hfile hopen hentries)]
  refine recordUploaded_eq (DataState.h5_applyEntries hfile post.entries) (by simpa)
    (hmapped.groups_ne_nil post hgroups) fun _ => ?_
  simp [H5File.truthOf, hflag, AttrValue.truthy]

/-! ### Items that fail before they write -/

theorem writeBodiesToFile_closed (hopen : s.isOpen = false) (parts : List (ℕ × Bytes)) :
    writeBodiesToFile parts s = .ok () s ∨
      writeBodiesToFile parts s = .error (.raised .groupNotFound) s := by
  cases parts with
  | nil => exact .inl rfl
  | cons part rest =>
      refine .inr ?_
      rw [writeBodiesToFile, List.forM_cons, bind_error]
      rw [writeBodyToFileGroup, get_bind_apply]
      simp [hopen]

/-- A part that cannot be written raises an exception, or closes the file when its size is wrong. -/
theorem writeBodyToFileGroup_fails (hfit : Fits data file) (hfile : s.h5 = some file) {i : ℕ}
    {body : Bytes}
    (hbad : s.isOpen = false ∨ data.slices ≤ i ∨ body.length ≠ data.bodySize ∨
      data.shape.echos = 0) :
    (∃ exception, writeBodyToFileGroup body i s = .error (.raised exception) s) ∨
      body.length ≠ data.bodySize ∧
        writeBodyToFileGroup body i s = .ok () { s with isOpen := false } := by
  by_cases hopen : s.isOpen = true
  · by_cases hslice : i < data.slices
    · obtain ⟨group, hgroup, hdtype, hshape⟩ := hfit.findGroup_of_lt hslice
      by_cases hsize : body.length = data.bodySize
      · -- nothing but the number of echos is wrong
        have hechos : data.shape.echos = 0 := by
          rcases hbad with h | h | h | h
          · simp [h] at hopen
          · omega
          · exact absurd hsize h
          · exact h
        refine .inl ⟨.zeroDivisionError, ?_⟩
        rw [writeBodyToFileGroup, get_bind_apply]
        simp only [hopen, if_true, hfile, Option.bind_some, hgroup, hdtype, hshape,
          hfit.datasets_of_findGroup hgroup, Bool.true_eq_false, if_false]
        rw [if_neg (by rw [hsize]; simp [Creation.bodySize]), if_pos hechos]
        rfl
      · refine .inr ⟨hsize, ?_⟩
        rw [writeBodyToFileGroup, get_bind_apply]
        simp only [hopen, if_true, hfile, Option.bind_some, hgroup, hdtype, hshape,
          hfit.datasets_of_findGroup hgroup, Bool.true_eq_false, if_false]
        have hwrong : body.length ≠ expectedBodySize data.dtype data.shape := hsize
        rw [if_pos hwrong]
        simp [closeFile, hfile]
    · refine .inl ⟨.groupNotFound, ?_⟩
      rw [writeBodyToFileGroup, get_bind_apply]
      simp [hopen, hfile, hfit.findGroup_of_le (Nat.le_of_not_lt hslice)]
  · refine .inl ⟨.groupNotFound, ?_⟩
    rw [writeBodyToFileGroup, get_bind_apply]
    simp [hopen]

/-- A body whose first group cannot be written leaves the file as it was, and closes it at
most. -/
theorem writeBodyItemToFile_fails (hfit : Fits data file) (hfile : s.h5 = some file)
    (post : ValuePost)
    (hbad : s.isOpen = false ∨ data.slices ≤ post.groupIds.head post.nonempty ∨
      post.bodyPartSize ≠ data.bodySize ∨ data.shape.echos = 0) :
    ∃ exception t, writeBodyItemToFile post.groupIds post.body s = .error (.raised exception) t ∧
      (t = s ∨ post.bodyPartSize ≠ data.bodySize ∧ t = { s with isOpen := false }) := by
  obtain ⟨part, rest, hparts, hpart⟩ : ∃ part rest, post.parts = (part :: rest) ∧
      part.1 = post.groupIds.head post.nonempty := by
    obtain ⟨i, ids, hids⟩ := List.exists_cons_of_ne_nil post.nonempty
    simp [ValuePost.parts, bodyParts, hids, List.range_succ_eq_map]
  have hsize := (ValuePost.mem_parts (hparts ▸ List.mem_cons_self : part ∈ post.parts)).2
  rw [writeBodyItemToFile_eq_bind post.nonempty,
    show bodyParts post.groupIds post.body = part :: rest from hparts, writeBodiesToFile,
    List.forM_cons]
  rw [← hpart, ← hsize] at hbad
  rw [← hsize]
  rcases writeBodyToFileGroup_fails hfit hfile hbad with ⟨exception, hfails⟩ | ⟨hwrong, hcloses⟩
  · exact ⟨exception, s, by rw [bind_error (bind_error hfails)], .inl rfl⟩
  · let closed : DataState := { s with isOpen := false }
    have hclosed : closed.isOpen = false := rfl
    rcases writeBodiesToFile_closed hclosed rest with hrest | hrest
    · refine ⟨.valueError, closed, ?_, .inr ⟨hwrong, rfl⟩⟩
      rw [bind_ok ((bind_ok hcloses).trans hrest), recordStored, bind_error (openFile_closed rfl)]
    · refine ⟨.groupNotFound, closed, ?_, .inr ⟨hwrong, rfl⟩⟩
      rw [bind_error ((bind_ok hcloses).trans hrest)]

theorem writeAttributesItemToFile_fails (hfit : Fits data file) (hfile : s.h5 = some file)
    (post : ValuePost)
    (hbad : s.isOpen = false ∨ data.slices ≤ post.groupIds.head post.nonempty) :
    ∃ exception, writeAttributesItemToFile post.entries s = .error (.raised exception) s := by
  obtain ⟨entry, rest, hentries, hentry⟩ : ∃ entry rest, post.entries = entry :: rest ∧
      entry.groupId = groupName (post.groupIds.head post.nonempty) := by
    obtain ⟨i, ids, hids⟩ := List.exists_cons_of_ne_nil post.nonempty
    simp [ValuePost.entries, hids]
  have hfirst : ∃ exception, writeEntry entry s = .error (.raised exception) s := by
    by_cases hopen : s.isOpen = true
    · rw [writeEntry, bind_ok (openFile_eq hfile hopen), hentry,
        hfit.findGroup_of_le (by simpa [hopen] using hbad)]
      exact ⟨_, rfl⟩
    · rw [writeEntry, bind_error (openFile_closed (by simpa using hopen))]
      exact ⟨_, rfl⟩
  obtain ⟨exception, hfirst⟩ := hfirst
  refine ⟨exception, ?_⟩
  rw [writeAttributesItemToFile, bind_error]
  rw [hentries, List.forM_cons, bind_error hfirst]

end Items

/-! ## The worker around the writes

What precedes and follows the writes of an item leaves the file alone. -/

section Worker

variable {α β : Type} {keepFilesOpen : Bool} {s t : DataState} {file : H5File}

/-- A file object of `open_files` is open. -/
def Usable (keepFilesOpen : Bool) (s : DataState) : Prop :=
  keepFilesOpen = true → s.cached = true → s.isOpen = true

structure SameFile (keepFilesOpen : Bool) (s t : DataState) : Prop where
  h5 : t.h5 = s.h5
  published : t.published = s.published
  clock : t.clock = s.clock
  usable : Usable keepFilesOpen s → Usable keepFilesOpen t

theorem SameFile.refl (s : DataState) : SameFile keepFilesOpen s s := ⟨rfl, rfl, rfl, id⟩

theorem SameFile.trans {u : DataState} (h : SameFile keepFilesOpen s t)
    (h' : SameFile keepFilesOpen t u) : SameFile keepFilesOpen s u :=
  ⟨h'.h5.trans h.h5, h'.published.trans h.published, h'.clock.trans h.clock, h'.usable ∘ h.usable⟩

/-- A function that leaves the file alone, however it ends. -/
def KeepsFile (keepFilesOpen : Bool) (m : WorkerM α) : Prop :=
  ∀ s, SameFile keepFilesOpen s (stateOf (m s))

theorem KeepsFile.bind {m : WorkerM α} {f : α → WorkerM β} (hm : KeepsFile keepFilesOpen m)
    (hf : ∀ a, KeepsFile keepFilesOpen (f a)) : KeepsFile keepFilesOpen (m >>= f) := by
  intro s
  have hs := hm s
  cases hrun : m s with
  | ok a t =>
      rw [bind_ok hrun]
      rw [hrun] at hs
      exact hs.trans (hf a t)
  | error stop t =>
      rw [bind_error hrun]
      rwa [hrun] at hs

/-- A function that reads the state only, and does not wait for ever. -/
def ReadsOnly (m : WorkerM α) : Prop :=
  ∀ s, stopOf (m s) ≠ some .spins ∧ stateOf (m s) = s

theorem ReadsOnly.bind {m : WorkerM α} {f : α → WorkerM β} (hm : ReadsOnly m)
    (hf : ∀ a, ReadsOnly (f a)) : ReadsOnly (m >>= f) := by
  intro s
  have hs := hm s
  cases hrun : m s with
  | ok a t =>
      rw [hrun] at hs
      rw [bind_ok hrun, show t = s from hs.2]
      exact hf a s
  | error stop t =>
      rw [bind_error hrun]
      rwa [hrun] at hs

theorem readsOnly_pure (a : α) : ReadsOnly (pure a : WorkerM α) :=
  fun _ => ⟨by simp [stopOf], rfl⟩

theorem readsOnly_raise (exception : Exn) : ReadsOnly (raise exception : WorkerM α) :=
  fun _ => ⟨by simp [stopOf], rfl⟩

theorem readsOnly_openFile : ReadsOnly openFile := by
  intro s
  cases hfile : s.h5 <;> cases hopen : s.isOpen <;>
    simp [openFile, hfile, hopen, stateOf, stopOf]

theorem readsOnly_truth (name : String) : ReadsOnly (truth name) := by
  refine readsOnly_openFile.bind fun file => ?_
  cases file.attrs name with
  | none => exact readsOnly_raise _
  | some value =>
      cases hvalue : value.truthy with
      | none => simpa [hvalue] using readsOnly_raise _
      | some result => simpa [hvalue] using readsOnly_pure result

theorem readsOnly_percent (vars : Scan) : ReadsOnly vars.percent := by
  unfold Scan.percent
  split
  · exact readsOnly_raise _
  · exact readsOnly_pure _

theorem ReadsOnly.keepsFile {m : WorkerM α} (hm : ReadsOnly m) : KeepsFile keepFilesOpen m := by
  intro s
  rw [(hm s).2]
  exact .refl s

theorem keepsFile_pure (a : α) : KeepsFile keepFilesOpen (pure a : WorkerM α) :=
  (readsOnly_pure a).keepsFile

theorem keepsFile_openFile : KeepsFile keepFilesOpen openFile := readsOnly_openFile.keepsFile

theorem keepsFile_truth (name : String) : KeepsFile keepFilesOpen (truth name) :=
  (readsOnly_truth name).keepsFile

theorem keepsFile_lockFile : KeepsFile keepFilesOpen lockFile := by
  intro s
  rw [lockFile, get_bind_apply]
  split
  · exact .refl s
  · exact ⟨rfl, rfl, rfl, id⟩

theorem keepsFile_unlockFile : KeepsFile keepFilesOpen unlockFile :=
  fun _ => ⟨rfl, rfl, rfl, id⟩

theorem keepsFile_removeMarker : KeepsFile keepFilesOpen removeMarker := by
  intro s
  rw [removeMarker, get_bind_apply]
  split
  · exact ⟨rfl, rfl, rfl, id⟩
  · exact .refl s

theorem keepsFile_finishItem : KeepsFile keepFilesOpen (finishItem keepFilesOpen) := by
  refine keepsFile_openFile.bind fun _ => ?_
  cases keepFilesOpen with
  | false => exact fun s => ⟨rfl, rfl, rfl, fun _ hkeep => by cases hkeep⟩
  | true =>
      refine (keepsFile_truth _).bind fun stored => ?_
      cases stored with
      | false => exact keepsFile_pure ()
      | true =>
          refine (keepsFile_truth _).bind fun uploaded => ?_
          cases uploaded with
          | false => exact keepsFile_pure ()
          | true => exact fun s => ⟨rfl, rfl, rfl, fun _ _ hcached => by cases hcached⟩

/-- What follows the writes of a body item. -/
def finishBody (keepFilesOpen : Bool) : WorkerM Unit := do
  if ← truth "cwa_stored" then do
    lockFile
    removeMarker
    unlockFile
  else pure ()
  finishItem keepFilesOpen

theorem keepsFile_finishBody : KeepsFile keepFilesOpen (finishBody keepFilesOpen) := by
  refine (keepsFile_truth _).bind fun stored => ?_
  cases stored with
  | false => exact (keepsFile_pure ()).bind fun _ => keepsFile_finishItem
  | true =>
      exact keepsFile_lockFile.bind fun _ => keepsFile_removeMarker.bind fun _ =>
        keepsFile_unlockFile.bind fun _ => keepsFile_finishItem

/-- The state once the file object of an item has been found. -/
def DataState.opened (keepFilesOpen : Bool) (s : DataState) : DataState :=
  if keepFilesOpen then
    if s.cached then s else { s with isOpen := true, cached := true }
  else { s with isOpen := true }

theorem openItemFile_eq (hfile : s.h5 = some file) :
    openItemFile keepFilesOpen s = .ok () (s.opened keepFilesOpen) := by
  have hopen : openFileForWriting s = .ok () { s with isOpen := true } := by
    rw [openFileForWriting, get_bind_apply]
    simp [hfile]
  rw [openItemFile, get_bind_apply, DataState.opened]
  cases keepFilesOpen with
  | false => exact hopen
  | true =>
      cases hcached : s.cached with
      | true => rfl
      | false =>
          simp only [if_true, Bool.false_eq_true, if_false]
          rw [bind_ok hopen]
          rfl

theorem sameFile_opened (s : DataState) : SameFile keepFilesOpen s (s.opened keepFilesOpen) := by
  unfold DataState.opened
  cases keepFilesOpen with
  | false => exact ⟨rfl, rfl, rfl, fun _ hkeep => by cases hkeep⟩
  | true =>
      by_cases hcached : s.cached = true
      · simp only [hcached, if_true]
        exact .refl s
      · simp only [hcached, if_true, Bool.false_eq_true, if_false]
        exact ⟨rfl, rfl, rfl, fun _ _ _ => rfl⟩

theorem Usable.isOpen_opened (h : Usable keepFilesOpen s) :
    (s.opened keepFilesOpen).isOpen = true := by
  unfold DataState.opened
  cases keepFilesOpen with
  | false => rfl
  | true =>
      by_cases hcached : s.cached = true
      · simpa [hcached] using h rfl hcached
      · simp [hcached]

/-- The worker ends an item, normally or in the `except` branch. -/
theorem afterItem_eq_some {item : Item} :
    afterItem keepFilesOpen s item = some t ↔
      stopOf (handleItem keepFilesOpen item s) ≠ some .spins ∧
        stateOf (handleItem keepFilesOpen item s) = t := by
  unfold afterItem
  split <;> rename_i hrun <;> simp [hrun, stopOf, stateOf]

/-- A body item is its writes between steps that leave the file alone. -/
theorem handleItem_body (hfile : s.h5 = some file) (post : ValuePost) :
    handleItem keepFilesOpen post.bodyItem s =
      (writeBodyItemToFile post.groupIds post.body >>= fun _ => finishBody keepFilesOpen)
        (s.opened keepFilesOpen) := by
  rw [ValuePost.bodyItem, handleItem, bind_ok (openItemFile_eq hfile)]
  rfl

theorem handleItem_attributes (hfile : s.h5 = some file) (post : ValuePost) :
    handleItem keepFilesOpen post.attributesItem s =
      (writeAttributesItemToFile post.entries >>= fun _ => finishItem keepFilesOpen)
        (s.opened keepFilesOpen) := by
  rw [ValuePost.attributesItem, handleItem, bind_ok (openItemFile_eq hfile)]

theorem opened_eq (hcached : s.cached = true → keepFilesOpen = true ∧ s.isOpen = true) :
    s.opened keepFilesOpen = { s with isOpen := true, cached := keepFilesOpen } := by
  obtain ⟨h5, marker, locked, cached, isOpen, clock, published⟩ := s
  cases keepFilesOpen <;> cases cached <;> simp_all [DataState.opened]

/-- The file object is closed, and taken from `open_files`, with the last item. -/
theorem finishItem_eq (hfile : s.h5 = some file) (hopen : s.isOpen = true)
    (hcached : s.cached = keepFilesOpen) {stored uploaded : Bool}
    (hstored : file.attrs "cwa_stored" = some (.bool stored))
    (huploaded : file.attrs "cwa_uploaded" = some (.bool uploaded)) :
    finishItem keepFilesOpen s =
      .ok () { s with
        cached := keepFilesOpen && !(stored && uploaded)
        isOpen := keepFilesOpen && !(stored && uploaded) } := by
  obtain ⟨h5, marker, locked, cached, isOpen, clock, published⟩ := s
  obtain rfl : isOpen = true := hopen
  obtain rfl : cached = keepFilesOpen := hcached
  rw [finishItem, bind_ok (openFile_eq hfile rfl)]
  cases cached with
  | false => rfl
  | true =>
      rw [if_pos rfl, bind_ok (truth_eq hfile rfl hstored)]
      cases stored with
      | false => rfl
      | true =>
          rw [if_pos rfl, bind_ok (truth_eq hfile rfl huploaded)]
          cases uploaded <;> rfl

/-- The marker is removed when the file is stored. -/
theorem finishBody_eq (hfile : s.h5 = some file) (hopen : s.isOpen = true)
    (hcached : s.cached = keepFilesOpen) (hlocked : s.locked = false) (hmarker : s.marker = true)
    {stored uploaded : Bool} (hstored : file.attrs "cwa_stored" = some (.bool stored))
    (huploaded : file.attrs "cwa_uploaded" = some (.bool uploaded)) :
    finishBody keepFilesOpen s =
      .ok () { s with
        marker := !stored
        cached := keepFilesOpen && !(stored && uploaded)
        isOpen := keepFilesOpen && !(stored && uploaded) } := by
  obtain ⟨h5, marker, locked, cached, isOpen, clock, published⟩ := s
  obtain rfl : marker = true := hmarker
  obtain rfl : locked = false := hlocked
  rw [finishBody, bind_ok (truth_eq hfile hopen hstored)]
  cases stored with
  | false => exact finishItem_eq hfile hopen hcached hstored huploaded
  | true =>
      -- lock, remove and unlock leave the marker removed
      exact finishItem_eq (s := ⟨h5, false, false, cached, isOpen, clock, published⟩) hfile hopen
        hcached hstored huploaded

end Worker

end ComputeWebApp.Api
