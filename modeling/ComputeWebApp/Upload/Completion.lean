import ComputeWebApp.Upload.Agreement

/-!
# Items that are handled to their end

The worker calls `task_done` in the last line of the `try`, so that an item whose handling raises
is never done, nor is one that the worker waits in for ever.  `Completes` is what an item needs of
the state that it finds: its groups, the sizes of its parts, attributes of the file that have a
truth value, the marker and the lock.

Each function of the worker returns if and only if a condition on the state holds, and
`returns_handleItem_iff` puts these conditions together.
-/

namespace ComputeWebApp.Api

open ByteStream

/-! ## What an item needs -/

/-- A part of a body has its group, with datasets, and the size that the group requires. -/
def Storable (file : H5File) (part : ℕ × Bytes) : Prop :=
  ∃ group ∈ file.findGroup (groupName part.1), group.datasets = true ∧
    part.2.length = expectedBodySize group.dtype group.shape ∧ group.shape.echos ≠ 0

instance (file : H5File) (part : ℕ × Bytes) : Decidable (Storable file part) :=
  inferInstanceAs (Decidable (∃ group ∈ file.findGroup (groupName part.1), _))

/-- The truth value of `cwa_stored` once some groups have been stored. -/
def H5File.storedAfter (file : H5File) (groupIds : List ℕ) : Option Bool :=
  if file.groups.all fun entry =>
      entry.2.stored || groupIds.any fun i => decide (entry.1 = groupName i)
  then some true
  else file.truthOf "cwa_stored"

/-- Every group is uploaded once some attributes have been assigned. -/
def H5File.uploadedAfter (file : H5File) (entries : List AttributeEntry) : Bool :=
  file.groups.all fun entry => (entriesEffect entries entry.1 entry.2).uploaded

/-- `file.attrs['cwa_stored'] and file.attrs["cwa_uploaded"]` can be evaluated, where it is. -/
def MayFinish (keepFilesOpen : Bool) (file : H5File) (stored : Option Bool) : Prop :=
  keepFilesOpen = true → stored.isSome = true ∧
    (stored = some true → (file.truthOf "cwa_uploaded").isSome = true)

instance (keepFilesOpen : Bool) (file : H5File) (stored : Option Bool) :
    Decidable (MayFinish keepFilesOpen file stored) :=
  inferInstanceAs (Decidable (_ → _))

/-- A body finds its groups, and the marker if it makes the data stored. -/
structure BodyCompletes (keepFilesOpen : Bool) (s : DataState) (file : H5File)
    (groupIds : List ℕ) (body : Bytes) : Prop where
  nonempty : groupIds ≠ []
  parts : ∀ part ∈ bodyParts groupIds body, Storable file part
  stored : (file.storedAfter groupIds).isSome = true
  marker : file.storedAfter groupIds = some true → s.locked = false ∧ s.marker = true
  finish : MayFinish keepFilesOpen file (file.storedAfter groupIds)

instance (keepFilesOpen : Bool) (s : DataState) (file : H5File) (groupIds : List ℕ)
    (body : Bytes) : Decidable (BodyCompletes keepFilesOpen s file groupIds body) :=
  decidable_of_iff (groupIds ≠ [] ∧ (∀ part ∈ bodyParts groupIds body, Storable file part) ∧
      (file.storedAfter groupIds).isSome = true ∧
      (file.storedAfter groupIds = some true → s.locked = false ∧ s.marker = true) ∧
      MayFinish keepFilesOpen file (file.storedAfter groupIds))
    ⟨fun ⟨h₁, h₂, h₃, h₄, h₅⟩ => ⟨h₁, h₂, h₃, h₄, h₅⟩,
      fun ⟨h₁, h₂, h₃, h₄, h₅⟩ => ⟨h₁, h₂, h₃, h₄, h₅⟩⟩

structure AttributesComplete (keepFilesOpen : Bool) (file : H5File)
    (entries : List AttributeEntry) : Prop where
  groups : ∀ entry ∈ entries, (file.findGroup entry.groupId).isSome = true
  nonempty : file.groups ≠ []
  uploaded : file.uploadedAfter entries = true → (file.truthOf "cwa_uploaded").isSome = true
  finish : MayFinish keepFilesOpen file (file.truthOf "cwa_stored")

instance (keepFilesOpen : Bool) (file : H5File) (entries : List AttributeEntry) :
    Decidable (AttributesComplete keepFilesOpen file entries) :=
  decidable_of_iff ((∀ entry ∈ entries, (file.findGroup entry.groupId).isSome = true) ∧
      file.groups.isEmpty = false ∧
      (file.uploadedAfter entries = true → (file.truthOf "cwa_uploaded").isSome = true) ∧
      MayFinish keepFilesOpen file (file.truthOf "cwa_stored"))
    ⟨fun ⟨h₁, h₂, h₃, h₄⟩ => ⟨h₁, List.isEmpty_eq_false_iff.mp h₂, h₃, h₄⟩,
      fun ⟨h₁, h₂, h₃, h₄⟩ => ⟨h₁, List.isEmpty_eq_false_iff.mpr h₂, h₃, h₄⟩⟩

/-- **What an item needs.**  A creation needs a data that can be created and the lock; a body and
attributes need a file, whose object in `open_files` has not been closed. -/
def Completes (keepFilesOpen : Bool) (s : DataState) : Item → Prop
  | .creation data => data.Creatable ∧ s.locked = false
  | .body groupIds body =>
      Usable keepFilesOpen s ∧ ∃ file ∈ s.h5, BodyCompletes keepFilesOpen s file groupIds body
  | .attributes entries =>
      Usable keepFilesOpen s ∧ ∃ file ∈ s.h5, AttributesComplete keepFilesOpen file entries

instance (keepFilesOpen : Bool) (s : DataState) : Decidable (Usable keepFilesOpen s) :=
  inferInstanceAs (Decidable (_ → _))

instance (keepFilesOpen : Bool) (s : DataState) :
    (item : Item) → Decidable (Completes keepFilesOpen s item)
  | .creation _ => inferInstanceAs (Decidable (_ ∧ _))
  | .body _ _ => inferInstanceAs (Decidable (_ ∧ ∃ file ∈ s.h5, _))
  | .attributes _ => inferInstanceAs (Decidable (_ ∧ ∃ file ∈ s.h5, _))

/-! ## Functions that return -/

section Returns

variable {α β : Type} {m : WorkerM α} {f : α → WorkerM β} {s t : DataState}

/-- The function comes to its end. -/
def Returns (m : WorkerM α) (s : DataState) : Prop := ∃ a t, m s = .ok a t

theorem returns_of_ok {a : α} (h : m s = .ok a t) : Returns m s := ⟨a, t, h⟩

theorem not_returns_of_error {stop : Stop} (h : m s = .error stop t) : ¬Returns m s := by
  rintro ⟨a, u, hok⟩
  rw [h] at hok
  cases hok

theorem returns_bind_iff_of_ok {a : α} (h : m s = .ok a t) :
    Returns (m >>= f) s ↔ Returns (f a) t := by
  unfold Returns
  rw [bind_ok h]

theorem not_returns_bind (h : ¬Returns m s) : ¬Returns (m >>= f) s := by
  rintro ⟨b, u, hok⟩
  cases hm : m s with
  | ok a t => exact h ⟨a, t, hm⟩
  | error stop t =>
      rw [bind_error hm] at hok
      cases hok

theorem not_returns_bind_of_error {stop : Stop} (h : m s = .error stop t) :
    ¬Returns (m >>= f) s :=
  not_returns_of_error (bind_error h)

end Returns

/-! ## What follows the writes -/

section Finish

variable {keepFilesOpen : Bool} {s : DataState} {file : H5File}

theorem lockFile_eq (hlocked : s.locked = false) :
    lockFile s = .ok () { s with locked := true } := by
  rw [lockFile, get_bind_apply, hlocked]
  rfl

theorem lockFile_spins (hlocked : s.locked = true) : lockFile s = .error .spins s := by
  rw [lockFile, get_bind_apply, hlocked]
  rfl

theorem removeMarker_eq (hmarker : s.marker = true) :
    removeMarker s = .ok () { s with marker := false } := by
  rw [removeMarker, get_bind_apply, hmarker]
  rfl

theorem removeMarker_raises (hmarker : s.marker = false) :
    removeMarker s = .error (.raised .fileNotFoundError) s := by
  rw [removeMarker, get_bind_apply, hmarker]
  rfl

theorem returns_finishItem_iff (hfile : s.h5 = some file) (hopen : s.isOpen = true) :
    Returns (finishItem keepFilesOpen) s ↔
      MayFinish keepFilesOpen file (file.truthOf "cwa_stored") := by
  rw [finishItem, returns_bind_iff_of_ok (openFile_eq hfile hopen)]
  cases keepFilesOpen with
  | false => exact iff_of_true ⟨_, _, rfl⟩ fun hkeep => absurd hkeep Bool.false_ne_true
  | true =>
      cases hstored : file.truthOf "cwa_stored" with
      | none =>
          obtain ⟨exception, hraise⟩ := truth_raises hfile hopen hstored
          exact iff_of_false (not_returns_bind_of_error hraise) fun h =>
            absurd (h rfl).1 Bool.false_ne_true
      | some stored =>
          rw [if_pos rfl, returns_bind_iff_of_ok (truth_of_truthOf hfile hopen hstored)]
          cases stored with
          | false =>
              exact iff_of_true ⟨_, _, rfl⟩ fun _ =>
                ⟨rfl, fun h => absurd (Option.some.inj h) Bool.false_ne_true⟩
          | true =>
              rw [if_pos rfl]
              cases huploaded : file.truthOf "cwa_uploaded" with
              | none =>
                  obtain ⟨exception, hraise⟩ := truth_raises hfile hopen huploaded
                  refine iff_of_false (not_returns_bind_of_error hraise) fun h => ?_
                  have hsome := (h rfl).2 rfl
                  rw [huploaded] at hsome
                  cases hsome
              | some uploaded =>
                  rw [returns_bind_iff_of_ok (truth_of_truthOf hfile hopen huploaded)]
                  refine iff_of_true ?_ fun _ => ⟨rfl, fun _ => by rw [huploaded]; rfl⟩
                  cases uploaded <;> exact ⟨_, _, rfl⟩

theorem returns_finishBody_iff (hfile : s.h5 = some file) (hopen : s.isOpen = true) :
    Returns (finishBody keepFilesOpen) s ↔ (file.truthOf "cwa_stored").isSome = true ∧
      (file.truthOf "cwa_stored" = some true → s.locked = false ∧ s.marker = true) ∧
        MayFinish keepFilesOpen file (file.truthOf "cwa_stored") := by
  cases hstored : file.truthOf "cwa_stored" with
  | none =>
      obtain ⟨exception, hraise⟩ := truth_raises hfile hopen hstored
      exact iff_of_false (not_returns_bind_of_error hraise) fun h => absurd h.1 Bool.false_ne_true
  | some stored =>
      rw [finishBody, returns_bind_iff_of_ok (truth_of_truthOf hfile hopen hstored)]
      cases stored with
      | false =>
          refine (returns_finishItem_iff hfile hopen).trans ?_
          rw [hstored]
          exact ⟨fun h => ⟨rfl, fun hall => absurd (Option.some.inj hall) Bool.false_ne_true, h⟩,
            fun h => h.2.2⟩
      | true =>
          by_cases hlocked : s.locked = true
          · refine iff_of_false (not_returns_bind_of_error (lockFile_spins hlocked)) fun h => ?_
            rw [(h.2.1 rfl).1] at hlocked
            cases hlocked
          · have hlock := lockFile_eq (show s.locked = false by simpa using hlocked)
            refine (returns_bind_iff_of_ok hlock).trans ?_
            by_cases hmarker : s.marker = true
            · have hremove : removeMarker { s with locked := true } = _ := removeMarker_eq hmarker
              refine (returns_bind_iff_of_ok hremove).trans
                ((returns_bind_iff_of_ok (modify_apply _)).trans ?_)
              refine (returns_finishItem_iff (s := { s with locked := false, marker := false })
                hfile hopen).trans ?_
              rw [hstored]
              exact ⟨fun h => ⟨rfl, fun _ => ⟨by simpa using hlocked, hmarker⟩, h⟩, fun h => h.2.2⟩
            · have hmissing : removeMarker { s with locked := true } = _ :=
                removeMarker_raises (by simpa using hmarker)
              exact iff_of_false (not_returns_bind_of_error hmissing) fun h =>
                hmarker (h.2.1 rfl).2

end Finish

/-! ## Bodies -/

section Bodies

variable {s : DataState} {file : H5File} {part : ℕ × Bytes} {parts : List (ℕ × Bytes)}

/-- What parts of a body do to the groups: the datasets keep their type and their shape, and the
groups of the parts are stored. -/
structure StoresParts (parts : List (ℕ × Bytes)) (effect : String → Group → Group) : Prop where
  layout : ∀ name group, (effect name group).SameLayout group
  stored : ∀ name group, (effect name group).stored =
    (group.stored || parts.any fun part => decide (name = groupName part.1))

theorem Storable.mapGroups_iff {effect : String → Group → Group} (h : StoresParts parts effect) :
    Storable (file.mapGroups effect) part ↔ Storable file part := by
  unfold Storable
  rw [H5File.findGroup_mapGroups]
  cases file.findGroup (groupName part.1) with
  | none => simp
  | some group =>
      obtain ⟨hdtype, hshape, hdatasets⟩ := h.layout (groupName part.1) group
      simp [hdtype, hshape, hdatasets]

theorem writeBodyToFileGroup_storable (hfile : s.h5 = some file) (hopen : s.isOpen = true)
    (hpart : Storable file part) :
    ∃ (changes : List (H5File → H5File)) (effect : String → Group → Group),
      writeBodyToFileGroup part.2 part.1 s = .ok () (changes.foldl DataState.write s) ∧
        changes.foldl (fun file change => change file) file = file.mapGroups effect ∧
        StoresParts [part] effect := by
  obtain ⟨group, hgroup, hdatasets, hsize, hechos⟩ := hpart
  let bodyPartSize := part.2.length / (2 * group.shape.echos)
  let update := fun change file => H5File.updateGroup file (groupName part.1) change
  let changes : List (Group → Group) :=
    [fun other => { other with
        magnitude := sliceArray group.dtype group.shape part.2 bodyPartSize 0 },
      fun other => { other with
        phase := sliceArray group.dtype group.shape part.2 bodyPartSize group.shape.echos },
      fun other => { other with stored := true },
      fun other => { other with storedBytes := part.2.length }]
  have hwrite : ∀ (t : DataState) (change : Group → Group), t.h5.isSome = true →
      t.isOpen = true → writeGroup part.1 change t = .ok () (t.write (update change)) := by
    intro t change hsome ht
    obtain ⟨file', hfile'⟩ := Option.isSome_iff_exists.mp hsome
    exact writeFile_eq hfile' ht _
  refine ⟨changes.map update,
    fun name other => if name = groupName part.1 then
      { other with
        magnitude := sliceArray group.dtype group.shape part.2 bodyPartSize 0
        phase := sliceArray group.dtype group.shape part.2 bodyPartSize group.shape.echos
        stored := true
        storedBytes := part.2.length } else other, ?_, ?_, ?_⟩
  · rw [writeBodyToFileGroup, get_bind_apply]
    simp only [hopen, if_true, hfile, Option.bind_some, Option.mem_def.mp hgroup, hdatasets,
      Bool.true_eq_false, if_false]
    rw [if_neg (not_not.mpr hsize), if_neg hechos]
    rw [bind_ok (hwrite s _ (by simp [hfile]) hopen),
      bind_ok (hwrite _ _ (by simp [hfile]) (by simpa)),
      bind_ok (hwrite _ _ (by simp [hfile]) (by simpa)), hwrite _ _ (by simp [hfile]) (by simpa)]
    rfl
  · simp only [changes, update, List.map_cons, List.map_nil, List.foldl_cons, List.foldl_nil,
      H5File.updateGroup, H5File.mapGroups_mapGroups]
    congr 1
    funext name other
    by_cases hname : name = groupName part.1 <;> simp [hname]
  · constructor <;> intro name other <;> by_cases hname : name = groupName part.1
    · simp only [hname, if_true]
      exact ⟨rfl, rfl, rfl⟩
    · simp only [hname, if_false]
      exact .refl other
    · simp [hname]
    · simp [hname]

/-- Parts that all fit are written. -/
theorem writeBodiesToFile_storable (hfile : s.h5 = some file) (hopen : s.isOpen = true)
    (hparts : ∀ part ∈ parts, Storable file part) :
    ∃ (changes : List (H5File → H5File)) (effect : String → Group → Group),
      writeBodiesToFile parts s = .ok () (changes.foldl DataState.write s) ∧
        changes.foldl (fun file change => change file) file = file.mapGroups effect ∧
        StoresParts parts effect := by
  induction parts generalizing s file with
  | nil => exact ⟨[], fun _ group => group, rfl, file.mapGroups_id.symm, fun _ _ => .refl _, by simp⟩
  | cons part rest ih =>
      obtain ⟨changes, effect, hrun, hchanges, hstores⟩ :=
        writeBodyToFileGroup_storable hfile hopen (hparts part List.mem_cons_self)
      have hfile' : (changes.foldl DataState.write s).h5 = some (file.mapGroups effect) := by
        rw [h5_writes hfile, hchanges]
      obtain ⟨changes', effect', hrun', hchanges', hstores'⟩ := ih hfile' (by simpa)
        fun part' hmem => (Storable.mapGroups_iff hstores).mpr
          (hparts part' (List.mem_cons_of_mem _ hmem))
      refine ⟨changes ++ changes', fun name group => effect' name (effect name group), ?_, ?_, ?_⟩
      · rw [writeBodiesToFile, List.forM_cons, bind_ok hrun, List.foldl_append]
        exact hrun'
      · rw [List.foldl_append, hchanges, hchanges', H5File.mapGroups_mapGroups]
      · refine ⟨fun name group => ?_, fun name group => ?_⟩
        · exact (hstores'.layout _ _).trans (hstores.layout _ _)
        · rw [hstores'.stored, hstores.stored, List.any_cons, List.any_cons, List.any_nil,
            Bool.or_false, Bool.or_assoc]

/-- A part that does not fit: the group or its datasets are missing, the file is closed, or there is
no echo. -/
theorem not_returns_of_not_storable {β : Type} {f : H5File → WorkerM β} (hfile : s.h5 = some file)
    (hopen : s.isOpen = true) (hparts : ∃ part ∈ parts, ¬Storable file part) :
    ¬Returns (writeBodiesToFile parts >>= fun _ => openFile >>= f) s := by
  induction parts generalizing s file with
  | nil => exact fun _ => by obtain ⟨part, hmem, -⟩ := hparts; cases hmem
  | cons part rest ih =>
      rw [writeBodiesToFile, List.forM_cons, bind_assoc]
      by_cases hpart : Storable file part
      · obtain ⟨changes, effect, hrun, hchanges, hstores⟩ :=
          writeBodyToFileGroup_storable hfile hopen hpart
        rw [returns_bind_iff_of_ok hrun]
        have hfile' : (changes.foldl DataState.write s).h5 = some (file.mapGroups effect) := by
          rw [h5_writes hfile, hchanges]
        -- the part that does not fit is still ahead
        refine ih hfile' (by simpa) ?_
        obtain ⟨other, hmem, hother⟩ := hparts
        rcases List.mem_cons.mp hmem with rfl | hmem
        · exact absurd hpart hother
        · exact ⟨other, hmem, fun h => hother ((Storable.mapGroups_iff hstores).mp h)⟩
      · cases hgroup : file.findGroup (groupName part.1) with
        | none =>
            have hraise : writeBodyToFileGroup part.2 part.1 s =
                .error (.raised .groupNotFound) s := by
              rw [writeBodyToFileGroup, get_bind_apply]
              simp [hopen, hfile, hgroup]
            exact not_returns_bind_of_error hraise
        | some group =>
            by_cases hdatasets : group.datasets = false
            · have hraise : writeBodyToFileGroup part.2 part.1 s =
                  .error (.raised .keyError) s := by
                rw [writeBodyToFileGroup, get_bind_apply]
                simp [hopen, hfile, hgroup, hdatasets]
              exact not_returns_bind_of_error hraise
            by_cases hsize : part.2.length = expectedBodySize group.dtype group.shape
            · have hechos : group.shape.echos = 0 := by
                by_contra hechos
                exact hpart ⟨group, hgroup, by simpa using hdatasets, hsize, hechos⟩
              have hraise : writeBodyToFileGroup part.2 part.1 s =
                  .error (.raised .zeroDivisionError) s := by
                rw [writeBodyToFileGroup, get_bind_apply]
                simp only [hopen, if_true, hfile, Option.bind_some, hgroup]
                rw [if_neg hdatasets, if_neg (not_not.mpr hsize), if_pos hechos]
                rfl
              exact not_returns_bind_of_error hraise
            · -- the file is closed, and nothing after that finds it open
              have hclose : writeBodyToFileGroup part.2 part.1 s =
                  .ok () { s with isOpen := false } := by
                rw [writeBodyToFileGroup, get_bind_apply]
                simp only [hopen, if_true, hfile, Option.bind_some, hgroup]
                rw [if_neg hdatasets, if_pos hsize, ← hfile]
                rfl
              rw [returns_bind_iff_of_ok hclose]
              rcases writeBodiesToFile_closed (s := { s with isOpen := false }) rfl rest with
                hrest | hrest
              · refine fun h => not_returns_bind_of_error (openFile_closed rfl)
                  ((returns_bind_iff_of_ok hrest).mp h)
              · exact not_returns_bind_of_error hrest

end Bodies

/-! ## Items -/

section Items

variable {keepFilesOpen : Bool} {s : DataState} {file : H5File}

@[simp] theorem locked_opened (s : DataState) : (s.opened keepFilesOpen).locked = s.locked := by
  unfold DataState.opened
  cases keepFilesOpen <;> cases s.cached <;> rfl

@[simp] theorem marker_opened (s : DataState) : (s.opened keepFilesOpen).marker = s.marker := by
  unfold DataState.opened
  cases keepFilesOpen <;> cases s.cached <;> rfl

/-- The files of an item: one that can be opened, or none. -/
theorem not_returns_of_unusable {m : WorkerM Unit}
    (hm : ∀ t, t.h5 = none ∨ t.isOpen = false → ¬Returns m t)
    (h : ¬(Usable keepFilesOpen s ∧ s.h5.isSome = true)) :
    ¬Returns (openItemFile keepFilesOpen >>= fun _ => m) s := by
  cases hfile : s.h5 with
  | some file =>
      rw [returns_bind_iff_of_ok (openItemFile_eq hfile)]
      have hclosed : keepFilesOpen = true ∧ s.cached = true ∧ s.isOpen = false := by
        have hunusable : ¬Usable keepFilesOpen s := fun hu => h ⟨hu, by rw [hfile]; rfl⟩
        simpa [Usable] using hunusable
      refine hm _ (.inr ?_)
      rw [DataState.opened, if_pos hclosed.1, if_pos hclosed.2.1]
      exact hclosed.2.2
  | none =>
      by_cases hcached : keepFilesOpen = true ∧ s.cached = true
      · have hopen : openItemFile keepFilesOpen s = .ok () s := by
          rw [openItemFile, get_bind_apply, if_pos hcached.1, if_pos hcached.2]
          rfl
        rw [returns_bind_iff_of_ok hopen]
        exact hm s (.inl hfile)
      · -- `open_file_for_writing` tries for ever
        have hspin : openFileForWriting s = .error .spins s := by
          rw [openFileForWriting, get_bind_apply, hfile]
          rfl
        refine not_returns_bind_of_error (?_ : openItemFile keepFilesOpen s = .error .spins s)
        rw [openItemFile, get_bind_apply]
        cases hkeep : keepFilesOpen with
        | false => exact hspin
        | true =>
            rw [if_pos rfl, if_neg fun hc => hcached ⟨hkeep, hc⟩]
            exact bind_error hspin

theorem openFile_raises {t : DataState} (h : t.h5 = none ∨ t.isOpen = false) :
    openFile t = .error (.raised .valueError) t := by
  rcases h with h | h
  · simp [openFile, h]
  · exact openFile_closed h

/-- No part of a body is written without a file that is open. -/
theorem not_returns_writeBodyItemToFile {t : DataState} (h : t.h5 = none ∨ t.isOpen = false)
    (groupIds : List ℕ) (body : Bytes) : ¬Returns (writeBodyItemToFile groupIds body) t := by
  cases groupIds with
  | nil => exact not_returns_of_error rfl
  | cons i rest =>
      have hraise : ∀ part : ℕ × Bytes, writeBodyToFileGroup part.2 part.1 t =
          .error (.raised .groupNotFound) t := by
        intro part
        rw [writeBodyToFileGroup, get_bind_apply]
        rcases h with h | h <;> simp [h]
      obtain ⟨part, parts, hparts⟩ : ∃ part parts, bodyParts (i :: rest) body = part :: parts := by
        simp [bodyParts, List.range_succ_eq_map]
      rw [writeBodyItemToFile_eq_bind (List.cons_ne_nil i rest), writeBodiesToFile, hparts,
        List.forM_cons]
      exact not_returns_bind_of_error (bind_error (hraise part))

theorem not_returns_writeAttributesItemToFile {t : DataState} (h : t.h5 = none ∨ t.isOpen = false)
    (entries : List AttributeEntry) : ¬Returns (writeAttributesItemToFile entries) t := by
  rw [writeAttributesItemToFile_eq_bind]
  cases entries with
  | nil =>
      intro hreturns
      exact not_returns_bind_of_error (openFile_raises h)
        ((returns_bind_iff_of_ok (t := t) rfl).mp hreturns)
  | cons entry rest =>
      rw [List.forM_cons]
      exact not_returns_bind_of_error (bind_error (bind_error (openFile_raises h)))

theorem groups_ne_nil_of_findGroup {name : String} (h : (file.findGroup name).isSome = true) :
    file.groups ≠ [] := by
  obtain ⟨group, hgroup⟩ := Option.isSome_iff_exists.mp h
  exact List.ne_nil_of_mem (H5File.mem_of_findGroup hgroup)

/-- The flag of the totals, once they have been recorded. -/
theorem truthOf_record {totals : Totals} (htotals : totals.Distinct) (vars : Scan) (already : Bool)
    (time : ℕ) :
    (file.record totals vars already time).truthOf totals.flag =
      if (vars.done && !already) = true then some true else file.truthOf totals.flag := by
  rw [H5File.truthOf, attrs_record_flag htotals]
  split <;> rfl

theorem truthOf_record_of_not_mem {totals : Totals} {name : String} {vars : Scan} {already : Bool}
    {time : ℕ} (hname : name ∉ [totals.bytes, totals.progress, totals.endTime, totals.flag]) :
    (file.record totals vars already time).truthOf name = file.truthOf name := by
  rw [H5File.truthOf, attrs_record_of_not_mem hname]
  rfl

theorem allStored_storesParts {parts : List (ℕ × Bytes)} {effect : String → Group → Group}
    (h : StoresParts parts effect) :
    allStored (file.mapGroups effect) = file.groups.all fun entry =>
      entry.2.stored || parts.any fun part => decide (entry.1 = groupName part.1) := by
  simp [allStored, H5File.mapGroups, List.all_map, Function.comp_def, h.stored]

/-- The parts are for the groups of the body. -/
theorem map_fst_bodyParts (groupIds : List ℕ) (body : Bytes) :
    (bodyParts groupIds body).map Prod.fst = groupIds := by
  rw [bodyParts, List.map_fst_zip (by simp)]

theorem any_bodyParts (groupIds : List ℕ) (body : Bytes) (name : String) :
    ((bodyParts groupIds body).any fun part => decide (name = groupName part.1)) =
      groupIds.any fun i => decide (name = groupName i) := by
  conv_rhs => rw [← map_fst_bodyParts groupIds body, List.any_map]
  rfl

/-- The worker around the writes of a body. -/
theorem returns_body_iff (hfile : s.h5 = some file) (husable : Usable keepFilesOpen s)
    (groupIds : List ℕ) (body : Bytes) :
    Returns (handleItem keepFilesOpen (.body groupIds body)) s ↔
      BodyCompletes keepFilesOpen s file groupIds body := by
  have hstart : Returns (handleItem keepFilesOpen (.body groupIds body)) s ↔
      Returns (writeBodyItemToFile groupIds body >>= fun _ => finishBody keepFilesOpen)
        (s.opened keepFilesOpen) :=
    returns_bind_iff_of_ok (openItemFile_eq hfile)
  rw [hstart]
  have hopened : (s.opened keepFilesOpen).h5 = some file := (sameFile_opened s).h5.trans hfile
  have hopen := husable.isOpen_opened
  by_cases hids : groupIds = []
  · subst hids
    exact iff_of_false (not_returns_bind_of_error rfl) fun h => h.nonempty rfl
  by_cases hparts : ∀ part ∈ bodyParts groupIds body, Storable file part
  · obtain ⟨changes, effect, hrun, hchanges, hstores⟩ :=
      writeBodiesToFile_storable hopened hopen hparts
    have hwritten : (changes.foldl DataState.write (s.opened keepFilesOpen)).h5 =
        some (file.mapGroups effect) := by rw [h5_writes hopened, hchanges]
    have hgroups : (file.mapGroups effect).groups ≠ [] := by
      obtain ⟨part, parts, hcons⟩ : ∃ part parts, bodyParts groupIds body = part :: parts := by
        obtain ⟨i, rest, rfl⟩ := List.exists_cons_of_ne_nil hids
        simp [bodyParts, List.range_succ_eq_map]
      obtain ⟨group, hgroup, -⟩ := hparts part (by rw [hcons]; exact List.mem_cons_self)
      have hne := groups_ne_nil_of_findGroup (Option.isSome_iff_exists.mpr ⟨group, hgroup⟩)
      simpa using hne
    have hrecord := recordStored_eq hwritten (by simpa) hgroups
    rw [writeBodyItemToFile_eq_bind hids, bind_assoc, returns_bind_iff_of_ok hrun,
      returns_bind_iff_of_ok hrecord, returns_finishBody_iff (DataState.h5_record hwritten _ _ _)
        (by simpa)]
    have hstored : ((file.mapGroups effect).record storeTotals (storeScan (file.mapGroups effect))
        false (changes.foldl DataState.write (s.opened keepFilesOpen)).clock).truthOf "cwa_stored" =
          file.storedAfter groupIds := by
      refine (truthOf_record storeTotals_distinct _ _ _).trans ?_
      rw [storeScan_done, allStored_storesParts hstores, Bool.not_false, Bool.and_true]
      simp only [any_bodyParts]
      rfl
    have huploaded : ((file.mapGroups effect).record storeTotals (storeScan (file.mapGroups effect))
        false (changes.foldl DataState.write (s.opened keepFilesOpen)).clock).truthOf
          "cwa_uploaded" = file.truthOf "cwa_uploaded" :=
      truthOf_record_of_not_mem (by decide)
    rw [hstored, MayFinish, huploaded]
    simp only [DataState.locked_record, DataState.marker_record, locked_writes, marker_writes,
      locked_opened, marker_opened]
    exact ⟨fun h => ⟨hids, hparts, h.1, h.2.1, h.2.2⟩, fun h => ⟨h.stored, h.marker, h.finish⟩⟩
  · refine iff_of_false (not_returns_bind ?_) fun h => hparts h.parts
    rw [writeBodyItemToFile_eq_bind hids]
    exact not_returns_of_not_storable hopened hopen (by simpa using hparts)

theorem not_returns_writeEntries (hfile : s.h5 = some file) (hopen : s.isOpen = true)
    {entries : List AttributeEntry}
    (hentries : ∃ entry ∈ entries, ¬(file.findGroup entry.groupId).isSome = true) :
    ¬Returns (forM entries writeEntry) s := by
  induction entries generalizing s file with
  | nil => exact fun _ => by obtain ⟨entry, hmem, -⟩ := hentries; cases hmem
  | cons entry rest ih =>
      rw [List.forM_cons]
      by_cases hgroup : (file.findGroup entry.groupId).isSome = true
      · rw [returns_bind_iff_of_ok (writeEntry_eq hfile hopen hgroup)]
        refine ih (DataState.h5_applyEntries hfile [entry]) (by simpa) ?_
        obtain ⟨other, hmem, hother⟩ := hentries
        rcases List.mem_cons.mp hmem with rfl | hmem
        · exact absurd hgroup hother
        · refine ⟨other, hmem, ?_⟩
          rwa [H5File.findGroup_mapGroups, Option.isSome_map]
      · have hraise : writeEntry entry s = .error (.raised .keyError) s := by
          rw [writeEntry, bind_ok (openFile_eq hfile hopen),
            Option.not_isSome_iff_eq_none.mp hgroup]
          rfl
        exact not_returns_bind_of_error hraise

/-- Without a group there is no progress to compute, and `cwa_uploaded` is evaluated when every
group is uploaded. -/
theorem not_returns_recordUploaded (hfile : s.h5 = some file) (hopen : s.isOpen = true)
    (h : file.groups = [] ∨
      (uploadScan file).done = true ∧ file.truthOf "cwa_uploaded" = none) :
    ¬Returns recordUploaded s := by
  rw [recordUploaded, returns_bind_iff_of_ok (openFile_eq hfile hopen)]
  by_cases hgroups : file.groups = []
  · rw [hgroups]
    exact not_returns_bind_of_error rfl
  · obtain ⟨hdone, htruth⟩ := h.resolve_left hgroups
    have hcount : (uploadScan file).groupCount ≠ 0 := groupCount_scan _ _ hgroups
    rw [show scan Group.uploaded Group.uploadedBytes file.groups = uploadScan file from rfl,
      returns_bind_iff_of_ok (percent_eq hcount),
      returns_bind_iff_of_ok (setAttr_eq hfile hopen _ _),
      returns_bind_iff_of_ok (setAttr_eq (by rw [DataState.h5_write, hfile]; rfl) (by simpa) _ _),
      if_pos hdone]
    have hnone : ((file.setAttr "cwa_uploaded_bytes" (.int (uploadScan file).bytes)).setAttr
        "cwa_upload_progress" (.int (uploadScan file).percentage)).truthOf "cwa_uploaded" = none := by
      simpa [H5File.truthOf] using htruth
    obtain ⟨exception, hraise⟩ := truth_raises (s := (s.write fun other =>
      other.setAttr "cwa_uploaded_bytes" (.int (uploadScan file).bytes)).write fun other =>
        other.setAttr "cwa_upload_progress" (.int (uploadScan file).percentage))
      (by simp [hfile]) (by simpa) hnone
    exact not_returns_bind_of_error hraise

theorem allUploaded_entriesEffect (file : H5File) (entries : List AttributeEntry) :
    allUploaded (file.mapGroups (entriesEffect entries)) = file.uploadedAfter entries := by
  simp [allUploaded, H5File.mapGroups, H5File.uploadedAfter, List.all_map, Function.comp_def]

/-- The worker around the writes of attributes. -/
theorem returns_attributes_iff (hfile : s.h5 = some file) (husable : Usable keepFilesOpen s)
    (entries : List AttributeEntry) :
    Returns (handleItem keepFilesOpen (.attributes entries)) s ↔
      AttributesComplete keepFilesOpen file entries := by
  have hstart : Returns (handleItem keepFilesOpen (.attributes entries)) s ↔
      Returns (writeAttributesItemToFile entries >>= fun _ => finishItem keepFilesOpen)
        (s.opened keepFilesOpen) :=
    returns_bind_iff_of_ok (openItemFile_eq hfile)
  rw [hstart, writeAttributesItemToFile_eq_bind, bind_assoc]
  have hopened : (s.opened keepFilesOpen).h5 = some file := (sameFile_opened s).h5.trans hfile
  have hopen := husable.isOpen_opened
  by_cases hentries : ∀ entry ∈ entries, (file.findGroup entry.groupId).isSome = true
  · rw [returns_bind_iff_of_ok (forM_writeEntry_eq hopened hopen hentries)]
    have happlied := DataState.h5_applyEntries hopened entries
    have hdone : (uploadScan (file.mapGroups (entriesEffect entries))).done =
        file.uploadedAfter entries :=
      (uploadScan_done _).trans (allUploaded_entriesEffect file entries)
    by_cases hgroups : file.groups = []
    · refine iff_of_false (not_returns_bind (not_returns_recordUploaded happlied (by simpa)
        (.inl ?_))) fun h => h.nonempty hgroups
      simpa using hgroups
    by_cases huploaded : file.uploadedAfter entries = true →
        (file.truthOf "cwa_uploaded").isSome = true
    · obtain ⟨already, halready⟩ : ∃ already, file.uploadedAfter entries = true →
          file.truthOf "cwa_uploaded" = some already := by
        by_cases hall : file.uploadedAfter entries = true
        · obtain ⟨already, halready⟩ := Option.isSome_iff_exists.mp (huploaded hall)
          exact ⟨already, fun _ => halready⟩
        · exact ⟨false, fun h => absurd h hall⟩
      have hrecord := recordUploaded_eq happlied (by simpa) (by simpa using hgroups)
        (fun h => halready (hdone ▸ h))
      rw [returns_bind_iff_of_ok hrecord,
        returns_finishItem_iff (DataState.h5_record happlied _ _ _) (by simpa)]
      have hstored : ((file.mapGroups (entriesEffect entries)).record uploadTotals
          (uploadScan (file.mapGroups (entriesEffect entries))) already
          ((s.opened keepFilesOpen).applyEntries entries).clock).truthOf "cwa_stored" =
            file.truthOf "cwa_stored" :=
        truthOf_record_of_not_mem (by decide)
      -- the flag has a truth value afterwards if and only if it had one before
      have hflag : (((file.mapGroups (entriesEffect entries)).record uploadTotals
          (uploadScan (file.mapGroups (entriesEffect entries))) already
          ((s.opened keepFilesOpen).applyEntries entries).clock).truthOf "cwa_uploaded").isSome =
            (file.truthOf "cwa_uploaded").isSome := by
        rw [show "cwa_uploaded" = uploadTotals.flag from rfl,
          truthOf_record uploadTotals_distinct, hdone]
        by_cases hall : file.uploadedAfter entries = true
        · have hbefore : file.truthOf uploadTotals.flag = some already := halready hall
          rw [hbefore]
          split
          · rfl
          · exact congrArg Option.isSome hbefore
        · rw [if_neg (by simp [hall])]
          rfl
      rw [hstored, MayFinish, hflag]
      exact ⟨fun hfinish => ⟨hentries, hgroups, huploaded, hfinish⟩, fun h => h.finish⟩
    · refine iff_of_false (not_returns_bind (not_returns_recordUploaded happlied (by simpa)
        (.inr ?_))) fun h => huploaded h.uploaded
      rw [hdone]
      simpa [H5File.truthOf] using huploaded
  · refine iff_of_false (not_returns_bind (not_returns_writeEntries hopened hopen ?_))
      fun h => hentries h.groups
    simpa using hentries

/-- Attributes that can all be converted are created. -/
theorem returns_createAttrs_iff (hfile : s.h5 = some file) (hopen : s.isOpen = true)
    (entries : List (String × Except Exn AttrValue)) :
    Returns (createAttrs entries) s ↔ ∀ entry ∈ entries, entry.2.toBool = true := by
  constructor
  · rintro ⟨_, t, hrun⟩ entry hmem
    obtain ⟨value, hvalue⟩ := (createAttrs_ok hfile hopen hrun).2 entry hmem
    rw [hvalue]
    rfl
  · intro hentries
    induction entries generalizing s file with
    | nil => exact ⟨_, _, rfl⟩
    | cons entry rest ih =>
        obtain ⟨name, value⟩ := entry
        have hvalue := hentries _ List.mem_cons_self
        cases value with
        | error exception => cases hvalue
        | ok value =>
            rw [createAttrs, List.forM_cons, returns_bind_iff_of_ok
              (show createAttr name (.ok value) s = _ from setAttr_eq hfile hopen name value)]
            exact ih (by rw [DataState.h5_write, hfile]; rfl) (by simpa)
              fun entry hmem => hentries entry (List.mem_cons_of_mem _ hmem)

/-- A creation that comes to its end has been possible. -/
theorem creatable_of_returns {data : Creation} (hfile : s.h5 = some file) (hopen : s.isOpen = true)
    (h : Returns (data.fill keepFilesOpen) s) : data.Creatable := by
  obtain ⟨_, t, hfill⟩ := h
  obtain ⟨_, u, hattrs, hrest⟩ := ok_of_bind hfill
  obtain ⟨_, v, hgroups, -⟩ := ok_of_bind hrest
  obtain ⟨hcreated, hslices, hechos⟩ := createAttributes_ok hattrs
  exact ⟨(returns_createAttrs_iff hfile hopen _).mp (returns_of_ok hcreated), hslices, hechos,
    createGroups_ok hgroups⟩

/-- A data that can be created is created, and then the lock is needed. -/
theorem returns_fill_iff {data : Creation} (hfile : s.h5 = some file) (hopen : s.isOpen = true)
    (hcreatable : data.Creatable) : Returns (data.fill keepFilesOpen) s ↔ s.locked = false := by
  obtain ⟨_, t, hrun⟩ := (returns_createAttrs_iff hfile hopen _).mpr hcreatable.attributes
  have ht := (createAttrs_ok hfile hopen hrun).1
  have hgroups := forM_createGroup_eq data (List.range data.slices) (s := t)
    (by rw [ht]; exact h5_writes hfile _) (by rw [ht, isOpen_writes, hopen])
  have hlocked : (((List.range data.slices).map fun i file =>
      H5File.createGroup file (groupName i) data.group).foldl DataState.write t).locked =
        s.locked := by
    rw [locked_writes, ht, locked_writes]
  rw [Creation.fill, createAttributes_eq hcreatable.sliceLocations hcreatable.echoTimes,
    createGroups_eq hcreatable.datasets, returns_bind_iff_of_ok hrun, returns_bind_iff_of_ok hgroups]
  cases hfree : s.locked with
  | true =>
      exact iff_of_false (not_returns_bind_of_error (lockFile_spins (hlocked.trans hfree)))
        nofun
  | false =>
      refine iff_of_true ?_ rfl
      rw [returns_bind_iff_of_ok (lockFile_eq (hlocked.trans hfree))]
      cases keepFilesOpen <;> exact ⟨_, _, rfl⟩

theorem returns_creation_iff (data : Creation) :
    Returns (handleItem keepFilesOpen (.creation data)) s ↔
      data.Creatable ∧ s.locked = false := by
  have hsame : Returns (handleItem keepFilesOpen (.creation data)) s ↔
      Returns (data.fill keepFilesOpen) s.truncated := by
    unfold Returns
    rw [handleItem_creation]
  rw [hsame]
  constructor
  · intro h
    have hcreatable := creatable_of_returns rfl rfl h
    exact ⟨hcreatable, (returns_fill_iff (s := s.truncated) rfl rfl hcreatable).mp h⟩
  · rintro ⟨hcreatable, hfree⟩
    exact (returns_fill_iff (s := s.truncated) rfl rfl hcreatable).mpr hfree

/-- **The items that are handled to their end.**  The `try` comes to `task_done` if and only if
the item finds what it needs. -/
theorem returns_handleItem_iff (item : Item) :
    Returns (handleItem keepFilesOpen item) s ↔ Completes keepFilesOpen s item := by
  have hfile : Usable keepFilesOpen s ∧ s.h5.isSome = true ↔
      Usable keepFilesOpen s ∧ ∃ file, s.h5 = some file :=
    and_congr_right fun _ => Option.isSome_iff_exists
  cases item with
  | creation data => exact returns_creation_iff data
  | body groupIds body =>
      by_cases h : Usable keepFilesOpen s ∧ s.h5.isSome = true
      · obtain ⟨husable, file, hfile⟩ := hfile.mp h
        rw [returns_body_iff hfile husable]
        refine ⟨fun hbody => ⟨husable, file, hfile, hbody⟩, fun ⟨_, file', hfile', hbody⟩ => ?_⟩
        rw [hfile] at hfile'
        cases hfile'
        exact hbody
      · refine iff_of_false (not_returns_of_unusable (fun t ht => not_returns_bind
          (not_returns_writeBodyItemToFile ht groupIds body)) h) fun ⟨husable, file, hsome, _⟩ => ?_
        exact h (hfile.mpr ⟨husable, file, hsome⟩)
  | attributes entries =>
      by_cases h : Usable keepFilesOpen s ∧ s.h5.isSome = true
      · obtain ⟨husable, file, hfile⟩ := hfile.mp h
        rw [returns_attributes_iff hfile husable]
        refine ⟨fun hattrs => ⟨husable, file, hfile, hattrs⟩, fun ⟨_, file', hfile', hattrs⟩ => ?_⟩
        rw [hfile] at hfile'
        cases hfile'
        exact hattrs
      · refine iff_of_false (not_returns_of_unusable (fun t ht => not_returns_bind
          (not_returns_writeAttributesItemToFile ht entries)) h) fun ⟨husable, file, hsome, _⟩ => ?_
        exact h (hfile.mpr ⟨husable, file, hsome⟩)

end Items

end ComputeWebApp.Api
