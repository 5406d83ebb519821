import Mathlib.Data.List.Sort
import ComputeWebApp.Process.LogLine
import ComputeWebApp.Upload.Published

/-!
# Early processing

`process_test_2` has the option `early_process`: it may be started while its data is still being
uploaded.  It creates all groups of the result first, and before it computes a group it waits until
the group of the data is stored.  `process_test_1` computes the same for a data that is complete.

Each access to the file of the data raises, or sees a state that the write worker has published, and
no older one than the accesses before (`ReadsInOrder`).  `early_process_agrees` says that the early
program prints and computes what the plain program does with the last state, as far as no access
raises; only the values of the totals that it has copied may be older.  `early_process_completes`
says that it ends once it keeps seeing stored groups, and that the progress that the server reads
rises to 100.
-/

namespace ComputeWebApp.Api

open ByteStream Transition

/-! ## The programs -/

/-- A dataset of three dimensions, as it is given to numpy. -/
structure Cube where
  dtype : Dtype
  shape : Shape
  images : Images

def Group.magnitudeCube (group : Group) : Cube := ⟨group.dtype, group.shape, group.magnitude⟩

/-- What the programs use of numpy and h5py.  A call may raise, with a message. -/
structure Libraries (Plane : Type) where
  /-- `for attr in data_file.attrs` -/
  attributeNames : H5File → List String
  /-- `(np.mean(magnitude, axis=2)*mean_factor).astype(magnitude.dtype)` -/
  mean : Cube → Except String Plane
  /-- `np.std(magnitude, axis=2).astype(magnitude.dtype)` -/
  std : Cube → Except String Plane
  /-- `np.min(magnitude, axis=2)` -/
  min : Cube → Except String Plane
  /-- `np.max(magnitude, axis=2)` -/
  max : Cube → Except String Plane
  /-- A dataset of that type and shape that nothing has been written to. -/
  zeros : Dtype → ℕ → ℕ → Plane
  /-- The message for a group that a file does not have. -/
  missing : String → String
  /-- The message for an attribute that a file does not have. -/
  missingAttribute : String → String
  /-- `int(process_slices/slices*100)` -/
  percent : ℕ → ℕ → ℕ

/-- A group of a result. -/
structure ResultGroup (Plane : Type) where
  mean : Plane
  std : Plane
  min : Plane
  max : Plane

def progressLine (progress : ℕ) : String := "[PROGRESS " ++ toString progress ++ "%]\n"

def errorLine (message : String) : String := "[ERROR " ++ message ++ "]\n"

/-- The variables of a program, with the attributes and groups of its result file and the lines it
has printed. -/
structure Computing (Plane : Type) where
  attrs : String → Option AttrValue := fun _ => none
  groups : List (String × ResultGroup Plane) := []
  processSlices : ℕ := 0
  lines : List String := []

/-- What a program leaves. -/
structure Computed (Plane : Type) where
  attrs : String → Option AttrValue
  groups : List (String × ResultGroup Plane)
  lines : List String
  exitStatus : ℤ

/-- The names of the groups, in the order of `for name in data_file`. -/
def H5File.sortedNames (file : H5File) : List String :=
  (file.groups.map Prod.fst).insertionSort fun first second => first ≤ second

section Programs

variable {Plane : Type}

namespace Computing

/-- `sys.exit(0)` -/
def finished (vars : Computing Plane) : Computed Plane := ⟨vars.attrs, vars.groups, vars.lines, 0⟩

/-- The `except` branch of a program. -/
def failed (vars : Computing Plane) (message : String) : Computed Plane :=
  ⟨vars.attrs, vars.groups, vars.lines ++ [errorLine message], -1⟩

/-- A call in the `try` of a program. -/
def attempt (vars : Computing Plane) {α : Type} : Except String α → Except (Computed Plane) α
  | .ok a => .ok a
  | .error message => .error (vars.failed message)

/-- One more slice is processed, and the progress is printed. -/
def processed (vars : Computing Plane) (libraries : Libraries Plane) (slices : ℕ) :
    Computing Plane :=
  { vars with
    processSlices := vars.processSlices + 1
    lines := vars.lines ++ [progressLine (libraries.percent (vars.processSlices + 1) slices)] }

end Computing

/-- Write the values to the group of the result, which exists. -/
def assignValues (groups : List (String × ResultGroup Plane)) (name : String)
    (values : ResultGroup Plane) : List (String × ResultGroup Plane) :=
  groups.map fun entry => if entry.1 = name then (name, values) else entry

namespace Libraries

variable (libraries : Libraries Plane)

/-- `data_file[name]` -/
def group (file : H5File) (name : String) : Except String Group :=
  match file.findGroup name with
  | none => .error (libraries.missing name)
  | some group => .ok group

/-- `data_file.attrs[attr]` -/
def attributeValue (file : H5File) (name : String) : Except String AttrValue :=
  match file.attrs name with
  | none => .error (libraries.missingAttribute name)
  | some value => .ok value

/-- The loop over the attributes of both programs. -/
def copyAttributes (see : ℕ → Except String H5File) :
    List String → ℕ → Computing Plane → Except (Computed Plane) (Computing Plane)
  | [], _, vars => .ok vars
  | name :: names, access, vars => do
      let value ← vars.attempt (see access >>= fun file => libraries.attributeValue file name)
      copyAttributes see names (access + 1)
        { vars with attrs := Function.update vars.attrs name (some value) }

/-! ### `process_test_1` -/

/-- The four values of a group. -/
def values (file : H5File) (name : String) : Except String (ResultGroup Plane) := do
  let group ← libraries.group file name
  let magnitude := group.magnitudeCube
  let mean ← libraries.mean magnitude
  let std ← libraries.std magnitude
  let min ← libraries.min magnitude
  let max ← libraries.max magnitude
  return ⟨mean, std, min, max⟩

/-- The loop over the groups. -/
def processGroups (file : H5File) (slices : ℕ) : List String → Computing Plane → Computed Plane
  | [], vars => vars.finished
  | name :: names, vars =>
      match libraries.values file name with
      | .error message => vars.failed message
      | .ok values =>
          let vars := { vars with groups := vars.groups ++ [(name, values)] }
          processGroups file slices names (vars.processed libraries slices)

/-- `process_test_1`, of which every access sees the same state of the file. -/
def processTest1 (file : H5File) : Computed Plane :=
  match libraries.copyAttributes (fun _ => .ok file) (libraries.attributeNames file) 0 {} with
  | .error computed => computed
  | .ok vars => libraries.processGroups file file.groups.length file.sortedNames vars

/-! ### `process_test_2` -/

/-- The first loop over the groups: all of them, before anything is computed. -/
def createGroups (see : ℕ → Except String H5File) :
    List String → ℕ → Computing Plane → Except (Computed Plane) (Computing Plane)
  | [], _, vars => .ok vars
  | name :: names, access, vars => do
      let group ← vars.attempt (see access >>= fun file => libraries.group file name)
      let plane := libraries.zeros group.dtype group.shape.height group.shape.width
      createGroups see names (access + 1)
        { vars with groups := vars.groups ++ [(name, ⟨plane, plane, plane, plane⟩)] }

/-- The variables before the second loop: `names` are those that it visits, and `access` is its first
access. -/
structure Prepared (Plane : Type) where
  vars : Computing Plane
  slices : ℕ
  names : List String
  access : ℕ

/-- What comes before the second loop. -/
def prepare (see : ℕ → Except String H5File) : Except (Computed Plane) (Prepared Plane) := do
  let start : Computing Plane := {}
  let attributes ← start.attempt ((see 0).map libraries.attributeNames)
  let copied ← libraries.copyAttributes see attributes 1 start
  let access := 1 + attributes.length
  let slices ← copied.attempt ((see access).map fun file => file.groups.length)
  let created ← copied.attempt ((see (access + 1)).map H5File.sortedNames)
  let vars ← libraries.createGroups see created (access + 2) copied
  let names ← vars.attempt ((see (access + 2 + created.length)).map H5File.sortedNames)
  return ⟨vars, slices, names, access + 3 + created.length⟩

/-- `while not group.attrs['cwa_stored']`, which opens the file again in each turn; none when the
group is not stored after so many turns. -/
def awaitStored (see : ℕ → Except String H5File) (name : String) :
    ℕ → ℕ → Option (Except String ℕ)
  | 0, _ => none
  | turns + 1, access =>
      match see access >>= fun file => libraries.group file name with
      | .error message => some (.error message)
      | .ok group =>
          if group.stored then some (.ok (access + 1))
          else awaitStored see name turns (access + 1)

/-- A dataset of a group that an access sees. -/
def magnitudeSeen (see : ℕ → Except String H5File) (name : String) (access : ℕ) :
    Except String Cube := do
  return (← libraries.group (← see access) name).magnitudeCube

/-- The four values of a group, each of an access of its own. -/
def valuesSeen (see : ℕ → Except String H5File) (name : String) (access : ℕ) :
    Except String (ResultGroup Plane) := do
  let mean ← libraries.mean (← libraries.magnitudeSeen see name access)
  let std ← libraries.std (← libraries.magnitudeSeen see name (access + 1))
  let min ← libraries.min (← libraries.magnitudeSeen see name (access + 2))
  let max ← libraries.max (← libraries.magnitudeSeen see name (access + 3))
  return ⟨mean, std, min, max⟩

/-- The second loop. -/
def processSeen (see : ℕ → Except String H5File) (turns slices : ℕ) :
    List String → ℕ → Computing Plane → Option (Computed Plane)
  | [], _, vars => some vars.finished
  | name :: names, access, vars =>
      match libraries.awaitStored see name turns access with
      | none => none
      | some (.error message) => some (vars.failed message)
      | some (.ok next) =>
          match libraries.valuesSeen see name next with
          | .error message => some (vars.failed message)
          | .ok values =>
              let vars := { vars with groups := assignValues vars.groups name values }
              processSeen see turns slices names (next + 4) (vars.processed libraries slices)

/-- `process_test_2`, when it never waits for a group longer than so many turns. -/
def processTest2 (see : ℕ → Except String H5File) (turns : ℕ) : Option (Computed Plane) :=
  match libraries.prepare see with
  | .error computed => some computed
  | .ok prepared =>
      libraries.processSeen see turns prepared.slices prepared.names prepared.access prepared.vars

end Libraries

end Programs

/-! ## What the server reads -/

section Lines

/-- A line of the progress, as a list of symbols. -/
theorem toList_progressLine (progress : ℕ) :
    (progressLine progress).toList =
      progressName ++ (' ' :: (Nat.toDigits 10 progress ++ ['%']) ++ ']' :: ['\n']) := by
  rw [progressLine, String.toList_append, String.toList_append,
    show (toString progress : String) = Nat.repr progress from rfl, Nat.toList_repr]
  simp [progressName]

theorem isDigit_toDigits (progress : ℕ) : ∀ c ∈ Nat.toDigits 10 progress, c.isDigit = true :=
  fun _ hc => Nat.isDigit_of_mem_toDigits (by decide) (by decide) hc

theorem progressDigits_progressLine (progress : ℕ) :
    progressDigits (progressLine progress) = some (Nat.toDigits 10 progress) :=
  progressDigits_line (toList_progressLine progress) (isDigit_toDigits progress) Nat.toDigits_ne_nil

theorem progressFound_progressLine (progress : ℕ) :
    progressFound (progressLine progress) = some progress := by
  rw [progressFound, progressDigits_progressLine, Option.map_some, digitsValue,
    Nat.ofDigitChars_ten_toDigits]

theorem errorsFound_progressLine (progress : ℕ) : errorsFound (progressLine progress) = [] :=
  errorsFound_line (toList_progressLine progress) (isDigit_toDigits progress)

/-- A progress up to 100 has three digits. -/
theorem length_toDigits_le : ∀ progress ≤ 100, (Nat.toDigits 10 progress).length ≤ 3 := by
  decide +kernel

variable {limits : Python.Limits}

theorem parseLogLine_progressLine (hlimits : Python.Within limits.strDigits 3) {progress : ℕ}
    (hle : progress ≤ 100) (status : Status) :
    parseLogLine limits status (progressLine progress) =
      .ok { status with progress := progress } := by
  have hreads : ReadsProgress limits (progressLine progress) := by
    intro digits hdigits
    rw [progressDigits_progressLine] at hdigits
    obtain rfl := Option.some.inj hdigits
    exact hlimits.mono (length_toDigits_le progress hle)
  rw [parseLogLine, if_pos hreads, parsedLine, progressFound_progressLine, errorsFound_progressLine,
    parseLog, List.append_nil, Option.getD_some]

/-- The server reads the last progress that has been printed. -/
theorem foldlM_progressLines (hlimits : Python.Within limits.strDigits 3) {numbers : List ℕ}
    (hle : ∀ progress ∈ numbers, progress ≤ 100) (status : Status) :
    (numbers.map progressLine).foldlM (parseLogLine limits) status =
      .ok { status with progress := numbers.getLast?.getD status.progress } := by
  induction numbers generalizing status with
  | nil => rfl
  | cons progress rest ih =>
      rw [List.map_cons, List.foldlM_cons,
        parseLogLine_progressLine hlimits (hle progress List.mem_cons_self)]
      refine (ih (fun other hmem => hle other (List.mem_cons_of_mem _ hmem)) _).trans ?_
      rw [List.getLast?_cons, Option.getD_some]

end Lines

/-! ## What the early program sees -/

/-- The accesses of a program that has opened the file after its creation: each one raises, or sees a
state of the file, and no older one than the accesses before. -/
def ReadsInOrder (history : List H5File) (see : ℕ → Except String H5File) : Prop :=
  ∃ position : ℕ → ℕ, Monotone position ∧
    ∀ access file, see access = .ok file → history[position access]? = some file

/-- h5py visits the attributes that the file has. -/
def Libraries.Visits {Plane : Type} (libraries : Libraries Plane) (file : H5File) : Prop :=
  ∀ name, name ∈ libraries.attributeNames file ↔ (file.attrs name).isSome = true

/-- The accesses see files that are filled, and each one succeeds those before until the file is
`last`. -/
structure Follows (data : Creation) (items : List PostedItem) (last : H5File)
    (see : ℕ → Except String H5File) : Prop where
  filled : ∀ {access file}, see access = .ok file → Filled data items file
  lastFilled : Filled data items last
  succeeds : ∀ {first second file file'}, first ≤ second → see first = .ok file →
    see second = .ok file' → Succeeds file file'
  succeedsLast : ∀ {access file}, see access = .ok file → Succeeds file last

/-- The same result, unless an access has raised. -/
def SameOrRaised {α : Type} (see : ℕ → Except String H5File) (early plain : Except String α) : Prop :=
  early = plain ∨ ∃ access message, see access = .error message ∧ early = .error message

theorem SameOrRaised.bind {α β : Type} {see : ℕ → Except String H5File} {early plain : Except String α}
    {f g : α → Except String β} (h : SameOrRaised see early plain)
    (hfg : ∀ a, SameOrRaised see (f a) (g a)) :
    SameOrRaised see (early >>= f) (plain >>= g) := by
  rcases h with rfl | ⟨access, message, hraises, rfl⟩
  · cases early with
    | error message => exact .inl rfl
    | ok a => exact hfg a
  · exact .inr ⟨access, message, hraises, rfl⟩

section Reading

variable {Plane : Type} (libraries : Libraries Plane) {data : Creation} {items : List PostedItem}
  {last : H5File} {see : ℕ → Except String H5File} {name : String}

theorem succeeds_of_le {history : List H5File} (hordered : history.Pairwise Succeeds)
    {i j : ℕ} (hle : i ≤ j) {first second : H5File} (hfirst : history[i]? = some first)
    (hsecond : history[j]? = some second) : Succeeds first second := by
  obtain ⟨hi, rfl⟩ := List.getElem?_eq_some_iff.mp hfirst
  obtain ⟨hj, rfl⟩ := List.getElem?_eq_some_iff.mp hsecond
  rcases Nat.lt_or_eq_of_le hle with hlt | rfl
  · exact List.pairwise_iff_getElem.mp hordered i j hi hj hlt
  · exact succeeds_refl _

theorem Created.follows {keepFilesOpen : Bool} (created : Created keepFilesOpen) {s : DataState}
    (htells : TellsFilled created.data items created.state.published.tail s)
    (hlast : s.h5 = some last) (hreads : ReadsInOrder (created.history s) see) :
    Follows created.data items last see := by
  obtain ⟨hfilled, hordered, hgetLast⟩ := created.history_of_tells htells
  rw [hlast] at hgetLast
  obtain ⟨position, hmono, hsee⟩ := hreads
  have hend : (created.history s)[(created.history s).length - 1]? = some last := by
    rw [← List.getLast?_eq_getElem?, hgetLast]
  refine ⟨fun hfile => hfilled _ (List.mem_of_getElem? (hsee _ _ hfile)),
    hfilled _ (List.mem_of_getLast? hgetLast), fun hle hfirst hsecond => ?_, fun hfile => ?_⟩
  · exact succeeds_of_le hordered (hmono hle) (hsee _ _ hfirst) (hsee _ _ hsecond)
  · obtain ⟨hlt, -⟩ := List.getElem?_eq_some_iff.mp (hsee _ _ hfile)
    exact succeeds_of_le hordered (by omega) (hsee _ _ hfile) hend

/-- The plain program sees the last state only. -/
theorem Follows.plain (h : Follows data items last see) :
    Follows data items last fun _ => .ok last := by
  refine ⟨?_, h.lastFilled, ?_, ?_⟩
  · rintro _ _ ⟨⟩
    exact h.lastFilled
  · rintro _ _ _ _ - ⟨⟩ ⟨⟩
    exact succeeds_refl last
  · rintro _ _ ⟨⟩
    exact succeeds_refl last

theorem Libraries.group_eq {file : H5File} {group : Group}
    (hgroup : file.findGroup name = some group) :
    libraries.group file name = .ok group := by
  rw [Libraries.group, hgroup]

/-- The groups of a data, in the order in which the programs read them. -/
def Creation.sortedNames (data : Creation) : List String :=
  ((List.range data.slices).map groupName).insertionSort fun first second => first ≤ second

theorem Fits.sortedNames_eq {file : H5File} (h : Fits data file) :
    file.sortedNames = data.sortedNames := by
  rw [H5File.sortedNames, h.names]
  rfl

theorem nodup_sortedNames (data : Creation) : data.sortedNames.Nodup := by
  refine (List.perm_insertionSort _ _).nodup_iff.mpr ?_
  exact (List.nodup_range).map fun _ _ => groupName_injective

theorem Fits.findGroup_of_mem {file : H5File} (h : Fits data file)
    (hname : name ∈ data.sortedNames) :
    ∃ group, file.findGroup name = some group ∧ group.dtype = data.dtype ∧
      group.shape = data.shape := by
  obtain ⟨i, hi, rfl⟩ := List.mem_map.mp ((List.perm_insertionSort _ _).mem_iff.mp hname)
  exact h.findGroup_of_lt (List.mem_range.mp hi)

/-- Once a group has been seen stored, each access sees the images that it has in the end. -/
theorem Follows.magnitudeSeen_agrees (h : Follows data items last see) (hsame : SamePart items)
    {seen : ℕ} {file : H5File} (hfile : see seen = .ok file) {group : Group}
    (hgroup : file.findGroup name = some group) (hstored : group.stored = true) :
    ∃ final, libraries.group last name = .ok final ∧ ∀ access, seen ≤ access →
      SameOrRaised see (libraries.magnitudeSeen see name access) (.ok final.magnitudeCube) := by
  obtain ⟨final, hfinal, -, -, -⟩ := StaysStored.images hsame (h.filled hfile) h.lastFilled
    (h.succeedsLast hfile).stays hgroup hstored
  refine ⟨final, libraries.group_eq hfinal, fun access hle => ?_⟩
  cases haccess : see access with
  | error message =>
      exact .inr ⟨access, message, haccess, by rw [Libraries.magnitudeSeen, haccess]; rfl⟩
  | ok later =>
      obtain ⟨now, hnow, hstill, -, -⟩ := StaysStored.images hsame (h.filled hfile)
        (h.filled haccess) (h.succeeds hle hfile haccess).stays hgroup hstored
      obtain ⟨final', hfinal', -, hmagnitude, -⟩ := StaysStored.images hsame (h.filled haccess)
        h.lastFilled (h.succeedsLast haccess).stays hnow hstill
      obtain rfl := Option.some.inj (hfinal.symm.trans hfinal')
      have hmem := H5File.mem_of_findGroup hnow
      have hmem' := H5File.mem_of_findGroup hfinal
      refine .inl ?_
      rw [Libraries.magnitudeSeen, haccess]
      show (libraries.group later name >>= fun group => .ok group.magnitudeCube) = _
      rw [libraries.group_eq hnow, Group.magnitudeCube, hmagnitude,
        (h.lastFilled).fits.dtype _ hmem', (h.lastFilled).fits.shape _ hmem']
      show Except.ok now.magnitudeCube = _
      rw [Group.magnitudeCube, (h.filled haccess).fits.dtype _ hmem,
        (h.filled haccess).fits.shape _ hmem]

/-- The values of a group that has been seen stored are those of the last state. -/
theorem Follows.valuesSeen_agrees (h : Follows data items last see) (hsame : SamePart items)
    {seen next : ℕ} (hle : seen ≤ next) {file : H5File} (hfile : see seen = .ok file)
    {group : Group} (hgroup : file.findGroup name = some group) (hstored : group.stored = true) :
    SameOrRaised see (libraries.valuesSeen see name next) (libraries.values last name) := by
  obtain ⟨final, hfinal, hseen⟩ :=
    h.magnitudeSeen_agrees libraries hsame hfile hgroup hstored
  -- the datasets are read one after the other
  have hplain : libraries.values last name =
      (.ok final.magnitudeCube >>= fun cube => libraries.mean cube >>= fun mean =>
        .ok final.magnitudeCube >>= fun cube => libraries.std cube >>= fun std =>
        .ok final.magnitudeCube >>= fun cube => libraries.min cube >>= fun min =>
        .ok final.magnitudeCube >>= fun cube => libraries.max cube >>= fun max =>
        .ok ⟨mean, std, min, max⟩) := by
    rw [Libraries.values, hfinal]
    rfl
  have hsame : ∀ {α : Type} (result : Except String α), SameOrRaised see result result :=
    fun _ => .inl rfl
  rw [hplain]
  exact (hseen next hle).bind fun _ => (hsame _).bind fun _ =>
    (hseen _ (by omega)).bind fun _ => (hsame _).bind fun _ =>
    (hseen _ (by omega)).bind fun _ => (hsame _).bind fun _ =>
    (hseen _ (by omega)).bind fun _ => (hsame _).bind fun _ => hsame _

/-! ## What comes before the second loop -/

/-- An access has raised when a part of the lines had been printed. -/
def Denied (see : ℕ → Except String H5File) (lines : List String) (computed : Computed Plane) :
    Prop :=
  ∃ (access : ℕ) (message : String) (vars : Computing Plane), see access = .error message ∧
    computed = vars.failed message ∧ vars.lines <+: lines

/-- What the program gets before it prints anything, unless an access raises. -/
def Gets {α : Type} (see : ℕ → Except String H5File) (P : α → Prop) :
    Except (Computed Plane) α → Prop
  | .ok a => P a
  | .error computed => Denied see [] computed

theorem Gets.bind {α β : Type} {P : α → Prop} {Q : β → Prop} {x : Except (Computed Plane) α}
    {f : α → Except (Computed Plane) β} (hx : Gets see P x) (hf : ∀ a, P a → Gets see Q (f a)) :
    Gets see Q (x >>= f) := by
  cases x with
  | error computed => exact hx
  | ok a => exact hf a hx

/-- A call that is given what an access sees. -/
theorem gets_attempt {α : Type} {vars : Computing Plane} (hlines : vars.lines = []) {access : ℕ}
    {f : H5File → Except String α} {P : α → Prop}
    (hf : ∀ file, see access = .ok file → ∃ a, f file = .ok a ∧ P a) :
    Gets see P (vars.attempt (see access >>= f)) := by
  cases haccess : see access with
  | error message => exact ⟨access, message, vars, haccess, rfl, hlines ▸ List.nil_prefix⟩
  | ok file =>
      obtain ⟨a, ha, hP⟩ := hf file haccess
      show Gets see P (vars.attempt (f file))
      rw [ha]
      exact hP

/-- The attributes of these names have values that accesses have seen. -/
def CopiedFrom (see : ℕ → Except String H5File) (names : List String)
    (attrs : String → Option AttrValue) : Prop :=
  ∀ name, if name ∈ names then ∃ access file, see access = .ok file ∧ attrs name = file.attrs name ∧
    (file.attrs name).isSome = true else attrs name = none

theorem Follows.copyAttributes_gets (h : Follows data items last see) {first : ℕ} {file : H5File}
    (hfile : see first = .ok file) {names : List String}
    (hnames : ∀ name ∈ names, (file.attrs name).isSome = true) {access : ℕ} (hle : first ≤ access)
    (copied : List String) (vars : Computing Plane) (hvars : CopiedFrom see copied vars.attrs)
    (hlines : vars.lines = []) :
    Gets see (fun after => CopiedFrom see (copied ++ names) after.attrs ∧
      after.groups = vars.groups ∧ after.processSlices = vars.processSlices ∧ after.lines = [])
      (libraries.copyAttributes see names access vars) := by
  induction names generalizing access vars copied with
  | nil => exact ⟨by rwa [List.append_nil], rfl, rfl, hlines⟩
  | cons name names ih =>
      rw [Libraries.copyAttributes]
      refine (gets_attempt (P := fun value => ∃ access file, see access = .ok file ∧
        file.attrs name = some value) hlines fun now hnow => ?_).bind ?_
      · -- the attribute is still there
        have hstill : (now.attrs name).isSome = true := by
          rw [(h.succeeds hle hfile hnow).attributes.names]
          exact hnames name List.mem_cons_self
        obtain ⟨value, hvalue⟩ := Option.isSome_iff_exists.mp hstill
        exact ⟨value, by rw [Libraries.attributeValue, hvalue], access, now, hnow, hvalue⟩
      · rintro value ⟨seen, now, hnow, hvalue⟩
        have hafter : CopiedFrom see (copied ++ [name])
            (Function.update vars.attrs name (some value)) := by
          intro other
          by_cases hother : other = name
          · subst hother
            rw [if_pos (by simp), Function.update_self]
            exact ⟨seen, now, hnow, hvalue.symm, by rw [hvalue]; rfl⟩
          · have hmem : other ∈ copied ++ [name] ↔ other ∈ copied := by simp [hother]
            rw [Function.update_of_ne hother]
            simpa only [hmem] using hvars other
        have hrest := ih (fun other hmem => hnames other (List.mem_cons_of_mem _ hmem))
          (hle.trans (Nat.le_succ access)) (copied ++ [name])
          { vars with attrs := Function.update vars.attrs name (some value) } hafter hlines
        rwa [List.append_assoc] at hrest

/-- What both programs copy is the same, but for the values of the totals. -/
theorem Follows.copiedFrom_same (h : Follows data items last see) {first : ℕ} {file : H5File}
    (hfile : see first = .ok file) (hvisits : libraries.Visits file)
    (hvisitsLast : libraries.Visits last) {early plain : String → Option AttrValue}
    (hearly : CopiedFrom see (libraries.attributeNames file) early)
    (hplain : CopiedFrom (fun _ => .ok last) (libraries.attributeNames last) plain) :
    SameAttributes early plain := by
  have heach : ∀ name, (plain name).isSome = (early name).isSome ∧
      (name ∉ totalsNames → plain name = early name) := by
    intro name
    have hnames := (h.succeedsLast hfile).attributes.names name
    have hearly := hearly name
    have hplain := hplain name
    by_cases hname : name ∈ libraries.attributeNames file
    · have hlast : name ∈ libraries.attributeNames last := by
        rw [hvisitsLast, hnames]
        exact (hvisits name).mp hname
      rw [if_pos hname] at hearly
      rw [if_pos hlast] at hplain
      obtain ⟨access, now, hnow, hvalue, hsome⟩ := hearly
      obtain ⟨_, _, ⟨⟩, hvalue', hsome'⟩ := hplain
      refine ⟨by rw [hvalue, hvalue', hsome, hsome'], fun hother => ?_⟩
      rw [hvalue, hvalue', (h.succeedsLast hnow).attributes.others name hother]
    · have hlast : name ∉ libraries.attributeNames last := by
        rw [hvisitsLast, hnames]
        exact fun hmem => hname ((hvisits name).mpr hmem)
      rw [if_neg hname] at hearly
      rw [if_neg hlast] at hplain
      rw [hearly, hplain]
      exact ⟨rfl, fun _ => rfl⟩
  exact ⟨fun name => (heach name).1, fun name => (heach name).2⟩

/-- A group of the result that nothing has been written to. -/
def Libraries.blank (data : Creation) : ResultGroup Plane :=
  let plane := libraries.zeros data.dtype data.shape.height data.shape.width
  ⟨plane, plane, plane, plane⟩

theorem Follows.createGroups_gets (h : Follows data items last see) {names : List String}
    (hnames : ∀ name ∈ names, name ∈ data.sortedNames) (access : ℕ) (vars : Computing Plane)
    (hlines : vars.lines = []) :
    Gets see (fun after => after.attrs = vars.attrs ∧
        after.groups = vars.groups ++ (names.map fun name => (name, libraries.blank data)) ∧
        after.processSlices = vars.processSlices ∧ after.lines = [])
      (libraries.createGroups see names access vars) := by
  induction names generalizing access vars with
  | nil => exact ⟨rfl, (List.append_nil _).symm, rfl, hlines⟩
  | cons name names ih =>
      rw [Libraries.createGroups]
      refine (gets_attempt (P := fun group => group.dtype = data.dtype ∧ group.shape = data.shape)
        hlines fun file hfile => ?_).bind ?_
      · obtain ⟨group, hgroup, hsame⟩ :=
          (h.filled hfile).fits.findGroup_of_mem (hnames name List.mem_cons_self)
        exact ⟨group, libraries.group_eq hgroup, hsame⟩
      · rintro group ⟨hdtype, hshape⟩
        have hrest := ih (fun other hmem => hnames other (List.mem_cons_of_mem _ hmem)) (access + 1)
          { vars with groups := vars.groups ++ [(name, libraries.blank data)] } hlines
        simp only [hdtype, hshape]
        simpa [Libraries.blank] using hrest

/-- The second loop begins with groups that nothing has been written to. -/
theorem Follows.prepare_gets (h : Follows data items last see)
    (hvisits : ∀ access file, see access = .ok file → libraries.Visits file) :
    Gets see (fun prepared : Libraries.Prepared Plane =>
      (∃ file, see 0 = .ok file ∧
        CopiedFrom see (libraries.attributeNames file) prepared.vars.attrs) ∧
      prepared.vars.groups = (data.sortedNames.map fun name => (name, libraries.blank data)) ∧
      prepared.vars.processSlices = 0 ∧ prepared.vars.lines = [] ∧
      prepared.slices = data.slices ∧ prepared.names = data.sortedNames)
      (libraries.prepare see) := by
  have hnames : ∀ access file, see access = .ok file → file.sortedNames = data.sortedNames :=
    fun _ _ hfile => (h.filled hfile).fits.sortedNames_eq
  have hmap : ∀ {α : Type} (access : ℕ) (f : H5File → α),
      (see access).map f = see access >>= fun file => .ok (f file) := by
    intro α access f
    cases see access <;> rfl
  simp only [Libraries.prepare, hmap]
  refine (gets_attempt (P := fun names => ∃ file, see 0 = .ok file ∧
    names = libraries.attributeNames file) rfl fun file hfile => ⟨_, rfl, file, hfile, rfl⟩).bind ?_
  rintro _ ⟨file, hfile, rfl⟩
  refine (h.copyAttributes_gets libraries hfile
    (fun name hname => (hvisits 0 file hfile name).mp hname) (Nat.zero_le 1) [] {}
    (fun name => by simp) rfl).bind ?_
  rintro copied ⟨hcopied, hgroups, hcount, hlines⟩
  refine (gets_attempt (P := fun slices => slices = data.slices) hlines fun now hnow =>
    ⟨_, rfl, (h.filled hnow).fits.length_groups⟩).bind ?_
  rintro _ rfl
  refine (gets_attempt (P := fun names => names = data.sortedNames) hlines fun now hnow =>
    ⟨_, rfl, hnames _ now hnow⟩).bind ?_
  rintro _ rfl
  refine (h.createGroups_gets libraries (fun _ hname => hname) _ copied hlines).bind ?_
  rintro vars ⟨hattrs, hcreated, hcount', hlines'⟩
  refine (gets_attempt (P := fun names => names = data.sortedNames) hlines' fun now hnow =>
    ⟨_, rfl, hnames _ now hnow⟩).bind ?_
  rintro _ rfl
  refine ⟨⟨file, hfile, hattrs ▸ hcopied⟩, ?_, hcount'.trans hcount, hlines', rfl, rfl⟩
  rw [hcreated, hgroups]
  rfl

/-! ## The second loop -/

/-- The waiting ends after an access that has seen the group stored, or when an access raises. -/
theorem Follows.awaitStored_cases (h : Follows data items last see)
    (hname : name ∈ data.sortedNames) {turns access : ℕ} {result : Except String ℕ}
    (hawait : libraries.awaitStored see name turns access = some result) :
    (∃ seen file group, result = .ok (seen + 1) ∧ see seen = .ok file ∧
      file.findGroup name = some group ∧ group.stored = true) ∨
    ∃ seen message, see seen = .error message ∧ result = .error message := by
  induction turns generalizing access with
  | zero => cases hawait
  | succ turns ih =>
      rw [Libraries.awaitStored] at hawait
      cases haccess : see access with
      | error message =>
          rw [haccess] at hawait
          exact .inr ⟨access, message, haccess, (Option.some.inj hawait).symm⟩
      | ok file =>
          obtain ⟨group, hgroup, -, -⟩ := (h.filled haccess).fits.findGroup_of_mem hname
          rw [haccess, show (Except.ok file >>= fun file => libraries.group file name) = .ok group from
            libraries.group_eq hgroup] at hawait
          dsimp only at hawait
          by_cases hstored : group.stored = true
          · rw [if_pos hstored] at hawait
            exact .inl ⟨access, file, group, (Option.some.inj hawait).symm, haccess, hgroup, hstored⟩
          · rw [if_neg hstored] at hawait
            exact ih hawait

theorem assignValues_append {done rest : List (String × ResultGroup Plane)} {name : String}
    {blank values : ResultGroup Plane} (hdone : name ∉ done.map Prod.fst)
    (hrest : name ∉ rest.map Prod.fst) :
    assignValues (done ++ (name, blank) :: rest) name values = done ++ (name, values) :: rest := by
  have hother : ∀ groups : List (String × ResultGroup Plane), name ∉ groups.map Prod.fst →
      assignValues groups name values = groups := by
    intro groups hnot
    refine (List.map_congr_left fun entry hentry => ?_).trans (List.map_id groups)
    refine if_neg ?_
    rintro rfl
    exact hnot (List.mem_map_of_mem hentry)
  have happend : assignValues (done ++ (name, blank) :: rest) name values =
      assignValues done name values ++ (name, values) :: assignValues rest name values := by
    simp [assignValues]
  rw [happend, hother done hdone, hother rest hrest]

/-- What the two programs have printed and computed agrees, but for the groups of the rest, which
only the early program has created, and for the values of the totals. -/
structure Alongside (data : Creation) (names : List String) (early plain : Computing Plane) :
    Prop where
  attributes : SameAttributes early.attrs plain.attrs
  groups : early.groups = plain.groups ++ names.map fun name => (name, libraries.blank data)
  processSlices : early.processSlices = plain.processSlices
  lines : early.lines = plain.lines

/-- The results of the two programs: the groups are the same when nothing has been raised. -/
structure SameOutcome (early plain : Computed Plane) : Prop where
  lines : early.lines = plain.lines
  exitStatus : early.exitStatus = plain.exitStatus
  attributes : SameAttributes early.attrs plain.attrs
  groups : early.exitStatus = 0 → early.groups = plain.groups

/-- What has been printed stays. -/
theorem Libraries.prefix_lines_processGroups (file : H5File) (slices : ℕ) (names : List String)
    (vars : Computing Plane) :
    vars.lines <+: (libraries.processGroups file slices names vars).lines := by
  induction names generalizing vars with
  | nil => exact List.prefix_refl _
  | cons name names ih =>
      rw [processGroups]
      cases libraries.values file name with
      | error message => exact List.prefix_append _ _
      | ok values =>
          have hrest := ih (({ vars with
            groups := vars.groups ++ [(name, values)] } : Computing Plane).processed libraries slices)
          exact (List.prefix_append vars.lines _).trans hrest

theorem Follows.processSeen_agrees (h : Follows data items last see) (hsame : SamePart items)
    {turns slices : ℕ} {names : List String} (hnames : ∀ name ∈ names, name ∈ data.sortedNames)
    {access : ℕ} {early plain : Computing Plane}
    (hnodup : (plain.groups.map Prod.fst ++ names).Nodup)
    (halong : Alongside libraries data names early plain) {computed : Computed Plane}
    (hrun : libraries.processSeen see turns slices names access early = some computed) :
    SameOutcome computed (libraries.processGroups last slices names plain) ∨
      Denied see (libraries.processGroups last slices names plain).lines computed := by
  induction names generalizing access early plain with
  | nil =>
      obtain rfl := Option.some.inj hrun
      refine .inl ⟨halong.lines, rfl, halong.attributes, fun _ => ?_⟩
      simpa [Computing.finished, Libraries.processGroups] using halong.groups
  | cons name names ih =>
      have hname := hnames name List.mem_cons_self
      have hprefix : early.lines <+:
          (libraries.processGroups last slices (name :: names) plain).lines :=
        halong.lines ▸ libraries.prefix_lines_processGroups last slices _ plain
      rw [Libraries.processSeen] at hrun
      cases hawait : libraries.awaitStored see name turns access with
      | none => simp [hawait] at hrun
      | some result =>
          rcases h.awaitStored_cases libraries hname hawait with
            ⟨seen, file, group, rfl, hfile, hgroup, hstored⟩ | ⟨seen, message, hraises, rfl⟩
          · rcases h.valuesSeen_agrees libraries hsame (Nat.le_succ seen) hfile hgroup hstored with
              hvalues | ⟨later, message, hraises, hvalues⟩
            · simp only [hawait, hvalues] at hrun
              rw [Libraries.processGroups]
              cases hresult : libraries.values last name with
              | error message =>
                  simp only [hresult] at hrun
                  obtain rfl := Option.some.inj hrun
                  refine .inl ⟨?_, rfl, halong.attributes,
                    fun hzero => absurd (show (-1 : ℤ) = 0 from hzero) (by decide)⟩
                  simp [Computing.failed, halong.lines]
              | ok values =>
                  simp only [hresult] at hrun
                  have hmiddle := List.nodup_append.mp hnodup
                  refine ih (fun other hmem => hnames other (List.mem_cons_of_mem _ hmem)) ?_ ?_ hrun
                  · simpa [Computing.processed] using hnodup
                  · have hrest : name ∉ (names.map fun name => (name, libraries.blank data)).map
                        Prod.fst := by
                      simpa using (List.nodup_cons.mp hmiddle.2.1).1
                    have hdone : name ∉ plain.groups.map Prod.fst :=
                      fun hmem => hmiddle.2.2 name hmem name List.mem_cons_self rfl
                    refine ⟨halong.attributes, ?_, ?_, ?_⟩
                    · simp only [Computing.processed, halong.groups, List.map_cons]
                      rw [assignValues_append hdone hrest]
                      simp
                    · simp [Computing.processed, halong.processSlices]
                    · simp [Computing.processed, halong.processSlices, halong.lines]
            · simp only [hawait, hvalues] at hrun
              exact .inr ⟨later, message, early, hraises, (Option.some.inj hrun).symm, hprefix⟩
          · simp only [hawait] at hrun
            exact .inr ⟨seen, message, early, hraises, (Option.some.inj hrun).symm, hprefix⟩

/-- The plain program copies the attributes of the last state, and begins with the groups. -/
theorem Follows.processTest1_eq (h : Follows data items last see)
    (hvisits : libraries.Visits last) :
    ∃ vars : Computing Plane,
      CopiedFrom (fun _ => .ok last) (libraries.attributeNames last) vars.attrs ∧
      vars.groups = [] ∧ vars.processSlices = 0 ∧ vars.lines = [] ∧
      libraries.processTest1 last =
        libraries.processGroups last data.slices data.sortedNames vars := by
  have hcopied := h.plain.copyAttributes_gets libraries rfl
    (fun name hname => (hvisits name).mp hname) (Nat.zero_le 0) [] {} (fun name => by simp) rfl
  rw [Libraries.processTest1, h.lastFilled.fits.sortedNames_eq, h.lastFilled.fits.length_groups]
  cases hcopy : libraries.copyAttributes (fun _ => .ok last) (libraries.attributeNames last) 0 {} with
  | error computed =>
      rw [hcopy] at hcopied
      obtain ⟨_, _, _, ⟨⟩, -⟩ := hcopied
  | ok vars =>
      rw [hcopy] at hcopied
      obtain ⟨hattrs, hgroups, hcount, hlines⟩ := hcopied
      exact ⟨vars, hattrs, hgroups, hcount, hlines, rfl⟩

theorem Follows.processTest2_agrees (h : Follows data items last see) (hsame : SamePart items)
    (hvisits : ∀ access file, see access = .ok file → libraries.Visits file)
    (hvisitsLast : libraries.Visits last) {turns : ℕ} {computed : Computed Plane}
    (hrun : libraries.processTest2 see turns = some computed) :
    SameOutcome computed (libraries.processTest1 last) ∨
      Denied see (libraries.processTest1 last).lines computed := by
  have hgets := h.prepare_gets libraries hvisits
  obtain ⟨plain, hplain, hplainGroups, hplainCount, hplainLines, hplainRun⟩ :=
    h.processTest1_eq libraries hvisitsLast
  rw [Libraries.processTest2] at hrun
  cases hprepare : libraries.prepare see with
  | error computed' =>
      rw [hprepare] at hgets hrun
      obtain ⟨access, message, vars, hraises, hfailed, hlines⟩ := hgets
      obtain rfl := Option.some.inj hrun
      exact .inr ⟨access, message, vars, hraises, hfailed, hlines.trans List.nil_prefix⟩
  | ok prepared =>
      rw [hprepare] at hgets hrun
      obtain ⟨⟨file, hfile, hcopied⟩, hgroups, hcount, hlines, hslices, hnames⟩ := hgets
      simp only [hslices, hnames] at hrun
      rw [hplainRun]
      refine h.processSeen_agrees libraries hsame (fun _ hname => hname) ?_ ?_ hrun
      · simpa [hplainGroups] using nodup_sortedNames data
      · refine ⟨h.copiedFrom_same libraries hfile (hvisits 0 file hfile) hvisitsLast hcopied hplain,
          ?_, hcount.trans hplainCount.symm, hlines.trans hplainLines.symm⟩
        rw [hgroups, hplainGroups, List.nil_append]

/-- **Early is late.**  Start `process_test_2` on a data that has been created, while items are
handled, accepted or not, the bodies for one group being the same.  However its accesses lie between
the writes, it prints the lines of `process_test_1` on the last state of the file, exits as this does,
and leaves the same attributes but for the values of the totals, and when it exits with 0 the same
groups; or an access has raised, and it has printed a part of these lines and the error. -/
theorem early_process_agrees {keepFilesOpen : Bool} (created : Created keepFilesOpen)
    (hsame : SamePart items) {s : DataState}
    (hs : afterItems keepFilesOpen created.state items = s) (hlast : s.h5 = some last)
    (hvisits : ∀ seen ∈ created.history s, libraries.Visits seen)
    (hreads : ReadsInOrder (created.history s) see) {turns : ℕ} {computed : Computed Plane}
    (hcomputed : libraries.processTest2 see turns = some computed) :
    SameOutcome computed (libraries.processTest1 last) ∨
      Denied see (libraries.processTest1 last).lines computed := by
  have htells : TellsFilled created.data items created.state.published.tail s :=
    hs ▸ created.tells_run hsame
  have hmem : last ∈ created.history s :=
    List.mem_of_getLast? ((created.history_of_tells htells).2.2.trans hlast)
  refine (created.follows htells hlast hreads).processTest2_agrees libraries hsame
    (fun access file hfile => ?_) (hvisits last hmem) hcomputed
  obtain ⟨position, -, hsee⟩ := hreads
  exact hvisits file (List.mem_of_getElem? (hsee access file hfile))

/-! ## The end of the early program -/

/-- numpy raises for no dataset with echos. -/
structure Libraries.Total : Prop where
  mean : ∀ cube, cube.shape.echos ≠ 0 → ∃ plane, libraries.mean cube = .ok plane
  std : ∀ cube, cube.shape.echos ≠ 0 → ∃ plane, libraries.std cube = .ok plane
  min : ∀ cube, cube.shape.echos ≠ 0 → ∃ plane, libraries.min cube = .ok plane
  max : ∀ cube, cube.shape.echos ≠ 0 → ∃ plane, libraries.max cube = .ok plane

/-- The percentage does not fall, and is 100 at the end. -/
structure Libraries.Rises : Prop where
  mono : ∀ {i j slices}, i ≤ j → j ≤ slices → libraries.percent i slices ≤ libraries.percent j slices
  full : ∀ {slices}, 0 < slices → libraries.percent slices slices = 100

/-- The percentages that a program prints. -/
def Libraries.percentages (slices : ℕ) : List ℕ :=
  (List.range slices).map fun i => libraries.percent (i + 1) slices

/-- One number for each slice, in rising order, the last one 100. -/
structure RisesToEnd (slices : ℕ) (numbers : List ℕ) : Prop where
  length : numbers.length = slices
  sorted : numbers.Pairwise (· ≤ ·)
  last : numbers.getLast? = some 100
  le : ∀ progress ∈ numbers, progress ≤ 100

theorem Libraries.Rises.percentages {libraries : Libraries Plane} (h : libraries.Rises) {slices : ℕ}
    (hpos : 0 < slices) : RisesToEnd slices (libraries.percentages slices) where
  length := by simp [Libraries.percentages]
  sorted := by
    rw [Libraries.percentages, List.pairwise_map]
    refine List.pairwise_lt_range.imp_of_mem fun {i j} _ hj hlt => h.mono (by omega) ?_
    exact List.mem_range.mp hj
  last := by
    obtain ⟨k, rfl⟩ := Nat.exists_eq_succ_of_ne_zero hpos.ne'
    rw [Libraries.percentages, List.range_succ, List.map_append, List.map_singleton,
      List.getLast?_concat]
    exact congrArg some (h.full hpos)
  le := by
    intro progress hmem
    obtain ⟨i, hi, rfl⟩ := List.mem_map.mp hmem
    exact (h.mono (List.mem_range.mp hi) le_rfl).trans (h.full hpos).le

theorem Libraries.Total.values_ok {libraries : Libraries Plane} (h : libraries.Total)
    {file : H5File} {group : Group} (hgroup : file.findGroup name = some group)
    (hechos : group.shape.echos ≠ 0) : ∃ values, libraries.values file name = .ok values := by
  obtain ⟨mean, hmean⟩ := h.mean group.magnitudeCube hechos
  obtain ⟨std, hstd⟩ := h.std group.magnitudeCube hechos
  obtain ⟨min, hmin⟩ := h.min group.magnitudeCube hechos
  obtain ⟨max, hmax⟩ := h.max group.magnitudeCube hechos
  refine ⟨⟨mean, std, min, max⟩, ?_⟩
  simp [Libraries.values, libraries.group_eq hgroup, hmean, hstd, hmin, hmax, bind, Except.bind,
    pure, Except.pure]

/-- The plain program prints one line for each group. -/
theorem Libraries.processGroups_ok {file : H5File} {names : List String}
    (hvalues : ∀ name ∈ names, ∃ values, libraries.values file name = .ok values) (slices : ℕ)
    (vars : Computing Plane) :
    (libraries.processGroups file slices names vars).exitStatus = 0 ∧
      (libraries.processGroups file slices names vars).groups.map Prod.fst =
        vars.groups.map Prod.fst ++ names ∧
      (libraries.processGroups file slices names vars).lines =
        vars.lines ++ ((List.range names.length).map fun i =>
          libraries.percent (vars.processSlices + i + 1) slices).map progressLine := by
  induction names generalizing vars with
  | nil => simp [processGroups, Computing.finished]
  | cons name names ih =>
      obtain ⟨values, hname⟩ := hvalues name List.mem_cons_self
      rw [processGroups]
      simp only [hname]
      obtain ⟨hexit, hgroups, hlines⟩ := ih (fun other hmem => hvalues other
        (List.mem_cons_of_mem _ hmem)) (({ vars with
          groups := vars.groups ++ [(name, values)] } : Computing Plane).processed libraries slices)
      refine ⟨hexit, ?_, ?_⟩
      · rw [hgroups]
        simp [Computing.processed]
      · rw [hlines, List.length_cons, List.range_succ_eq_map]
        simp only [Computing.processed, List.map_cons, List.map_map, List.append_assoc,
          List.cons_append, List.nil_append, Nat.add_zero]
        congr 2
        refine List.map_congr_left fun i _ => ?_
        have hcount : vars.processSlices + 1 + i + 1 = vars.processSlices + (i + 1) + 1 := by omega
        simp only [Function.comp_apply, Nat.succ_eq_add_one, hcount]

theorem allStored_findGroup {file : H5File} (hall : allStored file = true) {group : Group}
    (hgroup : file.findGroup name = some group) : group.stored = true :=
  List.all_eq_true.mp hall _ (H5File.mem_of_findGroup hgroup)

/-- The accesses see the file, and from `first` on all groups stored. -/
structure SeesStored (see : ℕ → Except String H5File) (first : ℕ) : Prop where
  sees : ∀ access, ∃ file, see access = .ok file
  stored : ∀ {access file}, first ≤ access → see access = .ok file → allStored file = true

theorem SeesStored.not_denied {first : ℕ} (h : SeesStored see first) {lines : List String}
    {computed : Computed Plane} : ¬Denied see lines computed := by
  rintro ⟨access, message, -, hraises, -⟩
  obtain ⟨file, hfile⟩ := h.sees access
  rw [hraises] at hfile
  cases hfile

/-- The waiting ends when all groups are stored from some access on. -/
theorem Follows.awaitStored_ends (h : Follows data items last see)
    (hname : name ∈ data.sortedNames) {first : ℕ} (hfirst : SeesStored see first)
    {turns access : ℕ} (hturns : first ≤ access + turns) :
    ∃ next, libraries.awaitStored see name (turns + 1) access = some (.ok next) := by
  induction turns generalizing access with
  | zero =>
      obtain ⟨file, hfile⟩ := hfirst.sees access
      obtain ⟨group, hgroup, -, -⟩ := (h.filled hfile).fits.findGroup_of_mem hname
      refine ⟨access + 1, ?_⟩
      rw [Libraries.awaitStored, hfile, show (Except.ok file >>= fun file =>
        libraries.group file name) = .ok group from libraries.group_eq hgroup]
      exact if_pos (allStored_findGroup (hfirst.stored hturns hfile) hgroup)
  | succ turns ih =>
      obtain ⟨file, hfile⟩ := hfirst.sees access
      obtain ⟨group, hgroup, -, -⟩ := (h.filled hfile).fits.findGroup_of_mem hname
      rw [Libraries.awaitStored, hfile, show (Except.ok file >>= fun file =>
        libraries.group file name) = .ok group from libraries.group_eq hgroup]
      dsimp only
      by_cases hstored : group.stored = true
      · exact ⟨access + 1, if_pos hstored⟩
      · rw [if_neg hstored]
        exact ih (by omega)

theorem Follows.processSeen_ends (h : Follows data items last see) {first : ℕ}
    (hfirst : SeesStored see first) {names : List String}
    (hnames : ∀ name ∈ names, name ∈ data.sortedNames) (slices access : ℕ)
    (vars : Computing Plane) :
    ∃ computed, libraries.processSeen see (first + 1) slices names access vars = some computed := by
  induction names generalizing access vars with
  | nil => exact ⟨_, rfl⟩
  | cons name names ih =>
      obtain ⟨next, hawait⟩ := h.awaitStored_ends libraries (hnames name List.mem_cons_self) hfirst
        (show first ≤ access + first by omega)
      rw [Libraries.processSeen, hawait]
      dsimp only
      split
      · exact ⟨_, rfl⟩
      · exact ih (fun other hmem => hnames other (List.mem_cons_of_mem _ hmem)) _ _

theorem Follows.processTest2_ends (h : Follows data items last see)
    (hvisits : ∀ access file, see access = .ok file → libraries.Visits file) {first : ℕ}
    (hfirst : SeesStored see first) :
    ∃ computed, libraries.processTest2 see (first + 1) = some computed := by
  have hgets := h.prepare_gets libraries hvisits
  rw [Libraries.processTest2]
  cases hprepare : libraries.prepare see with
  | error computed => exact ⟨computed, rfl⟩
  | ok prepared =>
      rw [hprepare] at hgets
      obtain ⟨-, -, -, -, -, hnames⟩ := hgets
      exact h.processSeen_ends libraries hfirst (fun name hname => hnames ▸ hname) _ _ _

/-- The plain program on a data that is stored. -/
theorem Follows.processTest1_ok {libraries : Libraries Plane} (htotal : libraries.Total)
    (h : Follows data items last see) (hvisits : libraries.Visits last)
    (hstored : ∀ name group, last.findGroup name = some group → group.stored = true) :
    (libraries.processTest1 last).exitStatus = 0 ∧
      (libraries.processTest1 last).groups.map Prod.fst = data.sortedNames ∧
      (libraries.processTest1 last).lines =
        (libraries.percentages data.slices).map progressLine := by
  have hvalues : ∀ name ∈ data.sortedNames, ∃ values, libraries.values last name = .ok values := by
    intro name hname
    obtain ⟨group, hgroup, -, hshape⟩ := h.lastFilled.fits.findGroup_of_mem hname
    obtain ⟨i, -, rfl⟩ := (h.lastFilled.fits.isSome_findGroup name).mp (by rw [hgroup]; rfl)
    obtain ⟨_, -, _, -, -, hechos, -⟩ :=
      h.lastFilled.images i group hgroup (hstored _ group hgroup)
    exact htotal.values_ok hgroup (by rwa [hshape])
  have hlength : data.sortedNames.length = data.slices := by
    simp [Creation.sortedNames]
  obtain ⟨vars, -, hnone, hcount, hempty, hrun⟩ := h.processTest1_eq libraries hvisits
  obtain ⟨hexit, hgroups, hlines⟩ := libraries.processGroups_ok hvalues data.slices vars
  rw [hrun]
  refine ⟨hexit, by rw [hgroups, hnone]; rfl, ?_⟩
  rw [hlines, hempty, hcount, hlength, List.nil_append, Libraries.percentages]
  simp only [Nat.zero_add]

/-- **The early program completes.**  When its accesses raise nothing and see all groups stored from
some moment on, and numpy raises for no dataset with echos, `process_test_2` ends with exit status 0
and the results of `process_test_1` on the last state, one for each group.  Its lines are one
percentage for each group, in rising order up to 100, and the server reads them as such, one after
the other. -/
theorem early_process_completes {libraries : Libraries Plane} (htotal : libraries.Total)
    (hrises : libraries.Rises) {limits : Python.Limits} (hlimits : Python.Within limits.strDigits 3)
    {keepFilesOpen : Bool} (created : Created keepFilesOpen) (hslices : 0 < created.data.slices)
    (hsame : SamePart items) {s : DataState}
    (hs : afterItems keepFilesOpen created.state items = s) (hlast : s.h5 = some last)
    (hvisits : ∀ seen ∈ created.history s, libraries.Visits seen)
    (hreads : ReadsInOrder (created.history s) see) (hstored : ∃ first, SeesStored see first) :
    ∃ turns computed numbers, libraries.processTest2 see turns = some computed ∧
      computed.exitStatus = 0 ∧ SameOutcome computed (libraries.processTest1 last) ∧
      computed.groups.map Prod.fst = created.data.sortedNames ∧
      computed.lines = numbers.map progressLine ∧ RisesToEnd created.data.slices numbers ∧
      ∀ k status, (computed.lines.take k).foldlM (parseLogLine limits) status =
        .ok { status with progress := (numbers.take k).getLast?.getD status.progress } := by
  have htells : TellsFilled created.data items created.state.published.tail s :=
    hs ▸ created.tells_run hsame
  have hmem : last ∈ created.history s :=
    List.mem_of_getLast? ((created.history_of_tells htells).2.2.trans hlast)
  have h := created.follows htells hlast hreads
  obtain ⟨position, -, hsee⟩ := hreads
  have hvisitsSeen : ∀ access file, see access = .ok file → libraries.Visits file :=
    fun access file hfile => hvisits file (List.mem_of_getElem? (hsee access file hfile))
  obtain ⟨first, hfirst⟩ := hstored
  obtain ⟨computed, hcomputed⟩ := h.processTest2_ends libraries hvisitsSeen hfirst
  have houtcome := (h.processTest2_agrees libraries hsame hvisitsSeen (hvisits last hmem)
    hcomputed).resolve_right hfirst.not_denied
  have hall : ∀ name group, last.findGroup name = some group → group.stored = true := by
    intro name group hgroup
    obtain ⟨i, hi, rfl⟩ := (h.lastFilled.fits.isSome_findGroup name).mp (by rw [hgroup]; rfl)
    obtain ⟨file, hfile⟩ := hfirst.sees first
    obtain ⟨old, hold, -⟩ := (h.filled hfile).fits.findGroup_of_lt hi
    obtain ⟨group', hgroup', hstored'⟩ := (h.succeedsLast hfile).stays _ old hold
      (allStored_findGroup (hfirst.stored le_rfl hfile) hold)
    obtain rfl := Option.some.inj (hgroup.symm.trans hgroup')
    exact hstored'
  obtain ⟨hexit, hgroups, hlines⟩ := h.processTest1_ok htotal (hvisits last hmem) hall
  have hsuccess := houtcome.exitStatus.trans hexit
  have hprinted := houtcome.lines.trans hlines
  have hrising := hrises.percentages hslices
  refine ⟨first + 1, computed, _, hcomputed, hsuccess, houtcome, ?_, hprinted, hrising,
    fun k status => ?_⟩
  · rw [houtcome.groups hsuccess, hgroups]
  · rw [hprinted, ← List.map_take]
    exact foldlM_progressLines hlimits
      (fun progress hprogress => hrising.le progress (List.mem_of_mem_take hprogress)) status

end Reading

/-! ### A data of two slices -/

/-- numpy for datasets of one echo. -/
def oneEcho : Libraries (List (List Bytes)) where
  attributeNames file :=
    (twoSlices.allAttributes.map Prod.fst).filter fun name => (file.attrs name).isSome
  mean cube := .ok (cube.images.headD [])
  std cube := .ok ((cube.images.headD []).map fun row => row.map fun item => item.map fun _ => 0)
  min cube := .ok (cube.images.headD [])
  max cube := .ok (cube.images.headD [])
  zeros dtype height width :=
    List.replicate height (List.replicate width (List.replicate dtype.itemsize 0))
  missing name := "Unable to open object (object '" ++ name ++ "' doesn't exist)"
  missingAttribute name := "Can't open attribute (can't locate attribute: '" ++ name ++ "')"
  percent processSlices slices := 100 * processSlices / slices

theorem total_oneEcho : oneEcho.Total :=
  ⟨fun _ _ => ⟨_, rfl⟩, fun _ _ => ⟨_, rfl⟩, fun _ _ => ⟨_, rfl⟩, fun _ _ => ⟨_, rfl⟩⟩

theorem rises_oneEcho : oneEcho.Rises :=
  ⟨fun hle _ => Nat.div_le_div_right (Nat.mul_le_mul_left 100 hle),
    fun hpos => Nat.mul_div_cancel 100 hpos⟩

/-- The data of two slices once its values are stored. -/
def slicesStored : DataState := afterItems true (createdSlices true).state twoSlicesItems

theorem visits_oneEcho : ∀ seen ∈ (createdSlices true).history slicesStored,
    oneEcho.Visits seen := by
  intro seen hseen name
  have hnames := ((createdSlices true).history_of_tells
    ((createdSlices true).tells_run samePart_twoSlicesItems)).1 seen hseen |>.names name
  refine List.mem_filter.trans ⟨And.right, fun hsome => ⟨hnames.mp hsome, hsome⟩⟩

/-- The accesses before the second loop see the first state, and each later one the next state. -/
def seeSlices (access : ℕ) : Except String H5File :=
  .ok (((createdSlices true).history slicesStored).getD (min (access - 16) 36) {})

theorem length_history_slices : ((createdSlices true).history slicesStored).length = 37 := by
  decide +kernel

theorem readsInOrder_seeSlices :
    ReadsInOrder ((createdSlices true).history slicesStored) seeSlices := by
  refine ⟨fun access => min (access - 16) 36,
    fun _ _ hle => min_le_min_right 36 (Nat.sub_le_sub_right hle 16), fun access file hfile => ?_⟩
  have hlt : min (access - 16) 36 < ((createdSlices true).history slicesStored).length := by
    rw [length_history_slices]
    omega
  obtain rfl := Except.ok.inj hfile
  rw [List.getElem?_eq_getElem hlt, List.getD_eq_getElem?_getD, List.getElem?_eq_getElem hlt,
    Option.getD_some]

theorem seesStored_seeSlices : SeesStored seeSlices 52 where
  sees access := ⟨_, rfl⟩
  stored := by
    intro access file hle hfile
    obtain rfl := Except.ok.inj hfile
    rw [Nat.min_eq_right (by omega : 36 ≤ access - 16)]
    decide +kernel

/-- The early program has to wait, and has copied an older `cwa_stored`. -/
theorem early_process_agrees_two_slices :
    ∃ last computed, slicesStored.h5 = some last ∧
      oneEcho.processTest2 seeSlices 40 = some computed ∧
      computed.attrs "cwa_stored" = some (.bool false) ∧
      SameOutcome computed (oneEcho.processTest1 last) := by
  have hends : ((oneEcho.processTest2 seeSlices 40).any fun computed =>
      decide (computed.attrs "cwa_stored" = some (.bool false))) = true := by decide +kernel
  obtain ⟨computed, hcomputed, hflag⟩ := (Option.any_eq_true _ _).mp hends
  have hlast : slicesStored.h5.isSome = true := by decide +kernel
  obtain ⟨last, hlast⟩ := Option.isSome_iff_exists.mp hlast
  refine ⟨last, computed, hlast, hcomputed, of_decide_eq_true hflag, ?_⟩
  exact (early_process_agrees oneEcho (createdSlices true) samePart_twoSlicesItems rfl hlast
    visits_oneEcho readsInOrder_seeSlices hcomputed).resolve_right seesStored_seeSlices.not_denied

theorem early_process_completes_two_slices :
    ∃ turns computed numbers, oneEcho.processTest2 seeSlices turns = some computed ∧
      computed.exitStatus = 0 ∧ computed.lines = numbers.map progressLine ∧
      RisesToEnd 2 numbers ∧
      computed.lines.foldlM (parseLogLine Python.cpython) .begun =
        .ok { Status.begun with progress := 100 } := by
  have hlast : slicesStored.h5.isSome = true := by decide +kernel
  obtain ⟨last, hlast⟩ := Option.isSome_iff_exists.mp hlast
  obtain ⟨turns, computed, numbers, hcomputed, hexit, -, -, hlines, hrising, hparsed⟩ :=
    early_process_completes total_oneEcho rises_oneEcho
      (show Python.Within Python.cpython.strDigits 3 by decide) (createdSlices true) (by decide)
      samePart_twoSlicesItems rfl hlast visits_oneEcho readsInOrder_seeSlices
      ⟨52, seesStored_seeSlices⟩
  refine ⟨turns, computed, numbers, hcomputed, hexit, hlines, hrising, ?_⟩
  have hall := hparsed computed.lines.length .begun
  have hlength : numbers.length = computed.lines.length := by rw [hlines, List.length_map]
  rw [List.take_length, ← hlength, List.take_length, hrising.last] at hall
  exact hall

end ComputeWebApp.Api
