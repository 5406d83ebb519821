import ComputeWebApp.Library.JsonLimits
import ComputeWebApp.Library.JsonParts
import ComputeWebApp.Library.JsonReadBack
import ComputeWebApp.Process.LockedJson
import Mathlib.Logic.Function.Iterate

/-!
# JSON files by their text

`safely_update_json_file` and `read_json_file_with_lock` for one call that has got the lock, down to
the text of the file and the exceptions.

An update opens the file, parses it, changes the data, truncates the file and writes the data piece
by piece.  Of the exceptions on the way only that of a missing file removes the lock file
(`update_all_or_nothing_iff`).  What the update methods of the server make of JSON data is JSON
(`ServerUpdate.keepsJson`), so that for them it is an exception of their own or of the interpreter
that matters.

The reader tries again after a `JSONDecodeError`, with the file object that it has: a new attempt
reads what is in the file after the place where the last one has ended.  What is before that place
is lost, unless it was white space (`read_recovers_iff`).  Any other exception leaves it, with the
lock.

Both are what a call of `LockedJson` does once it has the lock (`safelyUpdateJsonFile_opened`,
`read_opened`).
-/

namespace ComputeWebApp.Api

open Json

/-! ## Updates -/

/-- The text of the file, when it exists, and whether its lock file exists. -/
structure JsonDisk where
  file : Option Text
  lockFile : Bool := false
  deriving DecidableEq, Repr

/-- What leaves `safely_update_json_file`.  `dumpError` is the `TypeError`, `RecursionError` or
`ValueError` of `json.dump`. -/
inductive UpdateError (ε : Type)
  | fileNotFoundError
  | load (error : LoadError)
  | updateMethod (raised : ε)
  | dumpError
  | exception (text : String)
  deriving DecidableEq, Repr

namespace JsonDisk

/-- `lock_file` returns when it has created the lock file. -/
def lock (disk : JsonDisk) : JsonDisk := { disk with lockFile := true }

def unlock (disk : JsonDisk) : JsonDisk := { disk with lockFile := false }

end JsonDisk

section Update

variable {ε : Type}

variable (limits : Python.Limits)

/-- `open(filename, 'r')` and `json.load` -/
def loadFile : Option Text → Except (UpdateError ε) Value
  | none => .error .fileNotFoundError
  | some text =>
      match load limits text with
      | .error error => .error (.load error)
      | .ok data => .ok data

/-- The exception, when there is one, and the files after it. -/
def safelyUpdateJsonFile (encodeNumber : Text → Text) (filename : String)
    (updateMethod : Value → Except ε Value) (disk : JsonDisk) :
    Except (UpdateError ε) Unit × JsonDisk :=
  let disk := disk.lock
  match loadFile limits disk.file with
  | .error .fileNotFoundError => (.error (.exception (filename ++ " not found")), disk.unlock)
  | .error error => (.error error, disk)
  | .ok jsonData =>
      match updateMethod jsonData with
      | .error raised => (.error (.updateMethod raised), disk)
      | .ok jsonData =>
          -- `open(filename, 'w')` truncates the file, and what is written before an exception stays
          let output := dump encodeNumber 0 (jsonData.cut limits 0)
          let disk := { disk with file := some output.text }
          if output.complete then (.ok (), disk.unlock) else (.error .dumpError, disk)

/-- The file is read, and the update method makes `updated` of its data. -/
def Updates (updateMethod : Value → Except ε Value) (file : Option Text) (updated : Value) : Prop :=
  ∃ text data, file = some text ∧ load limits text = .ok data ∧ updateMethod data = .ok updated

/-- The lock file is gone, and either the file holds the updated data or there is an exception and
the file is what it was. -/
def AllOrNothing (encodeNumber : Text → Text) (updateMethod : Value → Except ε Value)
    (file : Option Text) : Except (UpdateError ε) Unit × JsonDisk → Prop
  | (result, disk) =>
      disk.lockFile = false ∧
        ((∃ updated text, Updates limits updateMethod file updated ∧
            dump encodeNumber 0 updated = .write text ∧ disk.file = some text) ∨
          ((∃ error, result = .error error) ∧ disk.file = file))

variable {limits : Python.Limits} {encodeNumber : Text → Text} {filename : String}
  {updateMethod : Value → Except ε Value} {text : Text} {data updated : Value} {file : Option Text}

/-! One equation for each way through the call. -/

theorem update_missing :
    safelyUpdateJsonFile limits encodeNumber filename updateMethod ⟨none, false⟩ =
      (.error (.exception (filename ++ " not found")), ⟨none, false⟩) := rfl

theorem update_unread {error : LoadError} (h : load limits text = .error error) :
    safelyUpdateJsonFile limits encodeNumber filename updateMethod ⟨some text, false⟩ =
      (.error (.load error), ⟨some text, true⟩) := by
  simp only [safelyUpdateJsonFile, JsonDisk.lock, loadFile, h]

theorem update_raises (h : load limits text = .ok data) {raised : ε}
    (hraised : updateMethod data = .error raised) :
    safelyUpdateJsonFile limits encodeNumber filename updateMethod ⟨some text, false⟩ =
      (.error (.updateMethod raised), ⟨some text, true⟩) := by
  simp only [safelyUpdateJsonFile, JsonDisk.lock, loadFile, h, hraised]

theorem update_done (h : load limits text = .ok data) (hupdated : updateMethod data = .ok updated)
    (hwritable : updated.Writable limits) :
    safelyUpdateJsonFile limits encodeNumber filename updateMethod ⟨some text, false⟩ =
      (.ok (), ⟨some (dump encodeNumber 0 updated).text, false⟩) := by
  simp only [safelyUpdateJsonFile, JsonDisk.lock, loadFile, h, hupdated, cut_zero hwritable,
    complete_dump, hwritable.1, if_true, JsonDisk.unlock]

theorem update_broken (h : load limits text = .ok data)
    (hupdated : updateMethod data = .ok updated) (hwritable : ¬updated.Writable limits) :
    safelyUpdateJsonFile limits encodeNumber filename updateMethod ⟨some text, false⟩ =
      (.error .dumpError, ⟨some (dump encodeNumber 0 (updated.cut limits 0)).text, true⟩) := by
  have hbroken : (updated.cut limits 0).isJson = false :=
    Bool.eq_false_iff.mpr fun hjson => hwritable (isJson_cut_zero.mp hjson)
  simp only [safelyUpdateJsonFile, JsonDisk.lock, loadFile, h, hupdated, complete_dump, hbroken,
    Bool.false_eq_true, if_false]

theorem updates_some_iff (h : load limits text = .ok data) :
    Updates limits updateMethod (some text) updated ↔ updateMethod data = .ok updated := by
  constructor
  · rintro ⟨text', data', hfile, hdata, hupdated⟩
    obtain rfl := Option.some.inj hfile
    obtain rfl := Except.ok.inj (h.symm.trans hdata)
    exact hupdated
  · exact fun hupdated => ⟨text, data, rfl, h, hupdated⟩

theorem not_updates {error : LoadError} (h : load limits text = .error error) :
    ¬Updates limits updateMethod (some text) updated := by
  rintro ⟨text', data, hfile, hdata, -⟩
  obtain rfl := Option.some.inj hfile
  rw [h] at hdata
  cases hdata

theorem allOrNothing_missing : AllOrNothing limits encodeNumber updateMethod none
    (safelyUpdateJsonFile limits encodeNumber filename updateMethod ⟨none, false⟩) := by
  rw [update_missing]
  exact ⟨rfl, .inr ⟨⟨_, rfl⟩, rfl⟩⟩

theorem not_allOrNothing_of_lock {result : Except (UpdateError ε) Unit} {disk : JsonDisk}
    (h : disk.lockFile = true) : ¬AllOrNothing limits encodeNumber updateMethod file (result, disk) :=
  fun hall => Bool.noConfusion (h.symm.trans hall.1)

theorem not_allOrNothing_unread {error : LoadError} (h : load limits text = .error error) :
    ¬AllOrNothing limits encodeNumber updateMethod (some text)
      (safelyUpdateJsonFile limits encodeNumber filename updateMethod ⟨some text, false⟩) := by
  rw [update_unread h]
  exact not_allOrNothing_of_lock rfl

theorem allOrNothing_data_iff (h : load limits text = .ok data) :
    AllOrNothing limits encodeNumber updateMethod (some text)
        (safelyUpdateJsonFile limits encodeNumber filename updateMethod ⟨some text, false⟩) ↔
      ∃ updated, updateMethod data = .ok updated ∧ updated.Writable limits := by
  cases hupdate : updateMethod data with
  | error raised =>
      rw [update_raises h hupdate]
      refine iff_of_false (not_allOrNothing_of_lock rfl) ?_
      rintro ⟨updated, hupdated, -⟩
      cases hupdated
  | ok updated =>
      by_cases hwritable : updated.Writable limits
      · have hupdates : Updates limits updateMethod (some text) updated :=
          (updates_some_iff h).mpr hupdate
        rw [update_done h hupdate hwritable]
        exact iff_of_true
          ⟨rfl, .inl ⟨updated, _, hupdates, dump_eq_write encodeNumber 0 hwritable.1, rfl⟩⟩
          ⟨updated, rfl, hwritable⟩
      · rw [update_broken h hupdate hwritable]
        refine iff_of_false (not_allOrNothing_of_lock rfl) ?_
        rintro ⟨updated', hupdated, hwritable'⟩
        cases hupdated
        exact hwritable hwritable'

/-- A call is all-or-nothing only for a missing file, or when each of its steps with the lock
succeeds. -/
theorem update_all_or_nothing_iff (limits : Python.Limits) (encodeNumber : Text → Text)
    (filename : String) (updateMethod : Value → Except ε Value) (file : Option Text) :
    AllOrNothing limits encodeNumber updateMethod file
        (safelyUpdateJsonFile limits encodeNumber filename updateMethod ⟨file, false⟩) ↔
      file = none ∨
        ∃ updated, Updates limits updateMethod file updated ∧ updated.Writable limits := by
  cases file with
  | none => exact iff_of_true allOrNothing_missing (.inl rfl)
  | some text =>
      simp only [reduceCtorEq, false_or]
      cases hload : load limits text with
      | error error =>
          refine iff_of_false (not_allOrNothing_unread hload) ?_
          rintro ⟨updated, hupdates, -⟩
          exact not_updates hload hupdates
      | ok data => simp only [allOrNothing_data_iff hload, updates_some_iff hload]

end Update

/-! ## The update methods -/

/-- The key `name`. -/
def keyOf (name : String) : Str := name.toList.map Char.toNat

theorem keyOf_inj {name other : String} : keyOf name = keyOf other ↔ name = other := by
  constructor
  · intro h
    have hchars : name.toList = other.toList :=
      List.map_injective_iff.mpr (fun _ _ hc => Char.toNat_inj.mp hc) h
    exact String.toList_inj.mp hchars
  · exact congrArg keyOf

def lookupMember (members : List (Str × Value)) (key : Str) : Option Value :=
  (members.find? fun member => member.1 = key).map Prod.snd

/-- `dict.update` -/
def updateMembers (members new : List (Str × Value)) : List (Str × Value) :=
  new.foldl (fun members member => setMember members member.1 member.2) members

def isString (codes : Str) : Value → Bool
  | .string codes' => codes' = codes
  | _ => false

/-- `element in json_data`, for a string; `none` is a `TypeError`. -/
def containsString (codes : Str) : Value → Option Bool
  | .array items => some (items.any (isString codes))
  | .object members => some (lookupMember members codes).isSome
  | .string codes' => some (codes'.tails.any fun tail => codes.isPrefixOf tail)
  | _ => none

inductive MethodError
  | keyError
  | typeError
  | attributeError
  deriving DecidableEq, Repr

/-- `json_data['status'].update(status)` -/
def updateProcessStatus (status : List (Str × Value)) : Value → Except MethodError Value
  | .object members =>
      match lookupMember members (keyOf "status") with
      | none => .error .keyError
      | some (.object inner) =>
          .ok (.object (setMember members (keyOf "status") (.object (updateMembers inner status))))
      | some _ => .error .attributeError
  | _ => .error .typeError

/-- `json_data.update(process)` -/
def updateProcess (process : List (Str × Value)) : Value → Except MethodError Value
  | .object members => .ok (.object (updateMembers members process))
  | _ => .error .attributeError

def addRunningProcess (processId : Str) (jsonData : Value) : Except MethodError Value :=
  match containsString processId jsonData with
  | none => .error .typeError
  | some true => .ok jsonData
  | some false =>
      match jsonData with
      | .array items => .ok (.array (items ++ [.string processId]))
      | _ => .error .attributeError

def removeRunningProcess (processId : Str) (jsonData : Value) : Except MethodError Value :=
  match containsString processId jsonData with
  | none => .error .typeError
  | some false => .ok jsonData
  | some true =>
      match jsonData with
      | .array items => .ok (.array (items.eraseP (isString processId)))
      | _ => .error .attributeError

/-- The updates that the server makes. -/
inductive ServerUpdate
  | processStatus (status : List (Str × Value))
  | record (members : List (Str × Value))
  | addRunning (processId : Str)
  | removeRunning (processId : Str)

namespace ServerUpdate

def method : ServerUpdate → Value → Except MethodError Value
  | processStatus status => updateProcessStatus status
  | record members => updateProcess members
  | addRunning processId => addRunningProcess processId
  | removeRunning processId => removeRunningProcess processId

/-- What the server puts into the file is JSON. -/
def IsJson : ServerUpdate → Prop
  | processStatus status => membersAreJson status = true
  | record members => membersAreJson members = true
  | _ => True

end ServerUpdate

/-- The method makes JSON data of JSON data. -/
def KeepsJson (updateMethod : Value → Except MethodError Value) : Prop :=
  ∀ data updated, data.isJson = true → updateMethod data = .ok updated → updated.isJson = true

theorem membersAreJson_updateMembers {members new : List (Str × Value)}
    (h : membersAreJson members = true) (hnew : membersAreJson new = true) :
    membersAreJson (updateMembers members new) = true := by
  rw [membersAreJson_iff] at hnew
  unfold updateMembers
  induction new generalizing members with
  | nil => exact h
  | cons member new ih =>
      exact ih (membersAreJson_setMember h (hnew member List.mem_cons_self))
        fun other hother => hnew other (List.mem_cons_of_mem _ hother)

theorem isJson_lookupMember {members : List (Str × Value)} {key : Str} {value : Value}
    (h : membersAreJson members = true) (hvalue : lookupMember members key = some value) :
    value.isJson = true := by
  obtain ⟨member, hmember, rfl⟩ := Option.map_eq_some_iff.mp hvalue
  exact membersAreJson_iff.mp h member (List.mem_of_find?_eq_some hmember)

theorem keepsJson_updateProcessStatus {status : List (Str × Value)}
    (hstatus : membersAreJson status = true) : KeepsJson (updateProcessStatus status) := by
  intro data updated hdata hupdated
  cases data with
  | object members =>
      simp only [updateProcessStatus] at hupdated
      split at hupdated
      · cases hupdated
      · rename_i inner hinner
        cases hupdated
        exact membersAreJson_setMember hdata
          (membersAreJson_updateMembers (isJson_lookupMember hdata hinner) hstatus)
      · cases hupdated
  | _ => cases hupdated

theorem keepsJson_updateProcess {process : List (Str × Value)}
    (hprocess : membersAreJson process = true) : KeepsJson (updateProcess process) := by
  intro data updated hdata hupdated
  cases data with
  | object members =>
      cases hupdated
      exact membersAreJson_updateMembers hdata hprocess
  | _ => cases hupdated

theorem keepsJson_addRunningProcess (processId : Str) :
    KeepsJson (addRunningProcess processId) := by
  intro data updated hdata hupdated
  unfold addRunningProcess at hupdated
  split at hupdated
  · cases hupdated
  · cases hupdated
    exact hdata
  · split at hupdated
    · cases hupdated
      exact (itemsAreJson_append _ _).trans (Bool.and_eq_true_iff.mpr ⟨hdata, rfl⟩)
    · cases hupdated

theorem keepsJson_removeRunningProcess (processId : Str) :
    KeepsJson (removeRunningProcess processId) := by
  intro data updated hdata hupdated
  unfold removeRunningProcess at hupdated
  split at hupdated
  · cases hupdated
  · cases hupdated
    exact hdata
  · split at hupdated
    · cases hupdated
      have hitems := itemsAreJson_iff.mp hdata
      exact itemsAreJson_iff.mpr fun item hitem => hitems item (List.mem_of_mem_eraseP hitem)
    · cases hupdated

theorem ServerUpdate.keepsJson (update : ServerUpdate) (h : update.IsJson) :
    KeepsJson update.method := by
  cases update with
  | processStatus status => exact keepsJson_updateProcessStatus h
  | record members => exact keepsJson_updateProcess h
  | addRunning processId => exact keepsJson_addRunningProcess processId
  | removeRunning processId => exact keepsJson_removeRunningProcess processId

/-- **An update of the server** that ends with an exception of `json.dump` has met the limits of the
interpreter: what it was to write is JSON. -/
theorem ServerUpdate.dumpError {limits : Python.Limits} {encodeNumber : Text → Text}
    {filename : String} (update : ServerUpdate) (hjson : update.IsJson) {file : Option Text}
    (h : (safelyUpdateJsonFile limits encodeNumber filename update.method ⟨file, false⟩).1 =
      .error .dumpError) :
    ∃ updated, Updates limits update.method file updated ∧ updated.isJson = true ∧
      ¬updated.Writable limits := by
  cases file with
  | none => cases h
  | some text =>
      cases hload : load limits text with
      | error error =>
          rw [update_unread hload] at h
          cases h
      | ok data =>
          cases hupdate : update.method data with
          | error raised =>
              rw [update_raises hload hupdate] at h
              cases h
          | ok updated =>
              have hdata : data.isJson = true := loads_isJson (loads_of_load hload)
              refine ⟨updated, (updates_some_iff hload).mpr hupdate,
                update.keepsJson hjson data updated hdata hupdate, fun hwritable => ?_⟩
              rw [update_done hload hupdate hwritable] at h
              cases h

/-- `process.post` has truncated the record and not written it yet. -/
theorem update_empty_file_keeps_lock :
    ¬AllOrNothing Python.cpython id (updateProcessStatus []) (some [])
      (safelyUpdateJsonFile Python.cpython id "process.json" (updateProcessStatus [])
        ⟨some [], false⟩) := by
  rintro ⟨hlock, -⟩
  cases hlock

/-! ## The reader -/

/-- Where a call of `read_json_file_with_lock` is: before `os.path.isfile`, before `lock_file`, in
the loop, before `unlock_file`, after it has returned, or after an exception has left it. -/
inductive ReadStage
  | checking
  | locking
  | reading
  | unlocking (jsonContent : Value)
  | returned (jsonContent : Value)
  | raised (error : LoadError)

/-- `position` is the place in the file where the file object is, after `attempts` calls of
`json.load`. -/
structure Reader where
  stage : ReadStage := .checking
  lockFile : Bool := false
  attempts : ℕ := 0
  position : ℕ := 0

namespace Reader

section Step

variable (limits : Python.Limits) (contents : ℕ → Text) (isFile : Bool) (default : Value)

/-- One step of the call.  At the attempt `n` the file holds `contents n`. -/
def step (s : Reader) : Reader :=
  match s.stage with
  | .checking => { s with stage := if isFile then .locking else .returned default }
  | .locking => { s with stage := .reading, lockFile := true }
  | .reading =>
      let text := contents s.attempts
      let s' :=
        { s with attempts := s.attempts + 1, position := max s.position text.length }
      match load limits (text.drop s.position) with
      | .ok jsonContent => { s' with stage := .unlocking jsonContent }
      -- the loop goes on after 0.2 s
      | .error .jsonDecodeError => s'
      | .error error => { s' with stage := .raised error }
  | .unlocking jsonContent => { s with stage := .returned jsonContent, lockFile := false }
  | .returned _ => s
  | .raised _ => s

/-- The call after so many steps. -/
def after (steps : ℕ) : Reader := (step limits contents isFile default)^[steps] {}

end Step

variable {limits : Python.Limits} {contents : ℕ → Text} {isFile : Bool} {default : Value}

theorem after_add (first second : ℕ) :
    after limits contents isFile default (first + second) =
      (step limits contents isFile default)^[second]
        (after limits contents isFile default first) := by
  rw [after, Nat.add_comm, Function.iterate_add_apply]
  rfl

theorem after_two : after limits contents true default 2 = ⟨.reading, true, 0, 0⟩ := rfl

/-- A call that has returned takes no more steps. -/
theorem iterate_returned {s : Reader} {jsonContent : Value} (h : s.stage = .returned jsonContent)
    (steps : ℕ) : (step limits contents isFile default)^[steps] s = s := by
  refine Function.iterate_fixed ?_ steps
  simp only [step, h]

theorem after_of_returned {steps : ℕ} {jsonContent : Value}
    (h : (after limits contents isFile default steps).stage = .returned jsonContent) (more : ℕ) :
    after limits contents isFile default (steps + more) =
      after limits contents isFile default steps := by
  rw [after_add, iterate_returned h]

/-- An attempt that succeeds is the last one. -/
theorem iterate_load {attempts position : ℕ} {jsonContent : Value}
    (h : load limits ((contents attempts).drop position) = .ok jsonContent) :
    (step limits contents isFile default)^[2] ⟨.reading, true, attempts, position⟩ =
      ⟨.returned jsonContent, false, attempts + 1, max position (contents attempts).length⟩ := by
  simp only [Function.iterate_succ, Function.iterate_zero, Function.comp, id, step, h]

theorem step_fail {attempts position : ℕ}
    (h : load limits ((contents attempts).drop position) = .error .jsonDecodeError) :
    step limits contents isFile default ⟨.reading, true, attempts, position⟩ =
      ⟨.reading, true, attempts + 1, max position (contents attempts).length⟩ := by
  simp only [step, h]

/-! The first two attempts. -/

theorem after_four {jsonContent : Value} (h : load limits (contents 0) = .ok jsonContent) :
    after limits contents true default 4 =
      ⟨.returned jsonContent, false, 1, (contents 0).length⟩ := by
  have hload : load limits ((contents 0).drop 0) = .ok jsonContent := h
  rw [after_add 2 2, after_two, iterate_load hload, Nat.zero_max]

theorem after_three (h : load limits (contents 0) = .error .jsonDecodeError) :
    after limits contents true default 3 = ⟨.reading, true, 1, (contents 0).length⟩ := by
  have hload : load limits ((contents 0).drop 0) = .error .jsonDecodeError := h
  rw [after_add 2 1, after_two, Function.iterate_one, step_fail hload, Nat.zero_max]

theorem after_five {jsonContent : Value} (h : load limits (contents 0) = .error .jsonDecodeError)
    (hrest : load limits ((contents 1).drop (contents 0).length) = .ok jsonContent) :
    after limits contents true default 5 =
      ⟨.returned jsonContent, false, 2, max (contents 0).length (contents 1).length⟩ := by
  rw [after_add 3 2, after_three h, iterate_load hrest]

/-! A call in which no attempt finds JSON never returns, and keeps the lock. -/

/-- What the file holds at the attempts when only `part` of `text` is written at the first one. -/
def rewritten (part text : Text) : ℕ → Text
  | 0 => part
  | _ + 1 => text

section Fails

variable {part rest : Text}

/-- Where the file object is before each attempt. -/
def readTo (part rest : Text) : ℕ → ℕ
  | 0 => 0
  | 1 => part.length
  | _ + 2 => (part ++ rest).length

theorem readTo_succ (n : ℕ) :
    max (readTo part rest n) (rewritten part (part ++ rest) n).length = readTo part rest (n + 1) := by
  match n with
  | 0 => exact Nat.zero_max _
  | 1 =>
      simp only [readTo, rewritten, List.length_append]
      omega
  | n + 2 => exact Nat.max_self _

/-- The call tries again, or an exception has left it. -/
structure Fails (part rest : Text) (s : Reader) : Prop where
  stage : s.stage = .reading ∨ ∃ error, s.stage = .raised error
  locked : s.lockFile = true
  position : s.position = readTo part rest s.attempts

theorem Fails.step {s : Reader} (h : Fails part rest s)
    (hpart : ∀ value, load limits part ≠ .ok value)
    (hrest : ∀ value, load limits rest ≠ .ok value) :
    Fails part rest (Reader.step limits (rewritten part (part ++ rest)) isFile default s) := by
  obtain ⟨hstage | ⟨error, hstage⟩, hlocked, hposition⟩ := h
  · have hunread : ∀ value, load limits
        ((rewritten part (part ++ rest) s.attempts).drop s.position) ≠ .ok value := by
      rw [hposition]
      match s.attempts with
      | 0 => exact hpart
      | 1 =>
          rw [rewritten, readTo, List.drop_left]
          exact hrest
      | n + 2 =>
          rw [rewritten, readTo, List.drop_length, load_blanks rfl]
          exact fun value h => by cases h
    have hnext : max s.position (rewritten part (part ++ rest) s.attempts).length =
        readTo part rest (s.attempts + 1) := by rw [hposition, readTo_succ]
    simp only [Reader.step, hstage]
    split
    · exact absurd ‹_› (hunread _)
    · exact ⟨.inl rfl, hlocked, hnext⟩
    · exact ⟨.inr ⟨_, rfl⟩, hlocked, hnext⟩
  · have hsame : Reader.step limits (rewritten part (part ++ rest)) isFile default s = s := by
      simp only [Reader.step, hstage]
    rw [hsame]
    exact ⟨.inr ⟨error, hstage⟩, hlocked, hposition⟩

/-- A reader that finds neither `part` nor the rest to be JSON does not return. -/
theorem after_fails (default : Value) (hpart : ∀ value, load limits part ≠ .ok value)
    (hrest : ∀ value, load limits rest ≠ .ok value) (steps : ℕ) :
    Fails part rest (after limits (rewritten part (part ++ rest)) true default (2 + steps)) := by
  rw [after_add 2 steps, after_two]
  induction steps with
  | zero => exact ⟨.inl rfl, rfl, rfl⟩
  | succ steps ih =>
      rw [Function.iterate_succ_apply']
      exact ih.step hpart hrest

end Fails

/-- The call returns `value` after two attempts at most, without the lock. -/
def Recovers (limits : Python.Limits) (part text : Text) (default value : Value) : Prop :=
  ∃ steps, (after limits (rewritten part text) true default steps).stage = .returned value ∧
    (after limits (rewritten part text) true default steps).attempts ≤ 2 ∧
    (after limits (rewritten part text) true default steps).lockFile = false

theorem not_returned {part rest : Text} (hpart : ∀ value, load limits part ≠ .ok value)
    (hrest : ∀ value, load limits rest ≠ .ok value) (steps : ℕ) (value : Value) :
    (after limits (rewritten part (part ++ rest)) true default steps).stage ≠ .returned value := by
  intro hreturned
  have hlater := after_of_returned hreturned 2
  have hfails := after_fails default hpart hrest steps
  rw [Nat.add_comm, hlater] at hfails
  rcases hfails.stage with hstage | ⟨error, hstage⟩
  · rw [hreturned] at hstage
    cases hstage
  · rw [hreturned] at hstage
    cases hstage

theorem not_recovers (part rest : Text) (hpart : ∀ value, load limits part ≠ .ok value)
    (hrest : ∀ value, load limits rest ≠ .ok value) (value : Value) :
    ¬Recovers limits part (part ++ rest) default value :=
  fun ⟨steps, hreturned, _⟩ => not_returned hpart hrest steps value hreturned

/-- The reader recovers from a partial write only when white space is all that it has read before
the rest, or all that is missing, and the interpreter reads the whole text. -/
theorem read_recovers_iff (limits : Python.Limits) {part text : Text} {value : Value}
    (default : Value) (hload : loads text = some value) (hvalue : value.isContainer = true)
    (hpart : part <+: text) :
    Recovers limits part text default value ↔
      (part.all isBlank = true ∨ ∃ blanks, blanks.all isBlank = true ∧ text = part ++ blanks) ∧
        load limits text = .ok value := by
  obtain ⟨rest, rfl⟩ := hpart
  cases hblank : part.all isBlank with
  | true =>
      have hrest : load limits (part ++ rest) = load limits rest := load_blanks_append hblank rest
      have hpart : load limits part = .error .jsonDecodeError := load_blanks hblank
      have hnot : ∀ value, load limits part ≠ .ok value := by
        intro value
        rw [hpart]
        exact fun h => by cases h
      by_cases hread : load limits (part ++ rest) = .ok value
      · refine iff_of_true ?_ ⟨.inl rfl, hread⟩
        refine ⟨5, ?_⟩
        rw [after_five hpart (by simpa [rewritten] using hrest.symm.trans hread)]
        exact ⟨rfl, Nat.le_refl 2, rfl⟩
      · refine iff_of_false (not_recovers _ _ hnot (fun other hother => hread ?_) value)
          fun h => hread h.2
        exact ((load_eq_ok_iff hload).mp (hrest.trans hother)).2
  | false =>
      rcases loads_parts hload hvalue hblank with ⟨hrest, hfirst⟩ | ⟨hrest, hfirst, hsecond⟩
      · have hsame : load limits (part ++ rest) = load limits part :=
          load_append_blanks hfirst hvalue hrest
        by_cases hread : load limits (part ++ rest) = .ok value
        · refine iff_of_true ⟨4, ?_⟩ ⟨.inr ⟨rest, hrest, rfl⟩, hread⟩
          have hfour : load limits (rewritten part (part ++ rest) 0) = .ok value :=
            hsame.symm.trans hread
          rw [after_four hfour]
          exact ⟨rfl, Nat.le_succ 1, rfl⟩
        · refine iff_of_false (not_recovers _ _ (fun other hother => hread ?_) ?_ value)
            fun h => hread h.2
          · exact ((load_eq_ok_iff hload).mp (hsame.trans hother)).2
          · intro other
            rw [load_blanks hrest]
            exact fun h => by cases h
      · refine iff_of_false (not_recovers _ _ (not_load hfirst) (not_load hsecond) value) ?_
        rintro ⟨h | ⟨blanks, hblanks, heq⟩, -⟩
        · cases h
        · obtain rfl := List.append_cancel_left heq
          rw [hrest] at hblanks
          cases hblanks

/-- A reader that has found the file truncated. -/
theorem read_recovers_truncated : Recovers Python.cpython [] ['{', '}'] .null (.object []) :=
  (read_recovers_iff Python.cpython .null rfl rfl ⟨['{', '}'], rfl⟩).mpr ⟨.inl rfl, rfl⟩

/-- A reader that has found the first symbol of a list does not find its end in the rest. -/
theorem read_loses_bracket :
    loads ['[', '1', ']'] = some (.array [.number ['1']]) ∧ ['['] <+: ['[', '1', ']'] ∧
      ¬Recovers Python.cpython ['['] ['[', '1', ']'] .null (.array [.number ['1']]) :=
  ⟨rfl, ⟨['1', ']'], rfl⟩,
    not_recovers ['['] ['1', ']'] (not_load rfl) (not_load rfl) _⟩

/-- In a file that does not change the first attempt decides. -/
theorem returns_iff {text : Text} {jsonContent : Value} :
    (∃ steps, (after limits (fun _ => text) true default steps).stage = .returned jsonContent) ↔
      load limits text = .ok jsonContent := by
  constructor
  · rintro ⟨steps, hreturned⟩
    by_cases hread : ∃ value, load limits text = .ok value
    · obtain ⟨value, hread⟩ := hread
      have hfour : load limits ((fun _ : ℕ => text) 0) = .ok value := hread
      have hlater := after_of_returned hreturned 4
      rw [← hlater, Nat.add_comm, after_add, after_four hfour, iterate_returned rfl] at hreturned
      cases hreturned
      exact hread
    · push Not at hread
      have hnil : ∀ value, load limits [] ≠ .ok value := by
        intro value
        rw [load_blanks rfl]
        exact fun h => by cases h
      have hsame : (fun _ : ℕ => text) = rewritten text (text ++ []) := by
        funext n
        cases n <;> simp [rewritten]
      rw [hsame] at hreturned
      exact absurd hreturned (not_returned hread hnil steps _)
  · intro hload
    have hread : load limits ((fun _ : ℕ => text) 0) = .ok jsonContent := hload
    exact ⟨4, by rw [after_four hread]⟩

end Reader

/-! ## The calls of `LockedJson` -/

variable {limits : Python.Limits}

/-- The file as `LockedJson` has it. -/
def jsonFile (limits : Python.Limits) : Option Text → JsonFile Value
  | none => .missing
  | some text =>
      match load limits text with
      | .error _ => .torn
      | .ok data => .valid data

/-- What is written is read back. -/
structure ReadBack (limits : Python.Limits) (encodeNumber : Text → Text) (data : Value) : Prop where
  writable : data.Writable limits
  load : load limits (dump encodeNumber 0 data).text = .ok data

/-- It is, without limits, when the numbers are read back. -/
theorem readBack_unlimited {encodeNumber : Text → Text} {data : Value}
    (h : data.Readable encodeNumber) : ReadBack {} encodeNumber data where
  writable := ⟨h.isJson, fun _ hbound => (by cases hbound), shortNumbers_unlimited data⟩
  load := by rw [load_unlimited, loads_dump h]

/-- What a call of `LockedJson` does next, and how the whole call ends. -/
def Agrees {ε : Type} (limits : Python.Limits) :
    JsonStage Value → Except (UpdateError ε) Unit × JsonDisk → Prop
  | .closing .notFound, (.error (.exception _), disk) =>
      jsonFile limits disk.file = .missing ∧ disk.lockFile = false
  | .writing data, (.ok (), disk) =>
      jsonFile limits disk.file = .valid data ∧ disk.lockFile = false
  | .stuck, (.error (.load _), disk) => disk.lockFile = true
  | _, _ => False

/-- An update of `LockedJson` is one whose update method makes data that is written and read
back. -/
theorem safelyUpdateJsonFile_opened (encodeNumber : Text → Text) (filename : String)
    (updateMethod : Value → Value) {file : Option Text}
    (hreadBack : ∀ data, jsonFile limits file = .valid data →
      ReadBack limits encodeNumber (updateMethod data)) :
    Agrees (ε := Empty) limits (LockedJson.opened (.update updateMethod) (jsonFile limits file))
      (safelyUpdateJsonFile limits encodeNumber filename (fun data => .ok (updateMethod data))
        ⟨file, false⟩) := by
  cases file with
  | none => exact ⟨rfl, rfl⟩
  | some text =>
      cases hload : load limits text with
      | error error =>
          rw [update_unread hload, jsonFile, hload]
          exact rfl
      | ok data =>
          have hfile : jsonFile limits (some text) = .valid data := by rw [jsonFile, hload]
          have hdata := hreadBack data hfile
          have hupdated : (fun data => (.ok (updateMethod data) : Except Empty Value)) data =
              .ok (updateMethod data) := rfl
          rw [update_done hload hupdated hdata.writable, hfile]
          refine ⟨?_, rfl⟩
          rw [jsonFile, hdata.load]

theorem read_opened {text : Text} {default jsonContent : Value} :
    LockedJson.opened (.read default) (jsonFile limits (some text)) =
        .closing (.content jsonContent) ↔
      ∃ steps, (Reader.after limits (fun _ => text) true default steps).stage =
        .returned jsonContent := by
  rw [Reader.returns_iff, jsonFile]
  cases load limits text <;> simp [LockedJson.opened]

end ComputeWebApp.Api
