import ComputeWebApp.Library.Dictionary
import ComputeWebApp.Process.JsonFiles
import ComputeWebApp.Process.Launch

/-!
# What is shown of a process

`process.post` stores the body of a request with four more members, and `filter_process` copies the
record for a client: without its private section and the file names among its parameters, and with
the content of the log in its status when it is asked for.

The copy is made in the order of the keys, which the client has chosen, and a key `log` writes into
the status instead of being copied.  The copy of a member is deep, and refuses one that is nested
too deep.  A stored record can be shown if and only if the client has sent no such key and no such
member and the log is readable text (`filter_process_iff`).  The list of all processes is made
without log content, and only the nesting is in its way (`exists_search`).
-/

namespace ComputeWebApp.Api.FilterProcess

open Json
open Python (Within)

/-- A JSON object as a dictionary. -/
abbrev Record := Dictionary Str Value

/-! ## Posting -/

inductive PostError
  | keyError
  /-- The process definition cannot be read. -/
  | definition
  | response (message : Str) (status : ℕ)

/-- The server: its result directory, and the names of the parameters of a process definition. -/
structure PostServer where
  resultPath : String
  definitions : Str → Option (List Str)

/-- The parameters of a body, which are empty when they are absent or not a dictionary. -/
def parametersOf (body : Record) : List (Str × Value) :=
  match body.get? (keyOf "parameters") with
  | some (.object parameters) => parameters
  | _ => []

def initialStatus : Value :=
  .object [(keyOf "running", .bool false), (keyOf "done", .bool false),
    (keyOf "progress", .number ['0']), (keyOf "errors", .array [])]

def logFilename (server : PostServer) (processId : String) : Str :=
  keyOf (pathJoin server.resultPath (processId ++ ".log"))

/-- `body["parameters"] = {}`, unless it is a dictionary. -/
def withParameters (body : Record) : Record :=
  match body.get? (keyOf "parameters") with
  | some (.object _) => body
  | _ => body.set (keyOf "parameters") (.object [])

/-- What `process.post` stores for the id and the time that it has drawn. -/
def post (server : PostServer) (processId : String) (postTime : Str) (body : Record) :
    Except PostError Record :=
  match body.get? (keyOf "version"), body.get? (keyOf "process_definition_id"),
      body.get? (keyOf "data_id") with
  | some _, some processDefinitionId, some _ =>
      let body := withParameters body
      let definition := match processDefinitionId with
        | .string codes => server.definitions codes
        | _ => none
      match definition with
      | none => .error .definition
      | some processParameters =>
          let missing := processParameters.filter fun key =>
            (lookupMember (parametersOf body) key).isNone
          if 0 < missing.length then
            .error (.response
              (keyOf "Missing parameters : " ++ (keyOf ", ").intercalate missing) 500)
          else
            .ok ((((body.set (keyOf "id") (.string (keyOf processId))).set
              (keyOf "post_time") (.string postTime)).set
              (keyOf "status") initialStatus).set
              (keyOf "private")
                (.object [(keyOf "log_filename", .string (logFilename server processId))]))
  | _, _, _ => .error .keyError

/-! ## Showing -/

inductive FilterError
  | keyError
  | typeError
  | attributeError
  | osError
  | unicodeDecodeError
  | recursionError
  deriving DecidableEq

/-- A log file: it cannot be opened, is no text, or is a text. -/
inductive LogFile
  | unreadable
  | undecodable
  | text (content : Str)

/-- `open` and `read` -/
def LogFile.read : LogFile → Except FilterError Str
  | unreadable => .error .osError
  | undecodable => .error .unicodeDecodeError
  | text content => .ok content

/-- `process["private"]["log_filename"]` -/
def recordLogFilename (process : Record) : Except FilterError Str :=
  match process.get? (keyOf "private") with
  | none => .error .keyError
  | some (.object privateSection) =>
      match lookupMember privateSection (keyOf "log_filename") with
      | none => .error .keyError
      | some (.string name) => .ok name
      | some _ => .error .typeError
  | some _ => .error .typeError

/-- `result["status"]["log"] = content` -/
def setLog (content : Str) (result : Record) : Except FilterError Record :=
  match result.get? (keyOf "status") with
  | none => .error .keyError
  | some (.object status) =>
      .ok (result.set (keyOf "status") (.object (setMember status (keyOf "log") (.string content))))
  | some _ => .error .typeError

/-- Remove a file name from the parameters. -/
def popParameter (name : String) (result : Record) : Except FilterError Record :=
  match result.get? (keyOf "parameters") with
  | none => .error .keyError
  | some parameters =>
      match containsString (keyOf name) parameters with
      | none => .error .typeError
      | some false => .ok result
      | some true =>
          match parameters with
          | .object members =>
              .ok (result.set (keyOf "parameters")
                (.object (members.filter fun member => member.1 ≠ keyOf name)))
          | .array _ => .error .typeError
          | _ => .error .attributeError

section Filter

variable (limits : Python.Limits) (logs : Str → LogFile) (withLogContent : Bool) (process : Record)

/-- `copy.deepcopy` -/
def deepcopy (value : Value) : Except FilterError Value :=
  if Within limits.copyDepth value.depth then .ok value else .error .recursionError

/-- The body of the loop over the keys. -/
def copyKey (result : Record) (member : Str × Value) : Except FilterError Record :=
  if member.1 = keyOf "private" then .ok result
  else if member.1 = keyOf "log" ∧ withLogContent then do
    let name ← recordLogFilename process
    setLog (← (logs name).read) result
  else do
    let value ← deepcopy limits member.2
    .ok (result.set member.1 value)

/-- The log that is added after the loop; an `OSError` is caught. -/
def addLog (result : Record) : Except FilterError Record :=
  if withLogContent then do
    let name ← recordLogFilename process
    match (logs name).read with
    | .ok content => setLog content result
    | .error .osError => setLog [] result
    | .error error => .error error
  else setLog [] result

/-- `filter_process` -/
def filterProcess : Except FilterError Record := do
  let result ← process.members.foldlM (copyKey limits logs withLogContent process) .empty
  let result ← addLog logs withLogContent process result
  let result ← popParameter "data_file" result
  popParameter "result_file" result

/-- What `search` shows of the stored records. -/
def search (processes : List (Str × Record)) : Except FilterError (List Record) :=
  processes.mapM fun stored =>
    filterProcess limits logs false (stored.2.set (keyOf "id") (.string stored.1))

end Filter

/-! ## What may be shown -/

/-- The log that is shown: empty when it is not asked for or cannot be opened. -/
def shownLog (logs : Str → LogFile) (withLogContent : Bool) (name : Str) : Str :=
  match withLogContent, logs name with
  | true, .text content => content
  | _, _ => []

/-- The record without what is private, with its log in the status. -/
structure Shown (logs : Str → LogFile) (withLogContent : Bool) (name : Str)
    (process result : Record) : Prop where
  noPrivate : result.get? (keyOf "private") = none
  parameters : ∃ stored shown, process.get? (keyOf "parameters") = some (.object stored) ∧
    result.get? (keyOf "parameters") = some (.object shown) ∧
    ∀ key, lookupMember shown key =
      if key = keyOf "data_file" ∨ key = keyOf "result_file" then none else lookupMember stored key
  status : ∃ stored shown, process.get? (keyOf "status") = some (.object stored) ∧
    result.get? (keyOf "status") = some (.object shown) ∧
    ∀ key, lookupMember shown key =
      if key = keyOf "log" then some (.string (shownLog logs withLogContent name))
      else lookupMember stored key
  others : ∀ key, key ≠ keyOf "private" → key ≠ keyOf "parameters" → key ≠ keyOf "status" →
    result.get? key = process.get? key

/-- What `filter_process` relies on in a record whose log has the name `name`. -/
structure Stored (name : Str) (process : Record) : Prop where
  privateSection : process.get? (keyOf "private") =
    some (.object [(keyOf "log_filename", .string name)])
  status : ∃ status, process.get? (keyOf "status") = some (.object status)
  parameters : ∃ parameters, process.get? (keyOf "parameters") = some (.object parameters)

/-- What is shown of a record is nested no deeper than `copy.deepcopy` goes. -/
def Copyable (limits : Python.Limits) (process : Record) : Prop :=
  ∀ key value, process.get? key = some value → key ≠ keyOf "private" →
    Within limits.copyDepth value.depth

/-- The keys to which `post` assigns. -/
def assignedKeys : List Str :=
  [keyOf "id", keyOf "post_time", keyOf "status", keyOf "private"]

/-- The status of a new process and the members of a body that stay in the record are nested no
deeper than `copy.deepcopy` goes. -/
def Shallow (limits : Python.Limits) (body : Record) : Prop :=
  Within limits.copyDepth initialStatus.depth ∧
    ∀ key value, (withParameters body).get? key = some value → key ∉ assignedKeys →
      Within limits.copyDepth value.depth

section Post

variable {server : PostServer} {processId : String} {postTime : Str} {body process : Record}

theorem get?_withParameters (body : Record) :
    ∃ parameters, (withParameters body).get? (keyOf "parameters") = some (.object parameters) := by
  unfold withParameters
  split
  · rename_i parameters h
    exact ⟨parameters, h⟩
  · exact ⟨[], Dictionary.get?_set_self⟩

theorem get?_withParameters_of_ne {key : Str} (h : key ≠ keyOf "parameters") :
    (withParameters body).get? key = body.get? key := by
  unfold withParameters
  split
  · rfl
  · exact Dictionary.get?_set_of_ne h

theorem post_eq (h : post server processId postTime body = .ok process) :
    process = (((((withParameters body).set (keyOf "id") (.string (keyOf processId))).set
      (keyOf "post_time") (.string postTime)).set (keyOf "status") initialStatus).set
      (keyOf "private")
        (.object [(keyOf "log_filename", .string (logFilename server processId))])) := by
  unfold post at h
  split at h
  · dsimp only at h
    split at h
    · cases h
    · split_ifs at h
      cases h
      rfl
  · cases h

/-- A body that is accepted is stored with all that `filter_process` relies on. -/
theorem stored_post (h : post server processId postTime body = .ok process) :
    Stored (logFilename server processId) process := by
  rw [post_eq h]
  obtain ⟨parameters, hparameters⟩ := get?_withParameters body
  refine ⟨Dictionary.get?_set_self, ?_, parameters, ?_⟩
  · exact ⟨_, (Dictionary.get?_set_of_ne (by simp [keyOf_inj])).trans Dictionary.get?_set_self⟩
  · simpa [Dictionary.get?_set, keyOf_inj] using hparameters

theorem get?_log_post (h : post server processId postTime body = .ok process) :
    process.get? (keyOf "log") = body.get? (keyOf "log") := by
  have hbody : (withParameters body).get? (keyOf "log") = body.get? (keyOf "log") :=
    get?_withParameters_of_ne (by simp [keyOf_inj])
  rw [post_eq h, ← hbody]
  simp [Dictionary.get?_set, keyOf_inj]

theorem get?_post_of_notMem (h : post server processId postTime body = .ok process) {key : Str}
    (hkey : key ∉ assignedKeys) : process.get? key = (withParameters body).get? key := by
  simp only [assignedKeys, List.mem_cons, List.not_mem_nil, or_false, not_or] at hkey
  obtain ⟨hid, htime, hstatus, hprivate⟩ := hkey
  rw [post_eq h, Dictionary.get?_set_of_ne hprivate, Dictionary.get?_set_of_ne hstatus,
    Dictionary.get?_set_of_ne htime, Dictionary.get?_set_of_ne hid]

theorem get?_status_post (h : post server processId postTime body = .ok process) :
    process.get? (keyOf "status") = some initialStatus := by
  rw [post_eq h, Dictionary.get?_set_of_ne (by simp [keyOf_inj]), Dictionary.get?_set_self]

/-- What is nested too deep in the record comes from the body. -/
theorem copyable_post_iff {limits : Python.Limits}
    (h : post server processId postTime body = .ok process) :
    Copyable limits process ↔ Shallow limits body := by
  constructor
  · intro hcopyable
    refine ⟨hcopyable _ _ (get?_status_post h) (by simp [keyOf_inj]), fun key value hvalue hkey => ?_⟩
    refine hcopyable key value ((get?_post_of_notMem h hkey).trans hvalue) ?_
    rintro rfl
    exact hkey (by simp [assignedKeys])
  · rintro ⟨hstatus, hshallow⟩ key value hvalue hprivate
    by_cases hkey : key ∈ assignedKeys
    · simp only [assignedKeys, List.mem_cons, List.not_mem_nil, or_false] at hkey
      obtain rfl | rfl | rfl | rfl := hkey
      · rw [post_eq h, Dictionary.get?_set_of_ne (by simp [keyOf_inj]),
          Dictionary.get?_set_of_ne (by simp [keyOf_inj]),
          Dictionary.get?_set_of_ne (by simp [keyOf_inj]), Dictionary.get?_set_self] at hvalue
        cases hvalue
        exact Python.within_zero _
      · rw [post_eq h, Dictionary.get?_set_of_ne (by simp [keyOf_inj]),
          Dictionary.get?_set_of_ne (by simp [keyOf_inj]), Dictionary.get?_set_self] at hvalue
        cases hvalue
        exact Python.within_zero _
      · rw [get?_status_post h] at hvalue
        cases hvalue
        exact hstatus
      · exact absurd rfl hprivate
    · exact hshallow key value ((get?_post_of_notMem h hkey).symm.trans hvalue) hkey

end Post

/-! ## The steps of the filter -/

section Steps

variable {limits : Python.Limits} {logs : Str → LogFile} {withLogContent : Bool} {name : Str}
  {process result : Record}

theorem lookupMember_setMember {members : List (Str × Value)} {key key' : Str} {value : Value} :
    lookupMember (setMember members key value) key' =
      if key' = key then some value else lookupMember members key' :=
  Dictionary.lookup_insert

theorem lookupMember_filter {members : List (Str × Value)} {key : Str} (p : Str → Bool) :
    lookupMember (members.filter fun member => p member.1) key =
      if p key = true then lookupMember members key else none :=
  Dictionary.lookup_filter p

theorem recordLogFilename_of_stored (h : Stored name process) :
    recordLogFilename process = .ok name := by
  simp [recordLogFilename, h.privateSection, lookupMember]

/-- A member that is shown and not nested too deep is copied. -/
theorem copyKey_eq {member : Str × Value} (hprivate : member.1 ≠ keyOf "private")
    (hlog : ¬(member.1 = keyOf "log" ∧ withLogContent = true))
    (hdepth : Within limits.copyDepth member.2.depth) :
    copyKey limits logs withLogContent process result member =
      .ok (result.set member.1 member.2) := by
  rw [copyKey, if_neg hprivate, if_neg hlog, deepcopy, if_pos hdepth]
  rfl

/-- A loop that meets no key `log` with log content copies all members but the private one. -/
theorem foldlM_copyKey {members : List (Str × Value)}
    (hlog : ∀ member ∈ members, ¬(member.1 = keyOf "log" ∧ withLogContent = true))
    (hdepth : ∀ member ∈ members, member.1 ≠ keyOf "private" →
      Within limits.copyDepth member.2.depth) :
    members.foldlM (copyKey limits logs withLogContent process) result =
      .ok ((members.filter fun member => decide (member.1 ≠ keyOf "private")).foldl
        (fun d member => d.set member.1 member.2) result) := by
  induction members generalizing result with
  | nil => rfl
  | cons member members ih =>
      obtain ⟨hmember, hmembers⟩ := List.forall_mem_cons.mp hlog
      obtain ⟨hmemberDepth, hmembersDepth⟩ := List.forall_mem_cons.mp hdepth
      by_cases hkey : member.1 = keyOf "private"
      · have hcopy : copyKey limits logs withLogContent process result member = .ok result :=
          if_pos hkey
        rw [List.foldlM_cons, hcopy, List.filter_cons, if_neg (by simp [hkey])]
        exact ih hmembers hmembersDepth
      · rw [List.foldlM_cons, copyKey_eq hkey hmember (hmemberDepth hkey), List.filter_cons,
          if_pos (by simp [hkey]), List.foldl_cons]
        exact ih hmembers hmembersDepth

theorem Copyable.members (h : Copyable limits process) :
    ∀ member ∈ process.members, member.1 ≠ keyOf "private" →
      Within limits.copyDepth member.2.depth :=
  fun member hmember => h member.1 member.2 ((Dictionary.lookup_eq_some_iff process.nodup).mpr hmember)

/-- The copy of a record. -/
theorem exists_copied (logs : Str → LogFile) (hcopyable : Copyable limits process)
    (h : ∀ member ∈ process.members, ¬(member.1 = keyOf "log" ∧ withLogContent = true)) :
    ∃ copied, process.members.foldlM (copyKey limits logs withLogContent process) .empty =
        .ok copied ∧
      ∀ key, copied.get? key = if key = keyOf "private" then none else process.get? key := by
  refine ⟨_, foldlM_copyKey h hcopyable.members, fun key => ?_⟩
  have hnodup : ((process.members.filter fun member =>
      decide (member.1 ≠ keyOf "private")).map Prod.fst).Nodup :=
    process.nodup.sublist (List.filter_sublist.map _)
  rw [Dictionary.get?_foldl_set hnodup, Dictionary.get?_empty, Option.or_none,
    Dictionary.lookup_filter fun key => decide (key ≠ keyOf "private")]
  by_cases hkey : key = keyOf "private" <;> simp [hkey, Dictionary.get?]

theorem setLog_eq {content : Str} {status : List (Str × Value)}
    (h : result.get? (keyOf "status") = some (.object status)) :
    setLog content result = .ok (result.set (keyOf "status")
      (.object (setMember status (keyOf "log") (.string content)))) := by
  rw [setLog, h]

/-- A log that can be shown is added to the status. -/
theorem addLog_eq (hstored : Stored name process)
    (hlog : withLogContent = true → logs name ≠ .undecodable) :
    addLog logs withLogContent process result =
      setLog (shownLog logs withLogContent name) result := by
  cases withLogContent with
  | false => rfl
  | true =>
      simp only [addLog, recordLogFilename_of_stored hstored, if_true]
      cases hfile : logs name with
      | unreadable => simp [LogFile.read, shownLog, hfile, bind, Except.bind]
      | undecodable => exact absurd hfile (hlog rfl)
      | text content => simp [LogFile.read, shownLog, hfile, bind, Except.bind]

theorem exists_popParameter {members : List (Str × Value)} (name : String)
    (h : result.get? (keyOf "parameters") = some (.object members)) :
    ∃ popped shown, popParameter name result = .ok popped ∧
      popped.get? (keyOf "parameters") = some (.object shown) ∧
      (∀ key, lookupMember shown key =
        if key = keyOf name then none else lookupMember members key) ∧
      ∀ key, key ≠ keyOf "parameters" → popped.get? key = result.get? key := by
  cases hlookup : lookupMember members (keyOf name) with
  | none =>
      refine ⟨result, members, by simp [popParameter, h, containsString, hlookup], h, ?_,
        fun _ _ => rfl⟩
      intro key
      by_cases hkey : key = keyOf name
      · rw [if_pos hkey, hkey, hlookup]
      · rw [if_neg hkey]
  | some value =>
      refine ⟨_, _, by simp only [popParameter, h, containsString, hlookup]; rfl,
        Dictionary.get?_set_self, ?_, fun _ => Dictionary.get?_set_of_ne⟩
      intro key
      rw [lookupMember_filter fun key => decide (key ≠ keyOf name)]
      by_cases hkey : key = keyOf name <;> simp [hkey]

/-- A copied record is completed to what may be shown. -/
theorem exists_shown (logs : Str → LogFile) (withLogContent : Bool)
    (hstored : Stored name process) (hcopyable : Copyable limits process)
    (hkeys : ∀ member ∈ process.members, ¬(member.1 = keyOf "log" ∧ withLogContent = true))
    (hlog : withLogContent = true → logs name ≠ .undecodable) :
    ∃ result, filterProcess limits logs withLogContent process = .ok result ∧
      Shown logs withLogContent name process result := by
  obtain ⟨copied, hcopied, hget⟩ := exists_copied logs hcopyable hkeys
  obtain ⟨status, hstatus⟩ := hstored.status
  obtain ⟨parameters, hparameters⟩ := hstored.parameters
  let logged := copied.set (keyOf "status")
    (.object (setMember status (keyOf "log") (.string (shownLog logs withLogContent name))))
  have hlogged : addLog logs withLogContent process copied = .ok logged := by
    rw [addLog_eq hstored hlog, setLog_eq]
    rw [hget, if_neg (by simp [keyOf_inj]), hstatus]
  have hlogged_parameters : logged.get? (keyOf "parameters") = some (.object parameters) := by
    rw [Dictionary.get?_set_of_ne (by simp [keyOf_inj]), hget, if_neg (by simp [keyOf_inj]),
      hparameters]
  obtain ⟨popped, rest, hpop, hpopped, hrest, hothers⟩ :=
    exists_popParameter "data_file" hlogged_parameters
  obtain ⟨result, shown, hpop', hresult, hshown, hothers'⟩ :=
    exists_popParameter "result_file" hpopped
  have hkept (key : Str) (hne : key ≠ keyOf "parameters") : result.get? key = logged.get? key :=
    (hothers' key hne).trans (hothers key hne)
  refine ⟨result, ?_, ?_, ⟨parameters, shown, hparameters, hresult, ?_⟩, ⟨status, _, hstatus, ?_,
    fun _ => lookupMember_setMember⟩, ?_⟩
  · simp only [filterProcess, hcopied, hlogged, hpop, bind, Except.bind]
    exact hpop'
  · rw [hkept _ (by simp [keyOf_inj]), Dictionary.get?_set_of_ne (by simp [keyOf_inj]), hget,
      if_pos rfl]
  · intro key
    rw [hshown, hrest]
    by_cases hdata : key = keyOf "data_file" <;> simp [hdata]
  · rw [hkept _ (by simp [keyOf_inj])]
    exact Dictionary.get?_set_self
  · intro key hprivate hparameters_ne hstatus_ne
    rw [hkept key hparameters_ne, Dictionary.get?_set_of_ne hstatus_ne, hget, if_neg hprivate]

theorem Stored.set_id (h : Stored name process) (id : Value) :
    Stored name (process.set (keyOf "id") id) := by
  obtain ⟨status, hstatus⟩ := h.status
  obtain ⟨parameters, hparameters⟩ := h.parameters
  refine ⟨?_, ⟨status, ?_⟩, ⟨parameters, ?_⟩⟩
  · rw [Dictionary.get?_set_of_ne (by simp [keyOf_inj]), h.privateSection]
  · rw [Dictionary.get?_set_of_ne (by simp [keyOf_inj]), hstatus]
  · rw [Dictionary.get?_set_of_ne (by simp [keyOf_inj]), hparameters]

theorem Copyable.set_id (h : Copyable limits process) (id : Str) :
    Copyable limits (process.set (keyOf "id") (.string id)) := by
  intro key value hvalue
  rw [Dictionary.get?_set] at hvalue
  split_ifs at hvalue
  · cases hvalue
    exact fun _ => Python.within_zero _
  · exact h key value hvalue

/-- The list of the processes is shown without log content, and so for all bodies that are not
nested too deep. -/
theorem exists_search {processes : List (Str × Record)}
    (h : ∀ stored ∈ processes, Copyable limits stored.2 ∧ ∃ name, Stored name stored.2) :
    ∃ results, search limits logs processes = .ok results ∧
      List.Forall₂ (fun stored result => ∃ name,
        Shown logs false name (stored.2.set (keyOf "id") (.string stored.1)) result)
        processes results := by
  induction processes with
  | nil => exact ⟨[], rfl, .nil⟩
  | cons stored processes ih =>
      obtain ⟨⟨hcopyable, name, hstored⟩, hrest⟩ := List.forall_mem_cons.mp h
      obtain ⟨result, hresult, hshown⟩ := exists_shown logs false
        (hstored.set_id (.string stored.1)) (hcopyable.set_id stored.1)
        (fun _ _ hkey => Bool.false_ne_true hkey.2) nofun
      obtain ⟨results, hresults, hall⟩ := ih hrest
      refine ⟨result :: results, ?_, .cons ⟨name, hshown⟩ hall⟩
      rw [search] at hresults
      rw [search, List.mapM_cons, hresult, hresults]
      rfl

/-! ## A key `log` -/

theorem get?_log_setLog {content : Str} {logged : Record} (h : setLog content result = .ok logged) :
    logged.get? (keyOf "log") = result.get? (keyOf "log") := by
  unfold setLog at h
  split at h
  · cases h
  · cases h
    exact Dictionary.get?_set_of_ne (by simp [keyOf_inj])
  · cases h

theorem get?_log_popParameter {name : String} {popped : Record}
    (h : popParameter name result = .ok popped) :
    popped.get? (keyOf "log") = result.get? (keyOf "log") := by
  unfold popParameter at h
  split at h
  · cases h
  · split at h
    · cases h
    · cases h
      rfl
    · split at h
      · cases h
        exact Dictionary.get?_set_of_ne (by simp [keyOf_inj])
      · cases h
      · cases h

theorem bind_eq_ok {ε α β : Type} {first : Except ε α} {next : α → Except ε β} {value : β}
    (h : (first >>= next) = .ok value) :
    ∃ middle, first = .ok middle ∧ next middle = .ok value := by
  cases first with
  | error error => cases h
  | ok middle => exact ⟨middle, rfl, h⟩

/-- No member is copied to the key `log` when the log content is asked for. -/
theorem get?_log_copyKey {member : Str × Value} {copied : Record}
    (h : copyKey limits logs true process result member = .ok copied) :
    copied.get? (keyOf "log") = result.get? (keyOf "log") := by
  unfold copyKey at h
  split_ifs at h with hprivate hkey
  · cases h
    rfl
  · obtain ⟨name, -, h⟩ := bind_eq_ok h
    obtain ⟨content, -, h⟩ := bind_eq_ok h
    exact get?_log_setLog h
  · obtain ⟨value, -, h⟩ := bind_eq_ok h
    cases h
    exact Dictionary.get?_set_of_ne fun heq => hkey ⟨heq.symm, rfl⟩

theorem get?_log_foldlM {members : List (Str × Value)} {copied : Record}
    (h : members.foldlM (copyKey limits logs true process) result = .ok copied) :
    copied.get? (keyOf "log") = result.get? (keyOf "log") := by
  induction members generalizing result with
  | nil =>
      cases h
      rfl
  | cons member members ih =>
      obtain ⟨next, hnext, hrest⟩ := bind_eq_ok h
      rw [ih hrest, get?_log_copyKey hnext]

theorem log_of_addLog {logged : Record} (hstored : Stored name process)
    (h : addLog logs true process result = .ok logged) :
    logs name ≠ .undecodable ∧ ∃ content, setLog content result = .ok logged := by
  simp only [addLog, if_true, recordLogFilename_of_stored hstored, bind, Except.bind] at h
  cases hfile : logs name with
  | unreadable =>
      rw [hfile] at h
      exact ⟨nofun, _, h⟩
  | undecodable =>
      rw [hfile] at h
      cases h
  | text content =>
      rw [hfile] at h
      exact ⟨nofun, _, h⟩

/-- With log content, a record is shown only when its log is a text or cannot be opened, and never
with a member `log`. -/
theorem log_of_filterProcess (hstored : Stored name process)
    (h : filterProcess limits logs true process = .ok result) :
    logs name ≠ .undecodable ∧ result.get? (keyOf "log") = none := by
  obtain ⟨copied, hcopied, h⟩ := bind_eq_ok h
  obtain ⟨logged, hlogged, h⟩ := bind_eq_ok h
  obtain ⟨popped, hpopped, hresult⟩ := bind_eq_ok h
  obtain ⟨hlog, content, hset⟩ := log_of_addLog hstored hlogged
  refine ⟨hlog, ?_⟩
  calc
    result.get? (keyOf "log") = popped.get? (keyOf "log") := get?_log_popParameter hresult
    _ = logged.get? (keyOf "log") := get?_log_popParameter hpopped
    _ = copied.get? (keyOf "log") := get?_log_setLog hset
    _ = (Dictionary.empty : Record).get? (keyOf "log") := get?_log_foldlM hcopied
    _ = none := rfl

/-! ## Members that are nested too deep -/

/-- Without log content every member that is not private is copied deep. -/
theorem within_of_copyKey {member : Str × Value} {copied : Record}
    (h : copyKey limits logs false process result member = .ok copied)
    (hprivate : member.1 ≠ keyOf "private") : Within limits.copyDepth member.2.depth := by
  rw [copyKey, if_neg hprivate, if_neg fun hlog => Bool.false_ne_true hlog.2] at h
  obtain ⟨value, hvalue, -⟩ := bind_eq_ok h
  unfold deepcopy at hvalue
  split at hvalue
  · assumption
  · cases hvalue

theorem within_of_foldlM {members : List (Str × Value)} {copied : Record}
    (h : members.foldlM (copyKey limits logs false process) result = .ok copied) :
    ∀ member ∈ members, member.1 ≠ keyOf "private" → Within limits.copyDepth member.2.depth := by
  induction members generalizing result with
  | nil => exact List.forall_mem_nil _
  | cons member members ih =>
      obtain ⟨next, hnext, hrest⟩ := bind_eq_ok h
      exact List.forall_mem_cons.mpr ⟨within_of_copyKey hnext, ih hrest⟩

theorem copyable_of_filterProcess (h : filterProcess limits logs false process = .ok result) :
    Copyable limits process := by
  obtain ⟨copied, hcopied, -⟩ := bind_eq_ok h
  exact fun key value hvalue => within_of_foldlM hcopied (key, value)
    ((Dictionary.lookup_eq_some_iff process.nodup).mp hvalue)

end Steps

/-- **What is shown of a process.** -/
theorem filter_process_iff (limits : Python.Limits) (server : PostServer) (processId : String)
    (postTime : Str) (body process : Record)
    (hpost : post server processId postTime body = .ok process) (logs : Str → LogFile) :
    (∀ withLogContent, ∃ result, filterProcess limits logs withLogContent process = .ok result ∧
        Shown logs withLogContent (logFilename server processId) process result) ↔
      Shallow limits body ∧ body.get? (keyOf "log") = none ∧
        logs (logFilename server processId) ≠ .undecodable := by
  have hstored := stored_post hpost
  rw [← get?_log_post hpost, ← copyable_post_iff hpost]
  constructor
  · intro h
    obtain ⟨result, hresult, hshown⟩ := h true
    obtain ⟨hlog, hnone⟩ := log_of_filterProcess hstored hresult
    obtain ⟨_, hwithout, -⟩ := h false
    refine ⟨copyable_of_filterProcess hwithout, ?_, hlog⟩
    rw [← hshown.others _ (by simp [keyOf_inj]) (by simp [keyOf_inj]) (by simp [keyOf_inj]), hnone]
  · rintro ⟨hcopyable, hnone, hlog⟩ withLogContent
    refine exists_shown logs withLogContent hstored hcopyable ?_ fun _ => hlog
    rintro member hmember ⟨hkey, -⟩
    exact Dictionary.lookup_eq_none_iff.mp hnone (hkey ▸ List.mem_map_of_mem hmember)

def oneServer : PostServer where
  resultPath := "result"
  definitions codes := if codes = keyOf "mean" then some [] else none

def meanBody : Record :=
  ⟨[(keyOf "version", .string []), (keyOf "process_definition_id", .string (keyOf "mean")),
    (keyOf "data_id", .string [])], by decide⟩

/-- All that is stored for it is shallow. -/
theorem shallow_meanBody : Shallow Python.cpython meanBody := by
  refine ⟨by decide, fun key value hvalue _ => ?_⟩
  have hmem := (Dictionary.lookup_eq_some_iff (withParameters meanBody).nodup).mp hvalue
  have hall : ∀ member ∈ (withParameters meanBody).members, Within (some 450) member.2.depth := by
    decide
  exact hall _ hmem

theorem filter_process_iff_mean :
    ∃ process, post oneServer "0" [] meanBody = .ok process ∧
      ∀ withLogContent, ∃ result,
        filterProcess Python.cpython (fun _ => .unreadable) withLogContent process = .ok result ∧
          Shown (fun _ => .unreadable) withLogContent (logFilename oneServer "0") process result :=
  ⟨_, rfl, (filter_process_iff Python.cpython oneServer "0" [] meanBody _ rfl
    fun _ => .unreadable).mpr ⟨shallow_meanBody, by decide, nofun⟩⟩

/-- A member `log` of a body writes into a status that has not been copied yet. -/
theorem log_member_raises :
    ∃ process, post oneServer "0" [] (meanBody.set (keyOf "log") (.string [])) = .ok process ∧
      filterProcess Python.cpython (fun _ => .text []) true process = .error .keyError :=
  ⟨_, rfl, rfl⟩

end ComputeWebApp.Api.FilterProcess
