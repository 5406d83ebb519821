import ComputeWebApp.Process.FilterProcess

/-!
# The process definitions that are offered

`search` lists the files of the process definitions, one entry for each.  A definition is checked by
`check_process_definition` before it is shown without its arguments; otherwise its entry has an
error.  `search_entries` says what is shown of each file.

Only a definition that has been checked can be relied on when a process is started
(`accepted_definition_launches`): its arguments have every declared parameter.  The names of the
files of the data and of the result are looked for in `args`, also on the platform that launches
`win_args`.
-/

namespace ComputeWebApp.Api.DefinitionCheck

open Json FilterProcess

/-! ## Checking -/

/-- An exception of another kind than the two that `search` names. -/
inductive Raised
  | keyError (key : Str)
  | typeError
  | attributeError
  /-- A list is indexed by one of its elements. -/
  | indexing
  /-- The file cannot be read, or its document cannot be put into a dictionary. -/
  | reading
  deriving DecidableEq

inductive CheckError
  | processDefinitionError (message : Str)
  | raised (exception : Raised)
  deriving DecidableEq

def shall (condition : Bool) (message : Str) : Except CheckError Unit :=
  if condition then .ok () else .error (.processDefinitionError message)

/-- `key in process_definition` -/
def has (definition : Record) (key : String) : Bool := (definition.get? (keyOf key)).isSome

/-- `process_definition[key]` -/
def subscript (definition : Record) (key : String) : Except CheckError Value :=
  match definition.get? (keyOf key) with
  | none => .error (.raised (.keyError (keyOf key)))
  | some value => .ok value

/-- `element in container`, for a string. -/
def contains (element : Str) (container : Value) : Except CheckError Bool :=
  match containsString element container with
  | none => .error (.raised .typeError)
  | some result => .ok result

def isList : Value → Bool
  | .array _ => true
  | _ => false

/-- `parameters[parameter]["type"]` -/
def parameterType : Value → Except CheckError Value
  | .object fields =>
      match lookupMember fields (keyOf "type") with
      | none => .error (.raised (.keyError (keyOf "type")))
      | some parameterType => .ok parameterType
  | _ => .error (.raised .typeError)

/-- `parameter_type in ["integer", "number", "string"]` -/
def isParameterType (parameterType : Value) : Bool :=
  isString (keyOf "integer") parameterType || isString (keyOf "number") parameterType ||
    isString (keyOf "string") parameterType

/-- The body of the loop over the parameters. -/
def checkParameter (args : Value) (parameter : Str × Value) : Except CheckError Unit := do
  shall (← contains (keyOf "type") parameter.2)
    (keyOf "Process definition parameter" ++ parameter.1 ++ keyOf " shall contain type element")
  shall (isParameterType (← parameterType parameter.2))
    (keyOf "Process definition parameter" ++ parameter.1 ++
      keyOf " type element shall be integer, number or string")
  shall (← contains parameter.1 args)
    (keyOf "Process definition parameter" ++ parameter.1 ++ keyOf " shall be in args list")

/-- The loop over the parameters.  A list that is not empty raises: its elements would have to be
indices, and what is there would have to have a type. -/
def checkParameters (args : Value) : Value → Except CheckError Unit
  | .object members => forM members (checkParameter args)
  | .array [] => .ok ()
  | .array (_ :: _) => .error (.raised .indexing)
  | .string [] => .ok ()
  | _ => .error (.raised .typeError)

/-- The arguments that are launched. -/
def argsKey (windows : Bool) : String := if windows then "win_args" else "args"

/-- `check_process_definition` -/
def checkProcessDefinition (windows : Bool) (definition : Record) : Except CheckError Unit := do
  shall (has definition "name") (keyOf "Process definition shall contain name element")
  shall (has definition "description")
    (keyOf "Process definition shall contain description element")
  shall (has definition "results") (keyOf "Process definition shall contain results element")
  let results ← subscript definition "results"
  shall (isList results) (keyOf "Process definition results shall be a list")
  shall (has definition "args") (keyOf "Process definition shall contain args element")
  let args ← subscript definition (argsKey windows)
  shall (isList args) (keyOf "Process definition args shall be a list")
  shall (← contains (keyOf "data_file") (← subscript definition "args"))
    (keyOf "Process definition args shall contain data_file element")
  shall (← contains (keyOf "result_file") (← subscript definition "args"))
    (keyOf "Process definition args shall contain result_file element")
  shall (has definition "parameters")
    (keyOf "Process definition shall contain parameters element")
  checkParameters args (← subscript definition "parameters")

/-! ## Searching -/

/-- What `get` makes of a file. -/
inductive Loaded
  | decodeError (message : Str)
  | raised (exception : Raised)
  | document (definition : Record)

/-- The server: its platform, whether files can be read while they are written, and the texts of
exceptions. -/
structure SearchServer where
  windows : Bool
  useH5Swmr : Bool
  describe : Raised → Str

/-- `pop(key, None)` -/
def pop (definition : Record) (key : Str) : Record where
  members := definition.members.filter fun member => member.1 ≠ key
  nodup := definition.nodup.sublist (List.filter_sublist.map Prod.fst)

/-- `process_options.remove('early_process')`, when it is there. -/
def removeEarlyProcess (definition : Record) : Except Raised Record :=
  match definition.get? (keyOf "options") with
  | none => .ok definition
  | some processOptions =>
      match containsString (keyOf "early_process") processOptions with
      | none => .error .typeError
      | some false => .ok definition
      | some true =>
          match processOptions with
          | .array items =>
              .ok (definition.set (keyOf "options")
                (.array (items.eraseP (isString (keyOf "early_process")))))
          | _ => .error .attributeError

namespace SearchServer

variable (server : SearchServer)

def withError (definition : Record) (error : Str) : Record :=
  definition.set (keyOf "error") (.string error)

def withRaised (definition : Record) (exception : Raised) : Record :=
  withError definition (keyOf "Exception : " ++ server.describe exception)

/-- The entry of a file: the body of the loop of `search`. -/
def entry (processDefinitionId : Str) (loaded : Loaded) : Record :=
  let processDefinition := Dictionary.empty.set (keyOf "id") (.string processDefinitionId)
  match loaded with
  | .decodeError message =>
      withError processDefinition (keyOf "json.JSONDecodeError : " ++ message)
  | .raised exception => server.withRaised processDefinition exception
  | .document definition =>
      let processDefinition :=
        definition.members.foldl (fun d member => d.set member.1 member.2) processDefinition
      match checkProcessDefinition server.windows processDefinition with
      | .error (.processDefinitionError message) =>
          withError processDefinition (keyOf "ProcessDefinitionError : " ++ message)
      | .error (.raised exception) => server.withRaised processDefinition exception
      | .ok () =>
          let processDefinition := pop processDefinition (keyOf "args")
          if server.useH5Swmr then processDefinition
          else
            match removeEarlyProcess processDefinition with
            | .error exception => server.withRaised processDefinition exception
            | .ok processDefinition => processDefinition

end SearchServer

/-- The id of a file, unless `search` skips it. -/
def definitionId (filename : Str) : Option Str :=
  if filename.length < 4 ∨ ¬keyOf ".json" <:+ filename then none
  else some (filename.take (filename.length - 5))

/-- `search`, for the names in the directory and what `get` makes of each id. -/
def search (server : SearchServer) (filenames : List Str) (get : Str → Loaded) : List Record :=
  (filenames.filterMap definitionId).map fun id => server.entry id (get id)

/-! ## What is accepted -/

/-- A parameter has a type, and is an argument. -/
def ParameterDeclared (args : List Value) (parameter : Str × Value) : Prop :=
  ∃ fields, parameter.2 = .object fields ∧
    (∃ parameterType, lookupMember fields (keyOf "type") = some parameterType ∧
      isParameterType parameterType = true) ∧
    args.any (isString parameter.1) = true

/-- The parameters are a dictionary of such parameters, or an empty list or string. -/
def ParametersDeclared (args : List Value) : Value → Prop
  | .object members => ∀ parameter ∈ members, ParameterDeclared args parameter
  | .array items => items = []
  | .string codes => codes = []
  | _ => False

/-- **A definition that conforms.**  The files are named in `args`, and the parameters in the
arguments of the platform. -/
structure WellFormed (windows : Bool) (definition : Record) : Prop where
  name : (definition.get? (keyOf "name")).isSome = true
  description : (definition.get? (keyOf "description")).isSome = true
  results : ∃ items, definition.get? (keyOf "results") = some (.array items)
  files : ∃ args, definition.get? (keyOf "args") = some args ∧
    containsString (keyOf "data_file") args = some true ∧
    containsString (keyOf "result_file") args = some true
  parameters : ∃ args parameters,
    definition.get? (keyOf (argsKey windows)) = some (.array args) ∧
    definition.get? (keyOf "parameters") = some parameters ∧ ParametersDeclared args parameters

section Check

variable {α β : Type} {definition : Record} {windows : Bool} {args : List Value}

theorem bind_eq_ok_iff {x : Except CheckError α} {f : α → Except CheckError β} {b : β} :
    (x >>= f) = .ok b ↔ ∃ a, x = .ok a ∧ f a = .ok b := by
  cases x <;> simp [bind, Except.bind]

theorem shall_eq_ok_iff {condition : Bool} {message : Str} {result : Unit} :
    shall condition message = .ok result ↔ condition = true := by
  cases condition <;> simp [shall]

theorem subscript_eq_ok_iff {key : String} {value : Value} :
    subscript definition key = .ok value ↔ definition.get? (keyOf key) = some value := by
  rw [subscript]
  cases definition.get? (keyOf key) <;> simp

theorem contains_eq_ok_iff {element : Str} {container : Value} {result : Bool} :
    contains element container = .ok result ↔ containsString element container = some result := by
  rw [contains]
  cases containsString element container <;> simp

theorem isList_iff {value : Value} : isList value = true ↔ ∃ items, value = .array items := by
  cases value <;> simp [isList]

theorem checkParameter_eq_ok_iff {parameter : Str × Value} :
    checkParameter (.array args) parameter = .ok () ↔ ParameterDeclared args parameter := by
  obtain ⟨name, value⟩ := parameter
  simp only [checkParameter, bind_eq_ok_iff, shall_eq_ok_iff, contains_eq_ok_iff, exists_and_left,
    exists_const, ParameterDeclared]
  constructor
  · rintro ⟨_, hcontains, rfl, value', htype, hright, _, hargs, rfl⟩
    cases value with
    | object fields =>
        refine ⟨fields, rfl, ⟨value', ?_, hright⟩, Option.some.inj hargs⟩
        rw [parameterType] at htype
        split at htype
        · cases htype
        · rename_i hlookup
          rw [hlookup, Except.ok.inj htype]
    | _ => cases htype
  · rintro ⟨fields, rfl, ⟨value', hlookup, hright⟩, hargs⟩
    refine ⟨true, ?_, rfl, value', ?_, hright, true, congrArg some hargs, rfl⟩
    · rw [containsString, hlookup]
      rfl
    · rw [parameterType, hlookup]

theorem forM_eq_ok_iff {entries : List α} {check : α → Except CheckError Unit} :
    forM entries check = .ok () ↔ ∀ entry ∈ entries, check entry = .ok () := by
  induction entries with
  | nil => simp [pure, Except.pure]
  | cons entry entries ih =>
      rw [List.forM_cons, bind_eq_ok_iff, List.forall_mem_cons, ← ih]
      constructor
      · rintro ⟨⟨⟩, hentry, hrest⟩
        exact ⟨hentry, hrest⟩
      · rintro ⟨hentry, hrest⟩
        exact ⟨(), hentry, hrest⟩

theorem checkParameters_eq_ok_iff {parameters : Value} :
    checkParameters (.array args) parameters = .ok () ↔ ParametersDeclared args parameters := by
  cases parameters with
  | object members =>
      rw [checkParameters, forM_eq_ok_iff, ParametersDeclared]
      exact forall₂_congr fun _ _ => checkParameter_eq_ok_iff
  | array items => cases items <;> simp [checkParameters, ParametersDeclared]
  | string codes => cases codes <;> simp [checkParameters, ParametersDeclared]
  | _ => simp [checkParameters, ParametersDeclared]

/-- A definition is accepted if and only if it conforms. -/
theorem checkProcessDefinition_eq_ok_iff :
    checkProcessDefinition windows definition = .ok () ↔ WellFormed windows definition := by
  simp only [checkProcessDefinition, bind_eq_ok_iff, shall_eq_ok_iff, contains_eq_ok_iff,
    subscript_eq_ok_iff, has, exists_and_left, exists_const]
  constructor
  · rintro ⟨hname, hdescription, -, results, hresults, hlist, -, args, hargs, hargsList, files,
      hfiles, _, hdata, rfl, files', hfiles', _, hresult, rfl, -, parameters, hparameters, hcheck⟩
    obtain ⟨items, rfl⟩ := isList_iff.mp hlist
    obtain ⟨args, rfl⟩ := isList_iff.mp hargsList
    obtain rfl := Option.some.inj (hfiles.symm.trans hfiles')
    exact ⟨hname, hdescription, ⟨items, hresults⟩, ⟨files, hfiles, hdata, hresult⟩,
      args, parameters, hargs, hparameters, checkParameters_eq_ok_iff.mp hcheck⟩
  · rintro ⟨hname, hdescription, ⟨items, hresults⟩, ⟨files, hfiles, hdata, hresult⟩, args,
      parameters, hargs, hparameters, hdeclared⟩
    refine ⟨hname, hdescription, ?_, _, hresults, rfl, ?_, _, hargs, rfl, files, hfiles, true, hdata,
      rfl, files, hfiles, true, hresult, rfl, ?_, parameters, hparameters,
      checkParameters_eq_ok_iff.mpr hdeclared⟩
    · rw [hresults]
      rfl
    · rw [hfiles]
      rfl
    · rw [hparameters]
      rfl

end Check

/-! ## What is shown -/

/-- The options can be searched for `early_process`, and it can be removed from them. -/
def OptionsRemovable (definition : Record) : Prop :=
  ∀ processOptions ∈ definition.get? (keyOf "options"),
    containsString (keyOf "early_process") processOptions = some false ∨
      isList processOptions = true

/-- The definition is shown. -/
def Accepted (server : SearchServer) (definition : Record) : Prop :=
  WellFormed server.windows definition ∧
    (server.useH5Swmr = false → OptionsRemovable definition)

/-- The options without `early_process`; a second one stays. -/
def withoutEarlyProcess : Value → Value
  | .array items => .array (items.eraseP (isString (keyOf "early_process")))
  | processOptions => processOptions

/-- The entry shows the definition without its arguments. -/
structure Shows (server : SearchServer) (processDefinitionId : Str) (definition entry : Record) :
    Prop where
  args : entry.get? (keyOf "args") = none
  id : entry.get? (keyOf "id") =
    some ((definition.get? (keyOf "id")).getD (.string processDefinitionId))
  options : entry.get? (keyOf "options") =
    if server.useH5Swmr = true then definition.get? (keyOf "options")
    else (definition.get? (keyOf "options")).map withoutEarlyProcess
  others : ∀ key, key ≠ keyOf "args" → key ≠ keyOf "id" → key ≠ keyOf "options" →
    entry.get? key = definition.get? key

/-- The entry has an error. -/
def HasError (entry : Record) : Prop :=
  ∃ error, entry.get? (keyOf "error") = some (.string error)

/-- What is shown of a file. -/
def EntryOf (server : SearchServer) (processDefinitionId : Str) (entry : Record) : Loaded → Prop
  | .document definition =>
      (Accepted server definition → Shows server processDefinitionId definition entry) ∧
        (¬Accepted server definition → HasError entry)
  | _ => HasError entry

section Search

variable {server : SearchServer} {definition : Record} {processDefinitionId key : Str}

/-- The dictionary that is checked: the definition over its id. -/
def merged (processDefinitionId : Str) (definition : Record) : Record :=
  definition.members.foldl (fun d member => d.set member.1 member.2)
    (Dictionary.empty.set (keyOf "id") (.string processDefinitionId))

theorem get?_merged :
    (merged processDefinitionId definition).get? key =
      (definition.get? key).or
        (if key = keyOf "id" then some (.string processDefinitionId) else none) := by
  rw [merged, Dictionary.get?_foldl_set definition.nodup, Dictionary.get?_set,
    Dictionary.get?_empty]
  rfl

theorem get?_merged_of_ne (hkey : key ≠ keyOf "id") :
    (merged processDefinitionId definition).get? key = definition.get? key := by
  rw [get?_merged, if_neg hkey, Option.or_none]

/-- The id is not checked. -/
theorem WellFormed.of_get? {windows : Bool} {other : Record} (h : WellFormed windows definition)
    (hget : ∀ name, name ≠ "id" → other.get? (keyOf name) = definition.get? (keyOf name)) :
    WellFormed windows other where
  name := (congrArg Option.isSome (hget "name" (by decide))).trans h.name
  description := (congrArg Option.isSome (hget "description" (by decide))).trans h.description
  results := by
    rw [hget "results" (by decide)]
    exact h.results
  files := by
    rw [hget "args" (by decide)]
    exact h.files
  parameters := by
    have hargs : argsKey windows ≠ "id" := by cases windows <;> decide
    rw [hget "parameters" (by decide), hget _ hargs]
    exact h.parameters

theorem wellFormed_merged {windows : Bool} :
    WellFormed windows (merged processDefinitionId definition) ↔ WellFormed windows definition := by
  have hget : ∀ name : String, name ≠ "id" →
      (merged processDefinitionId definition).get? (keyOf name) = definition.get? (keyOf name) :=
    fun name hname => get?_merged_of_ne fun h => hname (keyOf_inj.mp h)
  exact ⟨fun h => h.of_get? fun name hname => (hget name hname).symm, fun h => h.of_get? hget⟩

theorem get?_pop {popped : Str} :
    (pop definition popped).get? key = if key = popped then none else definition.get? key := by
  rw [Dictionary.get?, pop, Dictionary.lookup_filter fun other => decide (other ≠ popped)]
  by_cases hkey : key = popped <;> simp [hkey, Dictionary.get?]

theorem withoutEarlyProcess_of_not_contains {processOptions : Value}
    (h : containsString (keyOf "early_process") processOptions = some false) :
    withoutEarlyProcess processOptions = processOptions := by
  cases processOptions with
  | array items =>
      have hnone : ∀ item ∈ items, ¬isString (keyOf "early_process") item = true := by
        simpa [containsString] using h
      rw [withoutEarlyProcess, List.eraseP_of_forall_not hnone]
  | _ => rfl

/-- Removing `early_process` raises, or leaves all other members. -/
theorem removeEarlyProcess_cases (definition : Record) :
    (∃ exception, removeEarlyProcess definition = .error exception ∧
      ¬OptionsRemovable definition) ∨
    (∃ entry, removeEarlyProcess definition = .ok entry ∧ OptionsRemovable definition ∧
      entry.get? (keyOf "options") =
        (definition.get? (keyOf "options")).map withoutEarlyProcess ∧
      ∀ key, key ≠ keyOf "options" → entry.get? key = definition.get? key) := by
  cases hoptions : definition.get? (keyOf "options") with
  | none =>
      refine .inr ⟨definition, ?_, ?_, ?_, fun _ _ => rfl⟩
      · rw [removeEarlyProcess, hoptions]
      · rintro processOptions hmem
        rw [hoptions] at hmem
        cases hmem
      · rw [hoptions]
        rfl
  | some processOptions =>
      have hremovable : OptionsRemovable definition ↔
          containsString (keyOf "early_process") processOptions = some false ∨
            isList processOptions = true := by
        rw [OptionsRemovable, hoptions]
        exact ⟨fun h => h _ rfl, fun h _ hmem => by cases hmem; exact h⟩
      rw [hremovable, removeEarlyProcess, hoptions]
      dsimp only
      cases hcontains : containsString (keyOf "early_process") processOptions with
      | none =>
          refine .inl ⟨_, rfl, ?_⟩
          cases processOptions <;> simp_all [containsString, isList]
      | some found =>
          cases found with
          | false =>
              refine .inr ⟨definition, rfl, .inl rfl, ?_, fun _ _ => rfl⟩
              rw [hoptions, Option.map_some, withoutEarlyProcess_of_not_contains hcontains]
          | true =>
              cases processOptions with
              | array items =>
                  exact .inr ⟨_, rfl, .inr rfl, Dictionary.get?_set_self,
                    fun _ hkey => Dictionary.get?_set_of_ne hkey⟩
              | _ => exact .inl ⟨_, rfl, by simp [isList]⟩

theorem hasError_withError (definition : Record) (error : Str) :
    HasError (SearchServer.withError definition error) :=
  ⟨error, Dictionary.get?_set_self⟩

theorem get?_popped (processDefinitionId : Str) (definition : Record) (key : Str) :
    (pop (merged processDefinitionId definition) (keyOf "args")).get? key =
      if key = keyOf "args" then none
      else (definition.get? key).or
        (if key = keyOf "id" then some (.string processDefinitionId) else none) := by
  rw [get?_pop, get?_merged]

/-- The checked definition without its arguments, with the options that are shown. -/
theorem shows_of_popped {entry : Record}
    (hoptions : entry.get? (keyOf "options") =
      if server.useH5Swmr = true then definition.get? (keyOf "options")
      else (definition.get? (keyOf "options")).map withoutEarlyProcess)
    (hothers : ∀ key, key ≠ keyOf "options" → entry.get? key =
      (pop (merged processDefinitionId definition) (keyOf "args")).get? key) :
    Shows server processDefinitionId definition entry where
  args := by rw [hothers _ (by simp [keyOf_inj]), get?_popped, if_pos rfl]
  id := by
    rw [hothers _ (by simp [keyOf_inj]), get?_popped, if_neg (by simp [keyOf_inj]), if_pos rfl]
    cases definition.get? (keyOf "id") <;> rfl
  options := hoptions
  others := by
    intro key hargs hid hkey
    rw [hothers key hkey, get?_popped, if_neg hargs, if_neg hid, Option.or_none]

theorem definitionId_eq_some_iff {filename id : Str} :
    definitionId filename = some id ↔ filename = id ++ keyOf ".json" := by
  have hlength : (keyOf ".json").length = 5 := by simp [keyOf]
  rw [definitionId]
  constructor
  · intro h
    split_ifs at h with hskipped
    rw [not_or, not_not] at hskipped
    obtain ⟨before, rfl⟩ := hskipped.2
    rw [List.length_append, hlength, Nat.add_sub_cancel, List.take_left] at h
    rw [Option.some.inj h]
  · rintro rfl
    rw [if_neg, List.length_append, hlength, Nat.add_sub_cancel, List.take_left]
    rw [not_or, not_not, List.length_append, hlength]
    exact ⟨by omega, List.suffix_append _ _⟩

theorem entryOf_entry (server : SearchServer) (processDefinitionId : Str) (loaded : Loaded) :
    EntryOf server processDefinitionId (server.entry processDefinitionId loaded) loaded := by
  cases loaded with
  | decodeError message => exact hasError_withError _ _
  | raised exception => exact hasError_withError _ _
  | document definition =>
      have hmerged : definition.members.foldl (fun d member => d.set member.1 member.2)
          (Dictionary.empty.set (keyOf "id") (.string processDefinitionId)) =
            merged processDefinitionId definition := rfl
      simp only [EntryOf, SearchServer.entry, hmerged]
      cases hcheck : checkProcessDefinition server.windows (merged processDefinitionId definition) with
      | error error =>
          have hrejected : ¬Accepted server definition := by
            rintro ⟨hformed, -⟩
            rw [checkProcessDefinition_eq_ok_iff.mpr (wellFormed_merged.mpr hformed)] at hcheck
            cases hcheck
          refine ⟨fun h => absurd h hrejected, fun _ => ?_⟩
          cases error <;> exact hasError_withError _ _
      | ok _ =>
          have hformed := wellFormed_merged.mp (checkProcessDefinition_eq_ok_iff.mp hcheck)
          have hoptions := get?_popped processDefinitionId definition (keyOf "options")
          rw [if_neg (by simp [keyOf_inj]), if_neg (by simp [keyOf_inj]), Option.or_none] at hoptions
          dsimp only
          by_cases hswmr : server.useH5Swmr = true
          · have haccepted : Accepted server definition :=
              ⟨hformed, fun hfalse => absurd (hswmr.symm.trans hfalse) (by decide)⟩
            rw [if_pos hswmr]
            refine ⟨fun _ => shows_of_popped ?_ fun _ _ => rfl, fun h => absurd haccepted h⟩
            rw [if_pos hswmr, hoptions]
          · have hfalse : server.useH5Swmr = false := by simpa using hswmr
            rw [if_neg hswmr]
            rcases removeEarlyProcess_cases (pop (merged processDefinitionId definition)
              (keyOf "args")) with
              ⟨exception, hremove, hnot⟩ | ⟨entry, hremove, hremovable, hentry, hothers⟩
            · rw [OptionsRemovable, hoptions] at hnot
              rw [hremove]
              exact ⟨fun h => absurd (h.2 hfalse) hnot, fun _ => hasError_withError _ _⟩
            · rw [OptionsRemovable, hoptions] at hremovable
              have haccepted : Accepted server definition := ⟨hformed, fun _ => hremovable⟩
              rw [hremove]
              refine ⟨fun _ => shows_of_popped ?_ hothers, fun h => absurd haccepted h⟩
              rw [if_neg hswmr, hentry, hoptions]

/-- **The list of process definitions.**  There is one entry for each file `<id>.json`, in the order
of the directory.  The definition is shown, without its arguments, if and only if the file can be
read, the definition conforms and `early_process` can be taken from its options where it has to be;
otherwise the entry has an error. -/
theorem search_entries (server : SearchServer) (filenames : List Str) (get : Str → Loaded) :
    (∀ filename id, definitionId filename = some id ↔ filename = id ++ keyOf ".json") ∧
    List.Forall₂ (fun id entry => EntryOf server id entry (get id))
      (filenames.filterMap definitionId) (search server filenames get) := by
  refine ⟨fun filename id => definitionId_eq_some_iff, ?_⟩
  rw [search, List.forall₂_map_right_iff, List.forall₂_same]
  exact fun id _ => entryOf_entry server id (get id)

end Search

/-! ## Launching what has been accepted -/

/-- The keys that a loop over the parameters takes. -/
def parameterKeys : Value → List Str
  | .object members => members.map Prod.fst
  | _ => []

/-- The document of a definition whose arguments are strings. -/
structure Denotes (server : ProcessServer) (document : Record) (definition : ProcessDefinition) :
    Prop where
  parameters : ∃ parameters, document.get? (keyOf "parameters") = some parameters ∧
    parameterKeys parameters = definition.parameters.map keyOf
  args : document.get? (keyOf (argsKey server.windows)) =
    some (.array ((server.definitionArgs definition).map fun arg => .string (keyOf arg)))

section Launch

variable {server : ProcessServer} {document : Record} {definition : ProcessDefinition}
  {body : ProcessBody} {process : Process} {processId : String}

theorem isString_keyOf (name other : String) :
    isString (keyOf name) (.string (keyOf other)) = decide (name = other) := by
  rw [isString, decide_eq_decide, keyOf_inj]
  exact eq_comm

theorem any_isString (name : String) (args : List String) :
    (args.map fun arg => Value.string (keyOf arg)).any (isString (keyOf name)) =
      decide (name ∈ args) := by
  induction args with
  | nil => rfl
  | cons other args ih =>
      rw [List.map_cons, List.any_cons, ih, isString_keyOf]
      simp [List.mem_cons]

theorem mem_of_any_isString {args : List String} {name : String}
    (h : ((args.map fun arg => Value.string (keyOf arg)).any (isString (keyOf name))) = true) :
    name ∈ args :=
  of_decide_eq_true ((any_isString name args).symm.trans h)

/-- The declared parameters are arguments. -/
theorem parameter_mem_args (hformed : WellFormed server.windows document)
    (hdenotes : Denotes server document definition) {name : String}
    (hname : name ∈ definition.parameters) : name ∈ server.definitionArgs definition := by
  obtain ⟨args, parameters, hargs, hparameters, hdeclared⟩ := hformed.parameters
  obtain ⟨parameters', hparameters', hkeys⟩ := hdenotes.parameters
  obtain rfl := Option.some.inj (hparameters.symm.trans hparameters')
  have heq := Option.some.inj (hargs.symm.trans hdenotes.args)
  have hkey : keyOf name ∈ parameterKeys parameters := hkeys ▸ List.mem_map_of_mem hname
  cases parameters with
  | object members =>
      obtain ⟨member, hmember, hmemberKey⟩ := List.mem_map.mp hkey
      obtain ⟨-, -, -, hany⟩ := hdeclared member hmember
      rw [hmemberKey, Value.array.inj heq] at hany
      exact mem_of_any_isString hany
  | _ => cases hkey

/-- The names of the files are arguments, where `args` is launched. -/
theorem files_mem_args (hformed : WellFormed server.windows document)
    (hdenotes : Denotes server document definition) (hplatform : server.windows = false) :
    "data_file" ∈ server.definitionArgs definition ∧
      "result_file" ∈ server.definitionArgs definition := by
  obtain ⟨args, hargs, hdata, hresult⟩ := hformed.files
  have hdenoted := hdenotes.args
  rw [hplatform] at hdenoted
  obtain rfl := Option.some.inj (hargs.symm.trans hdenoted)
  exact ⟨mem_of_any_isString (Option.some.inj hdata), mem_of_any_isString (Option.some.inj hresult)⟩

/-- An argument that has a value is replaced by it. -/
theorem start_of_mem (hdefinition : server.definitions process.processDefinitionId = some definition)
    {name : String} (hname : name ∈ server.definitionArgs definition) {value : ParameterValue}
    (hvalue : server.allParameters process name = some value) :
    ∃ (i : ℕ) (launch : Launch), (server.definitionArgs definition)[i]? = some name ∧
      server.start process = .ok launch ∧ launch.args[i]? = some value.str := by
  obtain ⟨i, hi⟩ := List.getElem?_of_mem hname
  have hplace : (ProcessServer.substitute (server.allParameters process)
      (server.definitionArgs definition))[i]? = some value.str := by
    rw [ProcessServer.substitute, List.getElem?_map, hi, Option.map_some, hvalue]
  cases hargs : ProcessServer.substitute (server.allParameters process)
      (server.definitionArgs definition) with
  | nil =>
      rw [hargs] at hplace
      cases hplace
  | cons first rest =>
      let cwd := pathJoin server.definitionPath process.processDefinitionId
      refine ⟨i, ⟨first :: rest, pathJoin cwd first, cwd⟩, hi, ?_, hargs ▸ hplace⟩
      rw [ProcessServer.start, hdefinition]
      dsimp only
      rw [hargs]
      rfl

/-- The parameters of an accepted body have values. -/
theorem allParameters_isSome
    (hdefinition : server.definitions body.processDefinitionId = some definition)
    (hpost : server.post processId body = .ok process) {name : String}
    (hname : name ∈ definition.parameters) :
    ∃ value, server.allParameters process name = some value := by
  have hparameters := (ProcessServer.post_eq_ok hdefinition hpost).2.2.2
  have hposted : ((body.parameters.getD fun _ => none) name).isSome = true := by
    simp only [ProcessServer.post, hdefinition] at hpost
    split at hpost
    · cases hpost
    · rename_i hnone
      have hempty : (definition.parameters.filter fun key =>
          ((body.parameters.getD fun _ => none) key).isNone) = [] :=
        List.length_eq_zero_iff.mp (by omega)
      have hmissing := List.filter_eq_nil_iff.mp hempty name hname
      rwa [Bool.not_eq_true, Option.isNone_eq_false_iff] at hmissing
  obtain ⟨value, hvalue⟩ := Option.isSome_iff_exists.mp hposted
  rw [ProcessServer.allParameters, hparameters]
  by_cases hresult : name = "result_file"
  · exact ⟨_, by rw [hresult, Function.update_self]⟩
  · rw [Function.update_of_ne hresult]
    by_cases hdata : name = "data_file"
    · exact ⟨_, by rw [hdata, Function.update_self]⟩
    · exact ⟨value, by rw [Function.update_of_ne hdata, hvalue]⟩

/-- **An accepted definition is launched with what it declares.**  Post a body for a definition that
has been checked and start it.  Each declared parameter is an argument and is replaced by its value,
and, but on the platform that launches `win_args`, so are the names of the file of the data and of
the file of the result. -/
theorem accepted_definition_launches
    (hcheck : checkProcessDefinition server.windows document = .ok ())
    (hdenotes : Denotes server document definition)
    (hdefinition : server.definitions body.processDefinitionId = some definition)
    (hpost : server.post processId body = .ok process) :
    (∀ name ∈ definition.parameters, ∃ (i : ℕ) (value : ParameterValue) (launch : Launch),
      (server.definitionArgs definition)[i]? = some name ∧
      server.allParameters process name = some value ∧
      server.start process = .ok launch ∧ launch.args[i]? = some value.str) ∧
    (server.windows = false → ∃ launch, server.start process = .ok launch ∧
      server.dataFile body.dataId ∈ launch.args ∧ server.resultFile processId ∈ launch.args) := by
  have hformed := checkProcessDefinition_eq_ok_iff.mp hcheck
  obtain ⟨hid, hdefinitionId, hdataId, -⟩ := ProcessServer.post_eq_ok hdefinition hpost
  have hstarted : server.definitions process.processDefinitionId = some definition := by
    rw [hdefinitionId, hdefinition]
  constructor
  · intro name hname
    obtain ⟨value, hvalue⟩ := allParameters_isSome hdefinition hpost hname
    obtain ⟨i, launch, hi, hstart, hplace⟩ :=
      start_of_mem hstarted (parameter_mem_args hformed hdenotes hname) hvalue
    exact ⟨i, value, launch, hi, hvalue, hstart, hplace⟩
  · intro hplatform
    obtain ⟨hdata, hresult⟩ := files_mem_args hformed hdenotes hplatform
    have hdataValue : server.allParameters process "data_file" =
        some (.text (server.dataFile body.dataId)) := by
      rw [ProcessServer.allParameters, Function.update_of_ne (by decide), Function.update_self,
        hdataId]
    have hresultValue : server.allParameters process "result_file" =
        some (.text (server.resultFile processId)) := by
      rw [ProcessServer.allParameters, Function.update_self, hid]
    obtain ⟨i, launch, -, hstart, hi⟩ := start_of_mem hstarted hdata hdataValue
    obtain ⟨j, launch', -, hstart', hj⟩ := start_of_mem hstarted hresult hresultValue
    obtain rfl := Except.ok.inj (hstart.symm.trans hstart')
    exact ⟨launch, hstart, List.mem_of_getElem? hi, List.mem_of_getElem? hj⟩

end Launch

/-- The document of a definition with one parameter. -/
def meanDocument : Record where
  members := [(keyOf "name", .string (keyOf "test 1")), (keyOf "description", .string []),
    (keyOf "parameters", .object [(keyOf "mean_factor",
      .object [(keyOf "type", .string (keyOf "number")), (keyOf "default", .number ['1', '.', '0'])])]),
    (keyOf "args", .array (["../.venv/bin/python", "app.py", "mean_factor", "data_file",
      "result_file"].map fun arg => .string (keyOf arg))),
    (keyOf "results", .array [.string (keyOf "mean")])]
  nodup := by decide +kernel

theorem accepted_definition_launches_mean_factor :
    ∃ definition process launch,
      ProcessServer.oneDefinition.definitions "process_test_1" = some definition ∧
      ProcessServer.oneDefinition.post "a1" (ProcessServer.meanRequest []) = .ok process ∧
      ProcessServer.oneDefinition.start process = .ok launch ∧
      "/srv/data/5f8fd383aeb9c925.h5" ∈ launch.args ∧ "/srv/result/a1.h5" ∈ launch.args := by
  obtain ⟨launch, hstart, hdata, hresult⟩ := (accepted_definition_launches
    (show checkProcessDefinition ProcessServer.oneDefinition.windows meanDocument = .ok () by
      decide +kernel)
    ⟨⟨_, rfl, rfl⟩, rfl⟩
    (show ProcessServer.oneDefinition.definitions
      (ProcessServer.meanRequest []).processDefinitionId = some _ from rfl)
    (show ProcessServer.oneDefinition.post "a1" (ProcessServer.meanRequest []) = .ok _ from rfl)).2
      rfl
  exact ⟨_, _, launch, rfl, rfl, hstart, hdata, hresult⟩

end ComputeWebApp.Api.DefinitionCheck
