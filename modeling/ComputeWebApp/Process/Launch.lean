import Mathlib.Data.Int.Notation
import Mathlib.Data.List.Basic
import Mathlib.Logic.Function.Basic

/-!
# What a start action launches

`process.post` stores the body of a request as the record of a process, with the parameters that
the client has sent, as long as those of the process definition are among them.  `start` takes the
arguments of the definition, replaces each argument that is a key of the stored parameters by the
value, and `run_process` launches them.

The keys of the stored parameters are what the client has sent: the arguments are those of the
definition when no other key than a declared one is an argument (`OnlyDeclared`).
-/

namespace ComputeWebApp.Api

/-! ## Definitions and requests -/

/-- A value of a parameter; a float, an array or an object with the text that `str` makes of
it. -/
inductive ParameterValue
  | null
  | bool (value : Bool)
  | int (value : ℤ)
  | text (value : String)
  | other (printed : String)
  deriving DecidableEq, Repr

/-- `str` -/
def ParameterValue.str : ParameterValue → String
  | null => "None"
  | bool true => "True"
  | bool false => "False"
  | int value => toString value
  | text value => value
  | other printed => printed

/-- A dictionary with the values of parameters. -/
abbrev Parameters := String → Option ParameterValue

/-- `process_definition/<id>.json`: the names of its parameters and its arguments. -/
structure ProcessDefinition where
  parameters : List String
  args : List String
  winArgs : List String

/-- The body of a request; `parameters` is none when it is absent or not an object. -/
structure ProcessBody where
  version : String
  processDefinitionId : String
  dataId : String
  parameters : Option Parameters

/-- What is stored of a process, besides its status and its private section. -/
structure Process where
  id : String
  version : String
  processDefinitionId : String
  dataId : String
  parameters : Parameters

/-- The paths of the server, its platform and its process definitions. -/
structure ProcessServer where
  dataPath : String
  resultPath : String
  definitionPath : String
  windows : Bool
  definitions : String → Option ProcessDefinition

/-- What `subprocess.Popen` gets. -/
structure Launch where
  args : List String
  executable : String
  cwd : String
  deriving DecidableEq, Repr

/-- How a request fails: with a message and a status, or with an exception. -/
inductive RequestError
  | response (message : String) (status : ℕ)
  | fileNotFoundError
  | indexError
  deriving DecidableEq, Repr

/-- `os.path.join` -/
def pathJoin (first second : String) : String :=
  if second.toList.head? = some '/' then second
  else if first = "" ∨ first.toList.getLast? = some '/' then first ++ second
  else first ++ "/" ++ second

namespace ProcessServer

variable (server : ProcessServer)

/-! ## Posting and starting -/

/-- `process.post` for the id that has been drawn. -/
def post (processId : String) (body : ProcessBody) : Except RequestError Process :=
  let parameters := body.parameters.getD fun _ => none
  match server.definitions body.processDefinitionId with
  | none => .error .fileNotFoundError
  | some definition =>
      let missing := definition.parameters.filter fun key => (parameters key).isNone
      if 0 < missing.length then
        .error (.response ("Missing parameters : " ++ ", ".intercalate missing) 500)
      else
        .ok { id := processId
              version := body.version
              processDefinitionId := body.processDefinitionId
              dataId := body.dataId
              parameters := parameters }

/-- The arguments of a definition on this platform. -/
def definitionArgs (definition : ProcessDefinition) : List String :=
  if server.windows then definition.winArgs else definition.args

def dataFile (dataId : String) : String := pathJoin server.dataPath (dataId ++ ".h5")

def resultFile (processId : String) : String := pathJoin server.resultPath (processId ++ ".h5")

/-- The parameters of a process with the mandatory ones. -/
def allParameters (process : Process) : Parameters :=
  Function.update
    (Function.update process.parameters "data_file" (some (.text (server.dataFile process.dataId))))
    "result_file" (some (.text (server.resultFile process.id)))

/-- The loop over the arguments. -/
def substitute (parameters : Parameters) (args : List String) : List String :=
  args.map fun arg =>
    match parameters arg with
    | some value => value.str
    | none => arg

/-- What `run_process` launches: the executable is the first argument, in the directory of the
definition. -/
def runProcess (cwd : String) (args : List String) : Except RequestError Launch :=
  match args with
  | [] => .error .indexError
  | first :: _ => .ok ⟨args, pathJoin cwd first, cwd⟩

/-- The start action. -/
def start (process : Process) : Except RequestError Launch :=
  match server.definitions process.processDefinitionId with
  | none => .error .fileNotFoundError
  | some definition =>
      let args := substitute (server.allParameters process) (server.definitionArgs definition)
      runProcess (pathJoin server.definitionPath process.processDefinitionId) args

/-! ## What the definition says -/

/-- The names that a definition declares, and the mandatory ones. -/
def declared (definition : ProcessDefinition) : List String :=
  "data_file" :: "result_file" :: definition.parameters

/-- The arguments of the definition, in which the declared names are replaced by their values. -/
def expectedArgs (definition : ProcessDefinition) (process : Process) : List String :=
  (server.definitionArgs definition).map fun arg =>
    if arg ∈ declared definition then
      match server.allParameters process arg with
      | some value => value.str
      | none => arg
    else arg

def expected (definition : ProcessDefinition) (process : Process) : Except RequestError Launch :=
  runProcess (pathJoin server.definitionPath process.processDefinitionId)
    (server.expectedArgs definition process)

/-- A parameter of the request whose name is an argument is a declared one, or its value prints as
the argument itself. -/
def OnlyDeclared (definition : ProcessDefinition) (body : ProcessBody) : Prop :=
  ∀ arg ∈ server.definitionArgs definition, arg ∉ declared definition →
    ∀ value ∈ (body.parameters.getD fun _ => none) arg, value.str = arg

instance (definition : ProcessDefinition) (body : ProcessBody) :
    Decidable (server.OnlyDeclared definition body) :=
  inferInstanceAs (Decidable (∀ arg ∈ server.definitionArgs definition, _))

variable {server} {definition : ProcessDefinition} {body : ProcessBody} {process : Process}
  {processId : String}

/-- What is stored of an accepted body. -/
theorem post_eq_ok (hdefinition : server.definitions body.processDefinitionId = some definition)
    (hpost : server.post processId body = .ok process) :
    process.id = processId ∧ process.processDefinitionId = body.processDefinitionId ∧
      process.dataId = body.dataId ∧ process.parameters = body.parameters.getD fun _ => none := by
  simp only [post, hdefinition] at hpost
  split at hpost
  · cases hpost
  · cases hpost
    exact ⟨rfl, rfl, rfl, rfl⟩

theorem allParameters_of_not_declared {arg : String} (h : arg ∉ declared definition) :
    server.allParameters process arg = process.parameters arg := by
  have hnames : arg ≠ "data_file" ∧ arg ≠ "result_file" := by
    simp only [declared, List.mem_cons, not_or] at h
    exact ⟨h.1, h.2.1⟩
  rw [allParameters, Function.update_of_ne hnames.2, Function.update_of_ne hnames.1]

/-- The two substitutions agree on an argument. -/
theorem substitute_arg_eq_iff (arg : String) :
    (match server.allParameters process arg with
      | some value => value.str
      | none => arg) =
      (if arg ∈ declared definition then
        match server.allParameters process arg with
        | some value => value.str
        | none => arg
      else arg) ↔
    (arg ∉ declared definition → ∀ value ∈ process.parameters arg, value.str = arg) := by
  by_cases hdeclared : arg ∈ declared definition
  · simp [hdeclared]
  · rw [if_neg hdeclared, allParameters_of_not_declared hdeclared]
    cases process.parameters arg <;> simp [hdeclared]

theorem substitute_eq_iff :
    substitute (server.allParameters process) (server.definitionArgs definition) =
        server.expectedArgs definition process ↔
      ∀ arg ∈ server.definitionArgs definition, arg ∉ declared definition →
        ∀ value ∈ process.parameters arg, value.str = arg := by
  rw [substitute, expectedArgs, List.map_inj_left]
  exact forall₂_congr fun arg _ => substitute_arg_eq_iff arg

/-- A launch has the arguments that it is made of. -/
theorem runProcess_inj {cwd : String} {args args' : List String} :
    runProcess cwd args = runProcess cwd args' ↔ args = args' := by
  constructor
  · intro h
    cases args <;> cases args'
    · rfl
    · cases h
    · cases h
    · simp only [runProcess, Except.ok.injEq, Launch.mk.injEq] at h
      exact h.1
  · rintro rfl
    rfl

theorem start_eq_expected_iff
    (hdefinition : server.definitions body.processDefinitionId = some definition)
    (hpost : server.post processId body = .ok process) :
    server.start process = server.expected definition process ↔
      server.OnlyDeclared definition body := by
  obtain ⟨-, hid, -, hparameters⟩ := post_eq_ok hdefinition hpost
  rw [start, hid, hdefinition, expected, hid]
  dsimp only
  rw [runProcess_inj, substitute_eq_iff, hparameters]
  rfl

/-- The element of an argument that is not declared is the argument. -/
theorem getElem?_expectedArgs (process : Process) {i : ℕ} {arg : String}
    (harg : (server.definitionArgs definition)[i]? = some arg) (hother : arg ∉ declared definition) :
    (server.expectedArgs definition process)[i]? = some arg := by
  rw [expectedArgs, List.getElem?_map, harg]
  simp [hother]

/-- What is launched for a definition that has an argument. -/
theorem expected_eq_ok (process : Process) {i : ℕ} {arg : String}
    (harg : (server.definitionArgs definition)[i]? = some arg) (hother : arg ∉ declared definition) :
    ∃ launch, server.expected definition process = .ok launch ∧ launch.args[i]? = some arg := by
  have hplace := getElem?_expectedArgs process harg hother
  rw [expected]
  cases hlist : server.expectedArgs definition process with
  | nil =>
      rw [hlist] at hplace
      cases hplace
  | cons first rest =>
      rw [hlist] at hplace
      exact ⟨_, rfl, hplace⟩

/-- **Launch arguments.**  For every definition and every accepted body, what is launched is what
the definition says, if and only if the names that the client has sent and that are arguments are
declared; and for two such bodies each argument that is not declared is the same. -/
theorem launch_expected_iff (body : ProcessBody)
    (hdefinition : server.definitions body.processDefinitionId = some definition)
    (hpost : server.post processId body = .ok process) :
    (server.start process = server.expected definition process ↔
      server.OnlyDeclared definition body) ∧
    ∀ (body' : ProcessBody) (processId' : String) (process' : Process),
      body'.processDefinitionId = body.processDefinitionId →
      server.post processId' body' = .ok process' →
      server.OnlyDeclared definition body → server.OnlyDeclared definition body' →
      ∀ (i : ℕ) (arg : String), (server.definitionArgs definition)[i]? = some arg →
        arg ∉ declared definition →
        ∃ launch launch' : Launch, server.start process = .ok launch ∧
          server.start process' = .ok launch' ∧ launch.args[i]? = some arg ∧
          launch'.args[i]? = some arg := by
  have hstart := start_eq_expected_iff hdefinition hpost
  refine ⟨hstart, fun body' processId' process' hsame hpost' honly honly' i arg harg hother => ?_⟩
  have hstart' := start_eq_expected_iff (hsame ▸ hdefinition) hpost'
  obtain ⟨launch, hok, hplace⟩ := expected_eq_ok process harg hother
  obtain ⟨launch', hok', hplace'⟩ := expected_eq_ok process' harg hother
  exact ⟨launch, launch', (hstart.mpr honly).trans hok, (hstart'.mpr honly').trans hok', hplace,
    hplace'⟩

/-! ## A parameter that nobody has declared -/

/-- A server with one definition, which runs a script of its own. -/
def oneDefinition : ProcessServer where
  dataPath := "/srv/data"
  resultPath := "/srv/result"
  definitionPath := "/srv/process_definition"
  windows := false
  definitions := fun id =>
    if id = "process_test_1" then
      some ⟨["mean_factor"], ["../.venv/bin/python", "app.py", "mean_factor", "data_file",
        "result_file"], []⟩
    else none

/-- A request with a value for the parameter of the definition. -/
def meanRequest (extra : List (String × ParameterValue)) : ProcessBody :=
  ⟨"1.0", "process_test_1", "5f8fd383aeb9c925",
    some fun name => (("mean_factor", ParameterValue.other "1.5") :: extra).lookup name⟩

theorem launch_expected_iff_mean_factor :
    ∃ process, oneDefinition.post "a1" (meanRequest []) = .ok process ∧
      oneDefinition.start process = .ok
        ⟨["../.venv/bin/python", "app.py", "1.5", "/srv/data/5f8fd383aeb9c925.h5",
          "/srv/result/a1.h5"],
          "/srv/process_definition/process_test_1/../.venv/bin/python",
          "/srv/process_definition/process_test_1"⟩ ∧
      ∀ definition, oneDefinition.definitions "process_test_1" = some definition →
        (oneDefinition.start process = oneDefinition.expected definition process ↔
          oneDefinition.OnlyDeclared definition (meanRequest [])) := by
  refine ⟨_, rfl, by decide +kernel, fun definition hdefinition => ?_⟩
  exact (launch_expected_iff (meanRequest []) hdefinition rfl).1

/-- The client names the first argument among its parameters, and chooses the program. -/
theorem launch_of_client :
    ∃ definition process process' launch launch',
      oneDefinition.definitions "process_test_1" = some definition ∧
      oneDefinition.post "a1" (meanRequest []) = .ok process ∧
      oneDefinition.post "a1" (meanRequest [("../.venv/bin/python", .text "/bin/sh")]) =
        .ok process' ∧
      oneDefinition.start process = .ok launch ∧ oneDefinition.start process' = .ok launch' ∧
      "../.venv/bin/python" ∉ declared definition ∧
      definition.args[0]? = some "../.venv/bin/python" ∧
      launch.args[0]? = some "../.venv/bin/python" ∧ launch'.args[0]? = some "/bin/sh" ∧
      launch'.executable = "/bin/sh" := by
  refine ⟨_, _, _, _, _, rfl, rfl, rfl, rfl, rfl, ?_⟩
  decide +kernel

end ProcessServer

end ComputeWebApp.Api
