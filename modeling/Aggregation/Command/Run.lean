import Aggregation.Catalog.Load
import Aggregation.Command.Arguments
import Aggregation.Compile
import Aggregation.Config

/-!
# Running commands

A command reads the configuration, loads the catalog, and prints one JSON value.
It is a function of the files it can see: what it prints, how it ends and what
it logs.
-/

namespace Aggregation

inductive CommandError where
  | config (error : ConfigError)
  | catalog (error : CatalogError)
  | catalogInvalid (issues : Nat)
  | params (error : ParamsError)
  | compile (error : CompileError)
  | output (reason : String)
  deriving DecidableEq

namespace CommandError

/-- A compile that fails by the caller's bindings counts as a fault of the
parameters. -/
def code : CommandError → String
  | config _ => "AGGC_CLI_CONFIG_ERROR"
  | catalog _ => "AGGC_CLI_CATALOG_ERROR"
  | catalogInvalid _ => "AGGC_CLI_CATALOG_INVALID"
  | params _ => "AGGC_CLI_PARAMS_ERROR"
  | compile error =>
    if error.code.isConfiguration then "AGGC_CLI_COMPILE_ERROR"
      else "AGGC_CLI_PARAMS_ERROR"
  | output _ => "AGGC_CLI_IO_ERROR"

def message : CommandError → String
  | config error => error.message
  | catalog error => error.message
  | catalogInvalid issues => s!"catalog has {issues} problem(s)"
  | params error => error.message
  | compile error => error.display
  | output reason => reason

def display (error : CommandError) : String := s!"{error.code}: {error.message}"

end CommandError

/-- Reads a file of bindings (`read_params`). -/
def Params.load (files : Files) (path : String) : Except ParamsError Params :=
  match files.readText path with
  | .error fault => .error (.unreadable path fault.text)
  | .ok text =>
    match Json.parse? text with
    | none => .error (.malformedText path)
    | some json => Params.ofJson json

/-- What a command leaves behind: its output, and its error if it failed. -/
structure CommandResult where
  output : String := ""
  error : Option CommandError := none

namespace CommandResult

def exitCode (result : CommandResult) : Nat :=
  if result.error.isSome then 1 else 0

/-- The text on the error channel. -/
def errorText (result : CommandResult) : String :=
  match result.error with
  | some error => error.display ++ "\n"
  | none => ""

def failed (error : CommandError) : CommandResult := { error := some error }

def printed (json : Json) : CommandResult := { output := json.pretty ++ "\n" }

end CommandResult

namespace Command

/-- Loads the configuration, and the catalog that it names. -/
def boot (files : Files) (path : String) :
    LoggedExcept CommandError (Config × Catalog) := do
  let config ← ExceptT.mk (pure ((Config.load files path).mapError .config))
  emit (.configLoaded path config.aggregationsDir)
  let catalog ← ExceptT.mk do
    let result ←
      (Catalog.load files config.aggregationsDir config.strictCatalog).run
    pure (result.mapError .catalog)
  pure (config, catalog)

/-- What `validate` prints (`validation_report`). -/
def report (catalog : Catalog) : Json :=
  .object [("aggregations", .nat catalog.size),
    ("issues", .strings (catalog.issues.map Issue.text))]

def listing (catalog : Catalog) : Json :=
  .array (catalog.definitions.map fun definition =>
    .object [("name", .string definition.name),
      ("collection", .string definition.collection),
      ("stages", .nat definition.stages.length)])

def compiled (definition : Definition) (pipeline : Pipeline) : Json :=
  .object [("aggregation", .string definition.name),
    ("collection", .string definition.collection),
    ("pipeline", Pipeline.toJson pipeline)]

/-- The report is printed even if it has findings, which then are the error. -/
def runValidate (files : Files) (config : String) :
    LoggedExcept CommandError CommandResult := do
  let (_, catalog) ← boot files config
  let printed := CommandResult.printed (report catalog)
  match catalog.issues.length with
  | 0 => pure printed
  | issues => pure { printed with error := some (.catalogInvalid issues) }

def runList (files : Files) (config : String) :
    LoggedExcept CommandError CommandResult := do
  let (_, catalog) ← boot files config
  pure (.printed (listing catalog))

def runCompile (files : Files) (config name : String) (params : Option String) :
    LoggedExcept CommandError CommandResult := do
  let (config, catalog) ← boot files config
  let params ←
    match params with
    | some path => ExceptT.mk (pure ((Params.load files path).mapError .params))
    | none => pure Params.empty
  let (definition, pipeline) ← ExceptT.mk do
    let result ← (catalog.compileNamed name params).run
    pure (result.mapError CommandError.compile)
  if config.logPipelines then
    emit (.pipelineListed name pipeline)
  pure (.printed (compiled definition pipeline))

/-- Runs the command that is given (`run_command`). -/
def attempt (files : Files) : Command → LoggedExcept CommandError CommandResult
  | validate config => runValidate files config
  | list config => runList files config
  | compile config name params => runCompile files config name params

/-- The result of a command and its log.  A command that fails early prints
nothing. -/
def run (files : Files) (command : Command) : CommandResult × List Event :=
  match (attempt files command).collect with
  | (.ok result, events) => (result, events)
  | (.error error, events) => (.failed error, events)

end Command

end Aggregation
