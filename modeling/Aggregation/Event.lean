import Aggregation.Catalog
import Aggregation.ExtendedJson.Writer

/-!
# Log events

Everything the library has to say about a run is an event.  An event carries
what it is about, and its level, name and fields are functions of that.
-/

namespace Aggregation

inductive Level where
  | error
  | warn
  | info
  | debug
  | trace
  deriving DecidableEq

def Level.text : Level → String
  | .error => "ERROR"
  | .warn => "WARN"
  | .info => "INFO"
  | .debug => "DEBUG"
  | .trace => "TRACE"

/-- How much a level lets through, from the errors alone to everything. -/
def Level.detail : Level → Nat
  | .error => 1
  | .warn => 2
  | .info => 3
  | .debug => 4
  | .trace => 5

inductive Event where
  | configLoaded (path aggregationsDir : String)
  | catalogLoadStart (dir : String) (strict : Bool)
  | aggregationLoaded (aggregation file : String)
  | aggregationSkipped (file error : String)
  | aggregationReplaced (aggregation file : String)
  | catalogIssue (issue : Issue)
  | catalogLoaded (aggregations skipped : Nat)
  | pipelineCompiled (aggregation collection : String) (stages : Nat)
  /-- The pipeline that a command is about to print. -/
  | pipelineListed (aggregation : String) (pipeline : Pipeline)
  | pipelineRejected (aggregation : String) (error : CompileError)
  | filterCompiled (filter : Document)
  /-- A pipeline handed to the gateway, logged prominently or not. -/
  | aggregationDispatched (prominent : Bool) (aggregation collection : String)
      (pipeline : Pipeline)
  | findDispatched (collection : String) (filter : Document)

namespace Event

def level : Event → Level
  | configLoaded .. => .info
  | catalogLoadStart .. => .info
  | aggregationLoaded .. => .info
  | aggregationSkipped .. => .warn
  | aggregationReplaced .. => .warn
  | catalogIssue _ => .warn
  | catalogLoaded .. => .info
  | pipelineCompiled .. => .debug
  | pipelineListed .. => .debug
  | pipelineRejected .. => .debug
  | filterCompiled _ => .debug
  | aggregationDispatched true .. => .debug
  | aggregationDispatched false .. => .trace
  | findDispatched .. => .trace

/-- The name by which a log line tells of the event (`as_str`). -/
def name : Event → String
  | configLoaded .. => "CONFIG_LOADED"
  | catalogLoadStart .. => "CATALOG_LOAD_START"
  | aggregationLoaded .. => "AGGREGATION_LOADED"
  | aggregationSkipped .. => "AGGREGATION_SKIPPED"
  | aggregationReplaced .. => "AGGREGATION_REPLACED"
  | catalogIssue _ => "CATALOG_ISSUE"
  | catalogLoaded .. => "CATALOG_LOADED"
  | pipelineCompiled .. => "PIPELINE_COMPILED"
  | pipelineListed .. => "PIPELINE_COMPILED"
  | pipelineRejected .. => "PIPELINE_REJECTED"
  | filterCompiled _ => "FILTER_COMPILED"
  | aggregationDispatched .. => "AGGREGATION_DISPATCHED"
  | findDispatched .. => "FIND_DISPATCHED"

/-- The fields beside the name, in the order in which a log line shows them. -/
def fields : Event → Fields Json
  | configLoaded path dir =>
    [("path", .string path), ("aggregations_dir", .string dir)]
  | catalogLoadStart dir strict =>
    [("dir", .string dir), ("strict", .bool strict)]
  | aggregationLoaded aggregation file =>
    [("aggregation", .string aggregation), ("file", .string file)]
  | aggregationSkipped file error =>
    [("file", .string file), ("error", .string error)]
  | aggregationReplaced aggregation file =>
    [("aggregation", .string aggregation), ("file", .string file)]
  | catalogIssue issue =>
    [("aggregation", .string issue.aggregation), ("issue", .string issue.text)]
  | catalogLoaded aggregations skipped =>
    [("aggregations", .nat aggregations), ("skipped", .nat skipped)]
  | pipelineCompiled aggregation collection stages =>
    [("aggregation", .string aggregation), ("collection", .string collection),
      ("stages", .nat stages)]
  | pipelineListed aggregation pipeline =>
    [("aggregation", .string aggregation),
      ("pipeline", .string (Pipeline.toJson pipeline).compact)]
  | pipelineRejected aggregation error =>
    [("aggregation", .string aggregation), ("code", .string error.code.text),
      ("error", .string error.display)]
  | filterCompiled filter => [("filter", .string filter.renderFilter)]
  | aggregationDispatched _ aggregation collection pipeline =>
    [("aggregation", .string aggregation), ("collection", .string collection),
      ("pipeline", .string pipeline.render)]
  | findDispatched collection filter =>
    [("collection", .string collection),
      ("filter", .string filter.renderFilter)]

/-- A field of a log line; texts stand as they are. -/
def fieldText : String × Json → String
  | (key, .string text) => s!"{key}={text}"
  | (key, value) => s!"{key}={value.compact}"

/-- The event as a log line. -/
def line (event : Event) : String :=
  let fields := event.fields.map fieldText
  String.intercalate " " (event.level.text :: s!"event={event.name}" :: fields)

/-- Whether a log of this level shows the event. -/
def isShown (level : Level) (event : Event) : Bool :=
  event.level.detail ≤ level.detail

end Event

/-- A computation that leaves events behind. -/
abbrev Logged := StateM (List Event)

def emit (event : Event) : Logged Unit :=
  modify (· ++ [event])

/-- A computation that leaves events behind and may fail; a failure keeps the
events before it. -/
abbrev LoggedExcept (ε : Type) := ExceptT ε Logged

/-- Runs from an empty log. -/
def LoggedExcept.collect {ε α : Type} (run : LoggedExcept ε α) :
    Except ε α × List Event :=
  run.run []

end Aggregation
