import Aggregation.Definition.Json
import Aggregation.Event
import Aggregation.Files.Tree
import Aggregation.Params.Json

/-!
# Configuration

A configuration names the directory of definitions and says how to load and log.
It is a JSON object, or the list of its fields, and only the directory is
required.
-/

namespace Aggregation

structure Config where
  aggregationsDir : String
  strictCatalog : Bool := false
  logPipelines : Bool := false
  logLevel : String := "info"

inductive ConfigError where
  | unreadable (path reason : String)
  | malformed
  | emptyDir
  | unknownLevel (level : String)
  deriving DecidableEq

namespace ConfigError

def message : ConfigError → String
  | unreadable path reason => s!"failed to read config '{path}': {reason}"
  | malformed => s!"invalid config JSON: {readerAccount}"
  | emptyDir => "invalid config: aggregations_dir must not be empty"
  | unknownLevel level =>
    s!"invalid config: invalid log_level '{level}': " ++
      "expected trace, debug, info, warn or error"

end ConfigError

namespace Level

/-- The level that lets so much through. -/
def ofDetail? (detail : Int) : Option Level :=
  [error, warn, info, debug, trace].find? (·.detail = detail)

/-- A level by its name in any case of letters, or by its detail, which may
carry a plus. -/
def parse? (text : String) : Option Level :=
  match String.ofList (text.toList.map Char.toLower) with
  | "error" => some error
  | "warn" => some warn
  | "info" => some info
  | "debug" => some debug
  | "trace" => some trace
  | _ =>
    if text.toList.head? = some '-' then none
      else (ExtendedJson.readInt? text).bind ofDetail?

end Level

namespace Config

def fieldNames : List String :=
  ["aggregations_dir", "strict_catalog", "log_pipelines", "log_level"]

def readFields (source : Source) : SourceReader Config := do
  let slots ← SourceReader.slots source fieldNames (pure ()) source.root
  let aggregationsDir ← SourceReader.text source
      (← SourceReader.slot slots "aggregations_dir")
  let strictCatalog ← SourceReader.slotOr slots "strict_catalog" false
      (SourceReader.flag source)
  let logPipelines ← SourceReader.slotOr slots "log_pipelines" false
      (SourceReader.flag source)
  let logLevel ← SourceReader.slotOr slots "log_level" "info"
      (SourceReader.text source)
  pure { aggregationsDir, strictCatalog, logPipelines, logLevel }

/-- Reads a configuration text without checking it. -/
def parse? (text : String) : Option Config := do
  let tree ← JsonText.parse? text
  let source : Source :=
    { root := Datum.ofJsonText tree, depth := JsonText.maxDepth,
      positional := true }
  ((readFields source).run source.jumps).map Prod.fst

def level (config : Config) : Except ConfigError Level :=
  match Level.parse? config.logLevel with
  | some level => .ok level
  | none => .error (.unknownLevel config.logLevel)

/-- Refuses a configuration without a directory or with an unknown level
(`validate`). -/
def check (config : Config) : Except ConfigError Unit :=
  if config.aggregationsDir.isEmpty then .error .emptyDir
  else config.level.map fun _ => ()

/-- Reads and checks a configuration text (`from_json`). -/
def ofJson (text : String) : Except ConfigError Config := do
  match parse? text with
  | none => .error .malformed
  | some config =>
    config.check
    pure config

/-- Reads a configuration file.  A relative directory is seen from the one that
holds the file. -/
def load (files : Files) (path : String) : Except ConfigError Config :=
  match files.readText path with
  | .error fault => .error (.unreadable path fault.text)
  | .ok text =>
    (ofJson text).map fun config =>
      match Path.parent? path with
      | some base =>
        { config with aggregationsDir := Path.join base config.aggregationsDir }
      | none => config

end Config

end Aggregation
