import Aggregation.Definition.Json
import Aggregation.Definition.Yaml
import Aggregation.Files.Path

/-!
# Definition formats

The formats of definition files, told apart by the extension of the path.
-/

namespace Aggregation

inductive DefinitionFormat where
  | yaml
  | json
  deriving DecidableEq

namespace DefinitionFormat

/-- The format that the extension of a path stands for (`from_path`). -/
def ofPath? (path : String) : Option DefinitionFormat :=
  match Path.extension? path with
  | some "yaml" => some yaml
  | some "yml" => some yaml
  | some "json" => some json
  | _ => none

end DefinitionFormat

namespace Definition

/-- Reads a text as a definition, without checking it. -/
def parse? (format : DefinitionFormat) (text : String) : Option Definition :=
  match format with
  | .yaml => parseYaml? text
  | .json => parseJson? text

end Definition

end Aggregation
