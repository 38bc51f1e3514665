import Aggregation.Definition.Reader
import Aggregation.Json.Text

/-!
# Definitions as JSON

A definition is written as an object with its fields in order, and read back
from such an object or from the list of its fields.
-/

namespace Aggregation

namespace Scalar

/-- What JSON other than an array or an object answers to each way of asking. -/
def ofJsonText? : JsonText → Option Scalar
  | .null => some { value := some .null, optionalText := some none }
  | .bool b => some { value := some (.bool b), flag := some b }
  | .string content =>
    some
      { text := content, value := content.map .string,
        optionalText := content.map some }
  | .number numeral =>
    some <|
      match numeral.value? with
      | some (.int n) =>
        { value := SourceReader.integer? n,
          natural := if 0 ≤ n then some n.toNat else none }
      | some (.double d) => { value := some (.double d) }
      | none => {}
  | _ => none

end Scalar

namespace Datum

mutual

/-- The tree of a JSON text as a source, in which nothing is marked and a key
may stand twice. -/
def ofJsonText : JsonText → Datum
  | .array items => .list false (itemsOfJsonText items)
  | .object members => .record false (entriesOfJsonText members)
  | leaf => .scalar ((Scalar.ofJsonText? leaf).getD {})

def itemsOfJsonText : List JsonText → List Datum
  | [] => []
  | item :: items => ofJsonText item :: itemsOfJsonText items

def entriesOfJsonText : List (Option String × JsonText) → List (Datum × Datum)
  | [] => []
  | (key, member) :: members =>
    (.scalar { text := key, value := key.map .string }, ofJsonText member)
      :: entriesOfJsonText members

end

end Datum

namespace Definition

/-- Reads a JSON text, none if it is no definition. -/
def parseJson? (text : String) : Option Definition := do
  let tree ← JsonText.parse? text
  ofSource?
    { root := Datum.ofJsonText tree, depth := JsonText.maxDepth,
      positional := true }

end Definition

/-- A stage as it is stored; a key or arguments that it lacks are left out. -/
def Stage.toJson (stage : Stage) : Json :=
  let key :=
    match stage.key with
    | some key => [("key", Json.string key)]
    | none => []
  let args :=
    if stage.args.isEmpty then []
    else [("args", Document.toJson .stored stage.args)]
  .object (key ++ ("operator", .string stage.operator) :: args)

def Definition.toJson (definition : Definition) : Json :=
  .object [("name", .string definition.name),
    ("collection", .string definition.collection),
    ("stages", .array (definition.stages.map Stage.toJson))]

end Aggregation
