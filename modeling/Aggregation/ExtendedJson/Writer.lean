import Aggregation.Json.Printer
import Aggregation.Text.Bytes
import Aggregation.Text.Instant
import Aggregation.Value

/-!
# Values as extended JSON

Extended JSON writes what JSON lacks as an object with a reserved key, such as
`$oid`.  The relaxed form is for readers of a pipeline.  The stored form is that
of a definition file: instants are always counts, plain byte strings are lists,
and a double that is not finite has no text.  The scope of a code is stored in
either form.
-/

namespace Aggregation

namespace ExtendedJson

inductive Form where
  | relaxed
  | stored

/-- A record with one reserved key. -/
def tagged (key : String) (body : Json) : Json :=
  .object [(key, body)]

/-- The name of a double that is not finite; the sign of a NaN is shown. -/
def nonFiniteName (d : Double) : String :=
  match d.negative, d.isNaN with
  | false, true => "NaN"
  | true, true => "-NaN"
  | false, false => "Infinity"
  | true, false => "-Infinity"

def ofDouble (form : Form) (d : Double) : Json :=
  match form with
  | .stored => if d.isFinite then .double d else .null
  | .relaxed =>
    if d.isFinite then .double d
      else tagged "$numberDouble" (.string (nonFiniteName d))

def ofInstant (form : Form) (millis : Int) : Json :=
  let count :=
    tagged "$numberLong" (.string (String.ofList (Json.intText millis)))
  match form with
  | .stored => tagged "$date" count
  | .relaxed =>
    match Instant.text? millis with
    | some text => tagged "$date" (.string text)
    | none => tagged "$date" count

def ofBinary (form : Form) (subtype : UInt8) (bytes : List UInt8) : Json :=
  match form with
  | .stored =>
    if subtype = 0 then .array (bytes.map fun b => Json.nat b.toNat) else body
  | .relaxed => body
where
  body : Json :=
    tagged "$binary" (.object [("base64", .string (Text.base64 bytes)),
      ("subType", .string (Text.hex [subtype]))])

def sortChars (s : String) : String :=
  String.ofList (s.toList.mergeSort (· ≤ ·))

def ofRegex (form : Form) (pattern options : String) : Json :=
  let options :=
    match form with
    | .stored => options
    | .relaxed => sortChars options
  tagged "$regularExpression"
    (.object [("pattern", .string pattern), ("options", .string options)])

end ExtendedJson

open ExtendedJson in
mutual

def Value.toJson (form : Form) : Value → Json
  | .null => .null
  | .bool b => .bool b
  | .string s => .string s
  | .int32 n => .int n.toInt
  | .int64 n => .int n.toInt
  | .double d => ofDouble form d
  | .array items => .array (itemsToJson form items)
  | .document fields => .object (fieldsToJson form fields)
  | .objectId id => tagged "$oid" (.string (Text.hex id.toList))
  | .dateTime millis => ofInstant form millis.toInt
  | .binary subtype bytes => ofBinary form subtype bytes
  | .timestamp time increment =>
    tagged "$timestamp"
      (.object [("t", .nat time.toNat), ("i", .nat increment.toNat)])
  | .regex pattern options => ofRegex form pattern options
  | .symbol s => tagged "$symbol" (.string s)
  | .code s => tagged "$code" (.string s)
  | .codeWithScope s scope =>
    .object [("$code", .string s),
      ("$scope", .object (fieldsToJson .stored scope))]
  | .undefined => tagged "$undefined" (.bool true)
  | .minKey => tagged "$minKey" (.int 1)
  | .maxKey => tagged "$maxKey" (.int 1)

def itemsToJson (form : Form) : List Value → List Json
  | [] => []
  | item :: items => item.toJson form :: itemsToJson form items

def fieldsToJson (form : Form) : List (String × Value) → List (String × Json)
  | [] => []
  | (key, value) :: fields =>
    (key, value.toJson form) :: fieldsToJson form fields

end

/-- Stages in order, each a document with one field. -/
abbrev Pipeline := List Document

def Document.toJson (form : ExtendedJson.Form) (document : Document) : Json :=
  .object (fieldsToJson form document)

namespace Pipeline

/-- One relaxed value for each stage (`pipeline_values`). -/
def toJson (pipeline : Pipeline) : Json :=
  .array (pipeline.map (Document.toJson .relaxed))

/-- The pipeline under its own key, laid out over lines and starting on a fresh
one (`pipeline_to_json`). -/
def render (pipeline : Pipeline) : String :=
  "\n" ++ (Json.object [("pipeline", toJson pipeline)]).pretty

end Pipeline

/-- The filter under its own key, on one line (`filter_to_json`). -/
def Document.renderFilter (filter : Document) : String :=
  (Json.object [("filter", Document.toJson .relaxed filter)]).compact

end Aggregation
