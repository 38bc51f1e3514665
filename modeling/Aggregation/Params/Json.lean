import Aggregation.ExtendedJson.Recognize
import Aggregation.Json.Text
import Aggregation.Params

/-!
# Parameters as JSON

A JSON object is a mapping of bindings.  A member that is an object with the
single key `$filter` is a filter, given as a list of terms; any other object is
a nested mapping, and everything else a plain value.
-/

namespace Aggregation

/-- The mark that stands in a message for a reader's own account of what it
refused. -/
def readerAccount : String := "<library>"

inductive ParamsError where
  | notObject
  | malformedTerms
  | unsupportedValue
  | unreadable (path reason : String)
  | malformedText (path : String)
  | stated (reason : String)
  deriving DecidableEq

namespace ParamsError

def message : ParamsError → String
  | notObject => "parameters must be a JSON object"
  | malformedTerms => s!"invalid $filter terms: {readerAccount}"
  | unsupportedValue => s!"unsupported value: {readerAccount}"
  | unreadable path reason => s!"failed to read '{path}': {reason}"
  | malformedText path => s!"invalid JSON in '{path}': {readerAccount}"
  | stated reason => reason

end ParamsError

namespace Json

mutual

/-- A JSON value as a document value (`to_bson`), extended ones recognized from
the inside out.  Whole numbers beyond sixty-four bits with a sign have none. -/
def toValue? : Json → Option Value
  | null => some .null
  | bool b => some (.bool b)
  | int n =>
    if ExtendedJson.inInt64 n then some (.int64 (Int64.ofInt n)) else none
  | double d => some (.double d)
  | string s => some (.string s)
  | array items => (itemsToValues? items).map .array
  | object members => (membersToFields? members).map ExtendedJson.recognize

def itemsToValues? : List Json → Option (List Value)
  | [] => some []
  | item :: items => do
    let value ← toValue? item
    let values ← itemsToValues? items
    some (value :: values)

def membersToFields? : List (String × Json) → Option (List (String × Value))
  | [] => some []
  | (key, member) :: members => do
    let value ← toValue? member
    let fields ← membersToFields? members
    some ((key, value) :: fields)

end

def asBool? : Json → Option Bool
  | bool b => some b
  | _ => none

/-- A text, or null for none. -/
def asOptionalString? : Json → Option (Option String)
  | null => some none
  | string s => some (some s)
  | _ => none

end Json

/-- A filter term with its value still to be converted. -/
structure TermJson where
  field : Option String := none
  operator : Option String := none
  value : Json := .null
  omitEmpty : Bool := false

namespace TermJson

/-- Takes up one member of a term; other keys are refused. -/
def withMember (term : TermJson) (key : String) (member : Json) :
    Option TermJson :=
  match key with
  | "field" => member.asOptionalString?.map ({ term with field := · })
  | "operator" => member.asOptionalString?.map ({ term with operator := · })
  | "value" => some { term with value := member }
  | "omitempty" => member.asBool?.map ({ term with omitEmpty := · })
  | _ => none

/-- The members in the order in which a term lists them as an array. -/
def positions : List String := ["field", "operator", "value", "omitempty"]

/-- A term is an object, or an array of its members from the first on. -/
def read? : Json → Option TermJson
  | .object members =>
    members.foldlM (fun term (key, member) => term.withMember key member) {}
  | .array items =>
    if items.length ≤ positions.length then
      (positions.zip items).foldlM
        (fun term (key, member) => term.withMember key member) {}
    else none
  | _ => none

def toTerm (term : TermJson) : Except ParamsError FilterTerm :=
  match term.value.toValue? with
  | some value => .ok ⟨term.field, term.operator, value, term.omitEmpty⟩
  | none => .error .unsupportedValue

end TermJson

namespace Filter

/-- Reads a list of terms (`filter_from_json`).  All are read before the first
value is converted. -/
def ofJson : Json → Except ParamsError Filter
  | .array items =>
    match items.mapM TermJson.read? with
    | some terms => (terms.mapM TermJson.toTerm).map Filter.mk
    | none => .error .malformedTerms
  | _ => .error .malformedTerms

end Filter

mutual

/-- Reads what one key is bound to (`param_from_json`). -/
def Param.ofJson : Json → Except ParamsError Param
  | .object [("$filter", terms)] =>
    (Filter.ofJson terms).map fun filter => .filter (some filter)
  | .object members =>
    (Param.entriesOfJson members).map fun entries =>
      .params (Params.ofList entries)
  | json =>
    match json.toValue? with
    | some plain => .ok (.value plain)
    | none => .error .unsupportedValue

def Param.entriesOfJson :
    List (String × Json) → Except ParamsError (List (String × Param))
  | [] => .ok []
  | (key, member) :: members => do
    let param ← Param.ofJson member
    let entries ← Param.entriesOfJson members
    pure ((key, param) :: entries)

end

/-- Reads a mapping of bindings (`params_from_json`); the first member that is
refused decides the error. -/
def Params.ofJson : Json → Except ParamsError Params
  | .object members => (Param.entriesOfJson members).map Params.ofList
  | _ => .error .notObject

end Aggregation
