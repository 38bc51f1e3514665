import Aggregation.Definition
import Aggregation.Definition.Source
import Aggregation.ExtendedJson.Payload

/-!
# Reading definitions

How a source gives a definition.  Static arguments may hold extended values:
once a reserved key is met, the record stands for the value under it, whatever
stood before, and nothing may follow.
-/

namespace Aggregation

namespace SourceReader

/-- Non-negative numbers take the narrowest width, negative ones the wide
one. -/
def integer? (n : Int) : Option Value :=
  if 0 ≤ n ∧ ExtendedJson.inInt32 n then some (.int32 (Int32.ofInt n))
  else if ExtendedJson.inInt64 n then some (.int64 (Int64.ofInt n))
  else none

/-- The fields of a payload that is a record of exactly these, in this order. -/
def body (source : Source) (depth : Nat) (names : List String) (datum : Datum) :
    SourceReader (List Datum) := do
  if depth = 0 then failure
  else
    let slots ← slots source names failure datum
    names.mapM (slot slots)

def wordField (source : Source) (datum : Datum) : SourceReader UInt32 := do
  let n ← natural source datum
  if n < UInt32.size then pure (UInt32.ofNat n) else failure

/-- Whether a key is the one of a count of milliseconds, by name or by
position. -/
def isCountKey : Scalar → Bool
  | { value := some (.string s), .. } => s = "$numberLong"
  | { value := some (.int32 n), .. } => n == 0
  | _ => false

def countText (source : Source) (datum : Datum) : SourceReader Value := do
  let count ← ofOption (ExtendedJson.readInt64? (← untypedText source datum))
  pure (.dateTime count)

/-- An instant: its text, its count, or a record or list that holds nothing but
the count's text. -/
def instant (source : Source) (depth : Nat) (datum : Datum) :
    SourceReader Value := do
  match ← resolve source datum with
  | .scalar { value := some (.string s), .. } =>
    pure (.dateTime (← ofOption (ExtendedJson.readInstant? s)))
  | .scalar { value := some (.int32 n), .. } => pure (.dateTime n.toInt64)
  | .scalar { value := some (.int64 n), .. } => pure (.dateTime n)
  | .record false [(key, count)] =>
    if depth = 0 then failure
    else
      match ← resolve source key with
      | .scalar key =>
        if isCountKey key then countText source count else failure
      | _ => failure
  | .list false [count] => if depth = 0 then failure else countText source count
  | _ => failure

def binary (source : Source) (depth : Nat) (datum : Datum) :
    SourceReader Value := do
  match ← body source depth ["base64", "subType"] datum with
  | [base64, subtype] =>
    ofOption (ExtendedJson.readBinary? (← text source base64)
      (← text source subtype))
  | _ => failure

def timestamp (source : Source) (depth : Nat) (datum : Datum) :
    SourceReader Value := do
  match ← body source depth ["t", "i"] datum with
  | [time, increment] =>
    pure (.timestamp (← wordField source time) (← wordField source increment))
  | _ => failure

def regularExpression (source : Source) (depth : Nat) (datum : Datum) :
    SourceReader Value := do
  match ← body source depth ["pattern", "options"] datum with
  | [pattern, options] =>
    pure (ExtendedJson.regex (← text source pattern) (← text source options))
  | _ => failure

def textPayload {α : Type} (source : Source) (read? : String → Option α)
    (make : α → Value) (datum : Datum) : SourceReader Value := do
  pure (make (← ofOption (read? (← text source datum))))

def onePayload (source : Source) (value : Value) (datum : Datum) :
    SourceReader Value := do
  if (← natural source datum) = 1 then pure value else failure

/-- How the value under a reserved key is read, for the keys that stand alone.
Decimals of 128 bits and pointers into other collections are no values here, so
nothing is read under their keys. -/
def payload? (source : Source) (depth : Nat) (key : String) :
    Option (Datum → SourceReader Value) :=
  match key with
  | "$oid" => some fun datum => do
    pure (.objectId
      (← ofOption (ExtendedJson.readObjectId? (← untypedText source datum))))
  | "$symbol" => some (textPayload source some .symbol)
  | "$numberInt" => some (textPayload source ExtendedJson.readInt32? .int32)
  | "$numberLong" => some (textPayload source ExtendedJson.readInt64? .int64)
  | "$numberDouble" =>
    some (textPayload source ExtendedJson.readDouble? .double)
  | "$binary" => some (binary source depth)
  | "$timestamp" => some (timestamp source depth)
  | "$regularExpression" => some (regularExpression source depth)
  | "$date" => some (instant source depth)
  | "$minKey" => some (onePayload source .minKey)
  | "$maxKey" => some (onePayload source .maxKey)
  | "$undefined" => some fun datum => do
    if ← flag source datum then pure .undefined else failure
  | "$numberDecimal" | "$numberDecimalBytes" | "$dbPointer" =>
    some fun _ => failure
  | _ => none

/-- Code, alone or with the scope that follows it. -/
def codeThenScope (source : Source) (scope : Datum → SourceReader Document)
    (code : Datum) :
    List (Datum × Datum) → SourceReader Value
  | [] => do pure (.code (← text source code))
  | [(key, datum)] => do
    let code ← text source code
    if (← text source key) = "$scope" then
      pure (.codeWithScope code (← scope datum))
    else failure
  | _ => failure

/-- A scope, which only the code that follows it makes complete. -/
def scopeThenCode (source : Source) (scope : Datum → SourceReader Document)
    (datum : Datum) :
    List (Datum × Datum) → SourceReader Value
  | [(key, code)] => do
    let fields ← scope datum
    if (← text source key) = "$code" then
      pure (.codeWithScope (← text source code) fields)
    else failure
  | _ => failure

/-- Reads the entries of a record whose own entries may hold `depth` more
levels. -/
def fields (source : Source) (depth : Nat) (value : Datum → SourceReader Value)
    (scope : Datum → SourceReader Document) :
    Document → List (Datum × Datum) → SourceReader Value
  | document, [] => pure (.document document)
  | document, (key, datum) :: entries => do
    let key ← text source key
    if key = "$code" then codeThenScope source scope datum entries
    else if key = "$scope" then scopeThenCode source scope datum entries
    else
      match payload? source depth key with
      | some read => if entries.isEmpty then read datum else failure
      | none =>
        let value' ← value datum
        fields source depth value scope
          (Fields.insert document key value') entries

mutual

/-- Reads a value of at most `depth` levels. -/
def value (source : Source) : Nat → Datum → SourceReader Value
  | 0, datum => ask source Scalar.value datum
  | depth + 1, datum => do
    match ← resolve source datum with
    | .scalar scalar => ofOption scalar.value
    | .list false items => .array <$> items.mapM (value source depth)
    | .record false entries =>
      fields source depth (value source depth) (document source depth) []
        entries
    | _ => failure

/-- Reads a record that stands for itself. -/
def document (source : Source) : Nat → Datum → SourceReader Document
  | 0, datum =>
    ask source (fun scalar => if scalar.isBlank then some [] else none) datum
  | depth + 1, datum => do
    match ← resolve source datum with
    | .scalar scalar => if scalar.isBlank then pure [] else failure
    | .record _ entries =>
      match ← fields source depth (value source depth) (document source depth)
        [] entries with
      | .document fields => pure fields
      | _ => failure
    | _ => failure

end

/-- A field that may be left out. -/
def slotOr {α : Type} (slots : List (String × Datum)) (name : String)
    (missing : α) (read : Datum → SourceReader α) : SourceReader α :=
  match Fields.get? slots name with
  | some datum => read datum
  | none => pure missing

/-- The definition, its list of stages and the stage are three levels around the
arguments. -/
def argsDepth (source : Source) : Nat := source.depth - 3

def stage (source : Source) (datum : Datum) : SourceReader Stage := do
  let slots ← slots source ["key", "operator", "args"] (pure ()) datum
  let key ← slotOr slots "key" none (ask source Scalar.optionalText)
  let operator ← text source (← slot slots "operator")
  let args ← slotOr slots "args" [] (document source (argsDepth source))
  pure { key, operator, args }

def stages (source : Source) (datum : Datum) : SourceReader (List Stage) := do
  match ← resolve source datum with
  | .list _ items => items.mapM (stage source)
  | .scalar scalar => if scalar.isBlank then pure [] else failure
  | .record .. => failure
  | .reference _ => failure

def definition (source : Source) (datum : Datum) : SourceReader Definition := do
  let slots ← slots source ["name", "collection", "stages"] (pure ()) datum
  let name ← text source (← slot slots "name")
  let collection ← text source (← slot slots "collection")
  let stages ← slotOr slots "stages" [] (stages source)
  pure { name, collection, stages }

end SourceReader

namespace Definition

def ofSource? (source : Source) : Option Definition :=
  ((SourceReader.definition source source.root).run source.jumps).map Prod.fst

end Definition

end Aggregation
