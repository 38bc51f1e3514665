import Aggregation.ExtendedJson.Payload

/-!
# Recognizing extended values

A document whose only keys are reserved ones, and whose payload is well formed,
stands for another value.  Any other document stands for itself: nothing is
refused here.
-/

namespace Aggregation.ExtendedJson

def string? (fields : Document) (key : String) : Option String :=
  match Fields.get? fields key with
  | some (.string s) => some s
  | _ => none

def document? (fields : Document) (key : String) : Option Document :=
  match Fields.get? fields key with
  | some (.document d) => some d
  | _ => none

/-- A value under `$binary`: base64 with a subtype in hexadecimal, or plain
bytes with a number. -/
def binaryBody? (body : Document) : Option Value :=
  match string? body "base64" with
  | some base64 => (string? body "subType").bind (readBinary? base64)
  | none =>
    match Fields.get? body "bytes", Fields.get? body "subType" with
    | some (.binary 0 bytes), some (.int32 n) =>
      if 0 ≤ n.toInt ∧ n.toInt < 256 then
        some (.binary (UInt8.ofNat n.toInt.toNat) bytes)
      else none
    | _, _ => none

/-- Both numbers of a timestamp have one width; those of 32 bits are taken
modulo `2 ^ 32`. -/
def timestampBody? (body : Document) : Option Value :=
  match Fields.get? body "t", Fields.get? body "i" with
  | some (.int32 t), some (.int32 i) => some (.timestamp t.toUInt32 i.toUInt32)
  | some (.int64 t), some (.int64 i) =>
    if 0 ≤ t.toInt ∧ t.toInt < UInt32.size ∧ 0 ≤ i.toInt ∧
      i.toInt < UInt32.size then
      some
        (.timestamp (UInt32.ofNat t.toInt.toNat) (UInt32.ofNat i.toInt.toNat))
    else none
  | _, _ => none

def regexBody? (body : Document) : Option Value := do
  let pattern ← string? body "pattern"
  let options ← string? body "options"
  some (regex pattern options)

def isOne : Value → Bool
  | .int32 n => n == 1
  | .int64 n => n == 1
  | _ => false

/-- What a document with this one field stands for.  Under the keys of the two
kinds that are no values here it stands for itself. -/
def recognizeOne? (key : String) (value : Value) : Option Value :=
  match key, value with
  | "$oid", .string s => (readObjectId? s).map .objectId
  | "$symbol", .string s => some (.symbol s)
  | "$numberInt", .string s => (readInt32? s).map .int32
  | "$numberLong", .string s => (readInt64? s).map .int64
  | "$numberDouble", .string s => (readDouble? s).map .double
  | "$binary", .document body => binaryBody? body
  | "$code", .string s => some (.code s)
  | "$timestamp", .document body => timestampBody? body
  | "$regularExpression", .document body => regexBody? body
  | "$date", .int64 millis => some (.dateTime millis)
  | "$date", .string s => (readInstant? s).map .dateTime
  | "$minKey", value => if isOne value then some .minKey else none
  | "$maxKey", value => if isOne value then some .maxKey else none
  | "$undefined", .bool true => some .undefined
  | _, _ => none

/-- What a document stands for, its inner documents already recognized. -/
def recognize (fields : Document) : Value :=
  match fields with
  | [(key, value)] => (recognizeOne? key value).getD (.document fields)
  | [_, _] =>
    match string? fields "$code", document? fields "$scope" with
    | some s, some scope => .codeWithScope s scope
    | _, _ => .document fields
  | _ => .document fields

end Aggregation.ExtendedJson
