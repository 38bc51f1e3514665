import Aggregation.Decimal
import Aggregation.ExtendedJson.Writer

/-!
# Payloads of extended JSON

The texts that stand under the reserved keys, read strictly: nothing may stand
before or after what is asked for.
-/

namespace Aggregation.ExtendedJson

/-- A whole number with an optional sign of either kind. -/
def readInt? (text : String) : Option Int :=
  let (negative, digits) := Decimal.spanSign text.toList
  if digits.isEmpty ∨ !digits.all Char.isDigit then none
  else
    let size : Int := Nat.ofDigitChars 10 digits 0
    some (if negative then -size else size)

def inInt32 (n : Int) : Bool := -0x80000000 ≤ n && n < 0x80000000

def inInt64 (n : Int) : Bool :=
  -0x8000000000000000 ≤ n && n < 0x8000000000000000

def readInt32? (text : String) : Option Int32 :=
  (readInt? text).bind fun n => if inInt32 n then some (Int32.ofInt n) else none

def readInt64? (text : String) : Option Int64 :=
  (readInt? text).bind fun n => if inInt64 n then some (Int64.ofInt n) else none

/-- The names of infinity and of NaN in lower case. -/
def nonFinite? (negative : Bool) (name : List Char) : Option Double :=
  let name := String.ofList (name.map Char.toLower)
  if name = "inf" ∨ name = "infinity" then some (Double.infinity negative)
  else if name = "nan" then some (Double.withSign negative Double.nan)
  else none

/-- A decimal number, or infinity or NaN by name in any case. -/
def readDouble? (text : String) : Option Double :=
  let (negative, rest) := Decimal.spanSign text.toList
  match nonFinite? negative rest with
  | some d => some d
  | none => (Decimal.read? text.toList).map Decimal.toDouble

def readObjectId? (text : String) : Option ObjectId :=
  (Text.readHex? text.toList).bind fun bytes =>
    if h : bytes.toArray.size = 12 then some ⟨bytes.toArray, h⟩ else none

def readInstant? (text : String) : Option Int64 :=
  (Instant.read? text.toList).map Int64.ofInt

/-- One byte, as two hexadecimal digits. -/
def readSubtype? (text : String) : Option UInt8 :=
  match Text.readHex? text.toList with
  | some [subtype] => some subtype
  | _ => none

def readBinary? (base64 subtype : String) : Option Value := do
  let bytes ← Text.readBase64? base64.toList
  let subtype ← readSubtype? subtype
  some (.binary subtype bytes)

/-- Regular expressions keep their options in order. -/
def regex (pattern options : String) : Value :=
  .regex pattern (sortChars options)

end Aggregation.ExtendedJson
