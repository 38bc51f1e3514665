import Aggregation.Double
import Aggregation.Fields

/-!
# Document values

The values a document database stores.  A document keeps its fields in order,
and every way of building one here goes through `Fields.insert`, so that a key
occurs once.
-/

namespace Aggregation

/-- Twelve bytes that name a stored object. -/
abbrev ObjectId := Vector UInt8 12

/-- Values of every kind but two: decimals of 128 bits and pointers into other
collections are left out, so nothing that is said of all values is said of
these. -/
inductive Value where
  | null
  | bool (b : Bool)
  | string (s : String)
  | int32 (n : Int32)
  | int64 (n : Int64)
  | double (d : Double)
  | array (items : List Value)
  | document (fields : List (String × Value))
  | objectId (id : ObjectId)
  /-- Milliseconds since the start of 1970. -/
  | dateTime (millis : Int64)
  | binary (subtype : UInt8) (bytes : List UInt8)
  | timestamp (time increment : UInt32)
  | regex (pattern options : String)
  | symbol (s : String)
  | code (s : String)
  | codeWithScope (s : String) (scope : List (String × Value))
  | undefined
  | minKey
  | maxKey
  deriving Inhabited

abbrev Document := Fields Value

namespace Value

/-- The zero values (`is_zero_value`): null, `false`, numeric zero, and whatever
is empty.  Dates, object ids and the other kinds always count as set. -/
def isZero : Value → Bool
  | null => true
  | bool b => !b
  | int32 n => n == 0
  | int64 n => n == 0
  | double d => d.isZero
  | string s => s.isEmpty
  | array items => items.isEmpty
  | document fields => fields.isEmpty
  | binary _ bytes => bytes.isEmpty
  | _ => false

def asString? : Value → Option String
  | string s => some s
  | _ => none

/-- Whether this is the number `1` or `-1`, of any numeric kind. -/
def isUnit : Value → Bool
  | int32 n => n == 1 || n == -1
  | int64 n => n == 1 || n == -1
  | double d => d.isUnit
  | _ => false

mutual

/-- Equality as the database sees it: doubles compare as numbers, and the fields
of documents in any order. -/
def equal : Value → Value → Bool
  | null, null => true
  | bool a, bool b => a == b
  | string a, string b => a == b
  | int32 a, int32 b => a == b
  | int64 a, int64 b => a == b
  | double a, double b => a.equal b
  | array as, array bs => equalItems as bs
  | document as, document bs => as.length == bs.length && equalFields as bs
  | objectId a, objectId b => a == b
  | dateTime a, dateTime b => a == b
  | binary s as, binary t bs => s == t && as == bs
  | timestamp t i, timestamp u j => t == u && i == j
  | regex p o, regex q r => p == q && o == r
  | symbol a, symbol b => a == b
  | code a, code b => a == b
  | codeWithScope a as, codeWithScope b bs =>
    a == b && as.length == bs.length && equalFields as bs
  | undefined, undefined => true
  | minKey, minKey => true
  | maxKey, maxKey => true
  | _, _ => false

def equalItems : List Value → List Value → Bool
  | [], [] => true
  | a :: as, b :: bs => equal a b && equalItems as bs
  | _, _ => false

/-- Every field of the first has an equal one in the second. -/
def equalFields : List (String × Value) → List (String × Value) → Bool
  | [], _ => true
  | (key, a) :: as, bs =>
    (match Fields.get? bs key with
      | some b => equal a b
      | none => false) && equalFields as bs

end

end Value

namespace Document

def equal (a b : Document) : Bool :=
  Value.equal (.document a) (.document b)

end Document

end Aggregation
