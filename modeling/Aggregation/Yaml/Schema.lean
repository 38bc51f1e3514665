import Aggregation.Decimal
import Aggregation.Text.Bytes
import Aggregation.Yaml.Token

/-!
# What YAML scalars amount to

A scalar without quotes is null, a truth value or a number if it is written like
one, and otherwise a text.  Quotes and tags settle the kind; a tag that starts
with a mark is a type of its own, if it spells a text at all.
-/

namespace Aggregation.Yaml

inductive Content where
  | null
  | bool (b : Bool)
  /-- A whole number of at most 128 bits, by its sign and its size. -/
  | integer (negative : Bool) (size : Nat)
  | double (d : Double)
  | text (text : String)

namespace Schema

def isNull (text : String) : Bool :=
  text ∈ ["null", "Null", "NULL", "~"]

def bool? (text : String) : Option Bool :=
  if text ∈ ["true", "True", "TRUE"] then some true
  else if text ∈ ["false", "False", "FALSE"] then some false
  else none

/-- The base of the digits and the digits, by what they start with. -/
def spanBase : List Char → Nat × List Char
  | '0' :: 'x' :: digits => (16, digits)
  | '0' :: 'o' :: digits => (8, digits)
  | '0' :: 'b' :: digits => (2, digits)
  | digits => (10, digits)

/-- Whether there is a zero before other digits, which no number starts with. -/
def isPadded : List Char → Bool
  | '0' :: c :: rest => (c :: rest).all Char.isDigit
  | _ => false

def digit? (base : Nat) (c : Char) : Option Nat :=
  (Text.hexDigit? c).filter (· < base)

/-- Reads digits of one base, at least one. -/
def digits? (base : Nat) : List Char → Option Nat
  | [] => none
  | digits => digits.foldlM (fun n c => (digit? base c).map (base * n + ·)) 0

/-- The sign of a whole number, true when it is a minus, and its size. -/
def integer? (text : String) : Option (Bool × Nat) :=
  let (negative, rest) := Decimal.spanSign text.toList
  let (base, digits) := spanBase rest
  if isPadded rest then none else (digits? base digits).map (negative, ·)

def isWide (negative : Bool) (size : Nat) : Bool :=
  if negative then Nat.pow 2 127 < size else Nat.pow 2 128 ≤ size

def natural? (text : String) : Option Nat :=
  match integer? text with
  | some (false, size) => if size < UInt64.size then some size else none
  | _ => none

/-- A number with a point, infinity or NaN.  A number too large for a double is
none. -/
def double? (text : String) : Option Double :=
  let (negative, rest) := Decimal.spanSign text.toList
  if String.ofList rest ∈ [".inf", ".Inf", ".INF"] then
    some (Double.infinity negative)
  else if text ∈ [".nan", ".NaN", ".NAN"] then some Double.nan
  else ((Decimal.read? text.toList).map Decimal.toDouble).filter Double.isFinite

/-- What a number without a tag reads as: a whole number, unless it is wider
than 128 bits. -/
def number? (text : String) : Option Content :=
  match (integer? text).filter fun (negative, size) =>
      !isWide negative size with
  | some (negative, size) => some (.integer negative size)
  | none =>
    if isPadded (Decimal.spanSign text.toList).2 then none
      else (double? text).map .double

def untagged (text : String) : Content :=
  if text.isEmpty || isNull text then .null
  else
    match bool? text with
    | some b => .bool b
    | none => (number? text).getD (.text text)

/-- The tag of a kind that every document knows. -/
def coreTag (kind : String) : Tag := .ofText ("tag:yaml.org,2002:" ++ kind)

/-- Whether a tag starts with a mark. -/
def isMarked (tag : Tag) : Bool :=
  tag.bytes.head? = some '!'.toUInt8

/-- Whether a tag is a type of its own. -/
def isLocal (tag : Option Tag) : Bool :=
  tag.any fun tag => isMarked tag && tag.bytes.toByteArray.validateUTF8

/-- What a scalar without a tag amounts to. -/
def byStyle (style : ScalarStyle) (text : String) : Content :=
  if style = .plain then untagged text else .text text

/-- What a scalar amounts to, none if its tag does not fit.  A tag that starts
with a mark and spells no text is as good as none. -/
def content? (tag : Option Tag) (style : ScalarStyle) (text : String) :
    Option Content :=
  match tag with
  | none => some (byStyle style text)
  | some tag =>
    if isLocal tag then none
    else if isMarked tag then some (byStyle style text)
    else if tag = coreTag "bool" then (bool? text).map .bool
    else if tag = coreTag "int" then
      (integer? text).bind fun (negative, size) =>
        if isWide negative size then none else some (.integer negative size)
    else if tag = coreTag "float" then (double? text).map .double
    else if tag = coreTag "null" then if isNull text then some .null else none
    else some (.text text)

/-- Whether a scalar is asked for its content as one without quotes: by its
style, or by a literal style and the tag of the kind. -/
def isBare (kind : String) (tag : Option Tag) (style : ScalarStyle) : Bool :=
  style = .plain || (style = .literal && tag = some (coreTag kind))

end Schema

end Aggregation.Yaml
