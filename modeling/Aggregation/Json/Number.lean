import Aggregation.Decimal

/-!
# Numbers of JSON texts

How a number literal is read and how a double is written.  Reading keeps as many
leading digits as fit in sixty-four bits and scales them by powers of ten, each
step rounded; writing uses the fewest digits that read back.
-/

namespace Aggregation.Json

/-- A number literal, cut into its parts. -/
structure Numeral where
  negative : Bool
  whole : List Char
  /-- The digits after the point. -/
  fraction : Option (List Char)
  /-- The sign of the exponent, true for a minus, and its digits. -/
  exponent : Option (Bool × List Char)

/-- A literal is a whole number or a double. -/
inductive Number where
  | int (n : Int)
  | double (d : Double)

namespace Numeral

/-- Appends digits to a significand for as long as it fits in sixty-four bits;
the digits that found no room are left over. -/
def absorb (significand : Nat) : List Char → Nat × List Char
  | [] => (significand, [])
  | c :: rest =>
    let next := 10 * significand + (c.toNat - '0'.toNat)
    if next < UInt64.size then absorb next rest else (significand, c :: rest)

/-- The greatest power of ten among the doubles has this exponent. -/
def maxScale : Nat := 308

def powerOfTen (exponent : Nat) : Double := Double.ofScaled false 1 exponent

/-- Divides by `10 ^ exponent`, by the greatest power of ten at a time. -/
def scaleDown (size : Double) (exponent : Nat) : Double :=
  if exponent ≤ maxScale then size.divSize (powerOfTen exponent)
  else if size.isZero then size
  else scaleDown (size.divSize (powerOfTen maxScale)) (exponent - maxScale)
termination_by exponent
decreasing_by simp only [maxScale] at *; omega

/-- Multiplies by `10 ^ exponent`; a result beyond the doubles is refused. -/
def scaleUp? (size : Double) (exponent : Nat) : Option Double :=
  if size.isZero then some size
  else if maxScale < exponent then none
  else
    let scaled := size.mulSize (powerOfTen exponent)
    if scaled.isInfinite then none else some scaled

def scale? (negative : Bool) (significand : Nat) (exponent : Int) :
    Option Double :=
  let size := Double.ofNat false significand
  let scaled? :=
    if 0 ≤ exponent then scaleUp? size exponent.toNat
    else some (scaleDown size (-exponent).toNat)
  scaled?.map (Double.withSign negative)

/-- The value of a literal, none if it is beyond the doubles.  Without point and
exponent it is a whole number from `-2 ^ 63` to `2 ^ 64 - 1`; anything else, and
`-0`, is a double. -/
def value? (numeral : Numeral) : Option Number :=
  let (head, dropped) := absorb 0 numeral.whole
  match numeral.fraction, numeral.exponent, dropped with
  | none, none, [] =>
    if numeral.negative then
      if head = 0 ∨ 0x8000000000000000 <
        head then some (.double (Double.ofNat true head))
      else some (.int (-head))
    else some (.int head)
  | fraction, exponent, _ =>
    let digits := fraction.getD []
    let (significand, excess) := absorb head digits
    let shift : Int :=
      match exponent with
      | none => 0
      | some (negative, digits) =>
        let size : Int := Nat.ofDigitChars 10 digits 0
        if negative then -size else size
    let exponent : Int :=
      dropped.length - (digits.length - excess.length : Nat) + shift
    (scale? numeral.negative significand exponent).map .double

end Numeral

/-- How a double is laid out: positional from the first exponent to the second,
else scientific. -/
structure NumberLayout where
  lowest : Int
  highest : Int

def numberLayout : NumberLayout := ⟨-5, 15⟩

def exponentText (exponent : Int) : List Char :=
  'e' :: (if exponent < 0 then '-' else '+') :: Nat.toDigits 10 exponent.natAbs

/-- Writes a positive decimal, whose last digit counts `10 ^ exponent`. -/
def layDigits (layout : NumberLayout) (digits : List Char) (exponent : Int) :
    List Char :=
  let lead := exponent + digits.length - 1
  if layout.lowest ≤ lead ∧ lead ≤ layout.highest then
    if 0 ≤ exponent then
      digits ++ List.replicate exponent.toNat '0' ++ ['.', '0']
    else if 0 ≤ lead then
      digits.take (lead.toNat + 1) ++ '.' :: digits.drop (lead.toNat + 1)
    else '0' :: '.' :: List.replicate (-lead - 1).toNat '0' ++ digits
  else
    match digits with
    | first :: second :: rest =>
      first :: '.' :: second :: rest ++ exponentText lead
    | _ => digits ++ exponentText lead

/-- The text of a finite double. -/
def doubleText (d : Double) : List Char :=
  let sign := if d.negative then ['-'] else []
  if d.isZero then sign ++ ['0', '.', '0']
  else
    let decimal := d.shortest
    sign ++ layDigits numberLayout (Nat.toDigits 10 decimal.digits)
      decimal.exponent

def intText (n : Int) : List Char :=
  if n < 0 then '-' :: Nat.toDigits 10 n.natAbs else Nat.toDigits 10 n.natAbs

end Aggregation.Json
