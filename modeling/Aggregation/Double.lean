/-!
# Binary64 numbers

A double is its sixty-four bits.  Its size is a natural `coefficient` times a
power of two, counted in units of `2 ^ -1074`, so every operation here is exact
natural arithmetic followed by one rounding, to the nearest double and to the
even one of two equally near.
-/

namespace Aggregation

structure Double where
  bits : UInt64
  deriving DecidableEq

/-- The nearest natural number to `n / d`; a half goes to the even neighbour. -/
def roundToEven (n d : Nat) : Nat :=
  let quotient := n / d
  let remainder := n % d
  if 2 * remainder < d then quotient
  else if d < 2 * remainder then quotient + 1
  else quotient + quotient % 2

namespace Double

/-- How many sizes there are from one power of two to the next: `2 ^ 52`. -/
def fractionSize : Nat := 0x10000000000000

/-- What a minus adds to the bits: `2 ^ 63`. -/
def signCode : Nat := 0x8000000000000000

/-- Sizes are numbered in ascending order; infinity has this number and the NaNs
follow. -/
def infinityCode : Nat := 0x7FF * fractionSize

def negative (d : Double) : Bool := signCode ≤ d.bits.toNat

def sizeCode (d : Double) : Nat := d.bits.toNat % signCode

def ofCode (negative : Bool) (code : Nat) : Double :=
  ⟨UInt64.ofNat (code + if negative then signCode else 0)⟩

def isZero (d : Double) : Bool := d.sizeCode = 0

def isNaN (d : Double) : Bool := infinityCode < d.sizeCode

def isInfinite (d : Double) : Bool := d.sizeCode = infinityCode

def isFinite (d : Double) : Bool := d.sizeCode < infinityCode

def infinity (negative : Bool) : Double := ofCode negative infinityCode

def nan : Double := ofCode false (infinityCode + fractionSize / 2)

def zero (negative : Bool) : Double := ofCode negative 0

/-- Whether the number is `1` or `-1`. -/
def isUnit (d : Double) : Bool := d.sizeCode = 0x3FF * fractionSize

def coefficient (d : Double) : Nat :=
  let fraction := d.sizeCode % fractionSize
  if d.sizeCode < fractionSize then fraction else fraction + fractionSize

/-- The power of two beside the coefficient, in units of `2 ^ -1074`. -/
def power (d : Double) : Nat := d.sizeCode / fractionSize - 1

/-- A finite size as a ratio of naturals. -/
def ratio (d : Double) : Nat × Nat :=
  if 1074 ≤ d.power then (d.coefficient <<< (d.power - 1074), 1)
  else (d.coefficient, 1 <<< (1074 - d.power))

/-- The double nearest to `n / d`, infinite when that is beyond the greatest
finite one.

The number of a finite size is its coefficient plus `fractionSize` for each
doubling, and a coefficient rounded up to twice that carries into the next
doubling by itself. -/
def ofRatio (negative : Bool) (n d : Nat) : Double :=
  let units := n <<< 1074
  let shift := Nat.log2 (units / d) - 52
  let code := shift * fractionSize + roundToEven units (d <<< shift)
  ofCode negative (min code infinityCode)

def ofNat (negative : Bool) (n : Nat) : Double := ofRatio negative n 1

/-- `10 ^ exponent` times a whole number, rounded once. -/
def ofScaled (negative : Bool) (significand : Nat) (exponent : Int) : Double :=
  if 0 ≤ exponent then
    ofRatio negative (significand * Nat.pow 10 exponent.toNat) 1
  else ofRatio negative significand (Nat.pow 10 (-exponent).toNat)

/-- The product of two finite sizes. -/
def mulSize (a b : Double) : Double :=
  ofRatio false (a.ratio.1 * b.ratio.1) (a.ratio.2 * b.ratio.2)

/-- The quotient of a finite size by a finite size other than zero. -/
def divSize (a b : Double) : Double :=
  ofRatio false (a.ratio.1 * b.ratio.2) (a.ratio.2 * b.ratio.1)

def withSign (negative : Bool) (d : Double) : Double :=
  ofCode negative d.sizeCode

/-- Numeric equality: the two zeros are equal, and a NaN differs from
everything. -/
def equal (a b : Double) : Bool :=
  !a.isNaN && !b.isNaN && (a.bits == b.bits || (a.isZero && b.isZero))

end Double

end Aggregation
