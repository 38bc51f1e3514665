import Aggregation.Double

/-!
# Decimal numbers and doubles

A decimal is a whole number of powers of ten.  `Decimal.toDouble` rounds one to
the nearest double, `Double.shortest` finds the fewest digits that round back to
a double, and `Decimal.read?` reads the written form
`digits . digits e exponent`.
-/

namespace Aggregation

structure Decimal where
  negative : Bool
  digits : Nat
  exponent : Int

def digitCount (n : Nat) : Nat :=
  if n = 0 then 0 else (Nat.toDigits 10 n).length

namespace Decimal

/-- The nearest double.  Outside of the exponents `-330` to `310` the answer is
zero or infinity whatever the digits are. -/
def toDouble (d : Decimal) : Double :=
  let lead : Int := digitCount d.digits + d.exponent
  if d.digits = 0 ∨ lead < -330 then Double.zero d.negative
  else if 310 < lead then Double.infinity d.negative
  else Double.ofScaled d.negative d.digits d.exponent

def spanDigits (cs : List Char) : List Char × List Char :=
  (cs.takeWhile Char.isDigit, cs.dropWhile Char.isDigit)

/-- Splits off a sign, true when it is a minus. -/
def spanSign : List Char → Bool × List Char
  | '-' :: rest => (true, rest)
  | '+' :: rest => (false, rest)
  | cs => (false, cs)

/-- The exponent at the end of a number; nothing at all stands for zero. -/
def readExponent? : List Char → Option Int
  | [] => some 0
  | mark :: rest =>
    if mark = 'e' ∨ mark = 'E' then
      let (negative, rest) := spanSign rest
      let (digits, rest) := spanDigits rest
      if digits.isEmpty ∨ !rest.isEmpty then none
      else
        let size : Int := Nat.ofDigitChars 10 digits 0
        some (if negative then -size else size)
    else none

/-- Reads a whole text as a number: digits on at least one side of an optional
point, then an optional exponent. -/
def read? (text : List Char) : Option Decimal :=
  let (negative, rest) := spanSign text
  let (whole, rest) := spanDigits rest
  let (fraction, rest) :=
    match rest with
    | '.' :: after => spanDigits after
    | _ => ([], rest)
  if whole.isEmpty ∧ fraction.isEmpty then none
  else
    (readExponent? rest).map fun exponent =>
      ⟨negative, Nat.ofDigitChars 10 (whole ++ fraction) 0,
        exponent - fraction.length⟩

end Decimal

namespace Double

/-- The exponent of the leading decimal digit of `n / d`, for a ratio other than
zero. -/
def leadingExponent (n d : Nat) : Int :=
  if d ≤ n then digitCount (n / d) - 1 else -digitCount ((d - 1) / n)

/-- The point nearest to a size on the grid `10 ^ exponent`, among the two
around it, that rounds back to the same double.  Sizes are in quarters of
`unit`, which is `1 / scale`. -/
def gridPoint? (d : Double) (exponent : Int) : Option Nat :=
  let (size, scale) := d.ratio
  let unit := if 1074 ≤ d.power then 1 <<< (d.power - 1074) else 1
  let up := Nat.pow 10 (-exponent).toNat
  let step := 4 * scale * Nat.pow 10 exponent.toNat
  let exact := 4 * size * up
  let below :=
    if d.sizeCode % fractionSize = 0 ∧ 0 < d.power then unit else 2 * unit
  let low := exact - below * up
  let high := exact + 2 * unit * up
  let inside (point : Nat) : Bool :=
    if d.coefficient % 2 = 0 then low ≤ point * step ∧ point * step ≤ high
    else low < point * step ∧ point * step < high
  let floor := exact / step
  match inside floor, inside (floor + 1) with
  | true, false => some floor
  | false, true => some (floor + 1)
  | false, false => none
  | true, true =>
    let left := exact - floor * step
    let right := (floor + 1) * step - exact
    if left < right then some floor
    else if right < left then some (floor + 1)
    else some (floor + floor % 2)

/-- Tries grids of growing fineness, the first with `count` digits, up to
seventeen digits. -/
def shortestFrom (d : Double) (lead : Int) (count : Nat) : Nat → Decimal
  | 0 => ⟨d.negative, 0, 0⟩
  | tries + 1 =>
    let exponent := lead - count + 1
    match d.gridPoint? exponent with
    | some digits =>
      if digits = Nat.pow 10 count then ⟨d.negative, 1, lead + 1⟩
      else ⟨d.negative, digits, exponent⟩
    | none => shortestFrom d lead (count + 1) tries

/-- The decimal with the fewest digits that rounds to this finite double; of
several the nearest. -/
def shortest (d : Double) : Decimal :=
  if d.isZero then ⟨d.negative, 0, 0⟩
  else shortestFrom d (leadingExponent d.ratio.1 d.ratio.2) 1 17

end Double

end Aggregation
