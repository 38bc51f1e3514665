/-!
# Bytes as text

Two written forms of byte strings: pairs of hexadecimal digits, and base64 with
its canonical padding.  Both readers refuse what the writers would not have
produced, the case of hexadecimal digits apart.
-/

namespace Aggregation.Text

def hexDigit? (c : Char) : Option Nat :=
  if c.isDigit then some (c.toNat - '0'.toNat)
  else if 'a' ≤ c ∧ c ≤ 'f' then some (c.toNat - 'a'.toNat + 10)
  else if 'A' ≤ c ∧ c ≤ 'F' then some (c.toNat - 'A'.toNat + 10)
  else none

def hexPair (b : UInt8) : List Char :=
  [Nat.digitChar (b.toNat / 16), Nat.digitChar (b.toNat % 16)]

/-- Two digits for each byte, letters in lower case. -/
def hex (bytes : List UInt8) : String :=
  String.ofList (bytes.flatMap hexPair)

/-- Reads pairs of digits, letters in either case. -/
def readHex? : List Char → Option (List UInt8)
  | [] => some []
  | high :: low :: rest => do
    let high ← hexDigit? high
    let low ← hexDigit? low
    let bytes ← readHex? rest
    some (UInt8.ofNat (16 * high + low) :: bytes)
  | _ => none

/-- The sixty-four digits in ascending order: letters, numerals, plus and
slash. -/
def base64Digit (n : Nat) : Char :=
  if n < 26 then Char.ofNat ('A'.toNat + n)
  else if n < 52 then Char.ofNat ('a'.toNat + (n - 26))
  else if n < 62 then Char.ofNat ('0'.toNat + (n - 52))
  else if n = 62 then '+'
  else '/'

def base64Digit? (c : Char) : Option Nat :=
  if 'A' ≤ c ∧ c ≤ 'Z' then some (c.toNat - 'A'.toNat)
  else if 'a' ≤ c ∧ c ≤ 'z' then some (c.toNat - 'a'.toNat + 26)
  else if c.isDigit then some (c.toNat - '0'.toNat + 52)
  else if c = '+' then some 62
  else if c = '/' then some 63
  else none

def base64Chars : List UInt8 → List Char
  | [] => []
  | [a] =>
    let n := a.toNat * 16
    [base64Digit (n / 64), base64Digit (n % 64), '=', '=']
  | [a, b] =>
    let n := (a.toNat * 256 + b.toNat) * 4
    [base64Digit (n / 4096), base64Digit (n / 64 % 64),
      base64Digit (n % 64), '=']
  | a :: b :: c :: rest =>
    let n := (a.toNat * 256 + b.toNat) * 256 + c.toNat
    base64Digit (n / 262144) :: base64Digit (n / 4096 % 64) ::
      base64Digit (n / 64 % 64) :: base64Digit (n % 64) :: base64Chars rest

def base64 (bytes : List UInt8) : String :=
  String.ofList (base64Chars bytes)

/-- Reads base64.  The last group must be padded, and the bits it leaves over
must be zero. -/
def readBase64? : List Char → Option (List UInt8)
  | [] => some []
  | [a, b, '=', '='] => do
    let a ← base64Digit? a
    let b ← base64Digit? b
    let n := a * 64 + b
    if n % 16 = 0 then some [UInt8.ofNat (n / 16)] else none
  | [a, b, c, '='] => do
    let a ← base64Digit? a
    let b ← base64Digit? b
    let c ← base64Digit? c
    let n := (a * 64 + b) * 64 + c
    if n % 4 = 0 then some [UInt8.ofNat (n / 1024), UInt8.ofNat (n / 4)]
      else none
  | a :: b :: c :: d :: rest => do
    let a ← base64Digit? a
    let b ← base64Digit? b
    let c ← base64Digit? c
    let d ← base64Digit? d
    let n := ((a * 64 + b) * 64 + c) * 64 + d
    let bytes ← readBase64? rest
    some
      (UInt8.ofNat (n / 65536) :: UInt8.ofNat (n / 256) :: UInt8.ofNat n ::
        bytes)
  | _ => none

end Aggregation.Text
