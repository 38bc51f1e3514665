/-!
# Instants as text

An instant is a count of milliseconds since the start of 1970, without leap
seconds, and its text is that of RFC 3339.
-/

namespace Aggregation.Instant

structure CivilDate where
  year : Int
  month : Nat
  day : Nat

def isLeapYear (year : Int) : Bool :=
  year % 4 = 0 && (year % 100 ≠ 0 || year % 400 = 0)

def monthLength (year : Int) (month : Nat) : Nat :=
  if month = 2 then if isLeapYear year then 29 else 28
  else if month = 4 ∨ month = 6 ∨ month = 9 ∨ month = 11 then 30
  else 31

/-- Days since the start of 1970.  Years are counted from March, so a leap day
ends its year. -/
def CivilDate.toDays (date : CivilDate) : Int :=
  let year := if date.month ≤ 2 then date.year - 1 else date.year
  let era := Int.fdiv year 400
  let yearOfEra := year - era * 400
  let monthFromMarch : Int := (date.month + 9) % 12
  let dayOfYear := (153 * monthFromMarch + 2) / 5 + date.day - 1
  let dayOfEra := yearOfEra * 365 + yearOfEra / 4 - yearOfEra / 100 + dayOfYear
  era * 146097 + dayOfEra - 719468

def CivilDate.ofDays (days : Int) : CivilDate :=
  let shifted := days + 719468
  let era := Int.fdiv shifted 146097
  let dayOfEra := shifted - era * 146097
  let yearOfEra :=
    (dayOfEra - dayOfEra / 1460 + dayOfEra / 36524 - dayOfEra / 146096) / 365
  let dayOfYear :=
    dayOfEra - (365 * yearOfEra + yearOfEra / 4 - yearOfEra / 100)
  let monthFromMarch := (5 * dayOfYear + 2) / 153
  let day := dayOfYear - (153 * monthFromMarch + 2) / 5 + 1
  let month :=
    if monthFromMarch < 10 then monthFromMarch + 3 else monthFromMarch - 9
  ⟨yearOfEra + era * 400 + (if month ≤ 2 then 1 else 0), month.toNat, day.toNat⟩

/-- The last millisecond of the year 9999. -/
def lastMillis : Int := 253402300799999

def padded (width n : Nat) : List Char :=
  let digits := Nat.toDigits 10 n
  List.replicate (width - digits.length) '0' ++ digits

/-- Thousandths of a second, without the zeros at the end. -/
def fractionText (millis : Nat) : List Char :=
  if millis = 0 then []
  else '.' :: ((padded 3 millis).reverse.dropWhile (· = '0')).reverse

/-- The text of an instant from 1970 to 9999, in universal time. -/
def text? (millis : Int) : Option String :=
  if 0 ≤ millis ∧ millis ≤ lastMillis then
    let date := CivilDate.ofDays (millis / 86400000)
    let rest := (millis % 86400000).toNat
    let chars :=
      padded 4 date.year.toNat ++ '-' :: padded 2 date.month ++
        '-' :: padded 2 date.day ++
        'T' :: padded 2 (rest / 3600000) ++
        ':' :: padded 2 (rest / 60000 % 60) ++
        ':' :: padded 2 (rest / 1000 % 60) ++
        fractionText (rest % 1000) ++ ['Z']
    some (String.ofList chars)
  else none

/-- Reads exactly so many digits. -/
def readDigits? (count : Nat) (cs : List Char) : Option (Nat × List Char) :=
  let digits := cs.take count
  if digits.length = count ∧ digits.all Char.isDigit then
    some (Nat.ofDigitChars 10 digits 0, cs.drop count)
  else none

def readChar? (expected : Char) : List Char → Option (List Char)
  | c :: rest => if c = expected then some rest else none
  | [] => none

/-- Nanoseconds after a point; digits beyond the ninth are ignored. -/
def readFraction? : List Char → Option (Nat × List Char)
  | '.' :: rest =>
    let digits := rest.takeWhile Char.isDigit
    if digits.isEmpty then none
    else
      let kept := digits.take 9
      some (Nat.ofDigitChars 10 kept 0 * Nat.pow 10 (9 - kept.length),
        rest.dropWhile Char.isDigit)
  | cs => some (0, cs)

/-- Minutes east of universal time. -/
def readOffset? : List Char → Option (Int × List Char)
  | [] => none
  | sign :: rest =>
    if sign = 'Z' ∨ sign = 'z' then some (0, rest)
    else if sign = '+' ∨ sign = '-' then do
      let (hours, rest) ← readDigits? 2 rest
      let rest ← readChar? ':' rest
      let (minutes, rest) ← readDigits? 2 rest
      if hours ≤ 23 ∧ minutes ≤ 59 then
        let size : Int := hours * 60 + minutes
        some (if sign = '-' then -size else size, rest)
      else none
    else none

/-- Whether a second of universal time, counted since 1970, is the last one of a
month. -/
def endsMonth (seconds : Int) : Bool :=
  seconds % 86400 = 86399 &&
    (CivilDate.ofDays (Int.fdiv seconds 86400 + 1)).day = 1

/-- Reads a date, any one ASCII character, a time of day and an offset.  A leap
second counts as the last nanosecond before it, and is accepted only at the end
of a month.  Parts of a millisecond are dropped, toward 1970. -/
def read? (text : List Char) : Option Int := do
  let (year, rest) ← readDigits? 4 text
  let rest ← readChar? '-' rest
  let (month, rest) ← readDigits? 2 rest
  let rest ← readChar? '-' rest
  let (day, rest) ← readDigits? 2 rest
  let rest ←
    match rest with
    | separator :: rest => if separator.toNat < 0x80 then some rest else none
    | [] => none
  let (hour, rest) ← readDigits? 2 rest
  let rest ← readChar? ':' rest
  let (minute, rest) ← readDigits? 2 rest
  let rest ← readChar? ':' rest
  let (second, rest) ← readDigits? 2 rest
  let (nanos, rest) ← readFraction? rest
  let (offset, rest) ← readOffset? rest
  let valid :=
    rest.isEmpty ∧ 1 ≤ month ∧ month ≤ 12 ∧ 1 ≤ day ∧
      day ≤ monthLength year month ∧ hour ≤ 23 ∧ minute ≤ 59 ∧ second ≤ 60
  if valid then
    let isLeap := second = 60
    let second := if isLeap then 59 else second
    let nanos := if isLeap then 999999999 else nanos
    let days := (CivilDate.mk year month day).toDays
    let seconds :=
      days * 86400 + hour * 3600 + minute * 60 + second - offset * 60
    if isLeap ∧ !endsMonth seconds then none
    else some (Int.tdiv (seconds * 1000000000 + nanos) 1000000)
  else none

end Aggregation.Instant
