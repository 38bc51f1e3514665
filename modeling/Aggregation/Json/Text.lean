import Aggregation.Json
import Aggregation.Json.Number
import Aggregation.Text.Bytes

/-!
# JSON texts

The grammar of RFC 8259.  A text is first read into a tree that keeps what the
grammar alone allows: number literals of any size, repeated keys, and escapes of
lone surrogates, which name no character.  `JsonText.value?` then gives the tree
its value, if every number, string and level has one.
-/

namespace Aggregation

inductive JsonText where
  | null
  | bool (b : Bool)
  | number (numeral : Json.Numeral)
  /-- None if an escape names a lone surrogate. -/
  | string (content : Option String)
  | array (items : List JsonText)
  | object (members : List (Option String × JsonText))

namespace JsonText

def isBlank (c : Char) : Bool :=
  c = ' ' || c = '\n' || c = '\t' || c = '\r'

def skipBlanks (cs : List Char) : List Char :=
  cs.dropWhile isBlank

/-- The value of hexadecimal digits, the most significant first. -/
def hexValue? (digits : List Char) : Option Nat :=
  digits.foldlM (fun value c => (Text.hexDigit? c).map (16 * value + ·)) 0

/-- The character that a backslash and this letter stand for. -/
def escaped? : Char → Option Char
  | '"' => some '"'
  | '\\' => some '\\'
  | '/' => some '/'
  | 'b' => some '\x08'
  | 'f' => some '\x0c'
  | 'n' => some '\n'
  | 'r' => some '\r'
  | 't' => some '\t'
  | _ => none

/-- Reads a string up to its closing quote, as code points.  A surrogate can
only come from an escape, and is kept as it is. -/
def readCodes : List Char → Option (List Nat × List Char)
  | [] => none
  | '"' :: rest => some ([], rest)
  | '\\' :: 'u' :: a :: b :: c :: d :: rest => do
    let code ← hexValue? [a, b, c, d]
    let (codes, rest) ← readCodes rest
    some (code :: codes, rest)
  | '\\' :: c :: rest => do
    let c ← escaped? c
    let (codes, rest) ← readCodes rest
    some (c.toNat :: codes, rest)
  | c :: rest =>
    if c.toNat < 0x20 then none
    else do
      let (codes, rest) ← readCodes rest
      some (c.toNat :: codes, rest)

/-- Joins each pair of surrogates into its character; a lone one has none. -/
def joinSurrogates : List Nat → Option (List Char)
  | [] => some []
  | [code] => if h : code.isValidChar then some [Char.ofNatAux code h] else none
  | high :: low :: rest =>
    if 0xD800 ≤ high ∧ high < 0xDC00 ∧ 0xDC00 ≤ low ∧ low < 0xE000 then
      (joinSurrogates rest).map
        (Char.ofNat (0x10000 + (high - 0xD800) * 0x400 + (low - 0xDC00)) :: ·)
    else if h : high.isValidChar then
      (joinSurrogates (low :: rest)).map (Char.ofNatAux high h :: ·)
    else none

/-- Reads a string after its opening quote. -/
def readString (cs : List Char) : Option (Option String × List Char) :=
  (readCodes cs).map fun (codes, rest) =>
    ((joinSurrogates codes).map String.ofList, rest)

/-- Reads the digits after a point, at least one. -/
def readFraction : List Char → Option (Option (List Char) × List Char)
  | '.' :: rest =>
    let (digits, rest) :=
      (rest.takeWhile Char.isDigit, rest.dropWhile Char.isDigit)
    if digits.isEmpty then none else some (some digits, rest)
  | cs => some (none, cs)

def readExponent : List Char → Option (Option (Bool × List Char) × List Char)
  | [] => some (none, [])
  | mark :: rest =>
    if mark = 'e' ∨ mark = 'E' then
      let (negative, rest) :=
        match rest with
        | '-' :: rest => (true, rest)
        | '+' :: rest => (false, rest)
        | rest => (false, rest)
      let (digits, rest) :=
        (rest.takeWhile Char.isDigit, rest.dropWhile Char.isDigit)
      if digits.isEmpty then none else some (some (negative, digits), rest)
    else some (none, mark :: rest)

/-- Reads a number after its sign.  A leading zero stands alone. -/
def readUnsigned (negative : Bool) (cs : List Char) :
    Option (Json.Numeral × List Char) := do
  let (whole, rest) :=
    match cs with
    | '0' :: rest => (['0'], rest)
    | cs => (cs.takeWhile Char.isDigit, cs.dropWhile Char.isDigit)
  if whole.isEmpty then none
  else
    let (fraction, rest) ← readFraction rest
    let (exponent, rest) ← readExponent rest
    some (⟨negative, whole, fraction, exponent⟩, rest)

def readNumber : List Char → Option (Json.Numeral × List Char)
  | '-' :: rest => readUnsigned true rest
  | cs => readUnsigned false cs

/-- Reads a key after its opening quote, and the colon. -/
def readKey (cs : List Char) : Option (Option String × List Char) := do
  let (key, rest) ← readString cs
  match skipBlanks rest with
  | ':' :: rest => some (key, rest)
  | _ => none

mutual

/-- Reads one value, blanks before it allowed.  Every step takes at least one
character, so fuel beyond the length of the text is never used up. -/
def readValue : Nat → List Char → Option (JsonText × List Char)
  | 0, _ => none
  | fuel + 1, cs =>
    match skipBlanks cs with
    | 'n' :: 'u' :: 'l' :: 'l' :: rest => some (null, rest)
    | 't' :: 'r' :: 'u' :: 'e' :: rest => some (bool true, rest)
    | 'f' :: 'a' :: 'l' :: 's' :: 'e' :: rest => some (bool false, rest)
    | '"' :: rest =>
      (readString rest).map fun (content, rest) => (string content, rest)
    | '[' :: rest =>
      match skipBlanks rest with
      | ']' :: rest => some (array [], rest)
      | rest => do
        let (item, rest) ← readValue fuel rest
        let (items, rest) ← readItems fuel rest
        some (array (item :: items), rest)
    | '\x7b' :: rest =>
      match skipBlanks rest with
      | '\x7d' :: rest => some (object [], rest)
      | '"' :: rest => do
        let (key, rest) ← readKey rest
        let (value, rest) ← readValue fuel rest
        let (members, rest) ← readMembers fuel rest
        some (object ((key, value) :: members), rest)
      | _ => none
    | cs => (readNumber cs).map fun (numeral, rest) => (number numeral, rest)

/-- Reads the items after the first, up to the closing bracket. -/
def readItems : Nat → List Char → Option (List JsonText × List Char)
  | 0, _ => none
  | fuel + 1, cs =>
    match skipBlanks cs with
    | ']' :: rest => some ([], rest)
    | ',' :: rest => do
      let (item, rest) ← readValue fuel rest
      let (items, rest) ← readItems fuel rest
      some (item :: items, rest)
    | _ => none

def readMembers :
    Nat → List Char → Option (List (Option String × JsonText) × List Char)
  | 0, _ => none
  | fuel + 1, cs =>
    match skipBlanks cs with
    | '\x7d' :: rest => some ([], rest)
    | ',' :: rest =>
      match skipBlanks rest with
      | '"' :: rest => do
        let (key, rest) ← readKey rest
        let (value, rest) ← readValue fuel rest
        let (members, rest) ← readMembers fuel rest
        some ((key, value) :: members, rest)
      | _ => none
    | _ => none

end

/-- Reads a whole text: one value, and nothing but blanks around it. -/
def parse? (text : String) : Option JsonText := do
  let cs := text.toList
  let (tree, rest) ← readValue (cs.length + 1) cs
  if (skipBlanks rest).isEmpty then some tree else none

/-- The greatest number of arrays and objects around a value, itself
included. -/
def maxDepth : Nat := 127

mutual

/-- The value of a tree of at most `depth` levels.  A repeated key counts with
its last value, at the place of the first. -/
def valueWithin? (depth : Nat) : JsonText → Option Json
  | null => some .null
  | bool b => some (.bool b)
  | number numeral =>
    numeral.value?.map fun
      | .int n => .int n
      | .double d => .double d
  | string content => content.map .string
  | array items =>
    if depth = 0 then none else (itemsWithin? (depth - 1) items).map .array
  | object members =>
    if depth = 0 then none
    else (membersWithin? (depth - 1) members).map fun members =>
      .object (Fields.ofPairs members)

def itemsWithin? (depth : Nat) : List JsonText → Option (List Json)
  | [] => some []
  | item :: items => do
    let item ← valueWithin? depth item
    let items ← itemsWithin? depth items
    some (item :: items)

def membersWithin? (depth : Nat) :
    List (Option String × JsonText) → Option (List (String × Json))
  | [] => some []
  | (key, value) :: members => do
    let key ← key
    let value ← valueWithin? depth value
    let members ← membersWithin? depth members
    some ((key, value) :: members)

end

def value? (tree : JsonText) : Option Json :=
  valueWithin? maxDepth tree

end JsonText

namespace Json

/-- Reads a whole text as a JSON value. -/
def parse? (text : String) : Option Json :=
  (JsonText.parse? text).bind JsonText.value?

end Json

end Aggregation
