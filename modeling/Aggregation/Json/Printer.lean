import Aggregation.Json
import Aggregation.Json.Number

/-!
# Writing JSON

Two printers of one value: `Json.compact` on a single line without blanks, and
`Json.pretty` with two spaces of indentation for each level.  Both write strings
with the same few escapes, so no text they produce has a control character
inside a string.
-/

namespace Aggregation.Json

def lowerHexDigit (n : Nat) : Char :=
  Nat.digitChar (n % 16)

/-- Quotes, backslashes and the control characters below the space are escaped;
all else stands for itself. -/
def escapeChar (c : Char) : List Char :=
  match c with
  | '"' => ['\\', '"']
  | '\\' => ['\\', '\\']
  | '\n' => ['\\', 'n']
  | '\r' => ['\\', 'r']
  | '\t' => ['\\', 't']
  | c =>
    if c.toNat = 0x08 then ['\\', 'b']
    else if c.toNat = 0x0C then ['\\', 'f']
    else if c.toNat < 0x20 then
      ['\\', 'u', '0', '0', lowerHexDigit (c.toNat / 16), lowerHexDigit c.toNat]
    else [c]

def quote (s : String) : List Char :=
  '"' :: s.toList.flatMap escapeChar ++ ['"']

mutual

def compactChars : Json → List Char
  | null => ['n', 'u', 'l', 'l']
  | bool true => ['t', 'r', 'u', 'e']
  | bool false => ['f', 'a', 'l', 's', 'e']
  | int n => intText n
  | double d => if d.isFinite then doubleText d else ['n', 'u', 'l', 'l']
  | string s => quote s
  | array [] => ['[', ']']
  | array (item :: items) => '[' :: compactChars item ++ compactItems items
  | object [] => ['\x7b', '\x7d']
  | object ((key, value) :: members) =>
    '\x7b' :: quote key ++ ':' :: compactChars value ++ compactMembers members

/-- The items after the first, and the closing bracket. -/
def compactItems : List Json → List Char
  | [] => [']']
  | item :: items => ',' :: compactChars item ++ compactItems items

def compactMembers : List (String × Json) → List Char
  | [] => ['\x7d']
  | (key, value) :: members =>
    ',' :: quote key ++ ':' :: compactChars value ++ compactMembers members

end

/-- A new line at an indentation of so many levels. -/
def newLine (level : Nat) : List Char :=
  '\n' :: List.replicate (2 * level) ' '

mutual

def prettyChars (level : Nat) : Json → List Char
  | null => ['n', 'u', 'l', 'l']
  | bool true => ['t', 'r', 'u', 'e']
  | bool false => ['f', 'a', 'l', 's', 'e']
  | int n => intText n
  | double d => if d.isFinite then doubleText d else ['n', 'u', 'l', 'l']
  | string s => quote s
  | array [] => ['[', ']']
  | array (item :: items) =>
    '[' :: newLine (level + 1) ++ prettyChars (level + 1) item ++
      prettyItems level items
  | object [] => ['\x7b', '\x7d']
  | object ((key, value) :: members) =>
    '\x7b' :: newLine (level + 1) ++ quote key ++
      ':' :: ' ' :: prettyChars (level + 1) value ++
      prettyMembers level members

/-- The items after the first, and the closing bracket at the outer level. -/
def prettyItems (level : Nat) : List Json → List Char
  | [] => newLine level ++ [']']
  | item :: items =>
    ',' :: newLine (level + 1) ++ prettyChars (level + 1) item ++
      prettyItems level items

def prettyMembers (level : Nat) : List (String × Json) → List Char
  | [] => newLine level ++ ['\x7d']
  | (key, value) :: members =>
    ',' :: newLine (level + 1) ++ quote key ++
      ':' :: ' ' :: prettyChars (level + 1) value ++
      prettyMembers level members

end

def compact (json : Json) : String :=
  String.ofList (compactChars json)

def pretty (json : Json) : String :=
  String.ofList (prettyChars 0 json)

end Aggregation.Json
