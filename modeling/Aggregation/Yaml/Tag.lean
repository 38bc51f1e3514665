import Aggregation.Text.Bytes
import Aggregation.Yaml.Cursor
import Aggregation.Yaml.Token

/-!
# Tags, anchors and directives

The short pieces of a YAML text that name something.
-/

namespace Aggregation.Yaml

namespace Tag

def isUriChar (verbatim : Bool) (c : Char) : Bool :=
  isNameChar c ||
    c ∈ [';', '/', '?', ':', '@', '&', '=', '+', '$', '.', '!', '~', '*', '\'',
      '(', ')'] ||
    (verbatim && c ∈ [',', '[', ']'])

/-- How many bytes the character has that starts with this one. -/
def width? (first : Nat) : Option Nat :=
  if first < 0x80 then some 1
  else if 0xC0 ≤ first ∧ first < 0xE0 then some 2
  else if 0xE0 ≤ first ∧ first < 0xF0 then some 3
  else if 0xF0 ≤ first ∧ first < 0xF8 then some 4
  else none

/-- Reads the bytes of a tag, and how many characters write them.  A percent
sign and two digits write one byte; `owed` is how many more of them the bytes so
far call for. -/
def readUri (verbatim : Bool) (owed : Nat) :
    List Char → Option (List UInt8 × Nat)
  | '%' :: high :: low :: rest => do
    let high ← Text.hexDigit? high
    let low ← Text.hexDigit? low
    let byte := 16 * high + low
    let owed ←
      if owed = 0 then (width? byte).map (· - 1)
      else if 0x80 ≤ byte ∧ byte < 0xC0 then some (owed - 1)
      else none
    let (bytes, size) ← readUri verbatim owed rest
    some (UInt8.ofNat byte :: bytes, size + 3)
  | c :: rest =>
    if owed ≠ 0 ∨ c = '%' then none
    else if isUriChar verbatim c then do
      let (bytes, size) ← readUri verbatim owed rest
      some (c.toUInt8 :: bytes, size + 1)
    else some ([], 0)
  | [] => if owed = 0 then some ([], 0) else none

def readUriAt (verbatim : Bool) (cursor : Cursor) :
    Option (List UInt8 × Cursor) :=
  (readUri verbatim 0 cursor.rest).map fun (bytes, size) =>
    (bytes, cursor.skip size)

/-- Reads a handle: a mark, and a name with a second mark if it has one. -/
def readHandle (cursor : Cursor) : Option (List Char × Cursor) :=
  match cursor.rest with
  | '!' :: _ =>
    let (name, cursor) := (cursor.skip 1).skipWhile isNameChar
    match cursor.rest with
    | '!' :: _ => some ('!' :: name ++ ['!'], cursor.skip 1)
    | _ => some ('!' :: name, cursor)
  | _ => none

/-- Whether a handle has both its marks. -/
def isClosed (handle : List Char) : Bool :=
  2 ≤ handle.length && handle.getLast? = some '!'

/-- Reads handle and suffix of a tag.  A mark with nothing after it is all
suffix. -/
def readParts (cursor : Cursor) : Option (List Char × Tag × Cursor) := do
  match cursor.rest with
  | '!' :: '<' :: _ =>
    let (bytes, cursor) ← readUriAt true (cursor.skip 2)
    match bytes, cursor.rest with
    | _ :: _, '>' :: _ => some ([], ofBytes bytes, cursor.skip 1)
    | _, _ => none
  | _ =>
    let (handle, cursor) ← readHandle cursor
    let (bytes, cursor) ← readUriAt false cursor
    if isClosed handle then
      if bytes.isEmpty then none else some (handle, ofBytes bytes, cursor)
    else
      let suffix := ofBytes ((handle.drop 1).map Char.toUInt8 ++ bytes)
      if suffix.isEmpty then some ([], ofText "!", cursor)
        else some (['!'], suffix, cursor)

/-- Reads a tag, which a blank has to follow, or a comma within flow
collections. -/
def read (inFlow : Bool) (cursor : Cursor) : Option (Token × Cursor) := do
  let (handle, suffix, cursor) ← readParts cursor
  if startsBlank cursor.rest || (inFlow && cursor.rest.head? = some ',') then
    some (.tag (String.ofList handle) suffix, cursor)
  else none

end Tag

/-- Reads the name of an anchor or a reference after its mark. -/
def readAnchorName (cursor : Cursor) : Option (String × Cursor) :=
  let (name, cursor) := (cursor.skip 1).skipWhile isNameChar
  let ended :=
    startsBlank cursor.rest ||
      cursor.rest.head?.any
        (· ∈ ['?', ':', ',', ']', '\x7d', '%', '@', '\x60'])
  if name.isEmpty || !ended then none else some (String.ofList name, cursor)

namespace Directive

def readVersionNumber (cursor : Cursor) : Option (Nat × Cursor) :=
  let (digits, cursor) := cursor.skipWhile Char.isDigit
  if digits.isEmpty || 9 < digits.length then none
  else some (Nat.ofDigitChars 10 digits 0, cursor)

def readVersion (cursor : Cursor) : Option (Token × Cursor) := do
  let (_, cursor) := cursor.skipWhile isBlank
  let (major, cursor) ← readVersionNumber cursor
  match cursor.rest with
  | '.' :: _ =>
    let (minor, cursor) ← readVersionNumber (cursor.skip 1)
    some (.version major minor, cursor)
  | _ => none

def readTagPrefix (cursor : Cursor) : Option (Token × Cursor) := do
  let (_, cursor) := cursor.skipWhile isBlank
  let (handle, cursor) ← Tag.readHandle cursor
  if !Tag.isClosed handle && handle ≠ ['!'] then none
  else
    let (blanks, cursor) := cursor.skipWhile isBlank
    let (start, cursor) ← Tag.readUriAt true cursor
    if blanks.isEmpty || start.isEmpty || !startsBlank cursor.rest then none
    else some (.tagPrefix (String.ofList handle) (Tag.ofBytes start), cursor)

/-- Reads a whole directive line. -/
def read (cursor : Cursor) : Option (Token × Cursor) := do
  let (name, cursor) := (cursor.skip 1).skipWhile isNameChar
  if !startsBlank cursor.rest then none
  else
    let (token, cursor) ←
      match String.ofList name with
      | "YAML" => readVersion cursor
      | "TAG" => readTagPrefix cursor
      | _ => none
    let cursor ← cursor.finishLine?
    some (token, cursor)

end Directive

end Aggregation.Yaml
