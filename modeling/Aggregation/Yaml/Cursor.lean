/-!
# Positions in YAML texts

A cursor is what is left of a text, with the line and the column it starts at.
Columns count characters; how far the text has been read is counted in the bytes
that UTF-8 takes for it.  A line break may be any of five characters, or a
carriage return with a line feed; all but two of them read as a line feed.
-/

namespace Aggregation.Yaml

def isBreak (c : Char) : Bool :=
  c = '\n' || c = '\r' || c = '\u0085' || c = '\u2028' || c = '\u2029'

def isBlank (c : Char) : Bool :=
  c = ' ' || c = '\t'

/-- What a break reads as. -/
def breakText (c : Char) : Char :=
  if c = '\u2028' ∨ c = '\u2029' then c else '\n'

/-- The characters that a text may hold. -/
def isAllowed (c : Char) : Bool :=
  let n := c.toNat
  n = 0x09 || n = 0x0A || n = 0x0D || (0x20 ≤ n && n ≤ 0x7E) || n = 0x85
    || (0xA0 ≤ n && n ≤ 0xFFFD) || 0x10000 ≤ n

/-- The characters of names: of anchors, tag handles and directives. -/
def isNameChar (c : Char) : Bool :=
  c.isAlphanum || c = '_' || c = '-'

/-- Whether a text starts with a blank or a break, or is at its end. -/
def startsBlank : List Char → Bool
  | [] => true
  | c :: _ => isBlank c || isBreak c

def startsBreak : List Char → Bool
  | [] => true
  | c :: _ => isBreak c

/-- Whether a text starts with the three characters that begin or end a
document. -/
def startsMarker (mark : Char) : List Char → Bool
  | a :: b :: c :: rest => a = mark && b = mark && c = mark && startsBlank rest
  | _ => false

structure Cursor where
  rest : List Char
  /-- How many bytes of the text stand before the cursor. -/
  offset : Nat := 0
  line : Nat := 0
  column : Nat := 0

namespace Cursor

/-- Moves on within the line, over so many characters. -/
def skip (cursor : Cursor) (count : Nat) : Cursor :=
  { cursor with
    rest := cursor.rest.drop count
    offset := (cursor.rest.take count).foldl (· + ·.utf8Size) cursor.offset
    column := cursor.column + count }

/-- Moves over the break at the cursor, if there is one, and answers what it
reads as. -/
def skipBreak (cursor : Cursor) : List Char × Cursor :=
  match cursor.rest with
  | '\r' :: '\n' :: rest =>
    (['\n'], ⟨rest, cursor.offset + 2, cursor.line + 1, 0⟩)
  | c :: rest =>
    if isBreak c then
      ([breakText c],
        ⟨rest, cursor.offset + c.utf8Size, cursor.line + 1, 0⟩)
    else ([], cursor)
  | [] => ([], cursor)

/-- Moves over the longest run of such characters within the line. -/
def skipWhile (p : Char → Bool) (cursor : Cursor) : List Char × Cursor :=
  let run := cursor.rest.takeWhile p
  (run, cursor.skip run.length)

def atMarker (cursor : Cursor) : Bool :=
  cursor.column = 0 &&
    (startsMarker '-' cursor.rest || startsMarker '.' cursor.rest)

/-- Moves over the blanks and the comment that may end a line, and over its
break. -/
def finishLine? (cursor : Cursor) : Option Cursor :=
  let (_, cursor) := cursor.skipWhile isBlank
  let (_, cursor) :=
    match cursor.rest with
    | '#' :: _ => cursor.skipWhile (!isBreak ·)
    | _ => ([], cursor)
  if startsBreak cursor.rest then some cursor.skipBreak.2 else none

end Cursor

end Aggregation.Yaml
