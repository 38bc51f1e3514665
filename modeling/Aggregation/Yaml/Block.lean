import Aggregation.Yaml.Cursor

/-!
# Block scalars

Literal and folded scalars: the lines under a header, without their common
indentation.  The header may give the indentation and say whether the breaks at
the end are kept, cut to one, or dropped.
-/

namespace Aggregation.Yaml.Block

inductive Chomping where
  | strip
  | clip
  | keep
  deriving DecidableEq

structure Header where
  chomping : Chomping := .clip
  /-- The columns by which the lines are indented further than their
  surroundings. -/
  increment : Option Nat := none

def chomping? : Char → Option Chomping
  | '+' => some .keep
  | '-' => some .strip
  | _ => none

/-- A digit other than zero. -/
def increment? (c : Char) : Option Nat :=
  if c.isDigit ∧ c ≠ '0' then some (c.toNat - '0'.toNat) else none

/-- Reads the two indicators after the first character of a header, in either
order. -/
def readHeader (cursor : Cursor) : Option (Header × Cursor) :=
  match cursor.rest with
  | [] => some ({}, cursor)
  | c :: rest =>
    match chomping? c with
    | some chomping =>
      match rest with
      | d :: _ =>
        if d.isDigit then
          (increment? d).map fun increment =>
            (⟨chomping, some increment⟩, cursor.skip 2)
        else some ({ chomping }, cursor.skip 1)
      | [] => some ({ chomping }, cursor.skip 1)
    | none =>
      if c.isDigit then
        (increment? c).map fun increment =>
          match rest.head?.bind chomping? with
          | some chomping => (⟨chomping, some increment⟩, cursor.skip 2)
          | none => ({ increment := some increment }, cursor.skip 1)
      else some ({}, cursor)

/-- Reads the indentation and the empty lines at a position: the breaks, and the
widest indentation.  An indentation of zero columns is one still to be found.  A
tab may not stand within it. -/
def readIndentAt (indent widest : Nat) (breaks : List Char)
    (offset line column : Nat) :
    List Char → Option (List Char × Nat × Cursor)
  | [] => some (breaks, max widest column, ⟨[], offset, line, column⟩)
  | '\r' :: '\n' :: rest =>
    readIndentAt indent (max widest column) (breaks ++ ['\n']) (offset + 2)
      (line + 1) 0 rest
  | c :: rest =>
    let within := indent = 0 || column < indent
    if within && c = ' ' then
      readIndentAt indent widest breaks (offset + 1) line (column + 1) rest
    else if within && c = '\t' then none
    else if isBreak c then
      let breaks := breaks ++ [breakText c]
      readIndentAt indent (max widest column) breaks (offset + c.utf8Size)
        (line + 1) 0 rest
    else some (breaks, max widest column, ⟨c :: rest, offset, line, column⟩)

def readIndent (indent : Nat) (cursor : Cursor) :
    Option (List Char × Nat × Cursor) :=
  readIndentAt indent 0 [] cursor.offset cursor.line cursor.column cursor.rest

structure State where
  cursor : Cursor
  text : List Char := []
  /-- The break that ends the last line. -/
  lineBreak : List Char := []
  /-- The breaks of the empty lines after it. -/
  emptyLines : List Char
  /-- Whether the last line starts with a blank. -/
  blank : Bool := false

/-- The break between two lines: folding makes it a space, or drops it before
empty lines, unless one of the lines starts with a blank. -/
def joint (folded : Bool) (state : State) (blank : Bool) : List Char :=
  if folded && state.lineBreak.head? = some '\n' && !state.blank && !blank then
    if state.emptyLines.isEmpty then [' '] else []
  else state.lineBreak

/-- Reads the lines that have the indentation. -/
def readLines (folded : Bool) (indent : Nat) : Nat → State → Option State
  | 0, _ => none
  | fuel + 1, state =>
    if state.cursor.column ≠ indent || state.cursor.rest.isEmpty then some state
    else do
      let blank := state.cursor.rest.head?.any isBlank
      let text := state.text ++ joint folded state blank ++ state.emptyLines
      let (line, cursor) := state.cursor.skipWhile (!isBreak ·)
      let (lineBreak, cursor) := cursor.skipBreak
      let (emptyLines, _, cursor) ← readIndent indent cursor
      readLines folded indent fuel
        { cursor, text := text ++ line, lineBreak, emptyLines, blank }

def chomp (chomping : Chomping) (state : State) : List Char :=
  match chomping with
  | .strip => state.text
  | .clip => state.text ++ state.lineBreak
  | .keep => state.text ++ state.lineBreak ++ state.emptyLines

/-- Reads a block scalar from its first character on.  `outer` is the least
indentation that it may have, and `surrounding` the one that an increment is
added to. -/
def read (folded : Bool) (outer surrounding : Nat) (cursor : Cursor) :
    Option (String × Cursor) := do
  let (header, cursor) ← readHeader (cursor.skip 1)
  let cursor ← cursor.finishLine?
  let given := (header.increment.map (surrounding + ·)).getD 0
  let (emptyLines, widest, cursor) ← readIndent given cursor
  let indent := if given = 0 then max widest (max outer 1) else given
  let state ←
    readLines folded indent (cursor.rest.length + 1) { cursor, emptyLines }
  some (String.ofList (chomp header.chomping state), state.cursor)

end Aggregation.Yaml.Block
