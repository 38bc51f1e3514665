import Aggregation.Yaml.Cursor

/-!
# Folded lines

Between two words of a scalar that runs over several lines there may be blanks
and breaks.  Blanks beside a break are dropped, one break reads as a space, and
of several the first is dropped.
-/

namespace Aggregation.Yaml

/-- What stands between two words. -/
structure Gap where
  /-- The blanks before the first break. -/
  blanks : List Char := []
  broken : Bool := false
  first : List Char := []
  later : List Char := []

namespace Gap

/-- The gap after a break that is itself escaped. -/
def afterEscapedBreak : Gap := { broken := true }

def addBlank (gap : Gap) (c : Char) : Gap :=
  { gap with blanks := gap.blanks ++ [c] }

def addBreak (gap : Gap) (c : Char) : Gap :=
  if gap.broken then { gap with later := gap.later ++ [breakText c] }
  else { broken := true, first := [breakText c] }

/-- What the gap reads as. -/
def text (gap : Gap) : List Char :=
  if !gap.broken then gap.blanks
  else if gap.first = ['\n'] then if gap.later.isEmpty then [' '] else gap.later
  else gap.first ++ gap.later

/-- Reads the blanks and breaks at a position.  A tab that indents a line to
less than `indent` columns is refused. -/
def readAt (indent : Nat) (gap : Gap) (offset line column : Nat) :
    List Char → Option (Gap × Cursor)
  | [] => some (gap, ⟨[], offset, line, column⟩)
  | '\r' :: '\n' :: rest =>
    readAt indent (gap.addBreak '\n') (offset + 2) (line + 1) 0 rest
  | c :: rest =>
    if isBreak c then
      readAt indent (gap.addBreak c) (offset + c.utf8Size) (line + 1) 0 rest
    else if isBlank c then
      if !gap.broken then
        readAt indent (gap.addBlank c) (offset + 1) line (column + 1) rest
      else if c = '\t' ∧ column < indent then none
      else readAt indent gap (offset + 1) line (column + 1) rest
    else some (gap, ⟨c :: rest, offset, line, column⟩)

def read (indent : Nat) (gap : Gap) (cursor : Cursor) : Option (Gap × Cursor) :=
  readAt indent gap cursor.offset cursor.line cursor.column cursor.rest

end Gap

end Aggregation.Yaml
