import Aggregation.Yaml.Folding

/-!
# Plain scalars

A scalar without quotes.  It ends before a comment, before a colon that makes it
a key, at a line that is indented too little, and within flow collections before
their punctuation.
-/

namespace Aggregation.Yaml.Plain

def isFlowPunctuation (c : Char) : Bool :=
  c = ',' || c = '[' || c = ']' || c = '\x7b' || c = '\x7d'

/-- Reads the characters up to a blank or up to the end of the scalar.  Within
flow collections a colon before their punctuation is refused. -/
def readWord (inFlow : Bool) : List Char → Option (List Char)
  | [] => some []
  | c :: rest =>
    if isBlank c || isBreak c then some []
    else if c = ':' ∧ startsBlank rest then some []
    else if inFlow ∧ c = ':' ∧
        (rest.head?.any fun d => isFlowPunctuation d || d = '?') then none
    else if inFlow && isFlowPunctuation c then some []
    else (readWord inFlow rest).map (c :: ·)

structure State where
  cursor : Cursor
  text : List Char := []
  /-- What stands between the words so far and the next one. -/
  gap : Gap := {}

/-- Reads words and the gaps between them.  Every round takes a word or is the
last one. -/
def readWords (inFlow : Bool) (indent : Nat) : Nat → State → Option State
  | 0, _ => none
  | fuel + 1, state =>
    if state.cursor.atMarker || state.cursor.rest.head? =
      some '#' then some state
    else do
      let word ← readWord inFlow state.cursor.rest
      let state :=
        if word.isEmpty then state
        else
          { cursor := state.cursor.skip word.length,
            text := state.text ++ state.gap.text ++ word }
      if !startsBlank state.cursor.rest ||
        state.cursor.rest.isEmpty then some state
      else
        let (gap, cursor) ← Gap.read indent {} state.cursor
        let state := { state with cursor, gap }
        if !inFlow && cursor.column < indent then some state
        else readWords inFlow indent fuel state

/-- Reads a plain scalar: its text, whether a line was broken after it, and what
is left. -/
def read (inFlow : Bool) (indent : Nat) (cursor : Cursor) :
    Option (String × Bool × Cursor) :=
  (readWords inFlow indent (cursor.rest.length + 1) { cursor }).map fun state =>
    (String.ofList state.text, state.gap.broken, state.cursor)

end Aggregation.Yaml.Plain
