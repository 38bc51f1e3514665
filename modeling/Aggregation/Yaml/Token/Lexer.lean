import Aggregation.Yaml.Block
import Aggregation.Yaml.Plain
import Aggregation.Yaml.Quoted
import Aggregation.Yaml.Tag

/-!
# Cutting YAML texts into tokens

A text is cut into tokens from left to right.  Whether a scalar is a key is
known only at the colon after it, so the place of each possible key is
remembered and the tokens that a key needs are put in there later.  A key must
stand on one line and within 1024 bytes of its colon.
-/

namespace Aggregation.Yaml

/-- A place where a key may have started. -/
structure PossibleKey where
  /-- Whether nothing but a key can stand there. -/
  required : Bool
  /-- How many tokens stand before it. -/
  tokens : Nat
  offset : Nat
  line : Nat
  column : Nat

structure Lexer where
  cursor : Cursor
  /-- The tokens so far, the last one first. -/
  tokens : List Token := []
  /-- The column of the innermost block collection; none within no
  collection. -/
  indent : Option Nat := none
  outerIndents : List (Option Nat) := []
  /-- Whether a key may start at the cursor. -/
  keyAllowed : Bool := true
  /-- The possible key of the block context. -/
  blockKey : Option PossibleKey := none
  /-- The possible keys of the flow collections around the cursor, the innermost
  first. -/
  flowKeys : List (Option PossibleKey) := []

namespace Lexer

def inFlow (s : Lexer) : Bool := !s.flowKeys.isEmpty

/-- The least column of what stands within the innermost block collection. -/
def innerColumn (s : Lexer) : Nat :=
  match s.indent with
  | some column => column + 1
  | none => 0

def add (s : Lexer) (token : Token) : Lexer :=
  { s with tokens := token :: s.tokens }

/-- Puts a token after the first so many. -/
def addAt (s : Lexer) (position : Nat) (token : Token) : Lexer :=
  let after := s.tokens.length - position
  { s with tokens := s.tokens.take after ++ token :: s.tokens.drop after }

def possibleKey (s : Lexer) : Option PossibleKey :=
  match s.flowKeys with
  | key :: _ => key
  | [] => s.blockKey

def setPossibleKey (s : Lexer) (key : Option PossibleKey) : Lexer :=
  match s.flowKeys with
  | _ :: outer => { s with flowKeys := key :: outer }
  | [] => { s with blockKey := key }

/-- Gives the possible key up, unless it is required. -/
def dropKey (s : Lexer) : Option Lexer :=
  match s.possibleKey with
  | some key => if key.required then none else some (s.setPossibleKey none)
  | none => some s

/-- Remembers that a key may start at the cursor, if it may. -/
def rememberKey (s : Lexer) : Option Lexer :=
  if s.keyAllowed then
    (s.dropKey).map fun s =>
      s.setPossibleKey <| some
        { required := !s.inFlow && s.indent = some s.cursor.column
          tokens := s.tokens.length
          offset := s.cursor.offset
          line := s.cursor.line
          column := s.cursor.column }
  else some s

def isTooFar (cursor : Cursor) (key : PossibleKey) : Bool :=
  key.line < cursor.line || key.offset + 1024 < cursor.offset

/-- Gives a key up once it is too far away. -/
def dropIfFar (cursor : Cursor) :
    Option PossibleKey → Option (Option PossibleKey)
  | none => some none
  | some key =>
    if isTooFar cursor key then if key.required then none else some none
    else some (some key)

def dropFarKeys (s : Lexer) : Option Lexer := do
  let blockKey ← dropIfFar s.cursor s.blockKey
  let flowKeys ← s.flowKeys.mapM (dropIfFar s.cursor)
  some { s with blockKey, flowKeys }

/-- Opens a block collection, if the column is beyond the innermost one.  Its
token goes after the first `position` tokens. -/
def openBlock (s : Lexer) (column position : Nat) (token : Token) : Lexer :=
  if s.inFlow || column < s.innerColumn then s
  else
    { s.addAt position token with
      indent := some column, outerIndents := s.indent :: s.outerIndents }

/-- Closes block collections from the innermost out. -/
def closeAll (tokens : List Token) (column : Option Nat) :
    Option Nat → List (Option Nat) → List Token × Option Nat × List (Option Nat)
  | none, outer => (tokens, none, outer)
  | some indent, [] =>
    if column.all (· < indent) then (.blockEnd :: tokens, none, [])
      else (tokens, some indent, [])
  | some indent, next :: outer =>
    if column.all (· < indent) then
      closeAll (.blockEnd :: tokens) column next outer
    else (tokens, some indent, next :: outer)

/-- Closes the block collections that are indented beyond a column; none closes
all. -/
def closeBlocks (s : Lexer) (column : Option Nat) : Lexer :=
  if s.inFlow then s
  else
    let (tokens, indent, outerIndents) :=
      closeAll s.tokens column s.indent s.outerIndents
    { s with tokens, indent, outerIndents }

/-- Moves over blanks, breaks and comments.  In the block context a break allows
a key, and where a key may start a tab is no blank. -/
def skipBetween (inFlow keyAllowed inComment : Bool)
    (offset line column : Nat) :
    List Char → Cursor × Bool
  | [] => (⟨[], offset, line, column⟩, keyAllowed)
  | '\r' :: '\n' :: rest =>
    skipBetween inFlow (keyAllowed || !inFlow) false (offset + 2)
      (line + 1) 0 rest
  | c :: rest =>
    if isBreak c then
      skipBetween inFlow (keyAllowed || !inFlow) false (offset + c.utf8Size)
        (line + 1) 0 rest
    else if inComment || c = ' ' || (c = '\t' && (inFlow || !keyAllowed)) ||
        (c = '\ufeff' && column = 0) then
      skipBetween inFlow keyAllowed inComment (offset + c.utf8Size) line
        (column + 1) rest
    else if c = '#' then
      skipBetween inFlow keyAllowed true (offset + 1) line (column + 1) rest
    else (⟨c :: rest, offset, line, column⟩, keyAllowed)

def skipToToken (s : Lexer) : Lexer :=
  let (cursor, keyAllowed) :=
    skipBetween s.inFlow s.keyAllowed false s.cursor.offset s.cursor.line
      s.cursor.column s.cursor.rest
  { s with cursor, keyAllowed }

/-- Takes up a token that was read at the cursor. -/
def accept (s : Lexer) (token : Token) (cursor : Cursor)
    (keyAllowed : Bool) : Lexer :=
  { s.add token with cursor, keyAllowed }

def takeDirective (s : Lexer) : Option Lexer := do
  let s ← (s.closeBlocks none).dropKey
  let (token, cursor) ← Directive.read s.cursor
  some (s.accept token cursor false)

def takeMarker (s : Lexer) (token : Token) : Option Lexer := do
  let s ← (s.closeBlocks none).dropKey
  some (s.accept token (s.cursor.skip 3) false)

def takeFlowStart (s : Lexer) (token : Token) : Option Lexer := do
  let s ← s.rememberKey
  some { s.accept token (s.cursor.skip 1) true with
    flowKeys := none :: s.flowKeys }

def takeFlowEnd (s : Lexer) (token : Token) : Option Lexer := do
  let s ← s.dropKey
  some { s.accept token (s.cursor.skip 1) false with
    flowKeys := s.flowKeys.tail }

def takeFlowEntry (s : Lexer) : Option Lexer := do
  let s ← s.dropKey
  some (s.accept .flowEntry (s.cursor.skip 1) true)

/-- Opens a block collection at an indicator; one may stand only where a key
may. -/
def openBlockAtIndicator (s : Lexer) (token : Token) : Option Lexer :=
  if s.inFlow then some s
  else if s.keyAllowed then
    some (s.openBlock s.cursor.column s.tokens.length token)
  else none

def takeBlockEntry (s : Lexer) : Option Lexer := do
  let s ← s.openBlockAtIndicator .blockSequenceStart
  let s ← s.dropKey
  some (s.accept .blockEntry (s.cursor.skip 1) true)

def takeKey (s : Lexer) : Option Lexer := do
  let s ← s.openBlockAtIndicator .blockMappingStart
  let s ← s.dropKey
  some (s.accept .key (s.cursor.skip 1) (!s.inFlow))

def takeValue (s : Lexer) : Option Lexer :=
  match s.possibleKey with
  | some key =>
    let s :=
      ((s.addAt key.tokens .key).openBlock key.column key.tokens
        .blockMappingStart)
    some ((s.setPossibleKey none).accept .value (s.cursor.skip 1) false)
  | none => do
    let s ← s.openBlockAtIndicator .blockMappingStart
    some (s.accept .value (s.cursor.skip 1) (!s.inFlow))

def takeAnchor (s : Lexer) (token : String → Token) : Option Lexer := do
  let s ← s.rememberKey
  let (name, cursor) ← readAnchorName s.cursor
  some (s.accept (token name) cursor false)

def takeTag (s : Lexer) : Option Lexer := do
  let s ← s.rememberKey
  let (token, cursor) ← Tag.read s.inFlow s.cursor
  some (s.accept token cursor false)

def takeBlockScalar (s : Lexer) (style : ScalarStyle) : Option Lexer := do
  let s ← s.dropKey
  let (text, cursor) ←
    Block.read (style = .folded) s.innerColumn (s.indent.getD 0) s.cursor
  some (s.accept (.scalar style text) cursor true)

def takeQuoted (s : Lexer) (quote : Char) (style : ScalarStyle) :
    Option Lexer := do
  let s ← s.rememberKey
  let (text, cursor) ← Quoted.read quote s.cursor
  some (s.accept (.scalar style text) cursor false)

def takePlain (s : Lexer) : Option Lexer := do
  let s ← s.rememberKey
  let (text, broken, cursor) ← Plain.read s.inFlow s.innerColumn s.cursor
  some (s.accept (.scalar .plain text) cursor broken)

/-- The characters that start no plain scalar, unless what follows makes up for
it. -/
def indicators : List Char :=
  ['-', '?', ':', ',', '[', ']', '\x7b', '\x7d', '#', '&', '*', '!', '|', '>',
    '\'', '"', '%', '@', '\x60']

def startsPlain (inFlow : Bool) (c : Char) (rest : List Char) : Bool :=
  (!isBlank c && !isBreak c && c ∉ indicators)
    || (c = '-' && !rest.head?.any isBlank)
    || (!inFlow && (c = '?' || c = ':') && !startsBlank rest)

/-- Reads the token that starts with a character. -/
def take (s : Lexer) (c : Char) (rest : List Char) : Option Lexer :=
  if s.cursor.column = 0 && c = '%' then s.takeDirective
  else if s.cursor.column = 0 && startsMarker '-' s.cursor.rest then
    s.takeMarker .documentStart
  else if s.cursor.column = 0 && startsMarker '.' s.cursor.rest then
    s.takeMarker .documentEnd
  else if c = '[' then s.takeFlowStart .flowSequenceStart
  else if c = '\x7b' then s.takeFlowStart .flowMappingStart
  else if c = ']' then s.takeFlowEnd .flowSequenceEnd
  else if c = '\x7d' then s.takeFlowEnd .flowMappingEnd
  else if c = ',' then s.takeFlowEntry
  else if c = '-' && startsBlank rest then s.takeBlockEntry
  else if c = '?' && (s.inFlow || startsBlank rest) then s.takeKey
  else if c = ':' && (s.inFlow || startsBlank rest) then s.takeValue
  else if c = '*' then s.takeAnchor .reference
  else if c = '&' then s.takeAnchor .anchor
  else if c = '!' then s.takeTag
  else if c = '|' && !s.inFlow then s.takeBlockScalar .literal
  else if c = '>' && !s.inFlow then s.takeBlockScalar .folded
  else if c = '\'' then s.takeQuoted '\'' .singleQuoted
  else if c = '"' then s.takeQuoted '"' .doubleQuoted
  else if startsPlain s.inFlow c rest then s.takePlain
  else none

/-- Scans up to the end.  Every round takes at least one character, so fuel
beyond the length of the text is never used up. -/
def run : Nat → Lexer → Option (List Token)
  | 0, _ => none
  | fuel + 1, s => do
    let s ← s.skipToToken.dropFarKeys
    let s := s.closeBlocks (some s.cursor.column)
    match s.cursor.rest with
    | [] =>
      let s ← (s.closeBlocks none).dropKey
      some s.tokens.reverse
    | c :: rest =>
      let s ← s.take c rest
      run fuel s

end Lexer

namespace Token

/-- The tokens of a text, none if it cannot be cut into any. -/
def scan? (text : String) : Option (List Token) :=
  let cs := text.toList
  if cs.all isAllowed then
    Lexer.run (cs.length + 1) { cursor := { rest := cs } }
  else none

end Token

end Aggregation.Yaml
