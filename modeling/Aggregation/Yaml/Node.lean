import Aggregation.Fields
import Aggregation.Yaml.Token.Lexer

/-!
# YAML nodes

The tree that the tokens of one document amount to.  Each named part is numbered
by how many names there are when it starts, and each reference by the part that
had the name when it was met.
-/

namespace Aggregation.Yaml

inductive Node where
  | scalar (tag : Option Tag) (style : ScalarStyle) (text : String)
  | reference (id : Nat)
  | sequence (tag : Option Tag) (items : List Node)
  | mapping (tag : Option Tag) (entries : List (Node × Node))
  | anchored (id : Nat) (node : Node)

namespace Node

/-- What stands where nothing is written. -/
def nothing : Node := scalar none .plain ""

structure ReaderState where
  tokens : List Token
  /-- The number of the part that each name stands for. -/
  names : Fields Nat := []
  /-- What each tag handle stands for. -/
  tagPrefixes : Fields Tag

abbrev Reader := StateT ReaderState Option

def peek : Reader (Option Token) := do
  pure (← get).tokens.head?

def advance : Reader Unit :=
  modify fun state => { state with tokens := state.tokens.drop 1 }

/-- Whether the next token is one of these. -/
def nextIn (tokens : List Token) : Reader Bool := do
  match ← peek with
  | some token => pure (token ∈ tokens)
  | none => pure false

def declare (name : String) : Reader Nat := do
  let state ← get
  let id := state.names.length
  set { state with names := Fields.insert state.names name id }
  pure id

def referent (name : String) : Reader Nat := do
  match Fields.get? (← get).names name with
  | some id => pure id
  | none => failure

def fullTag (handle : String) (suffix : Tag) : Reader Tag := do
  if handle.isEmpty then pure suffix
  else
    match Fields.get? (← get).tagPrefixes handle with
    | some start => pure (start.append suffix)
    | none => failure

def readAnchor : Reader (Option String) := do
  match ← peek with
  | some (.anchor name) =>
    advance
    pure (some name)
  | _ => pure none

def readTag : Reader (Option Tag) := do
  match ← peek with
  | some (.tag handle suffix) =>
    advance
    pure (some (← fullTag handle suffix))
  | _ => pure none

/-- Anchor and tag of a node, in either order. -/
def readProperties : Reader (Option String × Option Tag) := do
  match ← readAnchor with
  | some name => pure (some name, ← readTag)
  | none =>
    let tag ← readTag
    pure (← readAnchor, tag)

mutual

/-- Reads a node.  Block collections are read only where they are allowed, and
entries without a block of their own only as keys and values of a mapping.  A
collection takes at least half as many tokens as it takes calls within calls, so
fuel for twice the tokens is never used up. -/
def readNode : Nat → Bool → Bool → Reader Node
  | 0, _, _ => failure
  | fuel + 1, inBlock, indentless => do
    match ← peek with
    | some (.reference name) =>
      advance
      pure (reference (← referent name))
    | _ =>
      let (name, tag) ← readProperties
      let id ← name.mapM declare
      let node ← readContent fuel inBlock indentless tag
        (name.isSome || tag.isSome)
      match id with
      | some id => pure (anchored id node)
      | none => pure node

def readContent : Nat → Bool → Bool → Option Tag → Bool → Reader Node
  | 0, _, _, _, _ => failure
  | fuel + 1, inBlock, indentless, tag, mayBeEmpty => do
    match ← peek, inBlock, indentless with
    | some .blockEntry, _, true => sequence tag <$> readIndentlessItems fuel
    | some (.scalar style text), _, _ =>
      advance
      pure (scalar tag style text)
    | some .flowSequenceStart, _, _ =>
      advance
      sequence tag <$> readFlowItems fuel true
    | some .flowMappingStart, _, _ =>
      advance
      mapping tag <$> readFlowEntries fuel true
    | some .blockSequenceStart, true, _ =>
      advance
      sequence tag <$> readBlockItems fuel
    | some .blockMappingStart, true, _ =>
      advance
      mapping tag <$> readBlockEntries fuel
    | _, _, _ => if mayBeEmpty then pure (scalar tag .plain "") else failure

/-- Reads a node, unless one of these tokens shows that nothing is written. -/
def readUnless : Nat → List Token → Bool → Bool → Reader Node
  | 0, _, _, _ => failure
  | fuel + 1, ends, inBlock, indentless => do
    if ← nextIn ends then pure nothing else readNode fuel inBlock indentless

def readBlockItems : Nat → Reader (List Node)
  | 0 => failure
  | fuel + 1 => do
    match ← peek with
    | some .blockEntry =>
      advance
      let item ← readUnless fuel [.blockEntry, .blockEnd] true false
      let items ← readBlockItems fuel
      pure (item :: items)
    | some .blockEnd =>
      advance
      pure []
    | _ => failure

def readIndentlessItems : Nat → Reader (List Node)
  | 0 => failure
  | fuel + 1 => do
    match ← peek with
    | some .blockEntry =>
      advance
      let item ← readUnless fuel [.blockEntry, .key, .value, .blockEnd] true
        false
      let items ← readIndentlessItems fuel
      pure (item :: items)
    | _ => pure []

/-- Reads the value after a key, if a colon is there. -/
def readValueUnless : Nat → List Token → Bool → Bool → Reader Node
  | 0, _, _, _ => failure
  | fuel + 1, ends, inBlock, indentless => do
    match ← peek with
    | some .value =>
      advance
      readUnless fuel ends inBlock indentless
    | _ => pure nothing

def readBlockEntries : Nat → Reader (List (Node × Node))
  | 0 => failure
  | fuel + 1 => do
    match ← peek with
    | some .key =>
      advance
      let key ← readUnless fuel [.key, .value, .blockEnd] true true
      let value ← readValueUnless fuel [.key, .value, .blockEnd] true true
      let entries ← readBlockEntries fuel
      pure ((key, value) :: entries)
    | some .blockEnd =>
      advance
      pure []
    | _ => failure

/-- Reads the one entry of a mapping that stands among the items of a flow
sequence.  Where its key is not written the next token is passed over. -/
def readFlowPair : Nat → Reader Node
  | 0 => failure
  | fuel + 1 => do
    let key ←
      if ← nextIn [.value, .flowEntry, .flowSequenceEnd] then do
        advance
        pure nothing
      else readNode fuel false false
    let value ← readValueUnless fuel [.flowEntry, .flowSequenceEnd] false false
    pure (mapping none [(key, value)])

def readFlowItems : Nat → Bool → Reader (List Node)
  | 0, _ => failure
  | fuel + 1, isFirst => do
    if ← nextIn [.flowSequenceEnd] then
      advance
      pure []
    else
      if !isFirst then
        if ← nextIn [.flowEntry] then advance else failure
      match ← peek with
      | some .flowSequenceEnd =>
        advance
        pure []
      | some .key =>
        advance
        let item ← readFlowPair fuel
        let items ← readFlowItems fuel false
        pure (item :: items)
      | _ =>
        let item ← readNode fuel false false
        let items ← readFlowItems fuel false
        pure (item :: items)

def readFlowEntries : Nat → Bool → Reader (List (Node × Node))
  | 0, _ => failure
  | fuel + 1, isFirst => do
    if ← nextIn [.flowMappingEnd] then
      advance
      pure []
    else
      if !isFirst then
        if ← nextIn [.flowEntry] then advance else failure
      match ← peek with
      | some .flowMappingEnd =>
        advance
        pure []
      | some .key =>
        advance
        let key ← readUnless fuel [.value, .flowEntry, .flowMappingEnd] false
          false
        let value ← readValueUnless fuel [.flowEntry, .flowMappingEnd] false
          false
        let entries ← readFlowEntries fuel false
        pure ((key, value) :: entries)
      | _ =>
        let key ← readNode fuel false false
        let entries ← readFlowEntries fuel false
        pure ((key, nothing) :: entries)

end

/-- What the handles stand for that every document knows. -/
def standardPrefixes : Fields Tag :=
  [("!", .ofText "!"), ("!!", .ofText "tag:yaml.org,2002:")]

structure Directives where
  hasVersion : Bool := false
  tagPrefixes : Fields Tag := []

/-- Reads the directives before a document.  Each handle, and the version, may
be given once. -/
def readDirectives (directives : Directives) :
    List Token → Option (Directives × List Token)
  | .version major minor :: tokens =>
    if directives.hasVersion || major ≠ 1 || (minor ≠ 1 && minor ≠ 2) then none
    else readDirectives { directives with hasVersion := true } tokens
  | .tagPrefix handle start :: tokens =>
    if Fields.contains directives.tagPrefixes handle then none
    else
      readDirectives
        { directives with
          tagPrefixes := directives.tagPrefixes ++ [(handle, start)] } tokens
  | tokens => some (directives, tokens)

/-- Handles that a directive gives come before the standard ones. -/
def Directives.prefixes (directives : Directives) : Fields Tag :=
  directives.tagPrefixes ++ standardPrefixes

def isDirective : Token → Bool
  | .version .. => true
  | .tagPrefix .. => true
  | _ => false

/-- Reads the start of a document: its directives, whether its mark is there,
and what follows.  Directives need the mark. -/
def readStart (tokens : List Token) :
    Option (Directives × Bool × List Token) := do
  let (directives, rest) ← readDirectives {} tokens
  match rest with
  | [] => none
  | .documentStart :: rest => some (directives, true, rest)
  | _ =>
    if rest.length = tokens.length then some (directives, false, rest) else none

def endsDocument : List Token → Bool
  | [] => true
  | .documentStart :: _ => true
  | .documentEnd :: _ => true
  | token :: _ => isDirective token

/-- The one document of a list of tokens; only after its mark it may be
empty. -/
def ofTokens? (tokens : List Token) : Option Node := do
  let (directives, marked, rest) ← readStart tokens
  if marked && endsDocument rest then
    if (rest.dropWhile (· = .documentEnd)).isEmpty then some nothing else none
  else
    let (node, state) ←
      (readNode (2 * rest.length + 2) true false).run
        { tokens := rest, tagPrefixes := directives.prefixes }
    if (state.tokens.dropWhile (· = .documentEnd)).isEmpty then some node
    else none

def parse? (text : String) : Option Node :=
  (Token.scan? text).bind ofTokens?

end Node

end Aggregation.Yaml
