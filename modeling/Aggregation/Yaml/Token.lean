/-!
# YAML tokens

The pieces that a YAML text is made of.  Indentation shows as the tokens that
start and end block collections.
-/

namespace Aggregation.Yaml

inductive ScalarStyle where
  | plain
  | singleQuoted
  | doubleQuoted
  | literal
  | folded
  deriving DecidableEq

/-- A tag or a part of one, as bytes: what percent signs write in it need not
spell a text. -/
structure Tag where
  bytes : List UInt8
  deriving DecidableEq

namespace Tag

/-- A zero byte ends a tag, whatever follows it. -/
def ofBytes (bytes : List UInt8) : Tag := ⟨bytes.takeWhile (· ≠ 0)⟩

def ofText (text : String) : Tag := ⟨text.toList.flatMap String.utf8EncodeChar⟩

def isEmpty (tag : Tag) : Bool := tag.bytes.isEmpty

def append (start suffix : Tag) : Tag := ⟨start.bytes ++ suffix.bytes⟩

end Tag

/-- Aliases and anchors go by name, tags by their handle and suffix. -/
inductive Token where
  | version (major minor : Nat)
  | tagPrefix (handle : String) (start : Tag)
  | documentStart
  | documentEnd
  | blockSequenceStart
  | blockMappingStart
  | blockEnd
  | flowSequenceStart
  | flowSequenceEnd
  | flowMappingStart
  | flowMappingEnd
  | blockEntry
  | flowEntry
  | key
  | value
  | reference (name : String)
  | anchor (name : String)
  | tag (handle : String) (suffix : Tag)
  | scalar (style : ScalarStyle) (text : String)
  deriving DecidableEq

end Aggregation.Yaml
