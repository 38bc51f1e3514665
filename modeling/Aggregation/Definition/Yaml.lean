import Aggregation.Definition.Reader
import Aggregation.Yaml.Node
import Aggregation.Yaml.Schema

/-!
# Definitions as YAML

A definition is read from the one document of a YAML text.  Parts may be named
and referred to.
-/

namespace Aggregation

namespace Value

/-- Negative numbers take the wide width, and so does a zero with a minus. -/
def ofContent? : Yaml.Content → Option Value
  | .null => some .null
  | .bool b => some (.bool b)
  | .integer true size =>
    if size ≤ 0x8000000000000000 then some (.int64 (Int64.ofInt (-size)))
      else none
  | .integer false size => SourceReader.integer? size
  | .double d => some (.double d)
  | .text text => some (.string text)

end Value

namespace Scalar

open Yaml (ScalarStyle Tag)

/-- Only without quotes may null stand for a text that is left out. -/
def optionalYamlText (tag : Option Tag) (style : ScalarStyle) (text : String) :
    Option (Option String) :=
  if style ≠ .plain then some (some text)
  else
    match tag with
    | none =>
      some (if text.isEmpty || Yaml.Schema.isNull text then none else some text)
    | some tag =>
      if tag = Yaml.Schema.coreTag "null" then
        if Yaml.Schema.isNull text then some none else none
      else some (some text)

def ofYaml (tag : Option Tag) (style : ScalarStyle) (text : String) : Scalar :=
  { text := some text
    value := (Yaml.Schema.content? tag style text).bind Value.ofContent?
    natural :=
      if Yaml.Schema.isBare "int" tag style then Yaml.Schema.natural? text
      else none
    flag :=
      if Yaml.Schema.isBare "bool" tag style then Yaml.Schema.bool? text
      else none
    optionalText := optionalYamlText tag style text
    isBlank := text.isEmpty && style = .plain }

end Scalar

namespace Datum

mutual

def ofYaml : Yaml.Node → Datum
  | .scalar tag style text => .scalar (.ofYaml tag style text)
  | .reference id => .reference id
  | .sequence tag items => .list (Yaml.Schema.isLocal tag) (itemsOfYaml items)
  | .mapping tag entries =>
    .record (Yaml.Schema.isLocal tag) (entriesOfYaml entries)
  | .anchored _ node => ofYaml node

def itemsOfYaml : List Yaml.Node → List Datum
  | [] => []
  | item :: items => ofYaml item :: itemsOfYaml items

def entriesOfYaml : List (Yaml.Node × Yaml.Node) → List (Datum × Datum)
  | [] => []
  | (key, value) :: entries =>
    (ofYaml key, ofYaml value) :: entriesOfYaml entries

end

end Datum

namespace Yaml.Node

mutual

/-- The named parts, in the order of their starts. -/
def anchors : Node → List (Nat × Datum)
  | .scalar .. => []
  | .reference _ => []
  | .sequence _ items => itemAnchors items
  | .mapping _ entries => entryAnchors entries
  | .anchored id node => (id, Datum.ofYaml node) :: anchors node

def itemAnchors : List Node → List (Nat × Datum)
  | [] => []
  | item :: items => anchors item ++ itemAnchors items

def entryAnchors : List (Node × Node) → List (Nat × Datum)
  | [] => []
  | (key, value) :: entries =>
    anchors key ++ anchors value ++ entryAnchors entries

end

mutual

/-- How many steps it takes to write a node: one for a leaf, and two around the
parts of others. -/
def size : Node → Nat
  | .scalar .. => 1
  | .reference _ => 1
  | .sequence _ items => 2 + itemsSize items
  | .mapping _ entries => 2 + entriesSize entries
  | .anchored _ node => size node

def itemsSize : List Node → Nat
  | [] => 0
  | item :: items => size item + itemsSize items

def entriesSize : List (Node × Node) → Nat
  | [] => 0
  | (key, value) :: entries => size key + size value + entriesSize entries

end

end Yaml.Node

namespace Definition

/-- Reads a YAML text, none if it is no definition.  A hundred references may be
followed for each step of the text, so that a short text cannot grow without
bound. -/
def parseYaml? (text : String) : Option Definition := do
  let node ← Yaml.Node.parse? text
  ofSource?
    { root := Datum.ofYaml node
      anchors := node.anchors
      depth := 128
      jumps := 100 * node.size
      positional := false }

end Definition

end Aggregation
