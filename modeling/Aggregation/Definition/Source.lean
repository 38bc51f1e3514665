import Aggregation.Value

/-!
# Sources of definitions

What the text of a definition amounts to, whatever its format: a tree of
scalars, lists and records, with references to named parts of itself.  A scalar
carries its answer to each way of asking for its content, because a format may
read the same characters as a text here and as a number there.
-/

namespace Aggregation

structure Scalar where
  /-- Where a text is asked for. -/
  text : Option String := none
  /-- Where any value will do. -/
  value : Option Value := none
  /-- Where a natural number is asked for. -/
  natural : Option Nat := none
  /-- Where a truth value is asked for. -/
  flag : Option Bool := none
  /-- Where a text may be left out. -/
  optionalText : Option (Option String) := none
  /-- Whether nothing is written, which reads as an empty list or record. -/
  isBlank : Bool := false

inductive Datum where
  | scalar (scalar : Scalar)
  /-- A list, and whether it is marked with a type of its own. -/
  | list (marked : Bool) (items : List Datum)
  | record (marked : Bool) (entries : List (Datum × Datum))
  /-- A reference to the part with this number. -/
  | reference (id : Nat)
  deriving Inhabited

structure Source where
  root : Datum
  /-- The numbered parts.  Where a number is given twice the later part has
  it. -/
  anchors : List (Nat × Datum) := []
  /-- How many lists and records may stand within each other. -/
  depth : Nat
  /-- How many references may be followed in all. -/
  jumps : Nat := 0
  /-- Whether a record with known fields may be given as the list of their
  values. -/
  positional : Bool

namespace Source

def anchor? (source : Source) (id : Nat) : Option Datum :=
  source.anchors.reverse.lookup id

end Source

/-- Reading a source, with the number of references that may still be
followed. -/
abbrev SourceReader := StateT Nat Option

namespace SourceReader

variable {α : Type}

def ofOption : Option α → SourceReader α
  | some value => pure value
  | none => failure

/-- Follows a reference, if the datum is one. -/
def resolve (source : Source) : Datum → SourceReader Datum
  | .reference id => do
    match ← get with
    | 0 => failure
    | jumps + 1 =>
      set jumps
      ofOption (source.anchor? id)
  | datum => pure datum

/-- What a scalar answers to one way of asking. -/
def ask (source : Source) (answer : Scalar → Option α) (datum : Datum) :
    SourceReader α := do
  match ← resolve source datum with
  | .scalar scalar => ofOption (answer scalar)
  | _ => failure

def text (source : Source) (datum : Datum) : SourceReader String :=
  ask source Scalar.text datum

def natural (source : Source) (datum : Datum) : SourceReader Nat :=
  ask source Scalar.natural datum

def flag (source : Source) (datum : Datum) : SourceReader Bool :=
  ask source Scalar.flag datum

/-- A text where any value would do. -/
def untypedText (source : Source) (datum : Datum) : SourceReader String :=
  ask source (fun scalar => scalar.value.bind Value.asString?) datum

/-- Sorts the entries of a record into the slots of its known fields; a field
given twice is refused.  Entries with other keys go to `other`. -/
def fillSlots (source : Source) (names : List String)
    (other : SourceReader Unit) :
    List (String × Datum) → List (Datum × Datum) →
      SourceReader (List (String × Datum))
  | slots, [] => pure slots
  | slots, (key, datum) :: entries => do
    let key ← text source key
    if key ∈ names then
      if Fields.contains slots key then failure
      else fillSlots source names other (slots ++ [(key, datum)]) entries
    else do
      other
      fillSlots source names other slots entries

/-- The known fields of a record, or of the list of their values. -/
def slots (source : Source) (names : List String) (other : SourceReader Unit)
    (datum : Datum) :
    SourceReader (List (String × Datum)) := do
  match ← resolve source datum with
  | .record _ entries => fillSlots source names other [] entries
  | .list _ items =>
    if source.positional && items.length ≤
      names.length then pure (names.zip items) else failure
  | _ => failure

def slot (slots : List (String × Datum)) (name : String) : SourceReader Datum :=
  ofOption (Fields.get? slots name)

end SourceReader

end Aggregation
