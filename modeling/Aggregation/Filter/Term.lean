import Aggregation.Filter.Operator

/-!
# Filter terms

A filter is an ordered list of terms, each with a document field, an operator
and a value.  A term without field or operator is an explicit opt-out.
-/

namespace Aggregation

/-- A condition on a field, or an opt-out. -/
structure FilterTerm where
  field : Option String
  operator : Option String
  value : Value
  /-- Whether a zero value drops the term. -/
  omitEmpty : Bool := false

namespace FilterTerm

def tagged (field operator : String) (value : Value) : FilterTerm :=
  { field := some field, operator := some operator, value }

/-- A value without field or operator, which no compiled filter shows. -/
def untagged (value : Value) : FilterTerm :=
  { field := none, operator := none, value }

/-- The term, marked to be dropped for a zero value (`omit_empty`). -/
def omittingEmpty (term : FilterTerm) : FilterTerm :=
  { term with omitEmpty := true }

/-- Whether the term has a field and an operator (`is_tagged`). -/
def isTagged (term : FilterTerm) : Bool :=
  term.field.isSome && term.operator.isSome

def isZero (term : FilterTerm) : Bool := term.value.isZero

end FilterTerm

structure Filter where
  terms : List FilterTerm := []

namespace Filter

def empty : Filter := {}

def push (filter : Filter) (term : FilterTerm) : Filter :=
  ⟨filter.terms ++ [term]⟩

def size (filter : Filter) : Nat := filter.terms.length

def isEmpty (filter : Filter) : Bool := filter.terms.isEmpty

def term (filter : Filter) (field operator : String) (value : Value) : Filter :=
  filter.push (.tagged field operator value)

def termOmittingEmpty (filter : Filter) (field operator : String)
    (value : Value) : Filter :=
  filter.push (FilterTerm.tagged field operator value).omittingEmpty

/-- Adds a condition by one of the known operators. -/
def condition (filter : Filter) (field : String) (operator : FilterOperator)
    (value : Value) :
    Filter :=
  filter.term field operator.token value

end Filter

end Aggregation
