/-!
# Compile errors

A compile error is a cause and the trail of stages that it passed on its way
out, innermost first.  Code, message, field and operator are read off the cause,
so that they cannot disagree.
-/

namespace Aggregation

inductive ErrorCode where
  | unsupportedOperator
  | notFound
  | typeMismatch
  | cycleDetected
  | structural
  deriving DecidableEq

namespace ErrorCode

def text : ErrorCode → String
  | unsupportedOperator => "AGG_UNSUPPORTED_OPERATOR"
  | notFound => "AGG_NOT_FOUND"
  | typeMismatch => "AGG_TYPE_MISMATCH"
  | cycleDetected => "AGG_CYCLE_DETECTED"
  | structural => "AGG_STRUCTURAL"

/-- Whether the fault lies in the definitions rather than in the caller's
parameters (`is_configuration`). -/
def isConfiguration (code : ErrorCode) : Bool :=
  code ≠ typeMismatch

end ErrorCode

/-- The kind of thing bound to a parameter key. -/
inductive BindingShape where
  | value
  | filter
  | params
  deriving DecidableEq

namespace BindingShape

def text : BindingShape → String
  | value => "value"
  | filter => "filter"
  | params => "parameter mapping"

def describe : Option BindingShape → String
  | none => "nothing"
  | some shape => "a " ++ shape.text

end BindingShape

/-- A binding of the wrong shape. -/
inductive Mismatch where
  | absentFilter
  | unbound (operator : String)
  | notPassable (operator : String) (bound : Option BindingShape)
  | notFilter (operator : String) (bound : Option BindingShape)
  | stated (reason : String)
  deriving DecidableEq

namespace Mismatch

def message : Mismatch → String
  | absentFilter => "filter value must not be nil"
  | unbound operator => s!"{operator} requires a bound parameter"
  | notPassable operator bound =>
    s!"{operator} cannot pass through {BindingShape.describe bound}"
  | notFilter operator bound =>
    s!"{operator} requires a filter parameter, got {BindingShape.describe bound}"
  | stated reason => reason

end Mismatch

/-- A missing or malformed static argument. -/
inductive Malformation where
  | orderNotList
  | orderMissing
  | orderEmpty
  | entryNotStructure (index : Nat)
  | entryWithoutField (index : Nat)
  | entryVerse (index : Nat) (field : String)
  | unionWithoutTarget
  | stated (reason : String)
  deriving DecidableEq

namespace Malformation

def message : Malformation → String
  | orderNotList => "sort argument 'order' must be a list"
  | orderMissing => "sort stage requires an 'order' argument"
  | orderEmpty => "sort 'order' list is empty"
  | entryNotStructure index =>
    s!"sort entry {index} is not a \x7bfield, verse\x7d structure"
  | entryWithoutField index => s!"sort entry {index} has no field name"
  | entryVerse index field =>
    s!"sort entry {index} ('{field}') has a non-string verse"
  | unionWithoutTarget =>
    "union stage requires a 'pipeline' argument naming an aggregation"
  | stated reason => reason

end Malformation

inductive Cause where
  /-- A stage operator that is not registered, and the key of its stage. -/
  | unknownStageOperator (key : Option String) (token : String)
  | unknownFilterOperator (field token : String)
  | notFound (name : String)
  | mismatch (found : Mismatch)
  | fieldMismatch (field operator expected : String)
  /-- The names on the way round, the repeated one at both ends of the loop. -/
  | cycle (path : List String)
  | structural (found : Malformation)
  deriving DecidableEq

namespace Cause

def code : Cause → ErrorCode
  | unknownStageOperator .. => .unsupportedOperator
  | unknownFilterOperator .. => .unsupportedOperator
  | notFound _ => .notFound
  | mismatch _ => .typeMismatch
  | fieldMismatch .. => .typeMismatch
  | cycle _ => .cycleDetected
  | structural _ => .structural

def message : Cause → String
  | unknownStageOperator (some key) token =>
    s!"operator '{token}' of stage '{key}' is not supported"
  | unknownStageOperator none token => s!"operator '{token}' is not supported"
  | unknownFilterOperator field token =>
    s!"operator '{token}' not supported for field '{field}'"
  | notFound name => s!"aggregation '{name}' not found"
  | mismatch found => found.message
  | fieldMismatch field operator expected =>
    s!"field '{field}' operator '{operator}' requires a value of type {expected}"
  | cycle path => "union cycle detected: " ++ String.intercalate " -> " path
  | structural found => found.message

def field : Cause → Option String
  | unknownFilterOperator field _ => some field
  | fieldMismatch field _ _ => some field
  | _ => none

def operator : Cause → Option String
  | unknownStageOperator _ token => some token
  | unknownFilterOperator _ token => some token
  | fieldMismatch _ operator _ => some operator
  | _ => none

end Cause

/-- A stage of an aggregation, as an error names it. -/
structure Trace where
  aggregation : String
  index : Nat
  key : Option String
  operator : String
  deriving DecidableEq

namespace Trace

def text (trace : Trace) : String :=
  let key :=
    match trace.key with
    | some key => s!" key={key}"
    | none => ""
  s!"{trace.aggregation}#{trace.index}{key} op={trace.operator}"

end Trace

structure CompileError where
  cause : Cause
  /-- Innermost stage first. -/
  trail : List Trace := []
  deriving DecidableEq

namespace CompileError

/-- The error as it leaves one more stage (`at_stage`). -/
def through (error : CompileError) (trace : Trace) : CompileError :=
  { error with trail := error.trail ++ [trace] }

def code (error : CompileError) : ErrorCode := error.cause.code

def message (error : CompileError) : String := error.cause.message

def field (error : CompileError) : Option String := error.cause.field

/-- The stage where the error arose. -/
def origin (error : CompileError) : Option Trace := error.trail.head?

/-- The operator at fault; a cause that names none leaves it to the stage where
it arose. -/
def operator (error : CompileError) : Option String :=
  error.cause.operator.or (error.origin.map Trace.operator)

/-- No compile error goes away by trying again (`is_retryable`). -/
def isRetryable (_ : CompileError) : Bool := false

def display (error : CompileError) : String :=
  let head := s!"[{error.code.text}] {error.message}"
  if error.trail.isEmpty then head
  else
    head ++ " (at " ++
      String.intercalate " <- " (error.trail.map Trace.text) ++ ")"

end CompileError

end Aggregation
