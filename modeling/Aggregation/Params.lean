import Aggregation.CompileError
import Aggregation.Filter.Term

/-!
# Parameter bindings

What a caller binds for one compile: plain values, filters, and nested bindings
for the aggregation that a union embeds.  Bindings are kept by key in ascending
order.
-/

namespace Aggregation

/-- What is bound to a key. -/
inductive Param where
  | value (bound : Value)
  /-- None is an absent filter, which is bound but cannot be compiled. -/
  | filter (bound : Option Filter)
  | params (entries : List (String × Param))

abbrev Params := Fields Param

namespace Param

def shape : Param → BindingShape
  | value _ => .value
  | filter _ => .filter
  | params _ => .params

def asFilter? : Param → Option (Option Filter)
  | filter bound => some bound
  | _ => none

def asParams? : Param → Option Params
  | params entries => some entries
  | _ => none

mutual

/-- The binding as a value to pass through (`to_bson`); a filter at any depth
has none. -/
def toValue? : Param → Option Value
  | value bound => some bound
  | filter _ => none
  | params entries => (toDocument? entries).map .document

def toDocument? : List (String × Param) → Option Document
  | [] => some []
  | (key, param) :: entries => do
    let value ← toValue? param
    let fields ← toDocument? entries
    some ((key, value) :: fields)

end

end Param

namespace Params

def empty : Params := []

/-- Binds a key, in place of what was bound to it before. -/
def insert (params : Params) (key : String) (param : Param) : Params :=
  Fields.place params key param

def get? (params : Params) (key : String) : Option Param :=
  Fields.get? params key

/-- Later entries replace earlier ones with the same key. -/
def ofList (entries : List (String × Param)) : Params :=
  Fields.placeAll entries

def toDocument? (params : Params) : Option Document :=
  Param.toDocument? params

end Params

end Aggregation
