import Aggregation.CompileError
import Aggregation.Value

/-!
# Filter operators

The operators a filter term may name, and what each asks of the value compared
with.
-/

namespace Aggregation

/-- Operators that ask the same of their values. -/
inductive OperatorFamily where
  /-- Any value. -/
  | comparison
  /-- An array. -/
  | membership
  /-- A boolean. -/
  | existence
  deriving DecidableEq

inductive FilterOperator where
  | eq
  | ne
  | gt
  | gte
  | lt
  | lte
  | isIn
  | notIn
  | present
  deriving DecidableEq

namespace FilterOperator

def token : FilterOperator → String
  | eq => "$eq"
  | ne => "$ne"
  | gt => "$gt"
  | gte => "$gte"
  | lt => "$lt"
  | lte => "$lte"
  | isIn => "$in"
  | notIn => "$nin"
  | present => "$exists"

def all : List FilterOperator :=
  [eq, ne, gt, gte, lt, lte, isIn, notIn, present]

/-- The operator of a token (`from_token`). -/
def ofToken? (token : String) : Option FilterOperator :=
  all.find? (·.token = token)

def family : FilterOperator → OperatorFamily
  | eq | ne | gt | gte | lt | lte => .comparison
  | isIn | notIn => .membership
  | present => .existence

/-- The operand to place under the operator's token, if the value suits the
operator. -/
def operand (operator : FilterOperator) (field : String) (value : Value) :
    Except Cause Value :=
  match operator.family, value with
  | .comparison, value => .ok value
  | .membership, .array items => .ok (.array items)
  | .membership, _ => .error (.fieldMismatch field operator.token "array")
  | .existence, .bool b => .ok (.bool b)
  | .existence, _ => .error (.fieldMismatch field operator.token "bool")

end FilterOperator

end Aggregation
