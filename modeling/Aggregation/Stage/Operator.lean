/-!
# Stage operators

The closed registry of operators that a pipeline stage may have.
-/

namespace Aggregation

/-- How a stage gets its value. -/
inductive StageKind where
  /-- The bound value itself. -/
  | passThrough
  /-- The static arguments themselves. -/
  | staticEcho
  /-- A sort document from an ordered list. -/
  | orderedSort
  /-- A compiled filter. -/
  | filter
  /-- Another aggregation's pipeline. -/
  | union
  deriving DecidableEq

inductive StageOperator where
  | skip
  | limit
  | project
  | group
  | sort
  | matching
  | unionWith
  deriving DecidableEq

namespace StageOperator

def token : StageOperator → String
  | skip => "$skip"
  | limit => "$limit"
  | project => "$project"
  | group => "$group"
  | sort => "$sort"
  | matching => "$match"
  | unionWith => "$unionWith"

def all : List StageOperator :=
  [skip, limit, project, group, sort, matching, unionWith]

/-- The registered operator of a token (`from_token`). -/
def ofToken? (token : String) : Option StageOperator :=
  all.find? (·.token = token)

def kind : StageOperator → StageKind
  | skip | limit => .passThrough
  | project | group => .staticEcho
  | sort => .orderedSort
  | matching => .filter
  | unionWith => .union

/-- Whether a stage cannot do without a binding (`requires_param`). -/
def requiresParam (operator : StageOperator) : Bool :=
  operator.kind = .passThrough || operator.kind = .filter

end StageOperator

end Aggregation
