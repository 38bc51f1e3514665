import Aggregation.Filter.Query
import Aggregation.Params
import Aggregation.Stage.Operator
import Aggregation.Stage.Sort

/-!
# Stage plans

What a stage contributes can be settled from its arguments and its binding
alone, up to the pipeline that a union still has to ask for.  A plan records
that much.
-/

namespace Aggregation

inductive StagePlan where
  | operand (value : Value)
  | filter (document : Document)
  /-- A union with the aggregation of this name, compiled with these
  bindings. -/
  | embed (target : String) (params : Params)

/-- The aggregation that union arguments name, if they name one at all. -/
def unionTarget? (args : Document) : Option String :=
  (Fields.get? args "pipeline").bind Value.asString?

namespace StageOperator

/-- The bound value (`pass_through`). -/
def planPassThrough (operator : StageOperator) (param : Option Param) :
    Except Cause StagePlan :=
  match param.bind Param.toValue? with
  | some value => .ok (.operand value)
  | none =>
    .error (.mismatch (.notPassable operator.token (param.map Param.shape)))

/-- The bound filter, compiled (`match_value`). -/
def planFilter (operator : StageOperator) (param : Option Param) :
    Except Cause StagePlan :=
  match param.bind Param.asFilter? with
  | some filter => (Filter.build filter).map .filter
  | none =>
    .error (.mismatch (.notFilter operator.token (param.map Param.shape)))

/-- What a union asks for (`union_value`).  A binding that is no mapping counts
as the empty one. -/
def planUnion (args : Document) (param : Option Param) :
    Except Cause StagePlan :=
  match unionTarget? args with
  | some target =>
    if target.isEmpty then .error (.structural .unionWithoutTarget)
    else .ok (.embed target ((param.bind Param.asParams?).getD Params.empty))
  | none => .error (.structural .unionWithoutTarget)

/-- What a stage gets under its token (`generate`), except that a union still
has to ask for its pipeline. -/
def plan (operator : StageOperator) (args : Document) (param : Option Param) :
    Except Cause StagePlan :=
  if param.isNone && operator.requiresParam then
    .error (.mismatch (.unbound operator.token))
  else
    match operator.kind with
    | .passThrough => operator.planPassThrough param
    | .staticEcho => .ok (.operand (.document args))
    | .orderedSort =>
      match Sort.ofArgs args with
      | .ok document => .ok (.operand (.document document))
      | .error malformation => .error (.structural malformation)
    | .filter => operator.planFilter param
    | .union => planUnion args param

def stage (operator : StageOperator) (value : Value) : Document :=
  [(operator.token, value)]

end StageOperator

/-- The value of a union stage. -/
def unionValue (collection : String) (pipeline : List Document) : Value :=
  .document [("coll", .string collection),
    ("pipeline", .array (pipeline.map .document))]

end Aggregation
