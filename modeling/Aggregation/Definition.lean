import Aggregation.CompileError
import Aggregation.Stage.Operator
import Aggregation.Stage.Plan
import Aggregation.Text.Blank
import Aggregation.Value

/-!
# Aggregation definitions

A definition is a named, ordered list of stages on one collection.  It may name
operators that do not exist; `Definition.check` says whether it could be
compiled at all.
-/

namespace Aggregation

structure Stage where
  /-- The key under which a caller binds this stage's parameter. -/
  key : Option String := none
  operator : String
  args : Document := []

namespace Stage

/-- The key to look a binding up by (`param_key`); an empty key is none. -/
def paramKey (stage : Stage) : Option String :=
  stage.key.filter (fun key => !key.isEmpty)

def operator? (stage : Stage) : Option StageOperator :=
  StageOperator.ofToken? stage.operator

/-- The aggregation that a union stage names (`union_target`). -/
def unionTarget? (stage : Stage) : Option String :=
  match stage.operator? with
  | some .unionWith => Aggregation.unionTarget? stage.args
  | _ => none

/-- The registered operator of a stage, or what is wrong with its token
(`resolve_operator`). -/
def resolve (stage : Stage) : Except Cause StageOperator :=
  match stage.operator? with
  | some operator => .ok operator
  | none => .error (.unknownStageOperator stage.paramKey stage.operator)

/-- How errors name this stage. -/
def trace (aggregation : String) (index : Nat) (stage : Stage) : Trace :=
  ⟨aggregation, index, stage.key, stage.operator⟩

end Stage

structure Definition where
  name : String
  collection : String
  stages : List Stage := []

inductive DefinitionError where
  | missingName
  | missingCollection (name : String)
  | unsupportedOperator (error : CompileError)
  deriving DecidableEq

namespace DefinitionError

def message : DefinitionError → String
  | missingName => "aggregation must have a name"
  | missingCollection name => s!"aggregation '{name}' must name a collection"
  | unsupportedOperator error => error.display

end DefinitionError

namespace Definition

/-- Resolves the operators of the stages from this index on, up to the first
unknown one. -/
def resolveFrom (name : String) (index : Nat) :
    List Stage → Except CompileError (List StageOperator)
  | [] => .ok []
  | stage :: stages =>
    match stage.resolve with
    | .error cause => .error ⟨cause, [stage.trace name index]⟩
    | .ok operator => (resolveFrom name (index + 1) stages).map (operator :: ·)

/-- Looks up the operators of all stages (`resolve_operators`). -/
def resolveOperators (definition : Definition) :
    Except CompileError (List StageOperator) :=
  resolveFrom definition.name 0 definition.stages

/-- Checks the definition by itself (`validate_structure`), and not the
aggregations that it refers to. -/
def check (definition : Definition) : Except DefinitionError Unit :=
  if Text.isBlank definition.name then .error .missingName
  else if Text.isBlank definition.collection then
    .error (.missingCollection definition.name)
  else
    match definition.resolveOperators with
    | .ok _ => .ok ()
    | .error error => .error (.unsupportedOperator error)

end Definition

end Aggregation
