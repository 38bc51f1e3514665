import Aggregation.Compile.Depth

/-!
# Compiling aggregations

The compiler proper: a definition and bindings in, a pipeline or an error out,
and the events of the run.  Exactly one event tells of the outcome, however many
aggregations are embedded.
-/

namespace Aggregation

/-- What a run that cannot use up its fuel comes to. -/
def settle {α : Type} :
    (result : Except Halt α) → result ≠ .error .exhausted →
      Except CompileError α
  | .ok value, _ => .ok value
  | .error (.rejected error), _ => .error error
  | .error .exhausted, settled => absurd rfl settled

/-- The outcome of compiling a definition, and the events on the way, the last
one apart. -/
def compileRun (catalog : Catalog) (definition : Definition) (params : Params) :
    Except CompileError Pipeline × List Event :=
  let run :=
    (CompileM.compileDefinition catalog (catalog.size + 2) definition
      params).run {}
  (settle run.1
    (CompileM.settles_compileDefinition catalog definition params [] {} rfl),
    run.2.log)

/-- The event that tells of an outcome. -/
def outcomeEvent (definition : Definition) :
    Except CompileError Pipeline → Event
  | .ok pipeline =>
    .pipelineCompiled definition.name definition.collection pipeline.length
  | .error error => .pipelineRejected definition.name error

namespace Catalog

/-- Compiles a definition, registered or not, from a new frame (`compile_spec`).
Its unions embed registered ones. -/
def compileDefinition (catalog : Catalog) (definition : Definition)
    (params : Params) :
    LoggedExcept CompileError Pipeline :=
  ExceptT.mk fun log =>
    let (result, events) := compileRun catalog definition params
    (result, log ++ events ++ [outcomeEvent definition result])

/-- Compiles the registered definition of a name (`compile_named`), and answers
it with its pipeline. -/
def compileNamed (catalog : Catalog) (name : String) (params : Params) :
    LoggedExcept CompileError (Definition × Pipeline) :=
  match catalog.get? name with
  | none => throw ⟨.notFound name, []⟩
  | some definition => do
    let pipeline ← catalog.compileDefinition definition params
    pure (definition, pipeline)

def compile (catalog : Catalog) (name : String) (params : Params) :
    Except CompileError Pipeline :=
  ((catalog.compileNamed name params).collect.1).map Prod.snd

end Catalog

end Aggregation
