import Aggregation.Compile.Frame

/-!
# Compiling stages

A definition is compiled stage by stage, in order, and the first stage that
fails ends it.  A union compiles the aggregation that it names with the
definition still open; a name that is open already closes a cycle.
-/

namespace Aggregation

namespace CompileM

/-- How a union gets the collection and the pipeline of the aggregation that it
embeds (`NestedCompiler`). -/
abbrev Embedding := String → Params → CompileM (String × Pipeline)

/-- The stage of a plan, with the pipeline that a union asks for. -/
def finishPlan (embedding : Embedding) (operator : StageOperator) :
    StagePlan → CompileM Document
  | .operand value => pure (operator.stage value)
  | .filter document => do
    note (.filterCompiled document)
    pure (operator.stage (.document document))
  | .embed target params => do
    let (collection, pipeline) ← embedding target params
    pure (operator.stage (unionValue collection pipeline))

/-- The plan of a stage under these bindings; an operator that is not registered
has none (`resolve_operator`). -/
def planOf (params : Params) (stage : Stage) :
    Except Cause (StageOperator × StagePlan) := do
  let operator ← stage.resolve
  let plan ← operator.plan stage.args (stage.paramKey.bind params.get?)
  pure (operator, plan)

/-- Plans a stage and carries the plan out (`compile_stage`). -/
def compileStage (embedding : Embedding) (params : Params) (stage : Stage) :
    CompileM Document := do
  let (operator, plan) ← ofExcept (planOf params stage)
  finishPlan embedding operator plan

/-- Compiles the stages from this index on (`compile_stages`). -/
def compileStages (embedding : Embedding) (name : String) (params : Params)
    (index : Nat) :
    List Stage → CompileM Pipeline
  | [] => pure []
  | stage :: stages => do
    let document ← traced (stage.trace name index)
        (compileStage embedding params stage)
    let pipeline ← compileStages embedding name params (index + 1) stages
    pure (document :: pipeline)

/-- Embeds the registered aggregation of a name, compiled in this way
(`compile_nested`). -/
def embedFrom (catalog : Catalog)
    (compile : Definition → Params → CompileM Pipeline) : Embedding :=
  fun name params =>
    match catalog.get? name with
    | none => reject (.notFound name)
    | some definition => do
      let pipeline ← compile definition params
      pure (definition.collection, pipeline)

/-- Compiles a definition within a frame (`compile_spec`).  The fuel bounds how
many definitions are nested, the last of which may be the one that closes a
cycle. -/
def compileDefinition (catalog : Catalog) :
    Nat → Definition → Params → CompileM Pipeline
  | 0, _, _ => throw .exhausted
  | fuel + 1, definition, params => do
    let frame ← get
    if definition.name ∈ frame.active then
      reject (.cycle (definition.name :: frame.active).reverse)
    else
      opened definition.name
        (compileStages (embedFrom catalog (compileDefinition catalog fuel))
          definition.name params 0 definition.stages)

theorem run_compileDefinition_succ (catalog : Catalog) (fuel : Nat)
    (definition : Definition) (params : Params) (frame : Frame) :
    (compileDefinition catalog (fuel + 1) definition params).run frame =
      if definition.name ∈ frame.active then
        (.error
          (.rejected ⟨.cycle (definition.name :: frame.active).reverse, []⟩),
          frame)
      else
        (opened definition.name
          (compileStages (embedFrom catalog (compileDefinition catalog fuel))
            definition.name params 0 definition.stages)).run frame := by
  rw [compileDefinition, run_bind]
  change ((ite _ _ _ : CompileM Pipeline).run frame) = _
  split <;> rfl

theorem restores_finishPlan {embedding : Embedding}
    (h : ∀ name params, Restores (embedding name params))
    (operator : StageOperator) (plan : StagePlan) :
    Restores (finishPlan embedding operator plan) := by
  cases plan with
  | operand value => exact restores_pure _
  | filter document => exact (restores_note _).bind fun _ => restores_pure _
  | embed target params => exact (h target params).bind fun _ => restores_pure _

theorem restores_compileStage {embedding : Embedding}
    (h : ∀ name params, Restores (embedding name params)) (params : Params)
    (stage : Stage) :
    Restores (compileStage embedding params stage) :=
  (restores_ofExcept _).bind fun _ => restores_finishPlan h _ _

theorem restores_compileStages {embedding : Embedding}
    (h : ∀ name params, Restores (embedding name params)) (name : String)
    (params : Params) (index : Nat) (stages : List Stage) :
    Restores (compileStages embedding name params index stages) := by
  induction stages generalizing index with
  | nil => exact restores_pure _
  | cons stage stages ih =>
    exact ((restores_compileStage h params stage).traced _).bind fun _ =>
      (ih (index + 1)).bind fun _ => restores_pure _

theorem restores_embedFrom {catalog : Catalog}
    {compile : Definition → Params → CompileM Pipeline}
    (h : ∀ definition params, Restores (compile definition params))
    (name : String) (params : Params) :
    Restores (embedFrom catalog compile name params) := by
  unfold embedFrom
  split
  · exact restores_reject _
  · exact (h _ _).bind fun _ => restores_pure _

theorem restores_compileDefinition (catalog : Catalog) (fuel : Nat)
    (definition : Definition) (params : Params) :
    Restores (compileDefinition catalog fuel definition params) := by
  induction fuel generalizing definition params with
  | zero => exact fun _ => rfl
  | succ fuel ih =>
    refine Restores.bind (fun _ => rfl) fun frame => ?_
    split
    · exact restores_reject _
    · exact (restores_compileStages (restores_embedFrom ih) _ _ _ _).opened _

end CompileM

end Aggregation
