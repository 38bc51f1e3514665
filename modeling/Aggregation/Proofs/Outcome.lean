import Aggregation.Compile
import Mathlib.Data.List.Forall2

/-!
# Outcomes of a compile

What a compile comes to depends on the catalog, the open aggregations, the
definition and its bindings, and on nothing else.  `outcome` is that
dependency: it recurses on the registered names that are not open, and it has
neither fuel nor a log.  Any sufficient fuel computes it
(`computes_compileDefinition`), so all that is said of outcomes is said of the
compiler.
-/

namespace Aggregation

open CompileM

namespace CompileM

variable {α β : Type} {active : List String}

/-- How many more definitions can be nested within one of this name. -/
def room (catalog : Catalog) (active : List String) (name : String) : ℕ :=
  if name ∈ active then 0 else (unopened catalog (name :: active)).length + 1

theorem room_of_closed {catalog : Catalog} {name : String}
    (hclosed : name ∉ active) :
    room catalog active name = (unopened catalog (name :: active)).length + 1 :=
  if_neg hclosed

/-- Opening a definition leaves less room for any registered one within it. -/
theorem room_lt {catalog : Catalog} {name target : String}
    {embedded : Definition} (hclosed : name ∉ active)
    (hfound : catalog.get? target = some embedded) :
    room catalog (name :: active) embedded.name < room catalog active name := by
  rw [room_of_closed hclosed]
  by_cases hopen : embedded.name ∈ name :: active
  · simp [room, hopen]
  · rw [room_of_closed hopen]
    have hless := length_unopened_cons_lt (mem_names_of_get? hfound) hopen
    omega

theorem room_le (catalog : Catalog) (active : List String) (name : String) :
    room catalog active name ≤ catalog.size + 1 := by
  unfold room
  split
  · omega
  · have hle := length_unopened_le catalog (name :: active)
    omega

/-- A property of definitions among open aggregations holds if each definition
inherits it from those that may be compiled within it. -/
theorem opening_induction (catalog : Catalog)
    {motive : List String → Definition → Prop}
    (hstep : ∀ active definition,
      (definition.name ∉ active → ∀ target embedded,
        catalog.get? target = some embedded →
          motive (definition.name :: active) embedded) →
      motive active definition)
    (active : List String) (definition : Definition) :
    motive active definition := by
  induction hroom : room catalog active definition.name using Nat.strongRecOn
    generalizing active definition with
  | _ size ih =>
      apply hstep
      intro hclosed target embedded hfound
      have hless := room_lt hclosed hfound
      rw [hroom] at hless
      exact ih _ hless _ _ rfl

/-- From every frame with these aggregations open, the computation ends in this
result, whatever was logged before. -/
def Computes (active : List String) (body : CompileM α)
    (result : Except CompileError α) : Prop :=
  ∀ frame : Frame, frame.active = active →
    (body.run frame).1 = result.mapError Halt.rejected

theorem computes_pure (value : α) :
    Computes active (pure value) (.ok value) :=
  fun _ _ => rfl

theorem computes_reject (cause : Cause) :
    Computes active (reject cause : CompileM α) (.error ⟨cause, []⟩) :=
  fun _ _ => rfl

theorem computes_note (event : Event) :
    Computes active (note event) (.ok ()) :=
  fun _ _ => rfl

theorem Computes.bind {body : CompileM α} {next : α → CompileM β}
    {result : Except CompileError α} {after : α → Except CompileError β}
    (hbody : Computes active body result) (hkept : Restores body)
    (hnext : ∀ value, Computes active (next value) (after value)) :
    Computes active (body >>= next) (result >>= after) := by
  intro frame hactive
  have hfirst := hbody frame hactive
  have hstays := hkept frame
  rw [run_bind]
  rcases hrun : body.run frame with ⟨ended, left⟩
  rw [hrun] at hfirst hstays
  simp only at hfirst hstays
  rw [hfirst]
  cases result with
  | error error => rfl
  | ok value => exact hnext value left (hstays.trans hactive)

theorem Computes.traced {body : CompileM α} {result : Except CompileError α}
    (h : Computes active body result) (trace : Trace) :
    Computes active (traced trace body)
      (result.mapError fun error => error.through trace) := by
  intro frame hactive
  have hbody := h frame hactive
  change (body.run frame).1.mapError (Halt.through trace) = _
  rw [hbody]
  cases result <;> rfl

theorem Computes.opened {name : String} {body : CompileM α}
    {result : Except CompileError α}
    (h : Computes (name :: active) body result) :
    Computes active (opened name body) result := by
  intro frame hactive
  exact h { frame with active := name :: frame.active } (by simp [hactive])

end CompileM

/-! ## Stages, given what unions embed -/

/-- The collection and the pipeline that a union gets for a name. -/
abbrev Embedded := String → Params → Except CompileError (String × Pipeline)

def planOutcome (embed : Embedded) (operator : StageOperator) :
    StagePlan → Except CompileError Document
  | .operand value => .ok (operator.stage value)
  | .filter document => .ok (operator.stage (.document document))
  | .embed target params => do
      let (collection, pipeline) ← embed target params
      pure (operator.stage (unionValue collection pipeline))

def stageOutcome (embed : Embedded) (params : Params) (stage : Stage) :
    Except CompileError Document :=
  match planOf params stage with
  | .error cause => .error ⟨cause, []⟩
  | .ok (operator, plan) => planOutcome embed operator plan

/-- The stages from this index on. -/
def stagesOutcome (embed : Embedded) (name : String) (params : Params)
    (index : ℕ) : List Stage → Except CompileError Pipeline
  | [] => .ok []
  | stage :: stages => do
      let document ← (stageOutcome embed params stage).mapError
        fun error => error.through (stage.trace name index)
      let pipeline ← stagesOutcome embed name params (index + 1) stages
      pure (document :: pipeline)

theorem computes_finishPlan {active : List String} {embedding : Embedding}
    {embed : Embedded}
    (hembed : ∀ name params,
      Computes active (embedding name params) (embed name params))
    (hkept : ∀ name params, Restores (embedding name params))
    (operator : StageOperator) (plan : StagePlan) :
    Computes active (finishPlan embedding operator plan)
      (planOutcome embed operator plan) := by
  cases plan with
  | operand value => exact computes_pure _
  | filter document =>
      exact (computes_note _).bind (restores_note _) fun _ => computes_pure _
  | embed target params =>
      exact (hembed target params).bind (hkept target params)
        fun _ => computes_pure _

theorem computes_compileStage {active : List String} {embedding : Embedding}
    {embed : Embedded}
    (hembed : ∀ name params,
      Computes active (embedding name params) (embed name params))
    (hkept : ∀ name params, Restores (embedding name params))
    (params : Params) (stage : Stage) :
    Computes active (compileStage embedding params stage)
      (stageOutcome embed params stage) := by
  unfold compileStage stageOutcome
  rcases hplan : planOf params stage with cause | ⟨operator, plan⟩
  · exact fun _ _ => rfl
  · exact computes_finishPlan hembed hkept operator plan

theorem computes_compileStages {active : List String} {embedding : Embedding}
    {embed : Embedded}
    (hembed : ∀ name params,
      Computes active (embedding name params) (embed name params))
    (hkept : ∀ name params, Restores (embedding name params))
    (name : String) (params : Params) (index : ℕ) (stages : List Stage) :
    Computes active (compileStages embedding name params index stages)
      (stagesOutcome embed name params index stages) := by
  induction stages generalizing index with
  | nil => exact computes_pure _
  | cons stage stages ih =>
      have hstage := (computes_compileStage hembed hkept params stage).traced
        (stage.trace name index)
      refine hstage.bind ((restores_compileStage hkept params stage).traced _)
        fun document => ?_
      exact (ih (index + 1)).bind (restores_compileStages hkept _ _ _ _)
        fun pipeline => computes_pure _

/-! ## Definitions -/

/-- What compiling a definition comes to while these aggregations are open. -/
def outcome (catalog : Catalog) (active : List String) (definition : Definition)
    (params : Params) : Except CompileError Pipeline :=
  if _ : definition.name ∈ active then
    .error ⟨.cycle (definition.name :: active).reverse, []⟩
  else
    stagesOutcome
      (fun target bound =>
        match _ : catalog.get? target with
        | none => .error ⟨.notFound target, []⟩
        | some embedded => do
            let pipeline ←
              outcome catalog (definition.name :: active) embedded bound
            pure (embedded.collection, pipeline))
      definition.name params 0 definition.stages
termination_by room catalog active definition.name
decreasing_by exact room_lt ‹_› ‹_›

/-- What unions embed while these aggregations are open. -/
def embedded (catalog : Catalog) (active : List String) : Embedded :=
  fun target params =>
    match catalog.get? target with
    | none => .error ⟨.notFound target, []⟩
    | some definition => do
        let pipeline ← outcome catalog active definition params
        pure (definition.collection, pipeline)

theorem outcome_of_open {catalog : Catalog} {active : List String}
    {definition : Definition} (hopen : definition.name ∈ active)
    (params : Params) :
    outcome catalog active definition params =
      .error ⟨.cycle (definition.name :: active).reverse, []⟩ := by
  rw [outcome, dif_pos hopen]

theorem outcome_of_closed {catalog : Catalog} {active : List String}
    {definition : Definition} (hclosed : definition.name ∉ active)
    (params : Params) :
    outcome catalog active definition params =
      stagesOutcome (embedded catalog (definition.name :: active))
        definition.name params 0 definition.stages := by
  rw [outcome, dif_neg hclosed]
  congr 1
  funext target bound
  unfold embedded
  split <;> simp_all

theorem embedded_eq_ok_iff {catalog : Catalog} {active : List String}
    {target : String} {params : Params} {collection : String}
    {pipeline : Pipeline} :
    embedded catalog active target params = .ok (collection, pipeline) ↔
      ∃ definition, catalog.get? target = some definition ∧
        outcome catalog active definition params = .ok pipeline ∧
        collection = definition.collection := by
  unfold embedded
  cases catalog.get? target with
  | none => simp
  | some definition =>
      cases hresult : outcome catalog active definition params <;>
        simp [bind, Except.bind, pure, Except.pure, hresult, and_comm, eq_comm]

theorem embedded_eq_error_iff {catalog : Catalog} {active : List String}
    {target : String} {params : Params} {error : CompileError} :
    embedded catalog active target params = .error error ↔
      (catalog.get? target = none ∧ error = ⟨.notFound target, []⟩) ∨
        ∃ definition, catalog.get? target = some definition ∧
          outcome catalog active definition params = .error error := by
  unfold embedded
  cases catalog.get? target with
  | none => simp [eq_comm]
  | some definition =>
      cases hresult : outcome catalog active definition params <;>
        simp [bind, Except.bind, pure, Except.pure, hresult]

theorem computes_embedFrom {catalog : Catalog} {active : List String}
    {compile : Definition → Params → CompileM Pipeline}
    (hcompile : ∀ {name definition}, catalog.get? name = some definition →
      ∀ params, Computes active (compile definition params)
        (outcome catalog active definition params))
    (hkept : ∀ definition params, Restores (compile definition params))
    (name : String) (params : Params) :
    Computes active (embedFrom catalog compile name params)
      (embedded catalog active name params) := by
  unfold embedFrom embedded
  cases hfound : catalog.get? name with
  | none => exact computes_reject _
  | some definition =>
      exact (hcompile hfound params).bind (hkept definition params)
        fun _ => computes_pure _

/-- Fuel beyond the room that is left computes the outcome. -/
theorem computes_compileDefinition (catalog : Catalog) (fuel : ℕ)
    (active : List String) (definition : Definition) (params : Params)
    (hfuel : room catalog active definition.name < fuel) :
    Computes active (compileDefinition catalog fuel definition params)
      (outcome catalog active definition params) := by
  induction fuel generalizing active definition params with
  | zero => omega
  | succ fuel ih =>
      intro frame hactive
      rw [run_compileDefinition_succ]
      by_cases hopen : definition.name ∈ active
      · rw [if_pos (hactive ▸ hopen), outcome_of_open hopen, hactive]
        rfl
      · rw [if_neg (hactive ▸ hopen), outcome_of_closed hopen]
        refine Computes.opened ?_ frame hactive
        apply computes_compileStages
        · apply computes_embedFrom ?_ (restores_compileDefinition catalog fuel)
          intro name embedded hfound bound
          have hless := room_lt hopen hfound
          exact ih _ _ _ (by omega)
        · exact restores_embedFrom (restores_compileDefinition catalog fuel)

/-! ## Whole compiles -/

theorem settle_of_eq_mapError {α : Type} {result : Except Halt α}
    {ended : Except CompileError α} (h : result = ended.mapError Halt.rejected)
    (hsettled : result ≠ .error .exhausted) :
    settle result hsettled = ended := by
  subst h
  cases ended <;> rfl

/-- Compiling a definition from the start, registered or not. -/
theorem collect_compileDefinition (catalog : Catalog) (definition : Definition)
    (params : Params) :
    (catalog.compileDefinition definition params).collect.1 =
      outcome catalog [] definition params := by
  have hroom := room_le catalog [] definition.name
  have hrun := computes_compileDefinition catalog (catalog.size + 2) []
    definition params (by omega) {} rfl
  exact settle_of_eq_mapError hrun _

theorem LoggedExcept.collect_bind_pure {ε α β : Type} (body : LoggedExcept ε α)
    (f : α → β) :
    (body >>= fun value => pure (f value)).collect.1 =
      body.collect.1.map f := by
  simp only [LoggedExcept.collect, bind, ExceptT.bind, ExceptT.mk, ExceptT.run,
    StateT.bind]
  rcases body [] with ⟨ended | value, log⟩ <;> rfl

theorem compile_eq_outcome (catalog : Catalog) (name : String)
    (params : Params) :
    catalog.compile name params =
      match catalog.get? name with
      | none => .error ⟨.notFound name, []⟩
      | some definition => outcome catalog [] definition params := by
  unfold Catalog.compile Catalog.compileNamed
  cases hfound : catalog.get? name with
  | none => rfl
  | some definition =>
      simp only [LoggedExcept.collect_bind_pure, collect_compileDefinition]
      cases outcome catalog [] definition params <;> rfl

end Aggregation
