import Aggregation.Proofs.Issues
import Aggregation.Proofs.Loading
import Aggregation.Service

/-!
# The log of a compile

A compile goes through the stages of a definition in order, and at a union
through those of the aggregation that it embeds, up to the first stage that
fails.  Of the stages that it gets to, each filter that compiles leaves one
event behind, and nothing else does until the whole compile has ended.  If it
ends well these are the filters that stand in the pipeline, in the order in
which a walk of it meets them.
-/

namespace Aggregation

open CompileM Result

/-! ## Stages in the order of a run -/

/-- A stage that a run gets to, and what is bound for its aggregation there. -/
structure Visit where
  params : Params
  stage : Stage

/-- The query document of a visit, if it is to a stage that matches by a filter
and the filter bound for it compiles. -/
def Visit.filter? (visit : Visit) : Option Document :=
  match visit.stage.operator?, visit.params.bound? visit.stage.key with
  | some .matching, some (.filter (some filter)) =>
    (Filter.compileTerms filter.terms).toOption
  | _, _ => none

/-- What is embedded for a stage, if it is a union that names an aggregation. -/
def Stage.visitsWithin (inner : String → Params → List Visit) (params : Params)
    (stage : Stage) : List Visit :=
  match stage.unionTarget? with
  | some target =>
    if target = "" then [] else inner target (params.within stage.key)
  | none => []

/-- The visits to stages up to the first one that fails, each followed by those
to what it embeds. -/
def stagesVisits (embed : Embedded) (inner : String → Params → List Visit)
    (params : Params) : List Stage → List Visit
  | [] => []
  | stage :: stages =>
    ⟨params, stage⟩ :: stage.visitsWithin inner params ++
      match stageOutcome embed params stage with
      | .ok _ => stagesVisits embed inner params stages
      | .error _ => []

/-- The visits of a compile while these aggregations are open, depth first. -/
def visits (catalog : Catalog) (active : List String) (definition : Definition)
    (params : Params) : List Visit :=
  if _ : definition.name ∈ active then []
  else
    stagesVisits (embedded catalog (definition.name :: active))
      (fun target bound =>
        match _ : catalog.get? target with
        | none => []
        | some embedded =>
          visits catalog (definition.name :: active) embedded bound)
      params definition.stages
termination_by room catalog active definition.name
decreasing_by exact room_lt ‹_› ‹_›

/-- The visits to what unions embed while these aggregations are open. -/
def visitsEmbedded (catalog : Catalog) (active : List String) (target : String)
    (params : Params) : List Visit :=
  match catalog.get? target with
  | none => []
  | some definition => visits catalog active definition params

theorem visits_of_open {catalog : Catalog} {active : List String}
    {definition : Definition} (hopen : definition.name ∈ active)
    (params : Params) :
    visits catalog active definition params = [] := by
  rw [visits, dif_pos hopen]

theorem visits_of_closed {catalog : Catalog} {active : List String}
    {definition : Definition} (hclosed : definition.name ∉ active)
    (params : Params) :
    visits catalog active definition params =
      stagesVisits (embedded catalog (definition.name :: active))
        (visitsEmbedded catalog (definition.name :: active)) params
        definition.stages := by
  rw [visits, dif_neg hclosed]
  congr 1
  funext target bound
  unfold visitsEmbedded
  split <;> simp_all

/-! ## Filters that stand in a pipeline -/

def Value.asDocument? : Value → Option Document
  | .document fields => some fields
  | _ => none

mutual

/-- The query documents that a walk of a stage meets: that of a stage that
matches by it, and those of the pipeline of a union, depth first. -/
def Value.stageFilters : Value → List Document
  | .document [(token, operand)] =>
    if token = StageOperator.matching.token then operand.asDocument?.toList
    else if token = StageOperator.unionWith.token then operand.unionFilters
    else []
  | _ => []
termination_by structural stage => stage

def Value.unionFilters : Value → List Document
  | .document [("coll", _), ("pipeline", .array stages)] =>
    Value.pipelineFilters stages
  | _ => []
termination_by structural operand => operand

def Value.pipelineFilters : List Value → List Document
  | [] => []
  | stage :: stages => stage.stageFilters ++ Value.pipelineFilters stages
termination_by structural stages => stages

end

/-- The query documents that a walk of a pipeline meets. -/
def Pipeline.filters (pipeline : Pipeline) : List Document :=
  Value.pipelineFilters (pipeline.map .document)

theorem Pipeline.filters_cons (document : Document) (pipeline : Pipeline) :
    Pipeline.filters (document :: pipeline) =
      (Value.document document).stageFilters ++ pipeline.filters :=
  rfl

theorem Value.stageFilters_matching (document : Document) :
    (Value.document
      [(StageOperator.matching.token, .document document)]).stageFilters =
      [document] :=
  rfl

theorem Value.stageFilters_union (collection : String) (pipeline : Pipeline) :
    (Value.document [(StageOperator.unionWith.token,
      unionValue collection pipeline)]).stageFilters = pipeline.filters :=
  rfl

/-- A walk meets nothing at a stage that neither matches nor unites. -/
theorem Value.stageFilters_of_token {operator : StageOperator}
    (hmatching : operator ≠ .matching) (hunion : operator ≠ .unionWith)
    (value : Value) :
    (Value.document [(operator.token, value)]).stageFilters = [] := by
  have hmatchingToken := StageOperator.token_injective.ne hmatching
  have hunionToken := StageOperator.token_injective.ne hunion
  rw [Value.stageFilters, if_neg hmatchingToken, if_neg hunionToken]

/-! ## Stages and their plans -/

theorem Visit.filter?_eq_some_iff {visit : Visit} {document : Document} :
    visit.filter? = some document ↔
      visit.stage.operator? = some .matching ∧
        ∃ filter, visit.params.bound? visit.stage.key =
          some (.filter (some filter)) ∧
          Filter.compileTerms filter.terms = .ok document := by
  unfold Visit.filter?
  split
  · next filter hoperator hbound =>
      cases hcompiled : Filter.compileTerms filter.terms <;>
        simp [hoperator, hbound, hcompiled, Except.toOption]
  · next hother =>
      constructor
      · nofun
      · intro h
        obtain ⟨hoperator, filter, hbound, -⟩ := h
        exact absurd hbound (hother filter hoperator)

/-- A visit has a query document if its stage asks for no more than that. -/
theorem planOf_eq_filter_iff {params : Params} {stage : Stage}
    {operator : StageOperator} {document : Document} :
    planOf params stage = .ok (operator, .filter document) ↔
      operator = .matching ∧ Visit.filter? ⟨params, stage⟩ = some document := by
  rw [planOf_eq_ok_iff, StageOperator.plan_eq_filter_iff,
    Visit.filter?_eq_some_iff]
  constructor
  · rintro ⟨hoperator, rfl, hfilter⟩
    exact ⟨rfl, hoperator, hfilter⟩
  · rintro ⟨rfl, hoperator, hfilter⟩
    exact ⟨hoperator, rfl, hfilter⟩

/-- A stage asks for an aggregation if it is a union with a proper target. -/
theorem planOf_eq_embed_iff {params nested : Params} {stage : Stage}
    {operator : StageOperator} {target : String} :
    planOf params stage = .ok (operator, .embed target nested) ↔
      operator = .unionWith ∧ stage.unionTarget? = some target ∧ target ≠ "" ∧
        nested = params.within stage.key := by
  constructor
  · intro h
    obtain ⟨hoperator, hplan⟩ := planOf_eq_ok_iff.mp h
    obtain ⟨rfl, hargs, hnonempty, hnested⟩ :=
      StageOperator.plan_eq_embed_iff.mp hplan
    rw [Stage.unionTarget?, hoperator, Params.within_eq_getD]
    exact ⟨rfl, hargs, hnonempty, hnested⟩
  · rintro ⟨rfl, htarget, hnonempty, rfl⟩
    exact planOf_of_unionTarget htarget hnonempty params

/-! ## What a run logs -/

namespace CompileM

variable {α β : Type} {active : List String}

/-- From every frame with these aggregations open, the computation adds these
events to the log. -/
def Logs (active : List String) (body : CompileM α)
    (events : List Event) : Prop :=
  ∀ frame : Frame, frame.active = active →
    (body.run frame).2.log = frame.log ++ events

theorem logs_pure (value : α) : Logs active (pure value) [] :=
  fun frame _ => (List.append_nil frame.log).symm

theorem logs_reject (cause : Cause) : Logs active
    (reject cause : CompileM α) [] :=
  fun frame _ => (List.append_nil frame.log).symm

theorem logs_note (event : Event) : Logs active (note event) [event] :=
  fun _ _ => rfl

theorem Logs.bind_of_ok {body : CompileM α} {next : α → CompileM β} {value : α}
    {first second : List Event} (hbody : Logs active body first)
    (hvalue : Computes active body (.ok value)) (hkept : Restores body)
    (hnext : Logs active (next value) second) :
    Logs active (body >>= next) (first ++ second) := by
  intro frame hactive
  have hlog := hbody frame hactive
  have hends := hvalue frame hactive
  have hstays := hkept frame
  rw [run_bind]
  rcases hrun : body.run frame with ⟨ended, left⟩
  rw [hrun] at hlog hends hstays
  simp only at hlog hends hstays
  rw [hends]
  calc
    ((next value).run left).2.log = left.log ++ second :=
      hnext left (hstays.trans hactive)
    _ = frame.log ++ (first ++ second) := by rw [hlog, List.append_assoc]

theorem Logs.bind_of_error {body : CompileM α} {next : α → CompileM β}
    {error : CompileError} {events : List Event}
    (hbody : Logs active body events)
    (herror : Computes active body (.error error)) :
    Logs active (body >>= next) events := by
  intro frame hactive
  have hlog := hbody frame hactive
  have hends := herror frame hactive
  rw [run_bind]
  rcases hrun : body.run frame with ⟨ended, left⟩
  rw [hrun] at hlog hends
  simp only at hlog hends
  rw [hends]
  exact hlog

/-- To make something of a result logs nothing. -/
theorem Logs.bind_pure {body : CompileM α} {events : List Event}
    (h : Logs active body events) (f : α → β) :
    Logs active (body >>= fun value => pure (f value)) events := by
  intro frame hactive
  have hlog := h frame hactive
  rw [run_bind]
  rcases hrun : body.run frame with ⟨error | value, left⟩
  · rw [hrun] at hlog
    exact hlog
  · rw [hrun] at hlog
    exact hlog

theorem Logs.traced {body : CompileM α} {events : List Event}
    (h : Logs active body events) (trace : Trace) :
    Logs active (traced trace body) events :=
  h

theorem Logs.opened {name : String} {body : CompileM α} {events : List Event}
    (h : Logs (name :: active) body events) :
    Logs active (opened name body) events := by
  intro frame hactive
  exact h { frame with active := name :: frame.active } (by simp [hactive])

end CompileM

/-! ## The filters of a run -/

/-- The query documents of these visits, in order. -/
def compiledFilters (visits : List Visit) : List Document :=
  visits.filterMap Visit.filter?

theorem compiledFilters_append (first second : List Visit) :
    compiledFilters (first ++ second) =
      compiledFilters first ++ compiledFilters second :=
  List.filterMap_append

theorem Visit.filter?_eq_none {params : Params} {stage : Stage}
    (h : ∀ operator document,
      planOf params stage ≠ .ok (operator, .filter document)) :
    Visit.filter? ⟨params, stage⟩ = none := by
  refine Option.eq_none_iff_forall_ne_some.mpr fun document hdocument => ?_
  exact h .matching document (planOf_eq_filter_iff.mpr ⟨rfl, hdocument⟩)

theorem Stage.visitsWithin_eq_nil {params : Params} {stage : Stage}
    (h : ∀ operator target nested,
      planOf params stage ≠ .ok (operator, .embed target nested))
    (inner : String → Params → List Visit) :
    stage.visitsWithin inner params = [] := by
  unfold visitsWithin
  cases htarget : stage.unionTarget? with
  | none => rfl
  | some target =>
      refine ite_eq_left_iff.mpr fun hnonempty => ?_
      have hplan := planOf_of_unionTarget htarget hnonempty params
      exact absurd hplan (h _ _ _)

/-- The query documents of a visit and of those within, by what the stage asks
for. -/
theorem compiledFilters_of_planOf (inner : String → Params → List Visit)
    (params : Params) (stage : Stage) :
    compiledFilters (⟨params, stage⟩ :: stage.visitsWithin inner params) =
      match planOf params stage with
      | .ok (_, .filter document) => [document]
      | .ok (_, .embed target nested) => compiledFilters (inner target nested)
      | _ => [] := by
  rw [compiledFilters, List.filterMap_cons]
  cases hplan : planOf params stage with
  | error cause =>
      rw [Visit.filter?_eq_none (by simp [hplan]),
        Stage.visitsWithin_eq_nil (by simp [hplan])]
      rfl
  | ok planned =>
      obtain ⟨operator, plan⟩ := planned
      cases plan with
      | operand value =>
          rw [Visit.filter?_eq_none (by simp [hplan]),
            Stage.visitsWithin_eq_nil (by simp [hplan])]
          rfl
      | filter document =>
          rw [(planOf_eq_filter_iff.mp hplan).2,
            Stage.visitsWithin_eq_nil (by simp [hplan])]
          rfl
      | embed target nested =>
          obtain ⟨-, htarget, hnonempty, rfl⟩ := planOf_eq_embed_iff.mp hplan
          rw [Visit.filter?_eq_none (by simp [hplan]),
            Stage.visitsWithin, htarget]
          exact congrArg compiledFilters (if_neg hnonempty)

section Stages

variable {active : List String} {embedding : Embedding} {embed : Embedded}
  {inner : String → Params → List Visit}

theorem logs_compileStage
    (hlogs : ∀ target bound, Logs active (embedding target bound)
      ((compiledFilters (inner target bound)).map .filterCompiled))
    (params : Params) (stage : Stage) :
    Logs active (compileStage embedding params stage)
      ((compiledFilters
        (⟨params, stage⟩ :: stage.visitsWithin inner params)).map
          .filterCompiled) := by
  rw [compiledFilters_of_planOf, compileStage]
  rcases planOf params stage with cause
    | ⟨operator, value | document | ⟨target, bound⟩⟩
  · exact logs_reject cause
  · exact logs_pure _
  · exact (logs_note _).bind_pure fun _ => operator.stage (.document document)
  · exact (hlogs target bound).bind_pure _

/-- Stages log the filters of their visits. -/
theorem logs_compileStages
    (hlogs : ∀ target bound, Logs active (embedding target bound)
      ((compiledFilters (inner target bound)).map .filterCompiled))
    (hembed : ∀ target bound,
      Computes active (embedding target bound) (embed target bound))
    (hkept : ∀ target bound, Restores (embedding target bound))
    (name : String) (params : Params) (index : ℕ) (stages : List Stage) :
    Logs active (compileStages embedding name params index stages)
      ((compiledFilters (stagesVisits embed inner params stages)).map
        .filterCompiled) := by
  induction stages generalizing index with
  | nil => exact logs_pure _
  | cons stage stages ih =>
      have hstage :=
        (logs_compileStage hlogs params stage).traced (stage.trace name index)
      have hresult := (computes_compileStage hembed hkept params stage).traced
        (stage.trace name index)
      have hrestores := (restores_compileStage hkept params stage).traced
        (stage.trace name index)
      rw [stagesVisits, compiledFilters_append, List.map_append]
      cases houtcome : stageOutcome embed params stage with
      | error error =>
          rw [houtcome] at hresult
          rw [show compiledFilters [] = [] from rfl, List.map_nil,
            List.append_nil]
          exact hstage.bind_of_error hresult
      | ok document =>
          rw [houtcome] at hresult
          exact hstage.bind_of_ok hresult hrestores
            ((ih (index + 1)).bind_pure fun pipeline => document :: pipeline)

/-- The filters of a stage that compiles are those of its document, if this is
so of what it embeds. -/
theorem compiledFilters_of_stageOutcome {params : Params} {stage : Stage}
    {document : Document} (hinner : ∀ {target bound collection pipeline},
      embed target bound = .ok (collection, pipeline) →
        compiledFilters (inner target bound) = pipeline.filters)
    (h : stageOutcome embed params stage = .ok document) :
    compiledFilters (⟨params, stage⟩ :: stage.visitsWithin inner params) =
      (Value.document document).stageFilters := by
  rw [compiledFilters_of_planOf]
  unfold stageOutcome at h
  cases hplan : planOf params stage with
  | error cause =>
      rw [hplan] at h
      cases h
  | ok planned =>
      obtain ⟨operator, plan⟩ := planned
      rw [hplan] at h
      cases plan with
      | operand value =>
          cases h
          obtain ⟨-, hoperand⟩ := planOf_eq_ok_iff.mp hplan
          obtain ⟨hmatching, hunion⟩ := StageOperator.plan_eq_operand hoperand
          exact (Value.stageFilters_of_token hmatching hunion value).symm
      | filter filter =>
          cases h
          rw [(planOf_eq_filter_iff.mp hplan).1]
          exact (Value.stageFilters_matching filter).symm
      | embed target nested =>
          obtain ⟨⟨collection, pipeline⟩, hembed, hdocument⟩ :=
            bind_eq_ok_iff.mp h
          cases hdocument
          rw [planOf_embed_operator hplan]
          exact (hinner hembed).trans
            (Value.stageFilters_union collection pipeline).symm

theorem compiledFilters_of_stagesOutcome {name : String}
    {params : Params} {index : ℕ} {stages : List Stage} {pipeline : Pipeline}
    (hinner : ∀ {target bound collection pipeline},
      embed target bound = .ok (collection, pipeline) →
        compiledFilters (inner target bound) = pipeline.filters)
    (h : stagesOutcome embed name params index stages = .ok pipeline) :
    compiledFilters (stagesVisits embed inner params stages) =
      pipeline.filters := by
  rw [stagesOutcome_eq_ok_iff] at h
  induction h with
  | nil => rfl
  | cons hdocument _ ih =>
      rw [stagesVisits, compiledFilters_append, hdocument,
        Pipeline.filters_cons, ← ih,
        compiledFilters_of_stageOutcome hinner hdocument]

end Stages

/-! ## Definitions -/

theorem logs_embedFrom {catalog : Catalog} {active : List String}
    {compile : Definition → Params → CompileM Pipeline}
    (hlogs : ∀ {name definition}, catalog.get? name = some definition →
      ∀ params, Logs active (compile definition params)
        ((compiledFilters (visits catalog active definition params)).map
          .filterCompiled))
    (name : String) (params : Params) :
    Logs active (embedFrom catalog compile name params)
      ((compiledFilters (visitsEmbedded catalog active name params)).map
        .filterCompiled) := by
  unfold embedFrom visitsEmbedded
  cases hfound : catalog.get? name with
  | none => exact logs_reject _
  | some definition => exact (hlogs hfound params).bind_pure _

/-- Whatever the fuel that suffices, compiling a definition logs the filters of
its visits. -/
theorem logs_compileDefinition (catalog : Catalog) (fuel : ℕ)
    (active : List String) (definition : Definition) (params : Params)
    (hfuel : room catalog active definition.name < fuel) :
    Logs active (compileDefinition catalog fuel definition params)
      ((compiledFilters (visits catalog active definition params)).map
        .filterCompiled) := by
  induction fuel generalizing active definition params with
  | zero => omega
  | succ fuel ih =>
      intro frame hactive
      rw [run_compileDefinition_succ]
      by_cases hopen : definition.name ∈ active
      · rw [if_pos (hactive ▸ hopen), visits_of_open hopen]
        exact (List.append_nil frame.log).symm
      · rw [if_neg (hactive ▸ hopen), visits_of_closed hopen]
        have hrestores := restores_compileDefinition catalog fuel
        have hless : ∀ {name embedded}, catalog.get? name = some embedded →
            room catalog (definition.name :: active) embedded.name < fuel := by
          intro name embedded hfound
          have hnested := room_lt hopen hfound
          omega
        refine Logs.opened ?_ frame hactive
        apply logs_compileStages
        · exact logs_embedFrom fun hfound bound => ih _ _ bound (hless hfound)
        · exact computes_embedFrom
            (fun hfound bound =>
              computes_compileDefinition _ _ _ _ bound (hless hfound))
            hrestores
        · exact restores_embedFrom hrestores

/-- The filters on the way to a pipeline are those that a walk of it meets. -/
theorem compiledFilters_of_outcome (catalog : Catalog) (active : List String)
    (definition : Definition) :
    ∀ {params pipeline}, outcome catalog active definition params =
      .ok pipeline →
      compiledFilters (visits catalog active definition params) =
        pipeline.filters := by
  induction active, definition using opening_induction catalog with
  | hstep active definition ih =>
      intro params pipeline houtcome
      by_cases hopen : definition.name ∈ active
      · rw [outcome_of_open hopen] at houtcome
        cases houtcome
      rw [outcome_of_closed hopen] at houtcome
      rw [visits_of_closed hopen]
      refine compiledFilters_of_stagesOutcome ?_ houtcome
      intro target bound collection inner hembedded
      obtain ⟨embedded, hfound, hinner, -⟩ := embedded_eq_ok_iff.mp hembedded
      unfold visitsEmbedded
      rw [hfound]
      exact ih hopen target embedded hfound hinner

/-! ## Whole compiles -/

/-- A compile from the start logs the filters of its visits, and then how it
ended. -/
theorem run_compileDefinition (catalog : Catalog) (definition : Definition)
    (params : Params) (log : List Event) :
    (catalog.compileDefinition definition params).run log =
      (outcome catalog [] definition params,
        log ++
            (compiledFilters (visits catalog [] definition params)).map
              .filterCompiled ++
          [outcomeEvent definition
            (outcome catalog [] definition params)]) := by
  have hroom := room_le catalog [] definition.name
  have hevents :=
    logs_compileDefinition catalog (catalog.size + 2) [] definition params
      (by omega) {} rfl
  have hresult : (compileRun catalog definition params).1 =
      outcome catalog [] definition params :=
        collect_compileDefinition catalog definition params
  have hlog : (compileRun catalog definition params).2 =
      (compiledFilters (visits catalog [] definition params)).map
        .filterCompiled := hevents
  rw [← hresult, ← hlog]
  rfl

namespace QueryService

variable (service : QueryService) {name : String} {definition : Definition}

theorem collect_aggregateCall_of_get?_eq_none
    (h : service.catalog.get? name = none) (params : Params) :
    (service.aggregateCall name params).collect =
      (.error ⟨.notFound name, []⟩, []) := by
  rw [aggregateCall, LoggedExcept.collect, LoggedExcept.run_bind,
    Catalog.compileNamed, h]
  rfl

/-- What comes after the compile is logged if and only if it ends well. -/
theorem collect_aggregateCall_of_get?
    (h : service.catalog.get? name = some definition) (params : Params) :
    (service.aggregateCall name params).collect =
      let filters :=
        (compiledFilters (visits service.catalog [] definition params)).map
          Event.filterCompiled
      match outcome service.catalog [] definition params with
      | .ok pipeline =>
        (.ok (.aggregate definition.collection pipeline),
          filters ++
            [.pipelineCompiled definition.name definition.collection
              pipeline.length,
              .aggregationDispatched service.logPipelines name
                definition.collection pipeline])
      | .error error =>
        (.error error,
          filters ++ [.pipelineRejected definition.name error]) := by
  rw [aggregateCall, LoggedExcept.collect, LoggedExcept.run_bind,
    Catalog.compileNamed, h]
  simp only [LoggedExcept.run_bind, run_compileDefinition, List.nil_append]
  cases outcome service.catalog [] definition params with
  | error error => rfl
  | ok pipeline => exact Prod.ext rfl (List.append_assoc _ _ _)

/-- Whatever the gateway does with a call, the events are those of the
compile. -/
theorem events_dispatch {σ Output Failure : Type}
    (gateway : Gateway (StateM σ) Output Failure)
    (call : LoggedExcept CompileError GatewayCall) (state : σ) :
    ((dispatch gateway call).run state).1.2 = call.collect.2 := by
  unfold dispatch
  rcases call.collect with ⟨error | compiled, events⟩ <;> rfl

end QueryService

/-- What a log shows of an event: its level, its name and its fields. -/
def Event.entry (event : Event) : Level × String × Fields Json :=
  (event.level, event.name, event.fields)

/-- An aggregation that is asked for leaves one event behind for each filter
that compiles, in the order of the run and with that filter rendered; then one
about the outcome, for the whole compile and not for what it embeds; and then,
only if it compiled and whatever the gateway makes of it, one about its
dispatch.  On success the filters are those that a walk of the pipeline meets.
A name that is not registered leaves nothing behind. -/
theorem aggregation_log (service : QueryService) (name : String)
    (params : Params) {σ Output Failure : Type}
    (gateway : Gateway (StateM σ) Output Failure) (state : σ) :
    let log :=
      ((QueryService.dispatch gateway (service.aggregateCall name params)).run
        state).1.2
    (service.catalog.get? name = none → log = []) ∧
      ∀ definition, service.catalog.get? name = some definition →
        let documents :=
          compiledFilters (visits service.catalog [] definition params)
        let filters := documents.map fun document =>
          (Level.debug, "FILTER_COMPILED",
            [("filter", Json.string document.renderFilter)])
        match service.catalog.compile name params with
        | .ok pipeline =>
          documents = pipeline.filters ∧
          log.map Event.entry = filters ++
            [(.debug, "PIPELINE_COMPILED",
                [("aggregation", .string name),
                  ("collection", .string definition.collection),
                  ("stages", .nat pipeline.length)]),
              (if service.logPipelines then .debug else .trace,
                "AGGREGATION_DISPATCHED",
                [("aggregation", .string name),
                  ("collection", .string definition.collection),
                  ("pipeline", .string pipeline.render)])]
        | .error error =>
          log.map Event.entry = filters ++
            [(.debug, "PIPELINE_REJECTED",
              [("aggregation", .string name), ("code", .string error.code.text),
                ("error", .string error.display)])] := by
  intro log
  have hlog : log = (service.aggregateCall name params).collect.2 :=
    QueryService.events_dispatch gateway _ state
  constructor
  · intro hmissing
    rw [hlog, service.collect_aggregateCall_of_get?_eq_none hmissing]
  · intro definition hfound documents filters
    have hname : definition.name = name := Catalog.get?_name hfound
    have hentries :
        (documents.map Event.filterCompiled).map Event.entry = filters :=
      List.map_map
    rw [service.collect_aggregateCall_of_get? hfound] at hlog
    rw [compile_eq_outcome, hfound]
    simp only [hname] at hlog ⊢
    cases houtcome : outcome service.catalog [] definition params with
    | error error =>
        simp only [houtcome] at hlog ⊢
        rw [hlog, List.map_append, hentries]
        rfl
    | ok pipeline =>
        simp only [houtcome] at hlog ⊢
        rw [hlog, List.map_append, hentries]
        refine ⟨compiledFilters_of_outcome _ _ _ houtcome, ?_⟩
        cases service.logPipelines <;> rfl

/-! A digest of what somebody wrote, with the fresh news between two looks at
it. -/

def QueryService.digest : QueryService where
  catalog := .ofList [⟨"news", "articles", [⟨some "fresh", "$match", []⟩]⟩,
    ⟨"digest", "posts", [⟨some "mine", "$match", []⟩,
      ⟨some "news", "$unionWith", [("pipeline", .string "news")]⟩,
      ⟨some "mine", "$match", []⟩]⟩]
  logPipelines := true

def Params.digest : Params :=
  [("mine",
    .filter (some (Filter.empty.condition "author" .eq (.string "ada")))),
    ("news",
      .params
        [("fresh",
          .filter (some (Filter.empty.condition "age" .lt (.int32 7))))])]

def Document.mine : Document := [("author", .document [("$eq", .string "ada")])]

def Document.fresh : Document := [("age", .document [("$lt", .int32 7)])]

def Pipeline.digest : Pipeline :=
  [[("$match", .document Document.mine)],
    [("$unionWith",
      unionValue "articles" [[("$match", .document Document.fresh)]])],
    [("$match", .document Document.mine)]]

/-- The filter of the news is logged between the two on the posts, and the
dispatch is logged although the gateway fails. -/
theorem aggregation_log_digest :
    let call := QueryService.digest.aggregateCall "digest" .digest
    let log :=
      ((QueryService.dispatch recordingGateway call).run
        { failing := true }).1.2
    log.map Event.entry =
      [(.debug, "FILTER_COMPILED",
        [("filter", .string Document.mine.renderFilter)]),
        (.debug, "FILTER_COMPILED",
          [("filter", .string Document.fresh.renderFilter)]),
        (.debug, "FILTER_COMPILED",
          [("filter", .string Document.mine.renderFilter)]),
        (.debug, "PIPELINE_COMPILED",
          [("aggregation", .string "digest"), ("collection", .string "posts"),
            ("stages", .nat 3)]),
        (.debug, "AGGREGATION_DISPATCHED",
          [("aggregation", .string "digest"), ("collection", .string "posts"),
            ("pipeline", .string Pipeline.digest.render)])] := by
  intro call log
  obtain ⟨-, hregistered⟩ :=
    aggregation_log QueryService.digest "digest" .digest recordingGateway
      { failing := true }
  have hcompile :
      QueryService.digest.catalog.compile "digest" .digest = .ok .digest := rfl
  have h := hregistered _ rfl
  simp only [hcompile] at h
  obtain ⟨hfilters, hlog⟩ := h
  rw [hlog, hfilters]
  rfl

/-! Without the filter of the news only the first look is logged before the
refusal. -/

example :
    (QueryService.digest.aggregateCall "digest"
      (Params.digest.take 1)).collect.2.map Event.name =
      ["FILTER_COMPILED", "PIPELINE_REJECTED"] :=
  rfl

end Aggregation
