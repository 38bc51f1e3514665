import Aggregation.Proofs.Failure
import Aggregation.Proofs.References
import Mathlib.Data.List.Chain
import Mathlib.Data.List.Nodup

/-!
# Trails

An error collects a trace of each stage that it leaves.  From the stage where
it arose out to the aggregation that was asked for, these traces are a path of
unions, and the error names an operator of the stage where it arose, or of a
term of the filter that is bound there.
-/

namespace Aggregation

namespace Catalog

/-- The registered stage at the place that a trace names. -/
def stageAt? (catalog : Catalog) (trace : Trace) : Option Stage :=
  (catalog.get? trace.aggregation).bind fun definition =>
    definition.stages[trace.index]?

/-- The outer trace is of a union whose argument names the aggregation of the
inner one. -/
def Encloses (catalog : Catalog) (inner outer : Trace) : Prop :=
  ∃ stage, catalog.stageAt? outer = some stage ∧
    stage.operator = StageOperator.unionWith.token ∧
    Fields.get? stage.args "pipeline" = some (.string inner.aggregation)

/-- A path of unions from the aggregation of this name, innermost stage
first. -/
structure IsTrail (catalog : Catalog) (name : String) (trail : List Trace) :
    Prop where
  outermost : trail.getLast?.map Trace.aggregation = some name
  nodup : (trail.map Trace.aggregation).Nodup
  marked : ∀ trace ∈ trail, ∃ stage, catalog.stageAt? trace = some stage ∧
    trace.key = stage.key ∧ trace.operator = stage.operator
  linked : trail.IsChain catalog.Encloses

variable {catalog : Catalog} {definition : Definition} {stage : Stage} {i : ℕ}

theorem stageAt?_trace (hfound : catalog.get? definition.name = some definition)
    (hstage : definition.stages[i]? = some stage) :
    catalog.stageAt? (stage.trace definition.name i) = some stage := by
  have hname : (stage.trace definition.name i).aggregation = definition.name :=
    rfl
  rw [stageAt?, hname, hfound]
  exact hstage

theorem isTrail_singleton
    (hfound : catalog.get? definition.name = some definition)
    (hstage : definition.stages[i]? = some stage) :
    catalog.IsTrail definition.name [stage.trace definition.name i] where
  outermost := rfl
  nodup := List.nodup_singleton _
  marked := by
    intro trace htrace
    obtain rfl := List.mem_singleton.mp htrace
    exact ⟨stage, stageAt?_trace hfound hstage, rfl, rfl⟩
  linked := List.isChain_singleton _

/-- A union puts its trace at the end of the trail of what it names. -/
theorem IsTrail.through {target : String} {trail : List Trace}
    (htrail : catalog.IsTrail target trail)
    (hfound : catalog.get? definition.name = some definition)
    (hstage : definition.stages[i]? = some stage)
    (htarget : stage.unionTarget? = some target)
    (hfresh : definition.name ∉ trail.map Trace.aggregation) :
    catalog.IsTrail definition.name
      (trail ++ [stage.trace definition.name i]) where
  outermost := by
    rw [List.getLast?_concat]
    rfl
  nodup := by
    rw [List.map_append, List.nodup_append]
    have houtermost : ∀ inner ∈ trail.map Trace.aggregation,
        ∀ outer ∈ [definition.name], inner ≠ outer := by
      intro inner hinner outer houter hsame
      rw [hsame, List.mem_singleton.mp houter] at hinner
      exact hfresh hinner
    exact ⟨htrail.nodup, List.nodup_singleton _, houtermost⟩
  marked := by
    intro trace htrace
    cases List.mem_append.mp htrace with
    | inl hinner => exact htrail.marked trace hinner
    | inr houter => exact (isTrail_singleton hfound hstage).marked trace houter
  linked := by
    apply htrail.linked.append (List.isChain_singleton _)
    intro inner hinner outer houter
    obtain rfl := Option.some.inj houter
    obtain ⟨htoken, hargument⟩ := Stage.unionTarget?_eq_some_iff.mp htarget
    have hname : inner.aggregation = target := by
      have hlast := htrail.outermost
      rw [Option.mem_def.mp hinner] at hlast
      exact Option.some.inj hlast
    rw [← hname] at hargument
    exact ⟨stage, stageAt?_trace hfound hstage, htoken, hargument⟩

end Catalog

namespace Fails

variable {catalog : Catalog} {active : List String} {definition : Definition}
  {params : Params} {error : CompileError}

/-- Only where a cycle is closed there is no stage to leave. -/
theorem trail_eq_nil_iff (h : Fails catalog active definition params error) :
    error.trail = [] ↔ definition.name ∈ active := by
  cases h with
  | cycle hopen => simp [hopen]
  | plan hclosed => simp [hclosed]
  | missing hclosed => simp [hclosed]
  | within hclosed => simp [CompileError.through, hclosed]

/-- An error has not left what is still open. -/
theorem fresh (h : Fails catalog active definition params error) :
    ∀ name ∈ error.trail.map Trace.aggregation, name ∉ active := by
  induction h with
  | cycle => simp
  | plan hclosed => simpa [Stage.trace] using hclosed
  | missing hclosed => simpa [Stage.trace] using hclosed
  | within hclosed hstage htarget hfound hinner ih =>
      intro name hname
      rw [CompileError.through, List.map_append, List.mem_append] at hname
      cases hname with
      | inl hinside =>
          intro hopen
          exact ih name hinside (List.mem_cons_of_mem _ hopen)
      | inr hself =>
          rw [List.mem_singleton.mp hself]
          exact hclosed

/-- The trail of an error is a path of unions from what was compiled. -/
theorem isTrail (h : Fails catalog active definition params error)
    (hregistered : catalog.get? definition.name = some definition)
    (hclosed : definition.name ∉ active) :
    catalog.IsTrail definition.name error.trail := by
  induction h with
  | cycle hopen => exact absurd hopen hclosed
  | plan _ hstage => exact Catalog.isTrail_singleton hregistered hstage
  | missing _ hstage => exact Catalog.isTrail_singleton hregistered hstage
  | @within active definition params i stage target embedded error _ hstage
      htarget hfound hinner ih =>
      have hname : embedded.name = target := Catalog.get?_name hfound
      by_cases hopen : embedded.name ∈ definition.name :: active
      · rw [CompileError.through, hinner.trail_eq_nil_iff.mpr hopen]
        exact Catalog.isTrail_singleton hregistered hstage
      · have htrail : catalog.IsTrail target error.trail :=
          hname ▸ ih (hname ▸ hfound) hopen
        apply htrail.through hregistered hstage htarget
        intro hmem
        exact hinner.fresh _ hmem List.mem_cons_self

end Fails

/-! ## Where an error arose -/

/-- The bindings that reach a stage through these unions, innermost first. -/
def Params.along (params : Params) (unions : List Trace) : Params :=
  unions.foldr (fun union bound => bound.within union.key) params

theorem Params.along_concat (params : Params) (unions : List Trace)
    (union : Trace) :
    params.along (unions ++ [union]) =
      (params.within union.key).along unions := by
  unfold Params.along
  rw [List.foldr_append]
  rfl

namespace CompileError

variable {error : CompileError} {params : Params} {origin : Trace}

/-- The cause names no field, and no operator but that of the stage where the
error arose. -/
def ArisesInStage (error : CompileError) : Prop :=
  error.field = none ∧ (error.cause.operator = none ∨
    ∃ origin, error.origin = some origin ∧
      error.cause.operator = some origin.operator)

/-- The cause is that of the filter which is bound for the stage where the error
arose. -/
def ArisesInFilter (error : CompileError) (params : Params) : Prop :=
  ∃ origin filter, error.origin = some origin ∧
    origin.operator = StageOperator.matching.token ∧
    (params.along error.trail.tail).bound? origin.key =
      some (.filter (some filter)) ∧
    Filter.compileTerms filter.terms = .error error.cause

/-- Leaving one more stage does not change where an error arose. -/
theorem origin_through (horigin : error.origin = some origin) (trace : Trace) :
    (error.through trace).origin = some origin := by
  unfold CompileError.origin at horigin ⊢
  rw [CompileError.through, List.head?_append, horigin]
  rfl

theorem tail_through (horigin : error.origin = some origin) (trace : Trace) :
    (error.through trace).trail.tail = error.trail.tail ++ [trace] := by
  have hnonempty : error.trail ≠ [] := by
    intro hempty
    rw [CompileError.origin, hempty] at horigin
    cases horigin
  exact List.tail_append_of_ne_nil hnonempty

theorem ArisesInStage.through (h : error.ArisesInStage) (trace : Trace) :
    (error.through trace).ArisesInStage := by
  obtain ⟨hfield, hnone | ⟨origin, horigin, hoperator⟩⟩ := h
  · exact ⟨hfield, .inl hnone⟩
  · exact ⟨hfield, .inr ⟨origin, origin_through horigin trace, hoperator⟩⟩

theorem ArisesInFilter.through {trace : Trace}
    (h : error.ArisesInFilter (params.within trace.key)) :
    (error.through trace).ArisesInFilter params := by
  obtain ⟨origin, filter, horigin, htoken, hbound, hfails⟩ := h
  have hpassed : params.along (error.through trace).trail.tail =
      (params.within trace.key).along error.trail.tail := by
    rw [tail_through horigin, Params.along_concat]
  rw [← hpassed] at hbound
  exact ⟨origin, filter, origin_through horigin trace, htoken, hbound, hfails⟩

/-- What arises in a stage is put down to the operator of that stage. -/
theorem ArisesInStage.operator_eq (h : error.ArisesInStage)
    (horigin : error.origin = some origin) :
    error.operator = some origin.operator := by
  unfold CompileError.operator
  obtain ⟨-, hnone | ⟨other, hother, hoperator⟩⟩ := h
  · rw [hnone, horigin]
    rfl
  · rw [horigin] at hother
    cases hother
    rw [hoperator]
    rfl

/-- What arises in a filter is put down to the field and the operator of a
term. -/
theorem ArisesInFilter.exists_term (h : error.ArisesInFilter params) :
    ∃ origin filter term field operator, error.origin = some origin ∧
      origin.operator = StageOperator.matching.token ∧
      (params.along error.trail.tail).bound? origin.key =
        some (.filter (some filter)) ∧
      Filter.FailsAt filter.terms term error.cause ∧
      term.field = some field ∧ term.operator = some operator ∧
      error.field = some field ∧ error.operator = some operator := by
  obtain ⟨origin, filter, horigin, htoken, hbound, hfails⟩ := h
  obtain ⟨term, field, operator, hat, htermField, htermOperator, hfield,
      hoperator⟩ :=
    Filter.compileTerms_eq_error hfails
  have hnamed : error.operator = some operator := by
    rw [CompileError.operator, hoperator]
    rfl
  exact ⟨origin, filter, term, field, operator, horigin, htoken, hbound, hat,
    htermField, htermOperator, hfield, hnamed⟩

end CompileError

/-- Every error arises in a stage, or in the filter that is bound for one. -/
theorem Fails.arises {catalog : Catalog} {active : List String}
    {definition : Definition} {params : Params} {error : CompileError}
    (h : Fails catalog active definition params error) :
    error.ArisesInStage ∨ error.ArisesInFilter params := by
  induction h with
  | cycle => exact .inl ⟨rfl, .inl rfl⟩
  | missing => exact .inl ⟨rfl, .inl rfl⟩
  | plan hclosed hstage hcause =>
      rcases planOf_eq_error hcause with
        ⟨hfield, -, hoperator⟩ | ⟨htoken, filter, hbound, hfails⟩
      · exact .inl ⟨hfield, hoperator.imp_right fun h => ⟨_, rfl, h⟩⟩
      · exact .inr ⟨_, filter, rfl, htoken, hbound, hfails⟩
  | within hclosed hstage htarget hfound hinner ih =>
      cases ih with
      | inl hstage => exact .inl (hstage.through _)
      | inr hfilter => exact .inr hfilter.through

/-- The trail of an error is empty only where the name is not found.  Otherwise
it is a path of unions from that name, and the operator of the error is that of
the stage where it arose, or, like its field, that of the term which failed in
the filter that is bound there. -/
theorem compile_error_trail {catalog : Catalog} {name : String}
    {params : Params} {error : CompileError}
    (h : catalog.compile name params = .error error) :
    (error.trail = [] ↔ catalog.get? name = none) ∧
      (catalog.get? name = none → error.code = .notFound) ∧
      (catalog.get? name ≠ none →
        catalog.IsTrail name error.trail ∧
        ∃ origin operator, error.origin = some origin ∧
          error.operator = some operator ∧
          (error.field = none → operator = origin.operator) ∧
          ∀ field, error.field = some field →
            origin.operator = StageOperator.matching.token ∧
            ∃ filter term,
              (params.along error.trail.tail).bound? origin.key =
                some (.filter (some filter)) ∧
              Filter.FailsAt filter.terms term error.cause ∧
              term.field = some field ∧ term.operator = some operator) := by
  rcases fails_of_compile h with ⟨hmissing, rfl⟩ | ⟨definition, hfound, hfails⟩
  · exact ⟨iff_of_true rfl hmissing, fun _ => rfl, absurd hmissing⟩
  have hname : definition.name = name := Catalog.get?_name hfound
  have hregistered : catalog.get? name ≠ none := by simp [hfound]
  have htrail : catalog.IsTrail name error.trail := by
    rw [← hname] at hfound ⊢
    exact hfails.isTrail hfound List.not_mem_nil
  have hnonempty : error.trail ≠ [] := by
    intro hempty
    exact List.not_mem_nil (hfails.trail_eq_nil_iff.mp hempty)
  refine ⟨iff_of_false hnonempty hregistered,
    fun hmissing => absurd hmissing hregistered, fun _ => ⟨htrail, ?_⟩⟩
  cases hfails.arises with
  | inl hstage =>
      have horigin : error.origin = some (error.trail.head hnonempty) :=
        List.head?_eq_some_head hnonempty
      have hnofield : error.field = none := hstage.1
      refine ⟨_, _, horigin, hstage.operator_eq horigin, fun _ => rfl, ?_⟩
      intro field hfield
      rw [hnofield] at hfield
      cases hfield
  | inr hfilter =>
      obtain ⟨origin, filter, term, field, operator, horigin, htoken, hbound,
        hat, htermField, htermOperator, hfield, hoperator⟩ :=
        hfilter.exists_term
      refine ⟨origin, operator, horigin, hoperator, ?_, ?_⟩
      · intro hnone
        rw [hfield] at hnone
        cases hnone
      · intro named hnamed
        rw [hfield] at hnamed
        cases hnamed
        exact ⟨htoken, filter, term, hbound, hat, htermField, htermOperator⟩

/-- A report and the orders that it unites, which match the filter bound for
`where`. -/
def Catalog.reports : Catalog :=
  .ofList
    [⟨"orders", "orders", [⟨some "where", "$match", []⟩]⟩,
      ⟨"report", "reports", [⟨none, "$group", []⟩,
        ⟨some "past", "$unionWith", [("pipeline", .string "orders")]⟩]⟩]

/-- Bindings for the report, with a filter whose operator is unknown. -/
def Params.nearTotal : Params :=
  [("past",
    .params [("where", .filter (some ⟨[.tagged "total" "$near" .null]⟩))])]

/-- The report fails in the filter that is bound for the orders within it. -/
theorem compile_reports_error_trail :
    ∃ error, Catalog.reports.compile "report" .nearTotal = .error error ∧
      Catalog.reports.IsTrail "report" error.trail ∧
      error.trail.map Trace.aggregation = ["orders", "report"] ∧
      ∃ filter term,
        (Params.nearTotal.along error.trail.tail).bound? (some "where") =
          some (.filter (some filter)) ∧
        Filter.FailsAt filter.terms term error.cause ∧
        term.field = some "total" ∧ term.operator = some "$near" := by
  have hcompile : Catalog.reports.compile "report" .nearTotal =
      .error ⟨.unknownFilterOperator "total" "$near",
        [⟨"orders", 0, some "where", "$match"⟩,
          ⟨"report", 1, some "past", "$unionWith"⟩]⟩ := by
    rfl
  obtain ⟨-, -, htrail⟩ := compile_error_trail hcompile
  obtain ⟨htrail, origin, operator, horigin, hoperator, -, hterm⟩ :=
    htrail nofun
  cases horigin
  cases hoperator
  obtain ⟨-, hfilter⟩ := hterm "total" rfl
  exact ⟨_, hcompile, htrail, rfl, hfilter⟩

end Aggregation
