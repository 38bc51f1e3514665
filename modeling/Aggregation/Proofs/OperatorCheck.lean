import Aggregation.Proofs.Trail

/-!
# Operators, checked and compiled

Operators are looked up twice: for all stages at once when a definition is
checked, and stage by stage when it is compiled.  A compile may stop earlier,
for what is bound to a stage or for what a union embeds.  But where it stops at
a stage of the definition itself, because its operator is unknown, it tells of
the same stage as the check, and with the same error.
-/

namespace Aggregation

open CompileM Result

namespace Definition

variable {definition : Definition} {error : CompileError}

theorem resolveFrom_eq_ok_iff {name : String} {index : ℕ} {stages : List Stage}
    {operators : List StageOperator} :
    resolveFrom name index stages = .ok operators ↔
      stages.map Stage.operator? = operators.map some := by
  induction stages generalizing index operators with
  | nil => cases operators <;> simp [resolveFrom]
  | cons stage stages ih =>
      rw [resolveFrom, Stage.resolve]
      cases hoperator : stage.operator? with
      | none => cases operators <;> simp [hoperator]
      | some operator =>
          dsimp only
          rw [map_eq_ok_iff]
          cases operators with
          | nil => simp
          | cons first rest => simp [hoperator, ih, and_comm]

/-- Operators are resolved up to the first that is unknown. -/
theorem resolveFrom_eq_error_iff {name : String} {index : ℕ}
    {stages : List Stage} :
    resolveFrom name index stages = .error error ↔
      ∃ before stage after, stages = before ++ stage :: after ∧
        (∀ earlier ∈ before, ∃ operator, earlier.operator? = some operator) ∧
        stage.operator? = none ∧
        error = ⟨.unknownStageOperator stage.paramKey stage.operator,
          [stage.trace name (index + before.length)]⟩ := by
  induction stages generalizing index with
  | nil => simp [resolveFrom]
  | cons first rest ih =>
      rw [resolveFrom, Stage.resolve]
      cases hfirst : first.operator? with
      | none =>
          constructor
          · rintro ⟨⟩
            exact ⟨[], first, rest, rfl, List.forall_mem_nil _, hfirst, rfl⟩
          · rintro ⟨before, stage, after, hsplit, hbefore, -, rfl⟩
            cases before with
            | nil =>
                obtain ⟨rfl, rfl⟩ := List.cons.inj hsplit
                rfl
            | cons earlier before =>
                obtain ⟨rfl, rfl⟩ := List.cons.inj hsplit
                obtain ⟨operator, hoperator⟩ := hbefore first List.mem_cons_self
                rw [hfirst] at hoperator
                cases hoperator
      | some operator =>
          dsimp only
          rw [map_eq_error_iff, ih]
          constructor
          · rintro ⟨before, stage, after, rfl, hbefore, hstage, rfl⟩
            refine ⟨first :: before, stage, after, rfl,
              List.forall_mem_cons.mpr ⟨⟨operator, hfirst⟩, hbefore⟩, hstage,
              ?_⟩
            rw [List.length_cons, Nat.add_right_comm, Nat.add_assoc]
          · rintro ⟨before, stage, after, hsplit, hbefore, hstage, rfl⟩
            cases before with
            | nil =>
                obtain ⟨rfl, rfl⟩ := List.cons.inj hsplit
                rw [hfirst] at hstage
                cases hstage
            | cons earlier before =>
                obtain ⟨rfl, rfl⟩ := List.cons.inj hsplit
                refine ⟨before, stage, after, rfl,
                  (List.forall_mem_cons.mp hbefore).2, hstage, ?_⟩
                rw [List.length_cons, Nat.add_right_comm, Nat.add_assoc]

theorem exists_resolveOperators_eq_error_iff :
    (∃ error, definition.resolveOperators = .error error) ↔
      ∃ stage ∈ definition.stages, stage.operator? = none := by
  constructor
  · rintro ⟨error, herror⟩
    obtain ⟨before, stage, after, hsplit, -, hstage, -⟩ :=
      resolveFrom_eq_error_iff.mp herror
    exact ⟨stage, by simp [hsplit], hstage⟩
  · rintro ⟨stage, hmem, hstage⟩
    cases hresolved : definition.resolveOperators with
    | error error => exact ⟨error, rfl⟩
    | ok operators =>
        have hlisted : stage.operator? ∈ operators.map some :=
          resolveFrom_eq_ok_iff.mp hresolved ▸ List.mem_map_of_mem hmem
        simp [hstage] at hlisted

/-- The operators stand in the order of their stages. -/
theorem token_of_resolveOperators {operators : List StageOperator}
    (h : definition.resolveOperators = .ok operators) :
    operators.map StageOperator.token =
      definition.stages.map Stage.operator := by
  have hresolved := resolveFrom_eq_ok_iff.mp h
  rw [← List.forall₂_eq_eq_eq, List.forall₂_map_left_iff,
    List.forall₂_map_right_iff] at hresolved ⊢
  refine (hresolved.imp fun stage operator hoperator => ?_).flip
  exact (StageOperator.ofToken?_eq_some_iff.mp hoperator).symm

end Definition

section Compiles

variable {catalog : Catalog} {active : List String} {definition : Definition}
  {embed : Embedded} {params : Params} {stage : Stage} {error : CompileError}

theorem Cause.code_of_field {cause : Cause} {field : String}
    (h : cause.field = some field) :
    cause.code = .typeMismatch ∨ cause.code = .unsupportedOperator := by
  cases cause with
  | unknownFilterOperator => exact .inr rfl
  | fieldMismatch => exact .inl rfl
  | unknownStageOperator | notFound | mismatch | cycle | structural => cases h

/-- A stage with a registered operator fails to be planned for its binding, for
the order of a sort, or for want of a target. -/
theorem planOf_error_of_registered {cause : Cause} {operator : StageOperator}
    (hoperator : stage.operator? = some operator)
    (h : planOf params stage = .error cause) :
    cause.code = .typeMismatch ∨
      (cause.code = .unsupportedOperator ∧ ∃ field, cause.field = some field) ∨
      cause.code = .structural ∧
        (operator = .sort ∨ operator = .unionWith) := by
  rw [planOf_of_token (StageOperator.ofToken?_eq_some_iff.mp hoperator),
    map_eq_error_iff] at h
  rcases StageOperator.plan_eq_error h with
    ⟨found, rfl⟩ | ⟨hfree, found, rfl⟩ | ⟨-, filter, -, hfails⟩
  · exact .inl rfl
  · refine .inr (.inr ⟨rfl, ?_⟩)
    cases operator with
    | skip | limit | matching => cases hfree
    | project | group =>
        rw [StageOperator.plan_staticEcho (by simp)] at h
        cases h
    | sort => exact .inl rfl
    | unionWith => exact .inr rfl
  · obtain ⟨_, field, _, -, -, -, hfield, -⟩ :=
      Filter.compileTerms_eq_error hfails
    rcases Cause.code_of_field hfield with hcode | hcode
    · exact .inl hcode
    · exact .inr (.inl ⟨hcode, field, hfield⟩)

theorem exists_operator_of_stageOutcome {document : Document}
    (h : stageOutcome embed params stage = .ok document) :
    ∃ operator, stage.operator? = some operator := by
  cases hoperator : stage.operator? with
  | some operator => exact ⟨operator, rfl⟩
  | none =>
      rw [stageOutcome_of_planOf_error
        (planOf_of_unregistered hoperator params)] at h
      cases h

/-- A stage that fails for an unknown operator, and not within what it embeds,
fails for its own. -/
theorem planOf_of_stageOutcome_unregistered
    (h : stageOutcome (embedded catalog active) params stage = .error error)
    (hcode : error.code = .unsupportedOperator) (hfield : error.field = none)
    (htrail : error.trail = []) :
    stage.operator? = none ∧
      error = ⟨.unknownStageOperator stage.paramKey stage.operator, []⟩ := by
  rcases stageOutcome_eq_error_iff.mp h with
    ⟨cause, hcause, rfl⟩ | ⟨target, -, -, hembedded⟩
  · cases hoperator : stage.operator? with
    | none =>
        rw [planOf_of_unregistered hoperator] at hcause
        cases hcause
        exact ⟨rfl, rfl⟩
    | some operator =>
        rcases planOf_error_of_registered hoperator hcause with
          hother | ⟨-, field, hsome⟩ | ⟨hother, -⟩
        · cases hcode.symm.trans hother
        · cases hfield.symm.trans hsome
        · cases hcode.symm.trans hother
  · rcases embedded_eq_error_iff.mp hembedded with
      ⟨-, rfl⟩ | ⟨other, -, houtcome⟩
    · cases hcode
    · have hopen := (fails_of_outcome _ _ houtcome).trail_eq_nil_iff.mp htrail
      rw [outcome_of_open hopen] at houtcome
      cases houtcome
      cases hcode

/-- The compiler tells of an unknown operator of the definition itself as the
check does. -/
theorem resolveOperators_of_compile
    (h : (catalog.compileDefinition definition params).collect.1 = .error error)
    (hcode : error.code = .unsupportedOperator) (hfield : error.field = none)
    (htrail : error.trail.length = 1) :
    definition.resolveOperators = .error error := by
  rw [collect_compileDefinition, outcome_of_closed List.not_mem_nil,
    stagesOutcome_eq_error_iff] at h
  obtain ⟨before, stage, after, documents, inner, hsplit, hbefore,
      hinner, rfl⟩ := h
  have hnil : inner.trail = [] := by simpa [CompileError.through] using htrail
  obtain ⟨hstage, rfl⟩ :=
    planOf_of_stageOutcome_unregistered hinner hcode hfield hnil
  refine Definition.resolveFrom_eq_error_iff.mpr
    ⟨before, stage, after, hsplit, fun earlier hmem => ?_, hstage, rfl⟩
  obtain ⟨document, hdocument⟩ :=
    exists_forall₂_iff.mp ⟨documents, hbefore⟩ earlier hmem
  exact exists_operator_of_stageOutcome hdocument

theorem compileDefinition_fails_of_unregistered
    (hmem : stage ∈ definition.stages) (hstage : stage.operator? = none)
    (catalog : Catalog) (params : Params) :
    ∃ error, (catalog.compileDefinition definition params).collect.1 =
      .error error := by
  cases hcompile : (catalog.compileDefinition definition params).collect.1 with
  | error error => exact ⟨error, rfl⟩
  | ok pipeline =>
      rw [collect_compileDefinition, outcome_of_closed List.not_mem_nil]
        at hcompile
      obtain ⟨document, hdocument⟩ := exists_stageOutcome_of_mem hcompile hmem
      obtain ⟨operator, hoperator⟩ := exists_operator_of_stageOutcome hdocument
      rw [hstage] at hoperator
      cases hoperator

end Compiles

/-- The check of operators fails exactly if the operator of some stage is
unknown, and its error is that of the first such stage.  Then no compile
succeeds either, whatever the catalog and the bindings, and one that stops at a
stage of the definition itself for an unknown operator has the error of the
check.  Where the check succeeds it gives the operators in the order of the
stages, and no compile stops in that way. -/
theorem resolveOperators_agrees_with_compile (definition : Definition) :
    ((∃ error, definition.resolveOperators = .error error) ↔
      ∃ stage ∈ definition.stages,
        ∀ operator : StageOperator, operator.token ≠ stage.operator) ∧
    (∀ error, definition.resolveOperators = .error error →
      (∃ before stage after, definition.stages = before ++ stage :: after ∧
        (∀ earlier ∈ before, ∃ operator : StageOperator,
          operator.token = earlier.operator) ∧
        (∀ operator : StageOperator, operator.token ≠ stage.operator) ∧
        error = ⟨.unknownStageOperator stage.paramKey stage.operator,
          [stage.trace definition.name before.length]⟩) ∧
      ∀ (catalog : Catalog) (params : Params), ∃ error',
        (catalog.compileDefinition definition params).collect.1 =
          .error error' ∧
        (error'.code = .unsupportedOperator → error'.field = none →
          error'.trail.length = 1 → error' = error)) ∧
    ∀ operators, definition.resolveOperators = .ok operators →
      operators.map StageOperator.token = definition.stages.map Stage.operator ∧
      ∀ (catalog : Catalog) (params : Params) (error : CompileError),
        (catalog.compileDefinition definition params).collect.1 = .error error →
          ¬ (error.code = .unsupportedOperator ∧ error.field = none ∧
            error.trail.length = 1) := by
  have hunknown : ∀ stage : Stage, stage.operator? = none ↔
      ∀ operator : StageOperator, operator.token ≠ stage.operator :=
    fun _ => StageOperator.ofToken?_eq_none_iff
  refine ⟨?_, fun error herror => ⟨?_, fun catalog params => ?_⟩,
    fun operators hoperators => ⟨?_, fun catalog params error herror => ?_⟩⟩
  · simp only [Definition.exists_resolveOperators_eq_error_iff, hunknown]
  · obtain ⟨before, stage, after, hsplit, hbefore, hstage, rfl⟩ :=
      Definition.resolveFrom_eq_error_iff.mp herror
    refine ⟨before, stage, after, hsplit, fun earlier hmem => ?_,
      (hunknown stage).mp hstage, ?_⟩
    · obtain ⟨operator, hoperator⟩ := hbefore earlier hmem
      exact ⟨operator, (StageOperator.ofToken?_eq_some_iff.mp hoperator).symm⟩
    · rw [Nat.zero_add]
  · obtain ⟨stage, hmem, hstage⟩ :=
      Definition.exists_resolveOperators_eq_error_iff.mp ⟨error, herror⟩
    obtain ⟨error', herror'⟩ :=
      compileDefinition_fails_of_unregistered hmem hstage catalog params
    refine ⟨error', herror', fun hcode hfield htrail => ?_⟩
    have hsame := resolveOperators_of_compile herror' hcode hfield htrail
    rw [herror] at hsame
    exact (Except.error.inj hsame).symm
  · exact Definition.token_of_resolveOperators hoperators
  · rintro ⟨hcode, hfield, htrail⟩
    rw [resolveOperators_of_compile herror hcode hfield htrail] at hoperators
    cases hoperators

/-- As many entries as are bound for `count`, and two stages with unknown
operators. -/
def Definition.dump : Definition :=
  ⟨"dump", "entries",
    [⟨some "count", "$limit", []⟩, ⟨some "target", "$out", []⟩,
      ⟨none, "$lookup", []⟩]⟩

/-- The dump fails for want of a binding before its second stage is reached, and
with the error of the check after that. -/
theorem resolveOperators_dump_agrees :
    ∃ error, Definition.dump.resolveOperators = .error error ∧
      error.message = "operator '$out' of stage 'target' is not supported" ∧
      (Catalog.empty.compileDefinition .dump []).collect.1 ≠ .error error ∧
      (Catalog.empty.compileDefinition .dump
        [("count", .value (.int32 1))]).collect.1 = .error error ∧
      ∀ (catalog : Catalog) (params : Params), ∃ error',
        (catalog.compileDefinition .dump params).collect.1 = .error error' ∧
        (error'.code = .unsupportedOperator → error'.field = none →
          error'.trail.length = 1 → error' = error) := by
  have hresolved : Definition.dump.resolveOperators =
      .error ⟨.unknownStageOperator (some "target") "$out",
        [⟨"dump", 1, some "target", "$out"⟩]⟩ := by
    rfl
  obtain ⟨-, hfails, -⟩ := resolveOperators_agrees_with_compile .dump
  refine ⟨_, hresolved, by decide, ?_, rfl, (hfails _ hresolved).2⟩
  have hunbound : (Catalog.empty.compileDefinition .dump []).collect.1 =
      .error ⟨.mismatch (.unbound "$limit"),
        [⟨"dump", 0, some "count", "$limit"⟩]⟩ := by
    rfl
  rw [hunbound]
  nofun

end Aggregation
