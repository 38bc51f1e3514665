import Aggregation.Proofs.Dependence

/-!
# Static faults

An error that puts the blame on the definitions, and not on a field of a filter,
is a static fault.  Compiling stops at the first stage that fails, and bindings
decide how far it gets.  But the first static fault on its way, depth first, is
the same for all bindings: whoever gets past it has found none, and whoever
stops before it stops for what is bound.
-/

namespace Aggregation

open CompileM Result

/-- The definitions are to blame, and no field of a filter is. -/
def Cause.IsStatic (cause : Cause) : Prop :=
  cause.code.isConfiguration = true ∧ cause.field = none

theorem Cause.not_isStatic_iff {cause : Cause} :
    ¬ cause.IsStatic ↔ cause.code = .typeMismatch ∨
      cause.field.isSome = true := by
  cases hfield : cause.field <;>
    simp [IsStatic, ErrorCode.isConfiguration, hfield]

/-- Where the one result is a static fault the other is an error as well, and
the same one if it is static too. -/
def KeepsFault {α : Type} (result result' : Except CompileError α) : Prop :=
  ∀ error, result = .error error → error.cause.IsStatic →
    ∃ error', result' = .error error' ∧ (error'.cause.IsStatic → error' = error)

namespace KeepsFault

variable {α β : Type} {result result' : Except CompileError α}

theorem refl (result : Except CompileError α) : KeepsFault result result :=
  fun error hresult _ => ⟨error, hresult, fun _ => rfl⟩

/-- What succeeds has no fault to keep. -/
theorem ok (value : α) (result' : Except CompileError α) :
    KeepsFault (.ok value) result' :=
  fun _ hresult => nomatch hresult

theorem through (h : KeepsFault result result') (trace : Trace) :
    KeepsFault (result.mapError fun error => error.through trace)
      (result'.mapError fun error => error.through trace) := by
  intro error hresult hstatic
  obtain ⟨inner, hinner, rfl⟩ := mapError_eq_error_iff.mp hresult
  obtain ⟨inner', hinner', hsame⟩ := h inner hinner hstatic
  refine ⟨inner'.through trace,
    mapError_eq_error_iff.mpr ⟨inner', hinner', rfl⟩, ?_⟩
  intro hstatic'
  rw [hsame hstatic']

/-- A second step that keeps faults is taken in both runs or, where it matters,
in neither: if the first step fails in one run only, the fault is not static. -/
theorem bind {next next' : α → Except CompileError β}
    (h : KeepsFault result result') (hback : KeepsFault result' result)
    (hnext : ∀ value value', KeepsFault (next value) (next' value')) :
    KeepsFault (result >>= next) (result' >>= next') := by
  intro error hresult hstatic
  rcases bind_eq_error_iff.mp hresult with hfirst | ⟨value, hvalue, hsecond⟩
  · obtain ⟨error', herror', hsame⟩ := h error hfirst hstatic
    exact ⟨error', bind_eq_error_iff.mpr (.inl herror'), hsame⟩
  · cases hother : result' with
    | error error' =>
        refine ⟨error', rfl, ?_⟩
        intro hstatic'
        obtain ⟨_, hfails, -⟩ := hback error' hother hstatic'
        rw [hvalue] at hfails
        cases hfails
    | ok value' => exact hnext value value' error hsecond hstatic

end KeepsFault

/-- A static fault of a stage by itself comes from an operator that reads no
binding. -/
theorem planOf_error_of_isStatic {params : Params} {stage : Stage}
    {cause : Cause} (hcause : planOf params stage = .error cause)
    (hstatic : cause.IsStatic) (params' : Params) :
    planOf params' stage = .error cause := by
  apply Stage.planOf_error_of_readsAlike hcause
  intro operator htoken hrequires
  rw [planOf_of_token htoken, map_eq_error_iff] at hcause
  rcases StageOperator.plan_eq_error hcause with
    ⟨found, rfl⟩ | ⟨hrequires', -⟩ | ⟨-, filter, -, hfails⟩
  · cases hstatic.1
  · rw [hrequires] at hrequires'
    cases hrequires'
  · obtain ⟨_, field, _, -, -, -, hfield, -⟩ :=
      Filter.compileTerms_eq_error hfails
    rw [hstatic.2] at hfield
    cases hfield

section Stages

variable {embed : Embedded}
  (hembed : ∀ target params params',
    KeepsFault (embed target params) (embed target params'))

include hembed

theorem stageOutcome_keepsFault (params params' : Params) (stage : Stage) :
    KeepsFault (stageOutcome embed params stage)
      (stageOutcome embed params' stage) := by
  intro error herror hstatic
  rcases stageOutcome_eq_error_iff.mp herror with
    ⟨cause, hcause, rfl⟩ | ⟨target, htarget, hnonempty, hinner⟩
  · have hcause' := planOf_error_of_isStatic hcause hstatic params'
    exact ⟨_, stageOutcome_of_planOf_error hcause', fun _ => rfl⟩
  · obtain ⟨error', herror', hsame⟩ :=
      hembed target _ (params'.within stage.key) error hinner hstatic
    exact ⟨error', stageOutcome_eq_error_iff.mpr
      (.inr ⟨target, htarget, hnonempty, herror'⟩), hsame⟩

theorem stagesOutcome_keepsFault (name : String)
    (params params' : Params) (index : ℕ) (stages : List Stage) :
    KeepsFault (stagesOutcome embed name params index stages)
      (stagesOutcome embed name params' index stages) := by
  induction stages generalizing index params params' with
  | nil => exact .ok _ _
  | cons stage stages ih =>
      have hstage := stageOutcome_keepsFault hembed params params' stage
      have hstage' := stageOutcome_keepsFault hembed params' params stage
      rw [stagesOutcome_cons, stagesOutcome_cons]
      apply (hstage.through _).bind (hstage'.through _)
      intro document document'
      exact (ih params params' (index + 1)).bind (ih params' params (index + 1))
        fun _ _ => .ok _ _

end Stages

/-- Static faults stay the same when other bindings are compiled, whatever is
open. -/
theorem outcome_keepsFault (catalog : Catalog) (active : List String)
    (definition : Definition) :
    ∀ params params', KeepsFault (outcome catalog active definition params)
      (outcome catalog active definition params') := by
  induction active, definition using opening_induction catalog with
  | hstep active definition ih =>
      intro params params'
      by_cases hopen : definition.name ∈ active
      · rw [outcome_of_open hopen, outcome_of_open hopen]
        exact .refl _
      rw [outcome_of_closed hopen, outcome_of_closed hopen]
      apply stagesOutcome_keepsFault
      intro target bound bound'
      unfold embedded
      cases hfound : catalog.get? target with
      | none => exact .refl _
      | some embedded =>
          exact (ih hopen target embedded hfound bound bound').bind
            (ih hopen target embedded hfound bound' bound) fun _ _ => .ok _ _

theorem compile_keepsFault (catalog : Catalog) (name : String)
    (params params' : Params) :
    KeepsFault (catalog.compile name params)
      (catalog.compile name params') := by
  rw [compile_eq_outcome, compile_eq_outcome]
  cases catalog.get? name with
  | none => exact .refl _
  | some definition =>
      exact outcome_keepsFault catalog [] definition params params'

/-- What fails for a static fault fails for all bindings: for the very same
error, or else for one that is down to what is bound. -/
theorem compile_fails_of_static_fault {catalog : Catalog} {name : String}
    {params : Params} {error : CompileError}
    (h : catalog.compile name params = .error error)
    (hcode : error.code.isConfiguration = true) (hfield : error.field = none)
    (params' : Params) :
    ∃ error', catalog.compile name params' = .error error' ∧
      (error' = error ∨ error'.code = .typeMismatch ∨
        error'.field.isSome = true) := by
  obtain ⟨error', herror', hsame⟩ :=
    compile_keepsFault catalog name params params' error h ⟨hcode, hfield⟩
  refine ⟨error', herror', ?_⟩
  by_cases hstatic : error'.cause.IsStatic
  · exact .inl (hsame hstatic)
  · exact .inr (Cause.not_isStatic_iff.mp hstatic)

/-- A feed of as many entries as are bound for `count`, and of an aggregation
that is missing, within a wall. -/
def Catalog.feeds : Catalog :=
  .ofList
    [⟨"feed", "entries", [⟨some "count", "$limit", []⟩,
        ⟨none, "$unionWith", [("pipeline", .string "gone")]⟩]⟩,
      ⟨"wall", "entries", [⟨some "inner", "$unionWith",
        [("pipeline", .string "feed")]⟩]⟩]

/-- The wall compiles for no bindings, and no other static fault hides the
missing aggregation. -/
theorem compile_feeds_fails_of_static_fault :
    ∃ error, error.message = "aggregation 'gone' not found" ∧
      Catalog.feeds.compile "wall"
        [("inner", .params [("count", .value (.int32 1))])] = .error error ∧
      ∀ params', ∃ error', Catalog.feeds.compile "wall" params' =
        .error error' ∧
        (error' = error ∨ error'.code = .typeMismatch ∨
          error'.field.isSome = true) := by
  have hcompile : Catalog.feeds.compile "wall"
      [("inner", .params [("count", .value (.int32 1))])] =
        .error ⟨.notFound "gone", [⟨"feed", 1, none, "$unionWith"⟩,
          ⟨"wall", 0, some "inner", "$unionWith"⟩]⟩ := by
    rfl
  exact ⟨_, rfl, hcompile, compile_fails_of_static_fault hcompile rfl rfl⟩

end Aggregation
