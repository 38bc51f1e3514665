import Aggregation.Proofs.Cycle
import Aggregation.Proofs.Dependence
import Aggregation.Proofs.Lookup

/-!
# Renaming aggregations

Names tie the aggregations of a catalog together.  They decide which definition
a union embeds and what counts as a cycle, and errors tell them, but no pipeline
shows one.  So a catalog under new names, which keep different names apart and
are not empty where the old ones are not, compiles to the same pipelines as
before, and to the same errors but for the names that they tell.
-/

namespace Aggregation

open CompileM Result

/-! ## Definitions under new names -/

/-- The stage with what it unites under its new name.  An empty target names
nothing, and stays. -/
def Stage.renamed (f : String → String) (stage : Stage) : Stage :=
  match stage.unionTarget? with
  | some target =>
      if target = "" then stage
      else
        { stage with
          args := Fields.insert stage.args "pipeline" (.string (f target)) }
  | none => stage

def Definition.renamed (f : String → String) (definition : Definition) :
    Definition where
  name := f definition.name
  collection := definition.collection
  stages := definition.stages.map (Stage.renamed f)

def Catalog.renamed (f : String → String) (catalog : Catalog) : Catalog :=
  .ofList (catalog.definitions.map (Definition.renamed f))

def Trace.renamed (f : String → String) (trace : Trace) : Trace :=
  { trace with aggregation := f trace.aggregation }

def Cause.renamed (f : String → String) : Cause → Cause
  | notFound name => notFound (f name)
  | cycle path => cycle (path.map f)
  | cause => cause

def CompileError.renamed (f : String → String) (error : CompileError) :
    CompileError where
  cause := error.cause.renamed f
  trail := error.trail.map (Trace.renamed f)

variable {f : String → String}

namespace Cause

theorem code_renamed (cause : Cause) : (cause.renamed f).code = cause.code := by
  cases cause <;> rfl

theorem field_renamed (cause : Cause) :
    (cause.renamed f).field = cause.field := by
  cases cause <;> rfl

theorem operator_renamed (cause : Cause) :
    (cause.renamed f).operator = cause.operator := by
  cases cause <;> rfl

end Cause

namespace CompileError

theorem renamed_through (error : CompileError) (trace : Trace) :
    (error.through trace).renamed f =
      (error.renamed f).through (trace.renamed f) := by
  simp [CompileError.through, CompileError.renamed]

theorem operator_renamed (error : CompileError) :
    (error.renamed f).operator = error.operator := by
  have horigin : (error.renamed f).origin.map Trace.operator =
      error.origin.map Trace.operator := by
    rw [CompileError.origin, CompileError.origin, CompileError.renamed]
    cases error.trail <;> rfl
  rw [CompileError.operator, horigin, CompileError.renamed,
    Cause.operator_renamed]
  rfl

end CompileError

/-! ## Stages under new names -/

namespace Stage

variable {stage : Stage}

/-- Only what a stage is given as its arguments can name an aggregation. -/
theorem exists_renamed_eq (f : String → String) (stage : Stage) :
    ∃ args, stage.renamed f = { stage with args := args } := by
  unfold Stage.renamed
  split
  · split
    · exact ⟨stage.args, rfl⟩
    · exact ⟨_, rfl⟩
  · exact ⟨stage.args, rfl⟩

theorem key_renamed (stage : Stage) : (stage.renamed f).key = stage.key := by
  obtain ⟨args, hrenamed⟩ := exists_renamed_eq f stage
  rw [hrenamed]

theorem operator_renamed (stage : Stage) :
    (stage.renamed f).operator = stage.operator := by
  obtain ⟨args, hrenamed⟩ := exists_renamed_eq f stage
  rw [hrenamed]

theorem trace_renamed (stage : Stage) (name : String) (index : ℕ) :
    (stage.renamed f).trace (f name) index =
      (stage.trace name index).renamed f := by
  simp only [Stage.trace, key_renamed, operator_renamed]
  rfl

/-- What unites nothing by a proper name stays as it is. -/
theorem renamed_of_no_target
    (h : ∀ target, stage.unionTarget? = some target → target = "") :
    stage.renamed f = stage := by
  unfold Stage.renamed
  cases htarget : stage.unionTarget? with
  | none => rfl
  | some target => exact if_pos (h target htarget)

theorem unionTarget?_renamed {target : String}
    (htarget : stage.unionTarget? = some target) (hnonempty : target ≠ "") :
    (stage.renamed f).unionTarget? = some (f target) := by
  have hargs : (stage.renamed f).args =
      Fields.insert stage.args "pipeline" (.string (f target)) := by
    simp [Stage.renamed, htarget, hnonempty]
  obtain ⟨htoken, -⟩ := unionTarget?_eq_some_iff.mp htarget
  rw [unionTarget?_eq_some_iff, operator_renamed, hargs, Fields.get?_insert]
  exact ⟨htoken, if_pos rfl⟩

end Stage

section Planning

variable {params : Params} {stage : Stage} {cause : Cause}

/-- A stage that cannot be planned unites nothing by a proper name. -/
theorem target_eq_empty_of_planOf_error (h : planOf params stage = .error cause)
    {target : String} (htarget : stage.unionTarget? = some target) :
    target = "" := by
  by_contra hnonempty
  have hfails : stageOutcome (fun _ _ => .ok ("", [])) params stage =
      .error ⟨cause, []⟩ :=
    stageOutcome_of_planOf_error h
  rw [stageOutcome_of_unionTarget htarget hnonempty] at hfails
  cases hfails

/-- Why a stage cannot be planned has nothing to do with names of
aggregations. -/
theorem renamed_of_planOf_error (h : planOf params stage = .error cause) :
    cause.renamed f = cause := by
  cases hoperator : stage.operator? with
  | none =>
      rw [planOf_of_unregistered hoperator] at h
      cases h
      rfl
  | some operator =>
      have htoken := StageOperator.ofToken?_eq_some_iff.mp hoperator
      rw [planOf_of_token htoken, map_eq_error_iff] at h
      rcases StageOperator.plan_eq_error h with
        ⟨found, rfl⟩ | ⟨-, found, rfl⟩ | ⟨-, filter, -, hfails⟩
      · rfl
      · rfl
      · obtain ⟨_, field, _, -, -, -, hfield, -⟩ :=
          Filter.compileTerms_eq_error hfails
        cases cause with
        | notFound | cycle => cases hfield
        | unknownStageOperator | unknownFilterOperator | mismatch
          | fieldMismatch
        | structural => rfl

end Planning

/-! ## Compiling under new names -/

section Stages

variable {embed embed' : Embedded}
  (hnonempty : ∀ name, name ≠ "" → f name ≠ "")
  (hembed : ∀ target params, embed' (f target) params =
    (embed target params).mapError (CompileError.renamed f))

include hnonempty hembed

theorem stageOutcome_renamed (params : Params) (stage : Stage) :
    stageOutcome embed' params (stage.renamed f) =
      (stageOutcome embed params stage).mapError (CompileError.renamed f) := by
  rcases stage_cases params stage with
    ⟨value, hyields⟩ | ⟨target, htarget, hproper⟩ | ⟨cause, hcause⟩
  · rw [Stage.renamed_of_no_target fun target htarget =>
      absurd htarget (hyields.not_union target), stageOutcome_of_yields hyields,
      stageOutcome_of_yields hyields]
    rfl
  · rw [stageOutcome_of_unionTarget htarget hproper,
      stageOutcome_of_unionTarget (Stage.unionTarget?_renamed htarget hproper)
        (hnonempty target hproper), Stage.key_renamed, Stage.operator_renamed,
      hembed]
    cases embed target (params.within stage.key) <;> rfl
  · rw [Stage.renamed_of_no_target fun target =>
      target_eq_empty_of_planOf_error hcause,
      stageOutcome_of_planOf_error hcause, stageOutcome_of_planOf_error hcause]
    simp [Except.mapError, CompileError.renamed, renamed_of_planOf_error hcause]

theorem stagesOutcome_renamed (name : String) (params : Params) (index : ℕ)
    (stages : List Stage) :
    stagesOutcome embed' (f name) params index (stages.map (Stage.renamed f)) =
      (stagesOutcome embed name params index stages).mapError
        (CompileError.renamed f) := by
  induction stages generalizing index with
  | nil => rfl
  | cons stage stages ih =>
      rw [List.map_cons, stagesOutcome_cons, stagesOutcome_cons,
        stageOutcome_renamed hnonempty hembed, ih, Stage.trace_renamed]
      cases stageOutcome embed params stage with
      | error error =>
          change Except.error _ = Except.error _
          rw [CompileError.renamed_through]
      | ok document =>
          cases stagesOutcome embed name params (index + 1) stages <;> rfl

end Stages

section Catalogs

variable {catalog other : Catalog}
  (hinjective : Function.Injective f)
  (hnonempty : ∀ name, name ≠ "" → f name ≠ "")
  (hanswers : ∀ name, other.get? (f name) =
    (catalog.get? name).map (Definition.renamed f))

include hinjective hnonempty hanswers

/-- Different names stay different, so that what is open is open under its new
name and nothing else is. -/
theorem outcome_renamed (active : List String) (definition : Definition) :
    ∀ params, outcome other (active.map f) (definition.renamed f) params =
      (outcome catalog active definition params).mapError
        (CompileError.renamed f) := by
  induction active, definition using opening_induction catalog with
  | hstep active definition ih =>
      intro params
      by_cases hopen : definition.name ∈ active
      · have hopen' : (definition.renamed f).name ∈ active.map f :=
          List.mem_map_of_mem hopen
        rw [outcome_of_open hopen, outcome_of_open hopen']
        simp [Except.mapError, CompileError.renamed, Cause.renamed,
          Definition.renamed]
      · have hclosed : (definition.renamed f).name ∉ active.map f := fun hmem =>
          hopen ((List.mem_map_of_injective hinjective).mp hmem)
        rw [outcome_of_closed hopen, outcome_of_closed hclosed]
        apply stagesOutcome_renamed hnonempty
        intro target bound
        unfold embedded
        rw [hanswers]
        cases hfound : catalog.get? target with
        | none => rfl
        | some embedded =>
            have hinner := ih hopen target embedded hfound bound
            simp only [Option.map_some]
            rw [show (definition.renamed f).name :: active.map f =
              (definition.name :: active).map f from rfl, hinner]
            cases outcome catalog (definition.name :: active) embedded bound <;>
              rfl

theorem compile_of_answers (name : String) (params : Params) :
    other.compile (f name) params =
      (catalog.compile name params).mapError (CompileError.renamed f) := by
  rw [compile_eq_outcome, compile_eq_outcome, hanswers]
  cases catalog.get? name with
  | none => rfl
  | some definition =>
      exact outcome_renamed hinjective hnonempty hanswers [] definition params

end Catalogs

/-! ## Catalogs under new names -/

namespace Catalog

/-- The last definition of a name is the last of its new name. -/
theorem get?_ofList_renamed (hinjective : Function.Injective f)
    (definitions : List Definition) (name : String) :
    (ofList (definitions.map (Definition.renamed f))).get? (f name) =
      ((ofList definitions).get? name).map (Definition.renamed f) := by
  have hsame : (fun definition : Definition =>
      decide ((definition.renamed f).name = f name)) = fun definition =>
        decide (definition.name = name) := by
    funext definition
    exact decide_eq_decide.mpr hinjective.eq_iff
  rw [get?_ofList, get?_ofList, ← List.map_reverse, List.find?_map]
  exact congrArg (fun named => (definitions.reverse.find? named).map _) hsame

theorem get?_renamed (hinjective : Function.Injective f) (catalog : Catalog)
    (name : String) :
    (catalog.renamed f).get? (f name) =
      (catalog.get? name).map (Definition.renamed f) := by
  rw [Catalog.renamed, get?_ofList_renamed hinjective, ofList_definitions]

/-- Nothing has a name that is new to no name. -/
theorem get?_ofList_renamed_of_forall_ne {name : String}
    (hnew : ∀ old, f old ≠ name) (definitions : List Definition) :
    (ofList (definitions.map (Definition.renamed f))).get? name = none := by
  rw [get?_ofList, List.find?_eq_none]
  intro renamed hmem
  rw [List.mem_reverse, List.mem_map] at hmem
  obtain ⟨definition, -, rfl⟩ := hmem
  rw [decide_eq_true_eq]
  exact hnew definition.name

/-- Renaming goes through all that a catalog is made of, what is replaced
included. -/
theorem renamed_ofList (hinjective : Function.Injective f)
    (definitions : List Definition) :
    (ofList definitions).renamed f =
      ofList (definitions.map (Definition.renamed f)) := by
  apply eq_of_get?_eq
  intro name
  by_cases hold : ∃ old, f old = name
  · obtain ⟨old, rfl⟩ := hold
    rw [get?_renamed hinjective, get?_ofList_renamed hinjective]
  · push Not at hold
    rw [Catalog.renamed, get?_ofList_renamed_of_forall_ne hold,
      get?_ofList_renamed_of_forall_ne hold]

end Catalog

/-- Under new names, which is how a catalog comes out that is made of
definitions under new names, a name compiles to the same pipeline as before, if
it did, and otherwise to an error that tells the same but for names. -/
theorem compile_renamed_agrees {f : String → String}
    (hinjective : Function.Injective f)
    (hnonempty : ∀ name, name ≠ "" → f name ≠ "") (catalog : Catalog)
    (name : String) (params : Params) :
    (∀ definitions, catalog = .ofList definitions →
      catalog.renamed f = .ofList (definitions.map (Definition.renamed f))) ∧
    (∀ pipeline, (catalog.renamed f).compile (f name) params = .ok pipeline ↔
      catalog.compile name params = .ok pipeline) ∧
    ∀ error, catalog.compile name params = .error error →
      ∃ error', (catalog.renamed f).compile (f name) params = .error error' ∧
        error'.code = error.code ∧ error'.field = error.field ∧
        error'.operator = error.operator ∧
        error'.trail = error.trail.map (Trace.renamed f) := by
  have hcompile := compile_of_answers hinjective hnonempty
    (catalog.get?_renamed hinjective) name params
  rw [hcompile]
  refine ⟨?_, ?_, ?_⟩
  · rintro definitions rfl
    exact Catalog.renamed_ofList hinjective definitions
  · intro pipeline
    exact mapError_eq_ok_iff
  · intro error herror
    exact ⟨error.renamed f, mapError_eq_error_iff.mpr ⟨error, herror, rfl⟩,
      Cause.code_renamed _, Cause.field_renamed _,
      CompileError.operator_renamed _, rfl⟩

/-- The name under a prefix. -/
def versioned (name : String) : String :=
  "v2/" ++ name

/-- Under versioned names the digest compiles as before, and the two
aggregations that unite each other are told by their new names. -/
theorem compile_versioned_agrees :
    Function.Injective versioned ∧ (∀ name, name ≠ "" → versioned name ≠ "") ∧
    (∀ pipeline, (Catalog.digests.renamed versioned).compile "v2/digest" .bare =
        .ok pipeline ↔ Catalog.digests.compile "digest" .bare = .ok pipeline) ∧
    ∃ error, (Catalog.looped.renamed versioned).compile "v2/entry" [] =
      .error error ∧
      error.code = .cycleDetected ∧
      error.trail.map Trace.aggregation =
        ["v2/right", "v2/left", "v2/entry"] := by
  have hinjective : Function.Injective versioned := by
    intro left right hsame
    simpa [versioned] using hsame
  have hnonempty : ∀ name, name ≠ "" → versioned name ≠ "" := by
    intro name _
    simp [versioned]
  have hlooped : Catalog.looped.compile "entry" [] =
      .error ⟨.cycle ["entry", "left", "right", "left"],
        [⟨"right", 0, none, "$unionWith"⟩,
          ⟨"left", 1, some "other", "$unionWith"⟩,
          ⟨"entry", 0, none, "$unionWith"⟩]⟩ := by
    rfl
  obtain ⟨-, hdigest, -⟩ :=
    compile_renamed_agrees hinjective hnonempty .digests "digest" .bare
  obtain ⟨-, -, herrors⟩ :=
    compile_renamed_agrees hinjective hnonempty .looped "entry" []
  obtain ⟨error, herror, hcode, -, -, htrail⟩ := herrors _ hlooped
  refine ⟨hinjective, hnonempty, hdigest, error, herror, hcode, ?_⟩
  rw [htrail]
  rfl

end Aggregation
