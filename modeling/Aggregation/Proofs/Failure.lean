import Aggregation.Proofs.References
import Aggregation.Proofs.Stage

/-!
# How compiles fail

An error arises at one stage, or where a cycle is closed, and passes the unions
above it on its way out.  `Fails` has one rule for each of these, so that what
every error satisfies is proved by induction on it.
-/

namespace Aggregation

open CompileM Result

/-- A definition fails with this error, for a reason that its rules give. -/
inductive Fails (catalog : Catalog) :
    List String → Definition → Params → CompileError → Prop
  /-- The definition is open already. -/
  | cycle {active : List String} {definition : Definition} {params : Params}
      (hopen : definition.name ∈ active) :
      Fails catalog active definition params
        ⟨.cycle (definition.name :: active).reverse, []⟩
  /-- A stage cannot be planned. -/
  | plan {active : List String} {definition : Definition} {params : Params}
      {i : ℕ} {stage : Stage} {cause : Cause}
      (hclosed : definition.name ∉ active)
      (hstage : definition.stages[i]? = some stage)
      (hcause : planOf params stage = .error cause) :
      Fails catalog active definition params
        ⟨cause, [stage.trace definition.name i]⟩
  /-- A union names an aggregation that is not registered. -/
  | missing {active : List String} {definition : Definition} {params : Params}
      {i : ℕ} {stage : Stage} {target : String}
      (hclosed : definition.name ∉ active)
      (hstage : definition.stages[i]? = some stage)
      (htarget : stage.unionTarget? = some target)
      (hmissing : catalog.get? target = none) :
      Fails catalog active definition params
        ⟨.notFound target, [stage.trace definition.name i]⟩
  /-- What a union names fails. -/
  | within {active : List String} {definition : Definition} {params : Params}
      {i : ℕ} {stage : Stage} {target : String} {embedded : Definition}
      {error : CompileError}
      (hclosed : definition.name ∉ active)
      (hstage : definition.stages[i]? = some stage)
      (htarget : stage.unionTarget? = some target)
      (hfound : catalog.get? target = some embedded)
      (hinner : Fails catalog (definition.name :: active) embedded
        (params.within stage.key) error) :
      Fails catalog active definition params
        (error.through (stage.trace definition.name i))

variable {catalog : Catalog}

theorem fails_of_outcome (active : List String) (definition : Definition) :
    ∀ {params error}, outcome catalog active definition params = .error error →
      Fails catalog active definition params error := by
  induction active, definition using opening_induction catalog with
  | hstep active definition ih =>
      intro params error houtcome
      by_cases hopen : definition.name ∈ active
      · rw [outcome_of_open hopen] at houtcome
        cases houtcome
        exact .cycle hopen
      rw [outcome_of_closed hopen] at houtcome
      obtain ⟨before, stage, after, documents, inner, hsplit, -, hinner, rfl⟩ :=
        stagesOutcome_eq_error_iff.mp houtcome
      have hstage : definition.stages[0 + before.length]? = some stage := by
        simp [hsplit]
      cases stageOutcome_eq_error_iff.mp hinner with
      | inl hplan =>
          obtain ⟨cause, hcause, rfl⟩ := hplan
          exact .plan hopen hstage hcause
      | inr hunion =>
          obtain ⟨target, htarget, -, hembedded⟩ := hunion
          cases embedded_eq_error_iff.mp hembedded with
          | inl hmissing =>
              obtain ⟨hmissing, rfl⟩ := hmissing
              exact .missing hopen hstage htarget hmissing
          | inr hregistered =>
              obtain ⟨embedded, hfound, hfails⟩ := hregistered
              exact .within hopen hstage htarget hfound
                (ih hopen target embedded hfound hfails)

/-- A registered aggregation fails for such a reason, and another because it is
not found. -/
theorem fails_of_compile {name : String} {params : Params}
    {error : CompileError} (h : catalog.compile name params = .error error) :
    (catalog.get? name = none ∧ error = ⟨.notFound name, []⟩) ∨
      ∃ definition, catalog.get? name = some definition ∧
        Fails catalog [] definition params error := by
  rw [compile_eq_outcome] at h
  cases hfound : catalog.get? name with
  | none =>
      rw [hfound] at h
      exact .inl ⟨rfl, (Except.error.inj h).symm⟩
  | some definition =>
      rw [hfound] at h
      exact .inr ⟨definition, rfl, fails_of_outcome [] definition h⟩

end Aggregation
