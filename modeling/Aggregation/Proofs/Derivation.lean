import Aggregation.Proofs.References
import Aggregation.Proofs.Stage

/-!
# Derivations

What an aggregation compiles to, said by rules and without any notion of an
open aggregation.  `compile_eq_ok_iff_derives` shows that the compiler, which
does keep a stack of open aggregations and refuses to open one twice, compiles
exactly what has a derivation: where it refuses there is none.
-/

namespace Aggregation

open CompileM Result

mutual

/-- An aggregation compiles to one document for each of its stages. -/
inductive Derives (catalog : Catalog) : String → Params → Pipeline → Prop
  | aggregation {name : String} {params : Params} {definition : Definition}
      {pipeline : Pipeline} (hfound : catalog.get? name = some definition)
      (hlength : pipeline.length = definition.stages.length)
      (hstages : ∀ (i : ℕ) (stage : Stage) (document : Document),
        definition.stages[i]? = some stage → pipeline[i]? = some document →
          DerivesStage catalog params stage document) :
      Derives catalog name params pipeline

/-- A stage compiles to a single field under its operator. -/
inductive DerivesStage (catalog : Catalog) : Params → Stage → Document → Prop
  | alone {params : Params} {stage : Stage} {value : Value}
      (hyields : stage.Yields params value) :
      DerivesStage catalog params stage [(stage.operator, value)]
  | union {params : Params} {stage : Stage} {target : String}
      {definition : Definition} {pipeline : Pipeline}
      (htarget : stage.unionTarget? = some target) (hnonempty : target ≠ "")
      (hfound : catalog.get? target = some definition)
      (hpipeline : Derives catalog target (params.within stage.key) pipeline) :
      DerivesStage catalog params stage
        [(stage.operator, .document [("coll", .string definition.collection),
          ("pipeline", .array (pipeline.map .document))])]

end

variable {catalog : Catalog}

/-- Induction on derivations: a union comes with what is known of its target. -/
theorem Derives.induct
    {motive : ∀ name params pipeline,
      Derives catalog name params pipeline → Prop}
    (hstep : ∀ {name params definition pipeline}
      (h : Derives catalog name params pipeline),
      catalog.get? name = some definition →
      pipeline.length = definition.stages.length →
      (∀ (i : ℕ) (stage : Stage) (document : Document),
        definition.stages[i]? = some stage → pipeline[i]? = some document →
          (∃ value, stage.Yields params value ∧
            document = [(stage.operator, value)]) ∨
          ∃ target embedded inner, stage.unionTarget? = some target ∧
            target ≠ "" ∧ catalog.get? target = some embedded ∧
            (∃ h, motive target (params.within stage.key) inner h) ∧
            document =
              [(stage.operator, unionValue embedded.collection inner)]) →
      motive name params pipeline h)
    {name : String} {params : Params} {pipeline : Pipeline}
    (h : Derives catalog name params pipeline) :
    motive name params pipeline h := by
  refine @Derives.rec catalog motive
    (fun params stage document _ =>
      (∃ value, stage.Yields params value ∧
        document = [(stage.operator, value)]) ∨
      ∃ target embedded inner, stage.unionTarget? = some target ∧
        target ≠ "" ∧ catalog.get? target = some embedded ∧
        (∃ h, motive target (params.within stage.key) inner h) ∧
        document = [(stage.operator, unionValue embedded.collection inner)])
    ?_ ?_ ?_ name params pipeline h
  · intro name params definition pipeline hfound hlength hstages ih
    exact hstep (.aggregation hfound hlength hstages) hfound hlength ih
  · intro params stage value hyields
    exact .inl ⟨value, hyields, rfl⟩
  · intro params stage target definition pipeline htarget hnonempty hfound h ih
    exact .inr ⟨target, definition, pipeline, htarget, hnonempty, hfound,
      ⟨h, ih⟩, rfl⟩

theorem Derives.registered {name : String} {params : Params}
    {pipeline : Pipeline} (h : Derives catalog name params pipeline) :
    ∃ definition, catalog.get? name = some definition := by
  cases h with
  | aggregation hfound => exact ⟨_, hfound⟩

/-- Whatever compiles has a derivation. -/
theorem derives_of_outcome (active : List String) (definition : Definition) :
    ∀ {name params pipeline}, catalog.get? name = some definition →
      outcome catalog active definition params = .ok pipeline →
        Derives catalog name params pipeline := by
  induction active, definition using opening_induction catalog with
  | hstep active definition ih =>
      intro name params pipeline hfound houtcome
      by_cases hopen : definition.name ∈ active
      · rw [outcome_of_open hopen] at houtcome
        cases houtcome
      rw [outcome_of_closed hopen, stagesOutcome_eq_ok_iff,
        forall₂_iff_getElem?] at houtcome
      obtain ⟨hlength, hcompiled⟩ := houtcome
      apply Derives.aggregation hfound hlength
      intro i stage document hstage hdocument
      rcases stageOutcome_eq_ok_iff.mp
          (hcompiled i stage document hstage hdocument) with
        ⟨value, hyields, rfl⟩ |
        ⟨target, collection, inner, htarget, hnonempty, hembedded, rfl⟩
      · exact .alone hyields
      · obtain ⟨embedded, htargetFound, hinner, rfl⟩ :=
          embedded_eq_ok_iff.mp hembedded
        exact .union htarget hnonempty htargetFound
          (ih hopen target embedded htargetFound htargetFound hinner)

/-- What has a derivation is grounded, for a union has a derivation below it. -/
theorem Derives.grounded {name : String} {params : Params} {pipeline : Pipeline}
    (h : Derives catalog name params pipeline) : catalog.Grounded name := by
  induction h using Derives.induct with
  | @hstep name params definition pipeline _ hfound hlength hstages =>
      apply Catalog.Grounded.of_unites
      intro target hunites
      obtain ⟨other, hother, stage, hmem, htarget⟩ := hunites
      obtain rfl := Option.some.inj (hfound.symm.trans hother)
      obtain ⟨i, hstage⟩ := List.getElem?_of_mem hmem
      have hi : i < pipeline.length := by
        rw [hlength]
        exact (List.getElem?_eq_some_iff.mp hstage).1
      rcases hstages i stage pipeline[i] hstage
          (List.getElem?_eq_getElem hi) with
        ⟨value, hyields, -⟩ | ⟨named, _, _, hnamed, _, _, ⟨_, hgrounded⟩, _⟩
      · exact absurd htarget (hyields.not_union target)
      · rw [htarget] at hnamed
        cases hnamed
        exact hgrounded

/-- What has a derivation compiles, as long as whatever is open refers to it:
being grounded it does not refer back, so that it is not open itself. -/
theorem Derives.outcome_eq {name : String} {params : Params}
    {pipeline : Pipeline} (h : Derives catalog name params pipeline) :
    ∀ {active : List String} {definition : Definition},
      catalog.get? name = some definition →
      (∀ opened ∈ active, Relation.TransGen catalog.Unites opened name) →
        outcome catalog active definition params = .ok pipeline := by
  induction h using Derives.induct with
  | @hstep name params definition pipeline h hfound hlength hstages =>
      intro active other hother hrefers
      obtain rfl := Option.some.inj (hfound.symm.trans hother)
      have hname : definition.name = name := Catalog.get?_name hfound
      have hclosed : definition.name ∉ active := by
        intro hopen
        exact h.grounded.not_cyclic (hrefers name (hname ▸ hopen))
      rw [outcome_of_closed hclosed, stagesOutcome_eq_ok_iff,
        forall₂_iff_getElem?]
      refine ⟨hlength, ?_⟩
      intro i stage document hstage hdocument
      rw [stageOutcome_eq_ok_iff]
      rcases hstages i stage document hstage hdocument with
        ⟨value, hyields, rfl⟩ |
        ⟨target, embedded, inner, htarget, hnonempty, htargetFound, ⟨_, ih⟩,
          rfl⟩
      · exact .inl ⟨value, hyields, rfl⟩
      · have hunites : catalog.Unites name target :=
          ⟨definition, hfound, stage, List.mem_of_getElem? hstage, htarget⟩
        -- The union passes on that what is open refers to the name compiled.
        have hopened : ∀ opened ∈ definition.name :: active,
            Relation.TransGen catalog.Unites opened target := by
          intro opened hopened
          cases List.mem_cons.mp hopened with
          | inl hself =>
              rw [hself, hname]
              exact .single hunites
          | inr hopened => exact (hrefers opened hopened).tail hunites
        have hembedded := embedded_eq_ok_iff.mpr
          ⟨embedded, htargetFound, ih htargetFound hopened, rfl⟩
        exact .inr ⟨target, embedded.collection, inner, htarget, hnonempty,
          hembedded, rfl⟩

theorem derives_of_compile {name : String} {params : Params}
    {pipeline : Pipeline} (h : catalog.compile name params = .ok pipeline) :
    Derives catalog name params pipeline := by
  rw [compile_eq_outcome] at h
  cases hfound : catalog.get? name with
  | none =>
      rw [hfound] at h
      cases h
  | some definition =>
      rw [hfound] at h
      exact derives_of_outcome [] definition hfound h

/-- The compiler answers with a pipeline exactly where one can be derived, and
then with that one. -/
theorem compile_eq_ok_iff_derives (catalog : Catalog) (name : String)
    (params : Params) (pipeline : Pipeline) :
    catalog.compile name params = .ok pipeline ↔
      Derives catalog name params pipeline := by
  constructor
  · exact derives_of_compile
  · intro h
    obtain ⟨definition, hfound⟩ := h.registered
    rw [compile_eq_outcome, hfound]
    exact h.outcome_eq hfound (by simp)

end Aggregation
