import Aggregation.Compile.Stages

/-!
# The depth of a compile

Open aggregations are distinct and, the outermost apart, registered.  So each
further one uses up a registered name, and fuel for two more definitions than
the catalog holds is never used up: `settles_compileDefinition`.
-/

namespace Aggregation

namespace CompileM

/-- The registered names that are not open. -/
def unopened (catalog : Catalog) (active : List String) : List String :=
  catalog.names.filter (· ∉ active)

theorem length_unopened_le (catalog : Catalog) (active : List String) :
    (unopened catalog active).length ≤ catalog.size :=
  Nat.le_trans (List.length_filter_le _ _)
    (by simp [Catalog.names, Catalog.size])

theorem length_unopened_cons_lt {catalog : Catalog} {name : String}
    {active : List String} (registered : name ∈ catalog.names)
    (closed : name ∉ active) :
    (unopened catalog (name :: active)).length <
      (unopened catalog active).length := by
  have eq : unopened catalog (name :: active) =
      (unopened catalog active).filter (· ≠ name) := by
    simp [unopened, List.filter_filter]
  rw [eq]
  refine List.length_filter_lt_length_iff_exists.2 ⟨name, ?_, by simp⟩
  simp [unopened, registered, closed]

theorem mem_names_of_get? {catalog : Catalog} {name : String}
    {definition : Definition} (h : catalog.get? name = some definition) :
    definition.name ∈ catalog.names :=
  List.mem_map_of_mem (List.mem_of_find?_eq_some h)

theorem settles_finishPlan {active : List String} {embedding : Embedding}
    (settled : ∀ name params, Settles active (embedding name params))
    (kept : ∀ name params, Restores (embedding name params))
    (operator : StageOperator) (plan : StagePlan) :
    Settles active (finishPlan embedding operator plan) := by
  cases plan with
  | operand value => exact settles_pure _ _
  | filter document =>
    exact (settles_note _ _).bind (restores_note _) fun _ => settles_pure _ _
  | embed target params =>
    exact (settled target params).bind (kept target params) fun _ =>
      settles_pure _ _

theorem settles_compileStages {active : List String} {embedding : Embedding}
    (settled : ∀ name params, Settles active (embedding name params))
    (kept : ∀ name params, Restores (embedding name params)) (name : String)
    (params : Params) (index : Nat) (stages : List Stage) :
    Settles active (compileStages embedding name params index stages) := by
  induction stages generalizing index with
  | nil => exact settles_pure _ _
  | cons stage stages ih =>
    have first : Settles active (compileStage embedding params stage) :=
      (settles_ofExcept _ _).bind (restores_ofExcept _) fun _ =>
        settles_finishPlan settled kept _ _
    exact (first.traced _).bind
      ((restores_compileStage kept params stage).traced _) fun _ =>
      (ih (index + 1)).bind (restores_compileStages kept _ _ _ _) fun _ =>
        settles_pure _ _

/-- Fuel for the definition itself, for the registered names that are not open
within it, and for one more to close a cycle is enough. -/
theorem settles_succ (catalog : Catalog) (fuel : Nat) (definition : Definition)
    (params : Params) (active : List String)
    (enough : definition.name ∉ active →
      (unopened catalog (definition.name :: active)).length < fuel) :
    Settles active
      (compileDefinition catalog (fuel + 1) definition params) := by
  induction fuel generalizing definition params active with
  | zero =>
    intro frame same
    rw [run_compileDefinition_succ]
    split
    · nofun
    · next closed => exact absurd (enough (same ▸ closed)) (by omega)
  | succ fuel ih =>
    intro frame same
    rw [run_compileDefinition_succ]
    split
    · nofun
    · next closed =>
      have less := enough (same ▸ closed)
      refine Settles.opened (settles_compileStages ?_ ?_ _ _ _ _) frame same
      · intro name bound
        unfold embedFrom
        split
        · exact settles_reject _ _
        · next found =>
          refine (ih _ _ _ fun shut => ?_).bind
            (restores_compileDefinition _ _ _ _)
            fun _ => settles_pure _ _
          have := length_unopened_cons_lt (mem_names_of_get? found) shut
          omega
      · exact restores_embedFrom (restores_compileDefinition catalog _)

/-- Fuel for two definitions more than are registered is enough for any
definition. -/
theorem settles_compileDefinition (catalog : Catalog) (definition : Definition)
    (params : Params) (active : List String) :
    Settles active
      (compileDefinition catalog (catalog.size + 2) definition params) :=
  settles_succ _ _ _ _ _ fun _ =>
    Nat.lt_succ_of_le (length_unopened_le catalog (definition.name :: active))

end CompileM

end Aggregation
