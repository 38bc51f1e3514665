import Aggregation.Proofs.ByteOrder
import Aggregation.Proofs.Issues

/-!
# Building a catalog

A catalog is built by putting definitions in, one call after another.  Whatever
the calls were, for each name the last definition of that name counts, and the
catalog is nothing beyond that: it lists, checks and compiles in an order of its
own.
-/

namespace Aggregation

/-- A call on a catalog that is being built.  Either kind puts a definition in;
an insertion is answered as well. -/
inductive BuildCall where
  | add (definition : Definition)
  | insert (definition : Definition)

namespace BuildCall

def definition : BuildCall → Definition
  | add definition => definition
  | insert definition => definition

/-- The last definition of a name that was put in. -/
def last? (calls : List BuildCall) (name : String) : Option Definition :=
  (calls.map definition).reverse.find? (·.name = name)

theorem last?_cons (call : BuildCall) (calls : List BuildCall) (name : String) :
    last? (call :: calls) name =
      (last? calls name).or
        (if call.definition.name = name then some call.definition
        else none) := by
  rw [last?, last?, List.map_cons, List.reverse_cons, List.find?_append]
  by_cases hname : call.definition.name = name <;> simp [hname]

theorem last?_isSome_iff {calls : List BuildCall} {name : String} :
    (last? calls name).isSome ↔ ∃ call ∈ calls,
      call.definition.name = name := by
  simp [last?]

end BuildCall

namespace Catalog

variable {catalog : Catalog} {name : String}

/-! ## Runs of calls -/

/-- What a call is answered with, if with anything, and the catalog that it
leaves. -/
def perform (catalog : Catalog) :
    BuildCall → Option (Option Definition) × Catalog
  | .add definition => (none, catalog.add definition)
  | .insert definition =>
    let (replaced, catalog) := catalog.insert definition
    (some replaced, catalog)

/-- All the answers, in order, and the catalog in the end. -/
def run (catalog : Catalog) :
    List BuildCall → List (Option (Option Definition)) × Catalog
  | [] => ([], catalog)
  | call :: calls =>
    let (answer, catalog) := catalog.perform call
    let (answers, catalog) := run catalog calls
    (answer :: answers, catalog)

theorem perform_snd (catalog : Catalog) (call : BuildCall) :
    (catalog.perform call).2 = catalog.add call.definition := by
  cases call <;> rfl

/-- A call is answered by the catalog that the calls before it have left. -/
theorem answers_run (catalog : Catalog) (calls : List BuildCall) (i : ℕ) :
    (catalog.run calls).1[i]? =
      calls[i]?.map fun call =>
        ((catalog.run (calls.take i)).2.perform call).1 := by
  induction calls generalizing catalog i with
  | nil => rfl
  | cons call calls ih =>
      cases i with
      | zero => rfl
      | succ i => simpa [run] using ih (catalog.perform call).2 i

theorem get?_run (catalog : Catalog) (calls : List BuildCall) (name : String) :
    (catalog.run calls).2.get? name =
      (BuildCall.last? calls name).or (catalog.get? name) := by
  induction calls generalizing catalog with
  | nil => rfl
  | cons call calls ih =>
      have hstep : (catalog.run (call :: calls)).2 =
          ((catalog.add call.definition).run calls).2 := by
        rw [← perform_snd]
        rfl
      rw [hstep, ih, get?_add, BuildCall.last?_cons, Option.or_assoc]
      by_cases hname : call.definition.name = name <;> simp [hname]

theorem get?_run_empty (calls : List BuildCall) (name : String) :
    (empty.run calls).2.get? name = BuildCall.last? calls name := by
  rw [get?_run]
  exact Option.or_none

/-! ## The canonical view -/

theorem names_ascending (catalog : Catalog) :
    catalog.names.Pairwise (Text.bytes · < Text.bytes ·) := by
  apply List.pairwise_map.mpr
  exact catalog.ascending.imp Text.bytes_lt_bytes_iff.mpr

theorem mem_names_iff : name ∈ catalog.names ↔ (catalog.get? name).isSome := by
  rw [names, List.mem_map, Option.isSome_iff_exists]
  simp only [get?_eq_some_iff]

/-- The definitions are the answers for the names, in order. -/
theorem map_get?_names (catalog : Catalog) :
    catalog.names.map catalog.get? = catalog.definitions.map some := by
  rw [names, List.map_map]
  apply List.map_congr_left
  intro definition hmem
  exact get?_eq_some_iff.mpr ⟨hmem, rfl⟩

/-- What may be wrong with a stage: its operator is unknown, or it is a union,
and names no aggregation or none that there is. -/
inductive Finding (catalog : Catalog) (name : String) (i : ℕ) (stage : Stage) :
  Issue → Prop
  | unsupportedOperator
      (h : ∀ operator : StageOperator, operator.token ≠ stage.operator) :
      Finding catalog name i stage (.unsupportedOperator name i stage.operator)
  | missingUnionTarget (hunion : stage.operator = StageOperator.unionWith.token)
      (h : ∀ target,
        Fields.get? stage.args "pipeline" ≠ some (.string target)) :
      Finding catalog name i stage (.missingUnionTarget name i)
  | danglingUnion {target : String}
      (hunion : stage.operator = StageOperator.unionWith.token)
      (htarget : Fields.get? stage.args "pipeline" = some (.string target))
      (h : target ∉ catalog.names) :
      Finding catalog name i stage (.danglingUnion name i target)

theorem stageIssue?_eq_some_iff_finding {i : ℕ} {stage : Stage}
    {issue : Issue} :
    catalog.stageIssue? name i stage = some issue ↔
      catalog.Finding name i stage issue := by
  have hunknown : stage.operator? = none ↔
      ∀ operator : StageOperator, operator.token ≠ stage.operator :=
    StageOperator.ofToken?_eq_none_iff
  have hunion : stage.operator? = some .unionWith ↔
      stage.operator = StageOperator.unionWith.token :=
    StageOperator.ofToken?_eq_some_iff
  rw [stageIssue?_eq_some_iff, hunknown, hunion]
  constructor
  · rintro (⟨h, rfl⟩ | ⟨h, htarget, rfl⟩ | ⟨target, h, htarget, hmissing, rfl⟩)
    · exact .unsupportedOperator h
    · refine .missingUnionTarget h fun target hargs => ?_
      rw [Stage.unionTarget?_eq_some_iff.mpr ⟨h, hargs⟩] at htarget
      cases htarget
    · refine .danglingUnion h (Stage.unionTarget?_eq_some_iff.mp htarget).2 ?_
      simp [mem_names_iff, hmissing]
  · rintro (h | ⟨h, htarget⟩ | ⟨h, htarget, hmissing⟩)
    · exact .inl ⟨h, rfl⟩
    · refine .inr (.inl ⟨h, ?_, rfl⟩)
      apply Option.eq_none_iff_forall_ne_some.mpr
      intro target hnamed
      exact htarget target (Stage.unionTarget?_eq_some_iff.mp hnamed).2
    · refine .inr (.inr
        ⟨_, h, Stage.unionTarget?_eq_some_iff.mpr ⟨h, htarget⟩, ?_, rfl⟩)
      simpa [mem_names_iff] using hmissing

/-- The order of findings: by name, and for one name by stage. -/
def IssueBefore (first second : Issue) : Prop :=
  Text.bytes first.aggregation < Text.bytes second.aggregation ∨
    first.aggregation = second.aggregation ∧ first.index < second.index

theorem issues_ascending (catalog : Catalog) :
    catalog.issues.Pairwise IssueBefore := by
  apply List.pairwise_flatMap.mpr
  constructor
  · intro definition _
    apply List.pairwise_filterMap.mpr
    have hindices : definition.stages.zipIdx.Pairwise (·.2 < ·.2) := by
      apply List.pairwise_map.mp
      rw [List.zipIdx_map_snd]
      exact List.pairwise_lt_range'
    apply hindices.imp
    intro first second hless issue hissue issue' hissue'
    obtain ⟨hname, hindex⟩ := place_of_stageIssue? hissue
    obtain ⟨hname', hindex'⟩ := place_of_stageIssue? hissue'
    exact .inr ⟨hname.trans hname'.symm, by rwa [hindex, hindex']⟩
  · apply catalog.ascending.imp
    intro first second hless issue hissue issue' hissue'
    obtain ⟨_, _, hissue⟩ := List.mem_filterMap.mp hissue
    obtain ⟨_, _, hissue'⟩ := List.mem_filterMap.mp hissue'
    rw [IssueBefore, (place_of_stageIssue? hissue).1,
      (place_of_stageIssue? hissue').1]
    exact .inl (Text.bytes_lt_bytes_iff.mpr hless)

/-- After any calls, a catalog answers for a name with the last definition of
that name, so each definition is found under its own name, and an insertion is
answered with the definition that it replaced.  The names are in ascending order
of their bytes, as many as there are definitions, and the definitions stand in
the order of their names.  The findings are those about the stages of these
definitions, at most one for each, by name and then by stage.  Calls with the
same last definition for each name make for the same names, definitions,
findings and results. -/
theorem run_canonical (calls : List BuildCall) :
    (∀ name, (empty.run calls).2.get? name = BuildCall.last? calls name) ∧
    (∀ name definition, (empty.run calls).2.get? name = some definition →
      definition.name = name) ∧
    (∀ i definition, calls[i]? = some (.insert definition) →
      (empty.run calls).1[i]? =
        some (some (BuildCall.last? (calls.take i) definition.name))) ∧
    (empty.run calls).2.names.Pairwise (Text.bytes · < Text.bytes ·) ∧
    (empty.run calls).2.names.length = (empty.run calls).2.size ∧
    (∀ name, name ∈ (empty.run calls).2.names ↔
      ∃ call ∈ calls, call.definition.name = name) ∧
    (empty.run calls).2.definitions.map some =
      (empty.run calls).2.names.map (empty.run calls).2.get? ∧
    (empty.run calls).2.issues.Pairwise IssueBefore ∧
    (∀ issue, issue ∈ (empty.run calls).2.issues ↔
      ∃ definition stage, BuildCall.last? calls issue.aggregation =
        some definition ∧
        definition.stages[issue.index]? = some stage ∧
        (empty.run calls).2.Finding issue.aggregation issue.index stage issue) ∧
    ∀ calls',
      (∀ name, BuildCall.last? calls name = BuildCall.last? calls' name) →
      (empty.run calls).2.names = (empty.run calls').2.names ∧
      (empty.run calls).2.definitions = (empty.run calls').2.definitions ∧
      (empty.run calls).2.issues = (empty.run calls').2.issues ∧
      ∀ name params, (empty.run calls).2.compile name params =
        (empty.run calls').2.compile name params := by
  refine ⟨get?_run_empty calls, fun name definition hfound =>
    (get?_eq_some_iff.mp hfound).2,
    fun i definition hcall => ?_, names_ascending _, List.length_map _,
    fun name => ?_, (map_get?_names _).symm, issues_ascending _,
    fun issue => ?_, fun calls' hlast => ?_⟩
  · rw [answers_run, hcall, Option.map_some]
    exact congrArg (some <| some ·)
      (get?_run_empty (calls.take i) definition.name)
  · rw [mem_names_iff, get?_run_empty, BuildCall.last?_isSome_iff]
  · simp only [mem_issues_iff, stageIssue?_eq_some_iff_finding, get?_run_empty]
  · have hsame : (empty.run calls).2 = (empty.run calls').2 := by
      apply eq_of_get?_eq
      intro name
      rw [get?_run_empty, get?_run_empty, hlast]
    rw [hsame]
    exact ⟨rfl, rfl, rfl, fun _ _ => rfl⟩

end Catalog

end Aggregation
