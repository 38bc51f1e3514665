import Aggregation.Proofs.Trail
import Mathlib.Data.List.ModifyLast

/-!
# Definitions in two parts

The stages of a definition are compiled one after another, and none of them sees
what another comes to.  So where the stages are split in two, the definition
compiles to what its parts compile to, joined.  An error of the first part is
that of the whole.  An error of the second part is that of the whole once the
first part compiles, except that a stage of the definition stands further on in
the whole than in its part.
-/

namespace Aggregation

open CompileM Result

namespace CompileError

/-- The error with the outermost stage of its trail so many places further
on. -/
def shifted (error : CompileError) (places : ℕ) : CompileError :=
  { error with
    trail := error.trail.modifyLast fun trace =>
      { trace with index := trace.index + places } }

/-- Of the stages that an error has left the last one is moved. -/
theorem through_shifted (error : CompileError) (trace : Trace) (places : ℕ) :
    (error.through trace).shifted places =
      error.through { trace with index := trace.index + places } := by
  rw [shifted, through, List.modifyLast_concat]
  rfl

/-- Where a stage stands is no part of what is at fault. -/
theorem operator_shifted (error : CompileError) (places : ℕ) :
    (error.shifted places).operator = error.operator := by
  obtain ⟨cause, trail⟩ := error
  cases trail using List.reverseRecOn with
  | nil => rfl
  | append_singleton inner outermost =>
      have hshifted :
          (CompileError.mk cause (inner ++ [outermost])).shifted places =
          ⟨cause,
            inner ++ [{ outermost with index := outermost.index + places }]⟩ :=
        through_shifted ⟨cause, inner⟩ outermost places
      rw [hshifted]
      cases inner <;> rfl

end CompileError

/-! ## Lists of stages -/

section Stages

variable (embed : Embedded) (name : String) (params : Params)

/-- Stages that are joined compile one list after the other. -/
theorem stagesOutcome_append (index : ℕ) (first second : List Stage) :
    stagesOutcome embed name params index (first ++ second) =
      stagesOutcome embed name params index first >>= fun before =>
        stagesOutcome embed name params (index + first.length) second >>=
          fun after =>
          .ok (before ++ after) := by
  induction first generalizing index with
  | nil => exact (bind_pure (stagesOutcome embed name params index second)).symm
  | cons stage first ih =>
      have hindex :
          index + 1 + first.length = index + (stage :: first).length := by
        rw [List.length_cons, Nat.add_assoc, Nat.add_comm 1]
      rw [List.cons_append, stagesOutcome_cons, stagesOutcome_cons, ih, hindex]
      cases stageOutcome embed params stage with
      | error error => rfl
      | ok document =>
          cases stagesOutcome embed name params (index + 1) first with
          | error error => rfl
          | ok before =>
              cases stagesOutcome embed name params
                (index + (stage :: first).length) second <;> rfl

/-- Stages that stand further on compile alike, and their errors tell where they
stand. -/
theorem stagesOutcome_shifted (index places : ℕ) (stages : List Stage) :
    stagesOutcome embed name params (index + places) stages =
      (stagesOutcome embed name params index stages).mapError fun error =>
        error.shifted places := by
  induction stages generalizing index with
  | nil => rfl
  | cons stage stages ih =>
      rw [stagesOutcome_cons, stagesOutcome_cons, Nat.add_right_comm, ih]
      cases stageOutcome embed params stage with
      | error error =>
          exact congrArg Except.error
            (error.through_shifted (stage.trace name index) places).symm
      | ok document =>
          cases stagesOutcome embed name params (index + 1) stages <;> rfl

end Stages

/-! ## Definitions -/

/-- A definition is refused in both of its parts where its name is open, and
else its parts compile one after the other. -/
theorem outcome_append (catalog : Catalog) (active : List String)
    (name collection : String) (params : Params) (first second : List Stage) :
    outcome catalog active ⟨name, collection, first ++ second⟩ params =
      outcome catalog active ⟨name, collection, first⟩ params >>= fun before =>
        (outcome catalog active ⟨name, collection, second⟩ params).mapError
          (fun error => error.shifted first.length) >>= fun after =>
            .ok (before ++ after) := by
  by_cases hopen : name ∈ active
  · have hopened (stages : List Stage) :
        (Definition.mk name collection stages).name ∈ active := hopen
    rw [outcome_of_open (hopened _), outcome_of_open (hopened _)]
    rfl
  · have hclosed (stages : List Stage) :
        (Definition.mk name collection stages).name ∉ active := hopen
    rw [outcome_of_closed (hclosed _), outcome_of_closed (hclosed _),
      outcome_of_closed (hclosed _), ← stagesOutcome_shifted]
    exact stagesOutcome_append _ name params 0 first second

/-- An error that a definition is refused with from the start has left a
stage. -/
theorem trail_ne_nil_of_compileDefinition {catalog : Catalog}
    {definition : Definition} {params : Params} {error : CompileError}
    (h : (catalog.compileDefinition definition params).collect.1 =
      .error error) :
    error.trail ≠ [] := by
  rw [collect_compileDefinition] at h
  intro hempty
  exact List.not_mem_nil
    ((fails_of_outcome [] definition h).trail_eq_nil_iff.mp hempty)

/-- A definition compiles exactly if both of its parts do, and then to what they
compile to, joined.  An error of the first part is that of the whole, whatever
the second part is.  Where the first part compiles, an error of the second part
is that of the whole, except that the outermost stage which it names stands as
many places further on as the first part has stages. -/
theorem compileDefinition_append (catalog : Catalog) (name collection : String)
    (params : Params) (first second : List Stage) :
    (∀ pipeline,
      (catalog.compileDefinition ⟨name, collection, first ++ second⟩
        params).collect.1 = .ok pipeline ↔
        ∃ before after,
          (catalog.compileDefinition ⟨name, collection, first⟩
            params).collect.1 = .ok before ∧
          (catalog.compileDefinition ⟨name, collection, second⟩
            params).collect.1 = .ok after ∧
          pipeline = before ++ after) ∧
    (∀ error,
      (catalog.compileDefinition ⟨name, collection, first⟩ params).collect.1 =
          .error error →
        (catalog.compileDefinition ⟨name, collection,
          first ++ second⟩ params).collect.1 = .error error) ∧
    ∀ before error,
      (catalog.compileDefinition ⟨name, collection, first⟩ params).collect.1 =
          .ok before →
      (catalog.compileDefinition ⟨name, collection, second⟩ params).collect.1 =
          .error error →
        error.trail ≠ [] ∧
        (catalog.compileDefinition ⟨name, collection, first ++ second⟩
          params).collect.1 = .error (error.shifted first.length) ∧
        (error.shifted first.length).operator = error.operator := by
  have hwhole :
      (catalog.compileDefinition ⟨name, collection, first ++ second⟩
        params).collect.1 =
        (catalog.compileDefinition ⟨name, collection, first⟩
          params).collect.1 >>= fun before =>
            (catalog.compileDefinition ⟨name, collection, second⟩
              params).collect.1.mapError
                (fun error => error.shifted first.length) >>= fun after =>
                  .ok (before ++ after) := by
    simp only [collect_compileDefinition]
    exact outcome_append catalog [] name collection params first second
  rw [hwhole]
  refine ⟨fun pipeline => ?_, fun error hfirst => ?_,
    fun before error hfirst hsecond => ?_⟩
  · rw [bind_eq_ok_iff]
    apply exists_congr
    intro before
    simp only [bind_eq_ok_iff, mapError_eq_ok_iff, Except.ok.injEq,
      exists_and_left, @eq_comm _ pipeline]
  · rw [hfirst]
    rfl
  · refine ⟨trail_ne_nil_of_compileDefinition hsecond, ?_,
      error.operator_shifted first.length⟩
    rw [hfirst, hsecond]
    rfl

/-- The stages of the report. -/
def Stage.grouping : Stage :=
  ⟨none, "$group", []⟩

def Stage.unitingOrders : Stage :=
  ⟨some "past", "$unionWith", [("pipeline", .string "orders")]⟩

theorem compileDefinition_grouping :
    (Catalog.reports.compileDefinition ⟨"report", "reports", [.grouping]⟩
      .nearTotal).collect.1 = .ok [[("$group", .document [])]] := by
  rfl

theorem compileDefinition_unitingOrders :
    (Catalog.reports.compileDefinition ⟨"report", "reports", [.unitingOrders]⟩
      .nearTotal).collect.1 =
        .error ⟨.unknownFilterOperator "total" "$near",
          [⟨"orders", 0, some "where", "$match"⟩,
            ⟨"report", 0, some "past", "$unionWith"⟩]⟩ := by
  rfl

/-- The union of the report fails as the first stage of its part and as the
second stage of the whole.  With the parts the other way round it fails as it
does alone. -/
theorem compileDefinition_reports_append :
    ∃ error,
      (Catalog.reports.compileDefinition ⟨"report", "reports", [.unitingOrders]⟩
        .nearTotal).collect.1 = .error error ∧
      error.trail.map Trace.index = [0, 0] ∧
      (Catalog.reports.compileDefinition
        ⟨"report", "reports", [.grouping, .unitingOrders]⟩
        .nearTotal).collect.1 = .error (error.shifted 1) ∧
      (error.shifted 1).trail.map Trace.index = [0, 1] ∧
      (Catalog.reports.compileDefinition
        ⟨"report", "reports", [.unitingOrders, .grouping]⟩
        .nearTotal).collect.1 = .error error := by
  obtain ⟨-, -, hsecond⟩ :=
    compileDefinition_append .reports "report" "reports" .nearTotal
      [.grouping] [.unitingOrders]
  obtain ⟨-, hfirst, -⟩ :=
    compileDefinition_append .reports "report" "reports" .nearTotal
      [.unitingOrders] [.grouping]
  obtain ⟨-, hlater, -⟩ :=
    hsecond _ _ compileDefinition_grouping compileDefinition_unitingOrders
  have hearlier := hfirst _ compileDefinition_unitingOrders
  exact ⟨_, compileDefinition_unitingOrders, rfl, hlater, rfl, hearlier⟩

end Aggregation
