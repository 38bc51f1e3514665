import Aggregation.Proofs.Filter
import Aggregation.Proofs.Outcome

/-!
# Single stages

What one stage contributes, said of its operator, its arguments and what is
bound to its key.  `Stage.Yields` covers the stages that stand by themselves; a
union contributes what is embedded for its target.  `stageOutcome_eq_ok_iff`
and `stageOutcome_eq_error_iff` are all that later files need of the planning
of stages.
-/

namespace Aggregation

open CompileM Result

namespace StageOperator

theorem ofToken?_token (operator : StageOperator) :
    ofToken? operator.token = some operator := by
  cases operator <;> rfl

theorem ofToken?_eq_some_iff {token : String} {operator : StageOperator} :
    ofToken? token = some operator ↔ token = operator.token := by
  constructor
  · intro h
    have hfound := List.find?_some h
    exact (of_decide_eq_true hfound).symm
  · rintro rfl
    exact ofToken?_token operator

theorem ofToken?_eq_none_iff {token : String} :
    ofToken? token = none ↔ ∀ operator : StageOperator,
      operator.token ≠ token := by
  rw [Option.eq_none_iff_forall_ne_some]
  exact forall_congr' fun operator =>
    not_congr (ofToken?_eq_some_iff.trans eq_comm)

theorem token_injective : Function.Injective token := by
  intro left right htokens
  have hleft := ofToken?_token left
  rw [htokens, ofToken?_token] at hleft
  exact (Option.some.inj hleft).symm

end StageOperator

namespace Params

/-- What is bound for a stage with this key; an empty key is none. -/
def bound? (params : Params) (key : Option String) : Option Param :=
  (key.filter fun key => !key.isEmpty).bind params.get?

/-- The bindings for what a stage with this key embeds: the mapping bound for
it, and the empty one where something else or nothing is bound. -/
def within (params : Params) (key : Option String) : Params :=
  match params.bound? key with
  | some (.params entries) => entries
  | _ => Params.empty

theorem bound?_eq_some_iff {params : Params} {key : Option String}
    {param : Param} :
    params.bound? key = some param ↔
      ∃ name, key = some name ∧ name ≠ "" ∧ params.get? name = some param := by
  simp [bound?, Option.bind_eq_some_iff, Option.filter_eq_some_iff, and_assoc]

theorem within_eq_getD (params : Params) (key : Option String) :
    params.within key =
      ((params.bound? key).bind Param.asParams?).getD Params.empty := by
  unfold within
  rcases params.bound? key with _ | (value | filter | entries) <;> rfl

end Params

namespace Stage

theorem unionTarget?_eq_some_iff {stage : Stage} {target : String} :
    stage.unionTarget? = some target ↔
      stage.operator = StageOperator.unionWith.token ∧
        Fields.get? stage.args "pipeline" = some (.string target) := by
  unfold unionTarget? operator?
  constructor
  · intro h
    split at h
    · next hoperator =>
        refine ⟨StageOperator.ofToken?_eq_some_iff.mp hoperator, ?_⟩
        obtain ⟨value, hvalue, hstring⟩ := Option.bind_eq_some_iff.mp h
        cases value <;> simp_all [Value.asString?]
    · cases h
  · rintro ⟨htoken, htarget⟩
    rw [htoken, StageOperator.ofToken?_token]
    simp [Aggregation.unionTarget?, htarget, Value.asString?]

/-- The value of a stage that stands by itself. -/
inductive Yields (params : Params) (stage : Stage) : Value → Prop
  | passThrough {operator : StageOperator} {key : String} {param : Param}
      {value : Value} (hoperator : operator = .skip ∨ operator = .limit)
      (htoken : stage.operator = operator.token)
      (hkey : stage.key = some key) (hnonempty : key ≠ "")
      (hbound : params.get? key = some param)
      (hvalue : param.toValue? = some value) : Yields params stage value
  | staticEcho {operator : StageOperator}
      (hoperator : operator = .project ∨ operator = .group)
      (htoken : stage.operator = operator.token) :
      Yields params stage (.document stage.args)
  | orderedSort {sorted : Document}
      (htoken : stage.operator = StageOperator.sort.token)
      (hsorted : Sort.ofArgs stage.args = .ok sorted) :
      Yields params stage (.document sorted)
  | matching {key : String} {filter : Filter} {document : Document}
      (htoken : stage.operator = StageOperator.matching.token)
      (hkey : stage.key = some key) (hnonempty : key ≠ "")
      (hbound : params.get? key = some (.filter (some filter)))
      (hcompiled : Filter.compileTerms filter.terms = .ok document) :
      Yields params stage (.document document)

theorem Yields.not_union {params : Params} {stage : Stage} {value : Value}
    (h : stage.Yields params value) (target : String) :
    stage.unionTarget? ≠ some target := by
  intro htarget
  obtain ⟨hunion, -⟩ := unionTarget?_eq_some_iff.mp htarget
  cases h with
  | passThrough hoperator htoken | staticEcho hoperator htoken =>
      have hsame := StageOperator.token_injective (htoken.symm.trans hunion)
      rw [hsame] at hoperator
      simp at hoperator
  | orderedSort htoken | matching htoken =>
      have hsame := StageOperator.token_injective (htoken.symm.trans hunion)
      cases hsame

end Stage

theorem planOf_of_token {stage : Stage} {operator : StageOperator}
    (htoken : stage.operator = operator.token) (params : Params) :
    planOf params stage =
      (operator.plan stage.args (params.bound? stage.key)).map
        (operator, ·) := by
  have hoperator : stage.operator? = some operator :=
    StageOperator.ofToken?_eq_some_iff.mpr htoken
  simp only [planOf, Stage.resolve, hoperator]
  change (operator.plan stage.args (params.bound? stage.key) >>= _) = _
  cases operator.plan stage.args (params.bound? stage.key) <;> rfl

theorem planOf_of_unregistered {stage : Stage}
    (hunregistered : stage.operator? = none) (params : Params) :
    planOf params stage =
      .error (.unknownStageOperator stage.paramKey stage.operator) := by
  simp only [planOf, Stage.resolve, hunregistered]
  rfl

theorem planOf_eq_ok_iff {params : Params} {stage : Stage}
    {operator : StageOperator} {plan : StagePlan} :
    planOf params stage = .ok (operator, plan) ↔
      stage.operator? = some operator ∧
        operator.plan stage.args (params.bound? stage.key) = .ok plan := by
  cases hoperator : stage.operator? with
  | none => simp [planOf_of_unregistered hoperator]
  | some registered =>
      have htoken := StageOperator.ofToken?_eq_some_iff.mp hoperator
      rw [planOf_of_token htoken, map_eq_ok_iff]
      constructor
      · intro h
        obtain ⟨inner, hplan, hpair⟩ := h
        cases hpair
        exact ⟨rfl, hplan⟩
      · intro h
        cases h.1
        exact ⟨plan, h.2, rfl⟩

namespace StageOperator

variable {args : Document} {param : Option Param} {plan : StagePlan}

theorem plan_passThrough_eq_ok_iff {operator : StageOperator}
    (hoperator : operator = .skip ∨ operator = .limit) :
    operator.plan args param = .ok plan ↔
      ∃ value, param.bind Param.toValue? = some value ∧
        plan = .operand value := by
  have hkind : operator.kind = .passThrough := by
    rcases hoperator with rfl | rfl <;> rfl
  cases param with
  | none => simp [StageOperator.plan, requiresParam, hkind]
  | some param =>
      simp only [StageOperator.plan, hkind, planPassThrough, Option.bind_some]
      cases param.toValue? <;> simp [eq_comm]

theorem plan_staticEcho {operator : StageOperator}
    (hoperator : operator = .project ∨ operator = .group) :
    operator.plan args param = .ok (.operand (.document args)) := by
  rcases hoperator with rfl | rfl <;>
    simp [StageOperator.plan, requiresParam, kind]

theorem plan_sort_eq_ok_iff :
    sort.plan args param = .ok plan ↔
      ∃ sorted, Sort.ofArgs args = .ok sorted ∧
        plan = .operand (.document sorted) := by
  simp only [StageOperator.plan, requiresParam, kind]
  cases Sort.ofArgs args <;> simp [eq_comm]

theorem plan_matching_eq_ok_iff :
    matching.plan args param = .ok plan ↔
      ∃ filter document, param = some (.filter (some filter)) ∧
        Filter.compileTerms filter.terms = .ok document ∧
          plan = .filter document := by
  rcases param with _ | (value | bound | entries)
  · simp [StageOperator.plan, requiresParam, kind]
  · simp [StageOperator.plan, kind, planFilter, Param.asFilter?]
  · cases bound with
    | none =>
        simp [StageOperator.plan, kind, planFilter, Param.asFilter?,
          Filter.build, Except.map]
    | some filter =>
        simp [StageOperator.plan, kind, planFilter, Param.asFilter?,
          Filter.build, map_eq_ok_iff, @eq_comm _ plan]
  · simp [StageOperator.plan, kind, planFilter, Param.asFilter?]

/-- A union asks for what its target compiles to, or for nothing at all. -/
theorem plan_unionWith :
    unionWith.plan args param =
      match unionTarget? args with
      | some target =>
          if target = "" then .error (.structural .unionWithoutTarget)
          else
            .ok (.embed target
              ((param.bind Param.asParams?).getD Params.empty))
      | none => .error (.structural .unionWithoutTarget) := by
  cases param <;>
    simp only [StageOperator.plan, planUnion, String.isEmpty_iff] <;> rfl

theorem plan_eq_filter_iff {operator : StageOperator} {document : Document} :
    operator.plan args param = .ok (.filter document) ↔
      operator = .matching ∧ ∃ filter, param = some (.filter (some filter)) ∧
        Filter.compileTerms filter.terms = .ok document := by
  cases operator with
  | skip | limit => simp [plan_passThrough_eq_ok_iff]
  | project | group => simp [plan_staticEcho]
  | sort => simp [plan_sort_eq_ok_iff]
  | matching => simp [plan_matching_eq_ok_iff]
  | unionWith =>
      rw [plan_unionWith]
      split
      · split <;> simp
      · simp

theorem plan_eq_embed_iff {operator : StageOperator} {target : String}
    {nested : Params} :
    operator.plan args param = .ok (.embed target nested) ↔
      operator = .unionWith ∧ unionTarget? args = some target ∧ target ≠ "" ∧
        nested = (param.bind Param.asParams?).getD Params.empty := by
  cases operator with
  | skip | limit => simp [plan_passThrough_eq_ok_iff]
  | project | group => simp [plan_staticEcho]
  | sort => simp [plan_sort_eq_ok_iff]
  | matching => simp [plan_matching_eq_ok_iff]
  | unionWith =>
      rw [plan_unionWith]
      cases unionTarget? args with
      | none => simp
      | some named => by_cases hempty : named = "" <;> simp_all [eq_comm]

/-- A union and a match ask for more than an operand. -/
theorem plan_eq_operand {operator : StageOperator} {value : Value}
    (h : operator.plan args param = .ok (.operand value)) :
    operator ≠ .matching ∧ operator ≠ .unionWith := by
  constructor
  · rintro rfl
    simp [plan_matching_eq_ok_iff] at h
  · rintro rfl
    rw [plan_unionWith] at h
    split at h
    · split at h <;> cases h
    · cases h

theorem plan_eq_error {operator : StageOperator} {cause : Cause}
    (h : operator.plan args param = .error cause) :
    (∃ found, cause = .mismatch found) ∨
      (operator.requiresParam = false ∧ ∃ found, cause = .structural found) ∨
      operator = .matching ∧ ∃ filter, param = some (.filter (some filter)) ∧
        Filter.compileTerms filter.terms = .error cause := by
  unfold StageOperator.plan at h
  split at h
  · exact .inl ⟨_, (Except.error.inj h).symm⟩
  · cases operator with
    | skip | limit =>
        simp only [kind, planPassThrough] at h
        split at h
        · cases h
        · exact .inl ⟨_, (Except.error.inj h).symm⟩
    | project | group => cases h
    | sort =>
        simp only [kind] at h
        split at h
        · cases h
        · exact .inr (.inl ⟨rfl, _, (Except.error.inj h).symm⟩)
    | matching =>
        simp only [kind, planFilter] at h
        rcases param with _ | (value | bound | entries)
        · exact .inl ⟨_, (Except.error.inj h).symm⟩
        · exact .inl ⟨_, (Except.error.inj h).symm⟩
        · cases bound with
          | none => exact .inl ⟨_, (Except.error.inj h).symm⟩
          | some filter =>
              exact .inr (.inr ⟨rfl, filter, rfl, map_eq_error_iff.mp h⟩)
        · exact .inl ⟨_, (Except.error.inj h).symm⟩
    | unionWith =>
        simp only [kind, planUnion] at h
        split at h
        · split at h
          · exact .inr (.inl ⟨rfl, _, (Except.error.inj h).symm⟩)
          · cases h
        · exact .inr (.inl ⟨rfl, _, (Except.error.inj h).symm⟩)

end StageOperator

/-- Only a union asks for another aggregation. -/
theorem planOf_embed_operator {params nested : Params} {stage : Stage}
    {operator : StageOperator} {target : String}
    (h : planOf params stage = .ok (operator, .embed target nested)) :
    operator = .unionWith := by
  obtain ⟨-, hplan⟩ := planOf_eq_ok_iff.mp h
  exact (StageOperator.plan_eq_embed_iff.mp hplan).1

/-- How planning fails: for a reason that names no field, and no operator but
that of the stage, or because the bound filter does not compile. -/
theorem planOf_eq_error {params : Params} {stage : Stage} {cause : Cause}
    (h : planOf params stage = .error cause) :
    (cause.field = none ∧ cause.code ≠ .cycleDetected ∧
        (cause.operator = none ∨ cause.operator = some stage.operator)) ∨
      stage.operator = StageOperator.matching.token ∧
        ∃ filter, params.bound? stage.key = some (.filter (some filter)) ∧
          Filter.compileTerms filter.terms = .error cause := by
  cases hoperator : stage.operator? with
  | none =>
      rw [planOf_of_unregistered hoperator] at h
      cases h
      exact .inl ⟨rfl, nofun, .inr rfl⟩
  | some operator =>
      have htoken := StageOperator.ofToken?_eq_some_iff.mp hoperator
      rw [planOf_of_token htoken, map_eq_error_iff] at h
      rcases StageOperator.plan_eq_error h with
        ⟨found, rfl⟩ | ⟨-, found, rfl⟩ | ⟨rfl, filter, hbound, hcompiled⟩
      · exact .inl ⟨rfl, nofun, .inl rfl⟩
      · exact .inl ⟨rfl, nofun, .inl rfl⟩
      · exact .inr ⟨htoken, filter, hbound, hcompiled⟩

/-- No stage by itself is a cycle. -/
theorem planOf_error_not_cycle {params : Params} {stage : Stage} {cause : Cause}
    (h : planOf params stage = .error cause) : cause.code ≠ .cycleDetected := by
  rcases planOf_eq_error h with ⟨-, hcode, -⟩ | ⟨-, filter, -, hfails⟩
  · exact hcode
  · obtain ⟨_, field, _, -, -, -, hfield, -⟩ :=
      Filter.compileTerms_eq_error hfails
    intro hcode
    cases cause <;> cases hcode
    cases hfield

/-! ## What planning a stage comes to -/

section Outcome

variable {embed : Embedded} {params : Params} {stage : Stage}

theorem stageOutcome_of_token {operator : StageOperator}
    (htoken : stage.operator = operator.token) :
    stageOutcome embed params stage =
      match operator.plan stage.args (params.bound? stage.key) with
      | .error cause => .error ⟨cause, []⟩
      | .ok plan => planOutcome embed operator plan := by
  rw [stageOutcome, planOf_of_token htoken]
  cases operator.plan stage.args (params.bound? stage.key) <;> rfl

theorem stageOutcome_of_plan {operator : StageOperator} {plan : StagePlan}
    (htoken : stage.operator = operator.token)
    (hplan : operator.plan stage.args (params.bound? stage.key) = .ok plan) :
    stageOutcome embed params stage = planOutcome embed operator plan := by
  rw [stageOutcome_of_token htoken, hplan]

theorem stageOutcome_of_yields {value : Value} (h : stage.Yields params value) :
    stageOutcome embed params stage = .ok [(stage.operator, value)] := by
  cases h with
  | passThrough hoperator htoken hkey hnonempty hbound hvalue =>
      have hbinding :=
        Params.bound?_eq_some_iff.mpr ⟨_, hkey, hnonempty, hbound⟩
      have hpassed :
          (params.bound? stage.key).bind Param.toValue? = some value := by
        rw [hbinding]
        exact hvalue
      rw [stageOutcome_of_plan htoken
        ((StageOperator.plan_passThrough_eq_ok_iff hoperator).mpr
          ⟨value, hpassed, rfl⟩),
        htoken]
      rfl
  | staticEcho hoperator htoken =>
      rw [stageOutcome_of_plan htoken (StageOperator.plan_staticEcho hoperator),
        htoken]
      rfl
  | orderedSort htoken hsorted =>
      rw [stageOutcome_of_plan htoken
        (StageOperator.plan_sort_eq_ok_iff.mpr ⟨_, hsorted, rfl⟩), htoken]
      rfl
  | matching htoken hkey hnonempty hbound hcompiled =>
      have hbinding :=
        Params.bound?_eq_some_iff.mpr ⟨_, hkey, hnonempty, hbound⟩
      rw [stageOutcome_of_plan htoken
        (StageOperator.plan_matching_eq_ok_iff.mpr
          ⟨_, _, hbinding, hcompiled, rfl⟩),
        htoken]
      rfl

/-- A union with a proper target is what is embedded for it. -/
theorem stageOutcome_of_unionTarget {target : String}
    (htarget : stage.unionTarget? = some target) (hnonempty : target ≠ "") :
    stageOutcome embed params stage =
      embed target (params.within stage.key) >>= fun embedded =>
        .ok [(stage.operator, unionValue embedded.1 embedded.2)] := by
  obtain ⟨htoken, hargs⟩ := Stage.unionTarget?_eq_some_iff.mp htarget
  have hplan :
      StageOperator.unionWith.plan stage.args (params.bound? stage.key) =
      .ok (.embed target (params.within stage.key)) := by
    rw [StageOperator.plan_unionWith, Params.within_eq_getD]
    simp [unionTarget?, hargs, Value.asString?, hnonempty]
  rw [stageOutcome_of_plan htoken hplan, htoken]
  rfl

/-- A stage either stands by itself, or is a union with a proper target, or
fails whatever is embedded. -/
theorem stage_cases (params : Params) (stage : Stage) :
    (∃ value, stage.Yields params value) ∨
      (∃ target, stage.unionTarget? = some target ∧ target ≠ "") ∨
      ∃ cause, planOf params stage = .error cause := by
  cases hoperator : stage.operator? with
  | none => exact .inr (.inr ⟨_, planOf_of_unregistered hoperator params⟩)
  | some operator =>
      have htoken := StageOperator.ofToken?_eq_some_iff.mp hoperator
      cases hplan : operator.plan stage.args (params.bound? stage.key) with
      | error cause =>
          refine .inr (.inr ⟨cause, ?_⟩)
          rw [planOf_of_token htoken, hplan]
          rfl
      | ok plan =>
          cases operator with
          | skip | limit =>
              obtain ⟨value, hvalue, -⟩ :=
                (StageOperator.plan_passThrough_eq_ok_iff (by simp)).mp hplan
              obtain ⟨param, hbinding, hvalue⟩ :=
                Option.bind_eq_some_iff.mp hvalue
              obtain ⟨key, hkey, hnonempty, hbound⟩ :=
                Params.bound?_eq_some_iff.mp hbinding
              exact .inl ⟨value,
                .passThrough (by simp) htoken hkey hnonempty hbound hvalue⟩
          | project | group => exact .inl ⟨_, .staticEcho (by simp) htoken⟩
          | sort =>
              obtain ⟨sorted, hsorted, -⟩ :=
                StageOperator.plan_sort_eq_ok_iff.mp hplan
              exact .inl ⟨_, .orderedSort htoken hsorted⟩
          | matching =>
              obtain ⟨filter, document, hbinding, hcompiled, -⟩ :=
                StageOperator.plan_matching_eq_ok_iff.mp hplan
              obtain ⟨key, hkey, hnonempty, hbound⟩ :=
                Params.bound?_eq_some_iff.mp hbinding
              exact .inl ⟨_, .matching htoken hkey hnonempty hbound hcompiled⟩
          | unionWith =>
              rw [StageOperator.plan_unionWith] at hplan
              cases htarget : unionTarget? stage.args with
              | none => rw [htarget] at hplan; cases hplan
              | some target =>
                  have hnonempty : target ≠ "" := by
                    rintro rfl
                    rw [htarget] at hplan
                    cases hplan
                  refine .inr (.inl ⟨target, ?_, hnonempty⟩)
                  rw [Stage.unionTarget?, hoperator]
                  exact htarget

theorem stageOutcome_of_planOf_error {cause : Cause}
    (h : planOf params stage = .error cause) :
    stageOutcome embed params stage = .error ⟨cause, []⟩ := by
  rw [stageOutcome, h]

theorem stageOutcome_eq_ok_iff {document : Document} :
    stageOutcome embed params stage = .ok document ↔
      (∃ value, stage.Yields params value ∧
        document = [(stage.operator, value)]) ∨
        ∃ target collection pipeline, stage.unionTarget? = some target ∧
          target ≠ "" ∧
          embed target (params.within stage.key) = .ok (collection, pipeline) ∧
          document = [(stage.operator, unionValue collection pipeline)] := by
  constructor
  · intro h
    rcases stage_cases params stage with
      ⟨value, hyields⟩ | ⟨target, htarget, hnonempty⟩ | ⟨cause, hcause⟩
    · rw [stageOutcome_of_yields hyields] at h
      exact .inl ⟨value, hyields, (Except.ok.inj h).symm⟩
    · rw [stageOutcome_of_unionTarget htarget hnonempty, bind_eq_ok_iff] at h
      obtain ⟨⟨collection, pipeline⟩, hembed, hdocument⟩ := h
      exact .inr ⟨target, collection, pipeline, htarget, hnonempty, hembed,
        (Except.ok.inj hdocument).symm⟩
    · rw [stageOutcome_of_planOf_error hcause] at h
      cases h
  · rintro (⟨value, hyields, rfl⟩ |
      ⟨target, collection, pipeline, htarget, hnonempty, hembed, rfl⟩)
    · exact stageOutcome_of_yields hyields
    · rw [stageOutcome_of_unionTarget htarget hnonempty, hembed]
      rfl

theorem stageOutcome_eq_error_iff {error : CompileError} :
    stageOutcome embed params stage = .error error ↔
      (∃ cause, planOf params stage = .error cause ∧ error = ⟨cause, []⟩) ∨
        ∃ target, stage.unionTarget? = some target ∧ target ≠ "" ∧
          embed target (params.within stage.key) = .error error := by
  constructor
  · intro h
    rcases stage_cases params stage with
      ⟨value, hyields⟩ | ⟨target, htarget, hnonempty⟩ | ⟨cause, hcause⟩
    · rw [stageOutcome_of_yields hyields] at h
      cases h
    · rw [stageOutcome_of_unionTarget htarget hnonempty, bind_eq_error_iff] at h
      rcases h with hembed | ⟨embedded, -, h⟩
      · exact .inr ⟨target, htarget, hnonempty, hembed⟩
      · cases h
    · rw [stageOutcome_of_planOf_error hcause] at h
      exact .inl ⟨cause, hcause, (Except.error.inj h).symm⟩
  · rintro (⟨cause, hcause, rfl⟩ | ⟨target, htarget, hnonempty, hembed⟩)
    · exact stageOutcome_of_planOf_error hcause
    · rw [stageOutcome_of_unionTarget htarget hnonempty, hembed]
      rfl

/-! ## Lists of stages -/

theorem forall₂_iff_getElem? {α β : Type} {R : α → β → Prop} {left : List α}
    {right : List β} :
    List.Forall₂ R left right ↔
      right.length = left.length ∧
        ∀ (i : ℕ) (a : α) (b : β), left[i]? = some a →
          right[i]? = some b → R a b := by
  rw [List.forall₂_iff_get]
  constructor
  · rintro ⟨hlength, hall⟩
    refine ⟨hlength.symm, fun i a b ha hb => ?_⟩
    obtain ⟨hi, rfl⟩ := List.getElem?_eq_some_iff.mp ha
    obtain ⟨hj, rfl⟩ := List.getElem?_eq_some_iff.mp hb
    exact hall i hi hj
  · rintro ⟨hlength, hall⟩
    refine ⟨hlength.symm, fun i hi hj => ?_⟩
    exact hall i _ _ (List.getElem?_eq_getElem hi) (List.getElem?_eq_getElem hj)

theorem stagesOutcome_cons (embed : Embedded) (name : String) (params : Params)
    (index : ℕ) (stage : Stage) (stages : List Stage) :
    stagesOutcome embed name params index (stage :: stages) =
      ((stageOutcome embed params stage).mapError fun error =>
        error.through (stage.trace name index)) >>= fun document =>
          stagesOutcome embed name params (index + 1) stages >>= fun pipeline =>
            .ok (document :: pipeline) :=
  rfl

/-- Stages that compile do so one by one. -/
theorem stagesOutcome_eq_ok_iff {name : String} {index : ℕ}
    {stages : List Stage} {pipeline : Pipeline} :
    stagesOutcome embed name params index stages = .ok pipeline ↔
      List.Forall₂
        (fun stage document => stageOutcome embed params stage = .ok document)
        stages pipeline := by
  induction stages generalizing index pipeline with
  | nil =>
      rw [List.forall₂_nil_left_iff]
      simp [stagesOutcome, eq_comm]
  | cons stage stages ih =>
      rw [stagesOutcome_cons, bind_eq_ok_iff, List.forall₂_cons_left_iff]
      constructor
      · rintro ⟨document, hdocument, hrest⟩
        obtain ⟨documents, hdocuments, hpipeline⟩ := bind_eq_ok_iff.mp hrest
        exact ⟨document, documents, mapError_eq_ok_iff.mp hdocument,
          ih.mp hdocuments, (Except.ok.inj hpipeline).symm⟩
      · rintro ⟨document, documents, hdocument, hdocuments, rfl⟩
        refine ⟨document, mapError_eq_ok_iff.mpr hdocument, ?_⟩
        rw [ih.mpr hdocuments]
        rfl

theorem exists_stageOutcome_of_mem {name : String} {index : ℕ}
    {stages : List Stage} {pipeline : Pipeline}
    (h : stagesOutcome embed name params index stages = .ok pipeline)
    (hmem : stage ∈ stages) :
    ∃ document, stageOutcome embed params stage = .ok document := by
  rw [stagesOutcome_eq_ok_iff] at h
  induction h with
  | nil => cases hmem
  | cons hdocument _ ih =>
      cases List.mem_cons.mp hmem with
      | inl hself => exact ⟨_, hself ▸ hdocument⟩
      | inr hrest => exact ih hrest

/-- Stages that fail do so at the first of them that fails, which joins the
trail. -/
theorem stagesOutcome_eq_error_iff {name : String} {index : ℕ}
    {stages : List Stage} {error : CompileError} :
    stagesOutcome embed name params index stages = .error error ↔
      ∃ before stage after documents inner,
        stages = before ++ stage :: after ∧
          List.Forall₂
            (fun stage document =>
              stageOutcome embed params stage = .ok document)
            before documents ∧
          stageOutcome embed params stage = .error inner ∧
          error = inner.through (stage.trace name (index + before.length)) := by
  induction stages generalizing index with
  | nil => simp [stagesOutcome]
  | cons head tail ih =>
      rw [stagesOutcome_cons, bind_eq_error_iff, mapError_eq_error_iff]
      constructor
      · rintro (⟨inner, hinner, rfl⟩ | ⟨document, hdocument, hrest⟩)
        · exact ⟨[], head, tail, [], inner, rfl, .nil, hinner, rfl⟩
        · rcases bind_eq_error_iff.mp hrest with htail | ⟨_, _, hcontra⟩
          · obtain ⟨before, stage, after, documents, inner, rfl, hbefore,
                hinner, rfl⟩ :=
              ih.mp htail
            refine ⟨head :: before, stage, after,
              document :: documents, inner, rfl,
              .cons (mapError_eq_ok_iff.mp hdocument) hbefore, hinner, ?_⟩
            rw [List.length_cons, Nat.add_right_comm, Nat.add_assoc]
          · cases hcontra
      · rintro ⟨before, stage, after, documents, inner, hsplit, hbefore,
          hinner, rfl⟩
        cases hbefore with
        | nil =>
            obtain ⟨rfl, rfl⟩ := List.cons.inj hsplit
            exact .inl ⟨inner, hinner, rfl⟩
        | @cons first document before documents hfirst hbefore =>
            obtain ⟨rfl, rfl⟩ := List.cons.inj hsplit
            refine .inr ⟨document, mapError_eq_ok_iff.mpr hfirst,
              bind_eq_error_iff.mpr (.inl (ih.mpr ?_))⟩
            refine ⟨before, stage, after, documents, inner, rfl,
              hbefore, hinner, ?_⟩
            rw [List.length_cons, Nat.add_right_comm, Nat.add_assoc]

end Outcome

end Aggregation
