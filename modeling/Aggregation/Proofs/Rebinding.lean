import Aggregation.Proofs.Dependence
import Aggregation.Proofs.Trail

/-!
# Bindings that move an error

A stage reads what is bound for it at the end of a way: through the unions that
lead to it, each by its key, and then by its own.  Where all of these have a
key, something else can be bound at the end, and an error that lies in what is
bound there arises there no more.  Where one has none, nothing that is bound
gets through, and the error is the same for all bindings that meet it.
-/

namespace Aggregation

open CompileM Result

/-! ## Where errors arise -/

namespace StageOperator

/-- Only a stage that needs a binding can find fault with its shape. -/
theorem requiresParam_of_typeMismatch {operator : StageOperator}
    {args : Document} {param : Option Param} {cause : Cause}
    (hcause : operator.plan args param = .error cause)
    (hcode : cause.code = .typeMismatch) : operator.requiresParam = true := by
  cases operator with
  | skip | limit | matching => rfl
  | project | group =>
      rw [plan_staticEcho (by simp)] at hcause
      cases hcause
  | sort =>
      rw [plan_sort] at hcause
      split at hcause <;> cases hcause
      cases hcode
  | unionWith =>
      rw [plan_unionWith] at hcause
      split at hcause
      · split at hcause <;> cases hcause
        cases hcode
      · cases hcause
        cases hcode

/-- A union needs no binding. -/
theorem not_requiresParam_of_unionTarget? {operator : StageOperator}
    {stage : Stage} {target : String} (htoken : stage.operator = operator.token)
    (htarget : stage.unionTarget? = some target) :
    operator.requiresParam = false := by
  obtain ⟨hunion, -⟩ := Stage.unionTarget?_eq_some_iff.mp htarget
  obtain rfl := token_injective (htoken.symm.trans hunion)
  rfl

end StageOperator

/-- A stage whose planning fails for a shape has an operator that needs a
binding. -/
theorem planOf_typeMismatch_operator {params : Params} {stage : Stage}
    {cause : Cause} (hcause : planOf params stage = .error cause)
    (hcode : cause.code = .typeMismatch) :
    ∃ operator : StageOperator, stage.operator = operator.token ∧
      operator.requiresParam = true := by
  cases hoperator : stage.operator? with
  | none =>
      rw [planOf_of_unregistered hoperator] at hcause
      cases hcause
      cases hcode
  | some operator =>
      have htoken := StageOperator.ofToken?_eq_some_iff.mp hoperator
      rw [planOf_of_token htoken, map_eq_error_iff] at hcause
      exact ⟨operator, htoken,
        StageOperator.requiresParam_of_typeMismatch hcause hcode⟩

section Origin

variable {catalog : Catalog} {active : List String} {definition : Definition}
  {params : Params} {error : CompileError}

/-- The stage where an error arose cannot be planned with the bindings that
reach it.  Otherwise it is a union, and what it names is missing or open
already. -/
theorem Fails.planOf_origin (h : Fails catalog active definition params error)
    (hregistered : catalog.get? definition.name = some definition)
    (hclosed : definition.name ∉ active) :
    ∃ origin stage, error.origin = some origin ∧
      catalog.stageAt? origin = some stage ∧
      (planOf (params.along error.trail.tail) stage = .error error.cause ∨
        (∃ target, stage.unionTarget? = some target) ∧
          (error.code = .notFound ∨ error.code = .cycleDetected)) := by
  induction h with
  | cycle hopen => exact absurd hopen hclosed
  | plan _ hstage hcause =>
      exact ⟨_, _, rfl, Catalog.stageAt?_trace hregistered hstage, .inl hcause⟩
  | missing _ hstage htarget =>
      exact ⟨_, _, rfl, Catalog.stageAt?_trace hregistered hstage,
        .inr ⟨⟨_, htarget⟩, .inl rfl⟩⟩
  | @within active definition params i stage target embedded error _ hstage
      htarget hfound hinner ih =>
      have hname : embedded.name = target := Catalog.get?_name hfound
      by_cases hopen : embedded.name ∈ definition.name :: active
      · -- The cycle is closed right within this union, which is the origin
        -- then.
        cases hinner with
        | cycle =>
            exact ⟨_, _, rfl, Catalog.stageAt?_trace hregistered hstage,
              .inr ⟨⟨_, htarget⟩, .inr rfl⟩⟩
        | plan hfresh | missing hfresh | within hfresh =>
            exact absurd hopen hfresh
      · obtain ⟨origin, arising, horigin, hat, hcause⟩ :=
          ih (hname ▸ hfound) hopen
        refine ⟨origin, arising, CompileError.origin_through horigin _, hat, ?_⟩
        rw [CompileError.tail_through horigin, Params.along_concat]
        exact hcause

/-- Every error but that of a missing name arose at some stage. -/
theorem exists_origin_of_compile {name : String}
    (h : catalog.compile name params = .error error)
    (hcode : error.code ≠ .notFound) :
    ∃ origin, error.origin = some origin := by
  rcases fails_of_compile h with ⟨-, rfl⟩ | ⟨definition, -, hfails⟩
  · exact absurd rfl hcode
  · have hnonempty : error.trail ≠ [] := by
      intro hempty
      exact List.not_mem_nil (hfails.trail_eq_nil_iff.mp hempty)
    exact ⟨error.trail.head hnonempty, List.head?_eq_some_head hnonempty⟩

theorem planOf_origin_of_compile {name : String}
    (h : catalog.compile name params = .error error) {origin : Trace}
    (horigin : error.origin = some origin) :
    ∃ stage, catalog.stageAt? origin = some stage ∧
      origin.key = stage.key ∧ origin.operator = stage.operator ∧
      (planOf (params.along error.trail.tail) stage = .error error.cause ∨
        (∃ target, stage.unionTarget? = some target) ∧
          (error.code = .notFound ∨ error.code = .cycleDetected)) := by
  rcases fails_of_compile h with ⟨-, rfl⟩ | ⟨definition, hfound, hfails⟩
  · cases horigin
  obtain rfl : definition.name = name := Catalog.get?_name hfound
  obtain ⟨other, stage, hother, hat, hcause⟩ :=
    hfails.planOf_origin hfound List.not_mem_nil
  obtain rfl : origin = other := Option.some.inj (horigin.symm.trans hother)
  have hmem : origin ∈ error.trail := List.mem_of_mem_head? horigin
  obtain ⟨marked, hmarked, hkey, hoperator⟩ :=
    (hfails.isTrail hfound List.not_mem_nil).marked origin hmem
  obtain rfl : stage = marked := Option.some.inj (hat.symm.trans hmarked)
  exact ⟨stage, hat, hkey, hoperator, hcause⟩

end Origin

/-! ## Ways of keys -/

/-- The stage has a key to be bound by. -/
def Trace.Keyed (trace : Trace) : Prop :=
  ∃ key, trace.key = some key ∧ key ≠ ""

namespace Params

variable {params : Params} {unions : List Trace} {trace : Trace}

theorem bound?_of_not_keyed (hkeyed : ¬ trace.Keyed) :
    params.bound? trace.key = none := by
  rw [Option.eq_none_iff_forall_ne_some]
  intro param hbound
  obtain ⟨key, hkey, hnonempty, -⟩ := bound?_eq_some_iff.mp hbound
  exact hkeyed ⟨key, hkey, hnonempty⟩

theorem bound?_empty (key : Option String) :
    Params.empty.bound? key = none := by
  rw [Option.eq_none_iff_forall_ne_some]
  intro param hbound
  obtain ⟨_, -, -, hfound⟩ := bound?_eq_some_iff.mp hbound
  cases hfound

theorem within_of_bound?_eq_none {key : Option String}
    (h : params.bound? key = none) :
    params.within key = Params.empty := by
  rw [within, h]

theorem along_cons (params : Params) (union : Trace) (unions : List Trace) :
    params.along (union :: unions) = (params.along unions).within union.key :=
  rfl

/-- Nothing that is bound gets through a union without a key. -/
theorem along_of_not_keyed (hmem : trace ∈ unions) (hkeyed : ¬ trace.Keyed) :
    params.along unions = Params.empty := by
  induction unions with
  | nil => cases hmem
  | cons union unions ih =>
      rw [along_cons]
      cases List.mem_cons.mp hmem with
      | inl hself =>
          rw [← hself]
          exact within_of_bound?_eq_none (bound?_of_not_keyed hkeyed)
      | inr hmem =>
          rw [ih hmem]
          exact within_of_bound?_eq_none (bound?_empty _)

/-- A way that something was bound at the end of has keys throughout. -/
theorem keyed_of_bound? {param : Param}
    (h : (params.along unions).bound? trace.key = some param) :
    ∀ other ∈ trace :: unions, other.Keyed := by
  intro other hmem
  by_contra hkeyed
  cases List.mem_cons.mp hmem with
  | inl hself =>
      rw [← hself, bound?_of_not_keyed hkeyed] at h
      cases h
  | inr hmem =>
      rw [along_of_not_keyed hmem hkeyed, bound?_empty] at h
      cases h

/-- Bindings with these at the end of the way through some unions, innermost
first. -/
def toward (unions : List Trace) (params : Params) : Params :=
  unions.foldl (fun bound union => [(union.key.getD "", .params bound)]) params

theorem bound?_singleton {key : String} (hnonempty : key ≠ "") (param : Param) :
    bound? [(key, param)] (some key) = some param :=
  bound?_eq_some_iff.mpr ⟨key, rfl, hnonempty,
    by simp [Params.get?, Fields.get?]⟩

/-- What is bound at the end of a way with keys throughout gets there. -/
theorem along_toward (hkeyed : ∀ union ∈ unions, union.Keyed)
    (params : Params) :
    (toward unions params).along unions = params := by
  induction unions generalizing params with
  | nil => rfl
  | cons union unions ih =>
      obtain ⟨key, hkey, hnonempty⟩ := hkeyed union List.mem_cons_self
      have hrest : ∀ other ∈ unions, other.Keyed := fun other hmem =>
        hkeyed other (List.mem_cons_of_mem _ hmem)
      have houter : toward (union :: unions) params =
          toward unions [(key, .params params)] := by
        rw [toward, List.foldl_cons, hkey]
        rfl
      rw [along_cons, houter, ih hrest, hkey, within,
        bound?_singleton hnonempty]

end Params

/-! ## Binding something else -/

/-- A binding that all stages with this operator accept. -/
def StageOperator.suited : StageOperator → Param
  | matching => .filter (some .empty)
  | _ => .value .null

theorem planOf_suited {stage : Stage} {operator : StageOperator}
    {params : Params} (htoken : stage.operator = operator.token)
    (hrequires : operator.requiresParam = true)
    (hbound : params.bound? stage.key = some operator.suited) :
    ∃ plan, planOf params stage = .ok (operator, plan) := by
  rw [planOf_of_token htoken, hbound]
  cases operator with
  | skip | limit | matching => exact ⟨_, rfl⟩
  | project | group | sort | unionWith => cases hrequires

section Compile

variable {name : String} {params params' : Params} {error error' : CompileError}
  {origin : Trace}

/-- An error of a stage that needs a binding can be moved, if there are keys all
the way to it: with a suitable binding at the end, what is compiled may still
fail, but not there. -/
theorem exists_params_without_trail (catalog : Catalog) (name : String)
    {operator : StageOperator} (horigin : error.origin = some origin)
    (htoken : origin.operator = operator.token)
    (hrequires : operator.requiresParam = true)
    (hkeyed : ∀ trace ∈ error.trail, trace.Keyed) :
    ∃ params', ∀ error', catalog.compile name params' = .error error' →
      error'.trail ≠ error.trail := by
  obtain ⟨key, hkey, hnonempty⟩ := hkeyed origin (List.mem_of_mem_head? horigin)
  refine ⟨.toward error.trail.tail [(key, operator.suited)],
    fun error' h' hsame => ?_⟩
  have horigin' : error'.origin = some origin := by
    rw [CompileError.origin, hsame]
    exact horigin
  obtain ⟨stage, -, hstageKey, hoperator, hcause⟩ :=
    planOf_origin_of_compile h' horigin'
  have hstageToken : stage.operator = operator.token :=
    hoperator.symm.trans htoken
  have hunions : ∀ union ∈ error.trail.tail, union.Keyed := fun union hunion =>
    hkeyed union (List.mem_of_mem_tail hunion)
  rw [hsame, Params.along_toward hunions] at hcause
  rcases hcause with hfails | ⟨⟨target, htarget⟩, -⟩
  · have hbound := Params.bound?_singleton hnonempty operator.suited
    rw [← hkey, hstageKey] at hbound
    obtain ⟨plan, hplan⟩ := planOf_suited hstageToken hrequires hbound
    rw [hplan] at hfails
    cases hfails
  · have hneedless :=
      StageOperator.not_requiresParam_of_unionTarget? hstageToken htarget
    rw [hrequires] at hneedless
    cases hneedless

/-- A stage fails alike for all bindings that do not get to it. -/
theorem planOf_error_of_not_keyed {stage : Stage} {unions : List Trace}
    {trace : Trace} {cause : Cause}
    (h : planOf (params.along unions) stage = .error cause)
    (hkey : origin.key = stage.key) (hmem : trace ∈ origin :: unions)
    (hkeyed : ¬ trace.Keyed) (params' : Params) :
    planOf (params'.along unions) stage = .error cause := by
  apply Stage.planOf_error_of_readsAlike h
  intro _ _ _
  rw [← hkey]
  cases List.mem_cons.mp hmem with
  | inl hself =>
      rw [← hself, Params.bound?_of_not_keyed hkeyed,
        Params.bound?_of_not_keyed hkeyed]
  | inr hmem =>
      rw [Params.along_of_not_keyed hmem hkeyed,
        Params.along_of_not_keyed hmem hkeyed]

variable {catalog : Catalog}

/-- A mismatch of shapes arises where a stage cannot be planned. -/
theorem planOf_origin_of_mismatch
    (h : catalog.compile name params = .error error)
    (hcode : error.code = .typeMismatch) :
    ∃ origin stage, error.origin = some origin ∧
      catalog.stageAt? origin = some stage ∧
      origin.key = stage.key ∧ origin.operator = stage.operator ∧
      planOf (params.along error.trail.tail) stage = .error error.cause := by
  have hfound : error.code ≠ .notFound := by simp [hcode]
  obtain ⟨origin, horigin⟩ := exists_origin_of_compile h hfound
  obtain ⟨stage, hat, hkey, hoperator, hcause⟩ :=
    planOf_origin_of_compile h horigin
  refine ⟨origin, stage, horigin, hat, hkey, hoperator, hcause.resolve_right ?_⟩
  rintro ⟨-, hmissing | hcycle⟩
  · exact hfound hmissing
  · rw [hcode] at hcycle
    cases hcycle

/-- Mismatches at the end of one way are the same if it lacks a key. -/
theorem mismatch_eq_of_not_keyed
    (h : catalog.compile name params = .error error)
    (h' : catalog.compile name params' = .error error')
    (hcode : error.code = .typeMismatch) (hcode' : error'.code = .typeMismatch)
    (htrail : error'.trail = error.trail) {trace : Trace}
    (hmem : trace ∈ error.trail) (hkeyed : ¬ trace.Keyed) : error' = error := by
  obtain ⟨origin, stage, horigin, hat, hkey, -, hfails⟩ :=
    planOf_origin_of_mismatch h hcode
  obtain ⟨other, stage', hother, hat', -, -, hfails'⟩ :=
    planOf_origin_of_mismatch h' hcode'
  rw [CompileError.origin, htrail] at hother
  obtain rfl : other = origin := Option.some.inj (hother.symm.trans horigin)
  obtain rfl : stage' = stage := Option.some.inj (hat'.symm.trans hat)
  obtain ⟨unions, hunions⟩ := List.head?_eq_some_iff.mp horigin
  have hway : trace ∈ other :: error.trail.tail := by
    rw [hunions] at hmem ⊢
    exact hmem
  have hsame := planOf_error_of_not_keyed hfails hkey hway hkeyed params'
  rw [htrail, hsame] at hfails'
  have hcause : error.cause = error'.cause := Except.error.inj hfails'
  cases error
  cases error'
  cases hcause
  cases htrail
  rfl

end Compile

end Aggregation
