import Aggregation.Proofs.References
import Aggregation.Proofs.Stage

/-!
# What a compile depends on

Two compiles come to the same result when they are coupled: they meet the same
definitions, whose stages read the same of either bindings and whose unions pass
coupled bindings on.  Two laws follow.  Of the bindings only those matter that
some stage reads (`compile_eq_of_agree`), and of the catalog only what can be
reached by unions (`compile_eq_of_reaches`).
-/

namespace Aggregation

open CompileM Result Relation

/-! ## What a stage reads -/

namespace StageOperator

theorem requiresParam_iff {operator : StageOperator} :
    operator.requiresParam = true ↔
      operator = .skip ∨ operator = .limit ∨ operator = .matching := by
  cases operator <;> simp [requiresParam, kind]

/-- A sort reads its arguments only. -/
theorem plan_sort (args : Document) (param : Option Param) :
    sort.plan args param =
      match Sort.ofArgs args with
      | .ok document => .ok (.operand (.document document))
      | .error malformation => .error (.structural malformation) := by
  cases param <;> rfl

end StageOperator

theorem Params.bound?_key (params : Params) (stage : Stage) :
    params.bound? stage.key = stage.paramKey.bind params.get? :=
  rfl

namespace Stage

variable {params params' : Params} {stage : Stage}

/-- Both bindings have the same for this stage, if its operator reads one. -/
def ReadsAlike (stage : Stage) (params params' : Params) : Prop :=
  ∀ operator : StageOperator, stage.operator = operator.token →
    operator.requiresParam = true →
      params.bound? stage.key = params'.bound? stage.key

theorem ReadsAlike.of_not_requiresParam {operator : StageOperator}
    (htoken : stage.operator = operator.token)
    (hrequires : operator.requiresParam = false) :
    stage.ReadsAlike params params' := by
  intro other hother hreads
  obtain rfl := StageOperator.token_injective (htoken.symm.trans hother)
  rw [hrequires] at hreads
  cases hreads

theorem ReadsAlike.get?_eq {operator : StageOperator} {key : String}
    {param : Param} (hreads : stage.ReadsAlike params params')
    (htoken : stage.operator = operator.token)
    (hrequires : operator.requiresParam = true)
    (hkey : stage.key = some key) (hnonempty : key ≠ "")
    (hbound : params.get? key = some param) :
    params'.get? key = some param := by
  have hbinding := Params.bound?_eq_some_iff.mpr ⟨key, hkey, hnonempty, hbound⟩
  rw [hreads operator htoken hrequires, Params.bound?_eq_some_iff] at hbinding
  obtain ⟨other, hother, -, hbound'⟩ := hbinding
  rw [hkey] at hother
  cases hother
  exact hbound'

/-- What a stage yields by itself depends on what it reads. -/
theorem Yields.of_readsAlike {value : Value}
    (hyields : stage.Yields params value)
    (hreads : stage.ReadsAlike params params') :
    stage.Yields params' value := by
  cases hyields with
  | passThrough hoperator htoken hkey hnonempty hbound hvalue =>
      have hrequires := StageOperator.requiresParam_iff.mpr
        (hoperator.imp_right Or.inl)
      exact .passThrough hoperator htoken hkey hnonempty
        (hreads.get?_eq htoken hrequires hkey hnonempty hbound) hvalue
  | staticEcho hoperator htoken => exact .staticEcho hoperator htoken
  | orderedSort htoken hsorted => exact .orderedSort htoken hsorted
  | matching htoken hkey hnonempty hbound hcompiled =>
      exact .matching htoken hkey hnonempty
        (hreads.get?_eq htoken rfl hkey hnonempty hbound) hcompiled

/-- How planning a stage fails depends on what it reads. -/
theorem planOf_error_of_readsAlike {cause : Cause}
    (hcause : planOf params stage = .error cause)
    (hreads : stage.ReadsAlike params params') :
    planOf params' stage = .error cause := by
  cases hoperator : stage.operator? with
  | none =>
      rw [planOf_of_unregistered hoperator] at hcause ⊢
      exact hcause
  | some operator =>
      have htoken := StageOperator.ofToken?_eq_some_iff.mp hoperator
      rw [planOf_of_token htoken, map_eq_error_iff] at hcause ⊢
      cases operator with
      | skip | limit | matching =>
          rw [← hreads _ htoken rfl]
          exact hcause
      | project | group =>
          rw [StageOperator.plan_staticEcho (by simp)] at hcause
          cases hcause
      | sort =>
          rw [StageOperator.plan_sort] at hcause ⊢
          exact hcause
      | unionWith =>
          rw [StageOperator.plan_unionWith] at hcause ⊢
          split at hcause
          · split at hcause
            · next htarget => simpa only [if_pos htarget] using hcause
            · cases hcause
          · exact hcause

end Stage

/-! ## Coupled compiles -/

/-- A stage comes to the same where it reads the same and what it embeds comes
to the same. -/
theorem stageOutcome_congr {embed embed' : Embedded} {params params' : Params}
    {stage : Stage} (hreads : stage.ReadsAlike params params')
    (hembed : ∀ target, stage.unionTarget? = some target →
      embed target (params.within stage.key) =
        embed' target (params'.within stage.key)) :
    stageOutcome embed params stage = stageOutcome embed' params' stage := by
  rcases stage_cases params stage with
    ⟨value, hyields⟩ | ⟨target, htarget, hnonempty⟩ | ⟨cause, hcause⟩
  · rw [stageOutcome_of_yields hyields,
      stageOutcome_of_yields (hyields.of_readsAlike hreads)]
  · rw [stageOutcome_of_unionTarget htarget hnonempty,
      stageOutcome_of_unionTarget htarget hnonempty, hembed target htarget]
  · rw [stageOutcome_of_planOf_error hcause,
      stageOutcome_of_planOf_error
        (Stage.planOf_error_of_readsAlike hcause hreads)]

theorem stagesOutcome_congr {embed embed' : Embedded} {params params' : Params}
    {stages : List Stage} (name : String) (index : ℕ)
    (hstages : ∀ stage ∈ stages,
      stageOutcome embed params stage = stageOutcome embed' params' stage) :
    stagesOutcome embed name params index stages =
      stagesOutcome embed' name params' index stages := by
  induction stages generalizing index with
  | nil => rfl
  | cons stage stages ih =>
      have hrest := ih (index + 1) fun other hother =>
        hstages other (List.mem_cons_of_mem _ hother)
      rw [stagesOutcome_cons, stagesOutcome_cons,
        hstages stage List.mem_cons_self, hrest]

theorem embedded_congr {catalog other : Catalog} {active : List String}
    {target : String} {params params' : Params}
    (hanswers : catalog.get? target = other.get? target)
    (houtcome : ∀ definition, catalog.get? target = some definition →
      outcome catalog active definition params =
        outcome other active definition params') :
    embedded catalog active target params =
      embedded other active target params' := by
  unfold embedded
  rw [← hanswers]
  cases hfound : catalog.get? target with
  | none => rfl
  | some definition =>
      simp only [houtcome definition hfound]

/-- Bindings for aggregations of two catalogs, name by name, which either
compiler treats as the other does. -/
structure Coupling (catalog other : Catalog)
    (related : String → Params → Params → Prop) : Prop where
  answers : ∀ {name params params'}, related name params params' →
    catalog.get? name = other.get? name
  reads : ∀ {name params params' definition stage},
    related name params params' →
    catalog.get? name = some definition → stage ∈ definition.stages →
      stage.ReadsAlike params params'
  passes : ∀ {name params params' definition stage target},
    related name params params' → catalog.get? name = some definition →
      stage ∈ definition.stages → stage.unionTarget? = some target →
        related target (params.within stage.key) (params'.within stage.key)

namespace Coupling

variable {catalog other : Catalog} {related : String → Params → Params → Prop}

theorem outcome_eq (h : Coupling catalog other related) (active : List String)
    (definition : Definition) :
    ∀ {params params'}, catalog.get? definition.name = some definition →
      related definition.name params params' →
        outcome catalog active definition params =
          outcome other active definition params' := by
  induction active, definition using opening_induction catalog with
  | hstep active definition ih =>
      intro params params' hfound hrelated
      by_cases hopen : definition.name ∈ active
      · rw [outcome_of_open hopen, outcome_of_open hopen]
      rw [outcome_of_closed hopen, outcome_of_closed hopen]
      apply stagesOutcome_congr
      intro stage hstage
      apply stageOutcome_congr (h.reads hrelated hfound hstage)
      intro target htarget
      have hpassed := h.passes hrelated hfound hstage htarget
      apply embedded_congr (h.answers hpassed)
      intro embedded hembedded
      have hname : embedded.name = target := Catalog.get?_name hembedded
      exact ih hopen target embedded hembedded (hname ▸ hembedded)
        (hname ▸ hpassed)

theorem compile_eq (h : Coupling catalog other related) {name : String}
    {params params' : Params} (hrelated : related name params params') :
    catalog.compile name params = other.compile name params' := by
  rw [compile_eq_outcome, compile_eq_outcome, ← h.answers hrelated]
  cases hfound : catalog.get? name with
  | none => rfl
  | some definition =>
      have hname : definition.name = name := Catalog.get?_name hfound
      exact h.outcome_eq [] definition (hname ▸ hfound) (hname ▸ hrelated)

end Coupling

/-! ## Bindings that agree -/

namespace Catalog

/-- Bindings agree on what this definition reads, and are related in what its
unions pass on to registered aggregations. -/
structure AgreeAt (catalog : Catalog)
    (related : String → Params → Params → Prop) (definition : Definition)
    (params params' : Params) : Prop where
  bound : ∀ stage ∈ definition.stages, ∀ key operator,
    stage.paramKey = some key → stage.operator? = some operator →
      operator = .skip ∨ operator = .limit ∨ operator = .matching →
        params.get? key = params'.get? key
  nested : ∀ stage ∈ definition.stages, ∀ key target,
    stage.paramKey = some key → stage.unionTarget? = some target →
      catalog.contains target = true →
        related target (params.within (some key)) (params'.within (some key))

/-- Bindings agree for an aggregation, and hereditarily for all that it unites.
This is the largest such relation, so that unions may go round in a cycle. -/
def Agree (catalog : Catalog) (name : String)
    (params params' : Params) : Prop :=
  ∃ related : String → Params → Params → Prop,
    related name params params' ∧
      ∀ {name params params'}, related name params params' →
        ∀ {definition}, catalog.get? name = some definition →
          catalog.AgreeAt related definition params params'

variable {catalog : Catalog} {name : String} {params params' : Params}

theorem AgreeAt.mono {related related' : String → Params → Params → Prop}
    {definition : Definition}
    (h : catalog.AgreeAt related definition params params')
    (himp : ∀ {target bound bound'}, related target bound bound' →
      related' target bound bound') :
    catalog.AgreeAt related' definition params params' where
  bound := h.bound
  nested stage hstage key target hkey htarget hregistered :=
    himp (h.nested stage hstage key target hkey htarget hregistered)

theorem Agree.agreeAt (h : catalog.Agree name params params')
    {definition : Definition} (hfound : catalog.get? name = some definition) :
    catalog.AgreeAt catalog.Agree definition params params' := by
  obtain ⟨related, hrelated, hagree⟩ := h
  apply (hagree hrelated hfound).mono
  intro target bound bound' hpassed
  exact ⟨related, hpassed, hagree⟩

/-- Agreement is what it asks for: the same bindings where a stage reads one,
and agreement on what is passed on. -/
theorem agree_iff :
    catalog.Agree name params params' ↔
      ∀ definition, catalog.get? name = some definition →
        catalog.AgreeAt catalog.Agree definition params params' := by
  constructor
  · intro h definition hfound
    exact h.agreeAt hfound
  · intro h
    refine ⟨fun name params params' =>
        ∀ definition, catalog.get? name = some definition →
          catalog.AgreeAt catalog.Agree definition params params', h, ?_⟩
    intro name params params' hrelated definition hfound
    apply (hrelated definition hfound).mono
    intro target bound bound' hpassed embedded hembedded
    exact hpassed.agreeAt hembedded

theorem Agree.refl (name : String) (params : Params) :
    catalog.Agree name params params := by
  refine ⟨fun _ params params' => params = params', rfl, ?_⟩
  rintro name params _ rfl definition -
  exact ⟨fun _ _ _ _ _ _ _ => rfl, fun _ _ _ _ _ _ _ => rfl⟩

/-- Bindings that agree do so as well in what a union passes on. -/
theorem Agree.within (h : catalog.Agree name params params')
    {definition : Definition} {stage : Stage} {target : String}
    (hfound : catalog.get? name = some definition)
    (hstage : stage ∈ definition.stages)
    (htarget : stage.unionTarget? = some target) :
    catalog.Agree target (params.within stage.key)
      (params'.within stage.key) := by
  by_cases hregistered : catalog.contains target = true
  · cases hkey : stage.paramKey with
    | none =>
        -- Nothing is passed on by a union without a key.
        have hnone :
            ∀ params : Params, params.within stage.key = Params.empty := by
          intro params
          rw [Params.within, Params.bound?_key, hkey]
          rfl
        rw [hnone, hnone]
        exact .refl _ _
    | some key =>
        have hdeclared : stage.key = some key :=
          (Option.filter_eq_some_iff.mp hkey).1
        rw [hdeclared]
        exact (h.agreeAt hfound).nested stage hstage key target hkey htarget
          hregistered
  · apply agree_iff.mpr
    intro embedded hembedded
    simp [contains, hembedded] at hregistered

/-- Bindings that agree are coupled. -/
theorem coupling_agree (catalog : Catalog) :
    Coupling catalog catalog catalog.Agree where
  answers _ := rfl
  reads := by
    intro name params params' definition stage h hfound hstage operator htoken
      hrequires
    rw [Params.bound?_key, Params.bound?_key]
    cases hkey : stage.paramKey with
    | none => rfl
    | some key =>
        exact (h.agreeAt hfound).bound stage hstage key operator hkey
          (StageOperator.ofToken?_eq_some_iff.mpr htoken)
          (StageOperator.requiresParam_iff.mp hrequires)
  passes h := h.within

/-! ## Catalogs that agree -/

/-- Catalogs that answer alike for whatever is reached from a name are coupled
there. -/
theorem coupling_reaches {other : Catalog}
    (hanswers : ∀ target, ReflTransGen catalog.Unites name target →
      catalog.get? target = other.get? target) :
    Coupling catalog other fun target params params' =>
      ReflTransGen catalog.Unites name target ∧ params = params' where
  answers h := hanswers _ h.1
  reads := by
    rintro _ _ _ _ _ ⟨-, rfl⟩ - - operator - -
    rfl
  passes := by
    rintro source params _ definition stage target ⟨hreaches, rfl⟩ hfound hstage
      htarget
    exact ⟨hreaches.tail ⟨definition, hfound, stage, hstage, htarget⟩, rfl⟩

end Catalog

/-- Bindings that agree on what is read compile to the same result, which is the
same pipeline or the same error. -/
theorem compile_eq_of_agree {catalog : Catalog} {name : String}
    {params params' : Params} (h : catalog.Agree name params params') :
    catalog.compile name params = catalog.compile name params' :=
  catalog.coupling_agree.compile_eq h

/-- The posts of an archive, up to the number that is bound for `count`. -/
def Definition.archive : Definition :=
  ⟨"archive", "old", [⟨some "count", "$limit", []⟩]⟩

/-- A digest of posts and of the archive. -/
def Definition.digest : Definition :=
  ⟨"digest", "posts", [⟨some "shape", "$project", []⟩,
    ⟨some "past", "$unionWith", [("pipeline", .string "archive")]⟩]⟩

def Catalog.digests : Catalog :=
  .ofList [.archive, .digest]

/-- Bindings for the digest that no stage reads, but for the inner `count`. -/
def Params.crowded : Params :=
  [("count", .value (.int32 9)),
    ("past", .params [("count", .value (.int32 3)), ("shape", .params [])]),
    ("shape", .value .null)]

def Params.bare : Params :=
  [("past", .params [("count", .value (.int32 3))])]

/-- Only the inner count matters for the digest. -/
theorem compile_digests_eq_of_agree :
    Catalog.digests.Agree "digest" .crowded .bare ∧
      Catalog.digests.compile "digest" .crowded =
        Catalog.digests.compile "digest" .bare := by
  have harchive : Catalog.digests.Agree "archive"
      (Params.crowded.within (some "past"))
      (Params.bare.within (some "past")) := by
    apply Catalog.agree_iff.mpr
    intro definition hfound
    obtain rfl : Definition.archive = definition := Option.some.inj hfound
    constructor
    · intro stage hstage key operator hkey hoperator hreads
      obtain rfl := List.mem_singleton.mp hstage
      obtain rfl : "count" = key := Option.some.inj hkey
      rfl
    · intro stage hstage key target hkey htarget
      obtain rfl := List.mem_singleton.mp hstage
      cases htarget
  have hagree : Catalog.digests.Agree "digest" .crowded .bare := by
    apply Catalog.agree_iff.mpr
    intro definition hfound
    obtain rfl : Definition.digest = definition := Option.some.inj hfound
    constructor
    · intro stage hstage key operator hkey hoperator hreads
      rcases List.mem_cons.mp hstage with rfl | hstage
      · obtain rfl : StageOperator.project = operator :=
          Option.some.inj hoperator
        simp at hreads
      · obtain rfl := List.mem_singleton.mp hstage
        obtain rfl : StageOperator.unionWith = operator :=
          Option.some.inj hoperator
        simp at hreads
    · intro stage hstage key target hkey htarget hregistered
      rcases List.mem_cons.mp hstage with rfl | hstage
      · cases htarget
      · obtain rfl := List.mem_singleton.mp hstage
        obtain rfl : "past" = key := Option.some.inj hkey
        obtain rfl : "archive" = target := Option.some.inj htarget
        exact harchive
  exact ⟨hagree, compile_eq_of_agree hagree⟩

/-- What a name compiles to depends on the definitions that it reaches by
unions, and another catalog with the same of these gives the same result.  So no
definition that is out of reach matters, whether it is added, replaced or
removed. -/
theorem compile_eq_of_reaches (catalog other : Catalog) (name : String) :
    ((∀ target, ReflTransGen catalog.Unites name target →
        catalog.get? target = other.get? target) →
      ∀ params, catalog.compile name params = other.compile name params) ∧
    ∀ changed, ¬ ReflTransGen catalog.Unites name changed →
      (∀ target, target ≠ changed → catalog.get? target = other.get? target) →
        ∀ params, catalog.compile name params = other.compile name params := by
  have hlocal : (∀ target, ReflTransGen catalog.Unites name target →
      catalog.get? target = other.get? target) →
        ∀ params, catalog.compile name params = other.compile name params := by
    intro hanswers params
    exact (Catalog.coupling_reaches hanswers).compile_eq ⟨.refl, rfl⟩
  refine ⟨hlocal, ?_⟩
  intro changed hunreached hanswers
  apply hlocal
  intro target hreaches
  apply hanswers
  rintro rfl
  exact hunreached hreaches

/-- An audit of the digest, which nothing unites. -/
def Definition.audit : Definition :=
  ⟨"audit", "audits", [⟨none, "$unionWith", [("pipeline", .string "digest")]⟩]⟩

/-- The digest compiles as before where the audit has been added, and the
archive where the digest has been removed. -/
theorem compile_digests_eq_of_reaches :
    (∀ params, Catalog.digests.compile "digest" params =
      (Catalog.digests.add .audit).compile "digest" params) ∧
    ∀ params, Catalog.digests.compile "archive" params =
      (Catalog.ofList [.archive]).compile "archive" params := by
  have hleaf : ∀ target, ¬ Catalog.digests.Unites "archive" target := by
    rintro target ⟨definition, hfound, stage, hstage, htarget⟩
    obtain rfl : Definition.archive = definition := Option.some.inj hfound
    obtain rfl := List.mem_singleton.mp hstage
    cases htarget
  constructor
  · apply
      (compile_eq_of_reaches .digests (Catalog.digests.add .audit) "digest").1
    intro target hreaches
    have hreached : target = "digest" ∨ target = "archive" := by
      induction hreaches with
      | refl => exact .inl rfl
      | tail _ hunites ih =>
          rcases ih with rfl | rfl
          · obtain ⟨definition, hfound, stage, hstage, htarget⟩ := hunites
            obtain rfl : Definition.digest = definition :=
              Option.some.inj hfound
            rcases List.mem_cons.mp hstage with rfl | hstage
            · cases htarget
            · obtain rfl := List.mem_singleton.mp hstage
              exact .inr (Option.some.inj htarget).symm
          · exact absurd hunites (hleaf _)
    rcases hreached with rfl | rfl <;> rfl
  · apply
      (compile_eq_of_reaches .digests (.ofList [.archive]) "archive").2 "digest"
    · intro hreaches
      rcases ReflTransGen.cases_head hreaches with hsame | ⟨target, hunites, -⟩
      · exact absurd hsame (by decide)
      · exact hleaf target hunites
    · intro target hother
      have hremoved :
          Catalog.digests = (Catalog.ofList [.archive]).add .digest := rfl
      rw [hremoved, Catalog.get?_add]
      exact if_neg hother.symm

end Aggregation
