import Aggregation.Proofs.Derivation
import Aggregation.Proofs.Lookup
import Aggregation.Proofs.StaticFault

/-!
# Findings of a catalog

A catalog finds fault with a stage whose operator is unknown, and with a union
that names nothing or nothing registered.  A stage with which it finds fault
compiles for no bindings, and neither does what leads to it by unions.  On
unions the findings and the compiler say the same, but for one difference: a
union that names the empty text is refused by the compiler for want of a name,
while the catalog looks for an aggregation of that name.
-/

namespace Aggregation

open CompileM Relation Result

/-! ## Where a finding comes from -/

namespace Catalog

variable {catalog : Catalog} {name : String} {i : ℕ} {stage : Stage}
  {issue : Issue}

/-- What may be wrong with a stage, and that nothing else is. -/
theorem stageIssue?_eq_some_iff :
    catalog.stageIssue? name i stage = some issue ↔
      (stage.operator? = none ∧ issue =
        .unsupportedOperator name i stage.operator) ∨
      (stage.operator? = some .unionWith ∧ stage.unionTarget? = none ∧
        issue = .missingUnionTarget name i) ∨
      ∃ target, stage.operator? = some .unionWith ∧
        stage.unionTarget? = some target ∧
        catalog.get? target = none ∧ issue = .danglingUnion name i target := by
  unfold stageIssue?
  cases hoperator : stage.operator? with
  | none => simp [eq_comm]
  | some operator =>
      cases operator with
      | unionWith =>
          cases htarget : stage.unionTarget? with
          | none => simp [eq_comm]
          | some target =>
              cases hfound : catalog.get? target <;>
                simp [contains, hfound, eq_comm]
      | skip | limit | project | group | sort | matching => simp

/-- Nothing is wrong with a stage whose operator is known and which, if it is a
union, names something registered. -/
theorem stageIssue?_eq_none_iff :
    catalog.stageIssue? name i stage = none ↔
      ∃ operator, stage.operator? = some operator ∧
        (operator = .unionWith → ∃ target embedded,
          stage.unionTarget? = some target ∧
            catalog.get? target = some embedded) := by
  unfold stageIssue?
  cases hoperator : stage.operator? with
  | none => simp
  | some operator =>
      cases operator with
      | unionWith =>
          cases htarget : stage.unionTarget? with
          | none => simp
          | some target =>
              cases hfound : catalog.get? target <;> simp [contains, hfound]
      | skip | limit | project | group | sort | matching => simp

/-- A finding names the place of the stage that it is about. -/
theorem place_of_stageIssue?
    (h : catalog.stageIssue? name i stage = some issue) :
    issue.aggregation = name ∧ issue.index = i := by
  rcases stageIssue?_eq_some_iff.mp h with
    ⟨-, rfl⟩ | ⟨-, -, rfl⟩ | ⟨_, -, -, -, rfl⟩ <;>
    exact ⟨rfl, rfl⟩

/-- The findings are those about the stages of registered aggregations. -/
theorem mem_issues_iff :
    issue ∈ catalog.issues ↔
      ∃ definition stage, catalog.get? issue.aggregation = some definition ∧
        definition.stages[issue.index]? = some stage ∧
        catalog.stageIssue? issue.aggregation issue.index stage =
          some issue := by
  rw [issues, List.mem_flatMap]
  constructor
  · rintro ⟨definition, hmem, hissue⟩
    obtain ⟨⟨stage, i⟩, hstage, hissue⟩ := List.mem_filterMap.mp hissue
    rw [List.mem_zipIdx_iff_getElem?] at hstage
    obtain ⟨haggregation, hindex⟩ := place_of_stageIssue? hissue
    refine ⟨definition, stage, get?_eq_some_iff.mpr ⟨hmem, haggregation.symm⟩,
      ?_, ?_⟩
    · rw [hindex]
      exact hstage
    · rw [haggregation, hindex]
      exact hissue
  · rintro ⟨definition, stage, hfound, hstage, hissue⟩
    obtain ⟨hmem, hname⟩ := get?_eq_some_iff.mp hfound
    refine ⟨definition, hmem,
      List.mem_filterMap.mpr ⟨(stage, issue.index), ?_, ?_⟩⟩
    · rw [List.mem_zipIdx_iff_getElem?]
      exact hstage
    · rw [hname]
      exact hissue

/-- The findings at one place are what is wrong with the stage there. -/
theorem mem_issues_iff_of_place {definition : Definition}
    (hfound : catalog.get? name = some definition)
    (hstage : definition.stages[i]? = some stage)
    (haggregation : issue.aggregation = name) (hindex : issue.index = i) :
    issue ∈ catalog.issues ↔ catalog.stageIssue? name i stage = some issue := by
  subst haggregation hindex
  rw [mem_issues_iff, hfound]
  constructor
  · rintro ⟨_, other, hsame, hother, hissue⟩
    obtain rfl := Option.some.inj hsame
    obtain rfl := Option.some.inj (hstage.symm.trans hother)
    exact hissue
  · intro hissue
    exact ⟨definition, stage, rfl, hstage, hissue⟩

/-- Where there are no findings, nothing is wrong with any stage. -/
theorem stageIssue?_of_issues_eq_nil (h : catalog.issues = [])
    {definition : Definition} (hfound : catalog.get? name = some definition)
    (hstage : stage ∈ definition.stages) :
    ∃ i, catalog.stageIssue? name i stage = none := by
  obtain ⟨i, hi⟩ := List.getElem?_of_mem hstage
  refine ⟨i, Option.eq_none_iff_forall_ne_some.mpr fun issue hissue => ?_⟩
  obtain ⟨haggregation, hindex⟩ := place_of_stageIssue? hissue
  have hmem :=
    (mem_issues_iff_of_place hfound hi haggregation hindex).mpr hissue
  rw [h] at hmem
  cases hmem

end Catalog

/-! ## What compiles has no findings -/

section Derivations

variable {catalog : Catalog} {name target : String} {params : Params}
  {pipeline : Pipeline} {definition : Definition} {stage : Stage}

/-- A stage that stands by itself has a registered operator. -/
theorem Stage.Yields.exists_operator {value : Value}
    (h : stage.Yields params value) :
    ∃ operator, stage.operator? = some operator ∧ operator ≠ .unionWith := by
  cases h with
  | passThrough hoperator htoken | staticEcho hoperator htoken =>
      refine ⟨_, StageOperator.ofToken?_eq_some_iff.mpr htoken, ?_⟩
      rintro rfl
      simp at hoperator
  | orderedSort htoken | matching htoken =>
      exact ⟨_, StageOperator.ofToken?_eq_some_iff.mpr htoken, nofun⟩

theorem DerivesStage.stageIssue?_eq_none {document : Document}
    (h : DerivesStage catalog params stage document) (name : String) (i : ℕ) :
    catalog.stageIssue? name i stage = none := by
  rw [Catalog.stageIssue?_eq_none_iff]
  cases h with
  | alone hyields =>
      obtain ⟨operator, hoperator, hother⟩ := hyields.exists_operator
      exact ⟨operator, hoperator, fun hunion => absurd hunion hother⟩
  | union htarget _ hfound =>
      obtain ⟨htoken, -⟩ := Stage.unionTarget?_eq_some_iff.mp htarget
      exact ⟨.unionWith, StageOperator.ofToken?_eq_some_iff.mpr htoken,
        fun _ => ⟨_, _, htarget, hfound⟩⟩

theorem Derives.exists_stage (h : Derives catalog name params pipeline)
    (hfound : catalog.get? name = some definition)
    (hstage : stage ∈ definition.stages) :
    ∃ document, DerivesStage catalog params stage document := by
  cases h with
  | aggregation hother hlength hstages =>
      obtain rfl := Option.some.inj (hfound.symm.trans hother)
      obtain ⟨i, hi⟩ := List.getElem?_of_mem hstage
      have hless : i < pipeline.length := by
        rw [hlength]
        exact (List.getElem?_eq_some_iff.mp hi).1
      exact ⟨pipeline[i], hstages i stage _ hi (List.getElem?_eq_getElem hless)⟩

/-- What is united by something that has a derivation has one as well. -/
theorem Derives.of_unites (h : Derives catalog name params pipeline)
    (hunites : catalog.Unites name target) :
    ∃ params' pipeline', Derives catalog target params' pipeline' := by
  obtain ⟨definition, hfound, stage, hstage, htarget⟩ := hunites
  obtain ⟨document, hdocument⟩ := h.exists_stage hfound hstage
  cases hdocument with
  | alone hyields => exact absurd htarget (hyields.not_union target)
  | union hnamed _ _ hinner =>
      obtain rfl := Option.some.inj (htarget.symm.trans hnamed)
      exact ⟨_, _, hinner⟩

theorem Derives.of_reaches (h : Derives catalog name params pipeline)
    (hreaches : ReflTransGen catalog.Unites name target) :
    ∃ params' pipeline', Derives catalog target params' pipeline' := by
  induction hreaches with
  | refl => exact ⟨params, pipeline, h⟩
  | tail _ hunites ih =>
      obtain ⟨_, _, hderives⟩ := ih
      exact hderives.of_unites hunites

end Derivations

/-- Every finding is fatal: no bindings compile the aggregation that it is
about, nor any from which unions lead there. -/
theorem compile_fails_of_mem_issues {catalog : Catalog} {issue : Issue}
    (hissue : issue ∈ catalog.issues) {name : String}
    (hreaches : ReflTransGen catalog.Unites name issue.aggregation)
    (params : Params) :
    ∃ error, catalog.compile name params = .error error := by
  cases hcompile : catalog.compile name params with
  | error error => exact ⟨error, rfl⟩
  | ok pipeline =>
      obtain ⟨definition, stage, hfound, hstage, hwrong⟩ :=
        Catalog.mem_issues_iff.mp hissue
      obtain ⟨_, _, hderives⟩ :=
        (derives_of_compile hcompile).of_reaches hreaches
      obtain ⟨document, hdocument⟩ :=
        hderives.exists_stage hfound (List.mem_of_getElem? hstage)
      rw [hdocument.stageIssue?_eq_none] at hwrong
      cases hwrong

/-- The wall fails whatever is bound, for the aggregation that is missing from
the feed within it. -/
theorem compile_feeds_fails_of_mem_issues :
    Issue.danglingUnion "feed" 1 "gone" ∈ Catalog.feeds.issues ∧
      ∀ params, ∃ error, Catalog.feeds.compile "wall" params =
        .error error := by
  have hissue : Issue.danglingUnion "feed" 1 "gone" ∈ Catalog.feeds.issues :=
    List.mem_singleton.mpr rfl
  have hunites : Catalog.feeds.Unites "wall" "feed" :=
    ⟨_, rfl, _, List.mem_cons_self, rfl⟩
  exact ⟨hissue, compile_fails_of_mem_issues hissue (.single hunites)⟩

/-! ## Unions, as they are generated -/

namespace CompileM

variable {catalog : Catalog} {params nested : Params} {stage : Stage}
  {target : String}

theorem compileStage_of_planOf_error {cause : Cause}
    (h : planOf params stage = .error cause) (embedding : Embedding) :
    compileStage embedding params stage = reject cause := by
  rw [compileStage, h]
  rfl

theorem compileStage_of_planOf_embed
    (h : planOf params stage = .ok (.unionWith, .embed target nested))
    (embedding : Embedding) :
    compileStage embedding params stage =
      embedding target nested >>= fun (collection, pipeline) =>
        pure (StageOperator.unionWith.stage
          (unionValue collection pipeline)) := by
  rw [compileStage, h]
  rfl

/-- A union that names nothing, or the empty text, cannot be planned. -/
theorem planOf_of_unnamed
    (hunion : stage.operator = StageOperator.unionWith.token)
    (hunnamed : stage.unionTarget? = none ∨ stage.unionTarget? = some "")
    (params : Params) :
    planOf params stage = .error (.structural .unionWithoutTarget) := by
  have hargs : unionTarget? stage.args = stage.unionTarget? := by
    simp [Stage.unionTarget?, Stage.operator?, hunion,
      StageOperator.ofToken?_token]
  rw [planOf_of_token hunion, StageOperator.plan_unionWith, hargs]
  rcases hunnamed with hnone | hempty
  · rw [hnone]
    rfl
  · rw [hempty]
    rfl

theorem planOf_of_unionTarget (htarget : stage.unionTarget? = some target)
    (hnonempty : target ≠ "") (params : Params) :
    planOf params stage =
      .ok (.unionWith, .embed target (params.within stage.key)) := by
  obtain ⟨htoken, hargs⟩ := Stage.unionTarget?_eq_some_iff.mp htarget
  rw [planOf_of_token htoken, StageOperator.plan_unionWith,
    Params.within_eq_getD]
  simp [unionTarget?, hargs, Value.asString?, hnonempty, Except.map]

end CompileM

namespace Stage

variable {catalog : Catalog} {params : Params} {stage : Stage} {target : String}

/-- Generating the stage is refused for its structure, whatever there is to
embed. -/
def IsRefused (stage : Stage) (params : Params) : Prop :=
  ∃ found, ∀ embedding,
    compileStage embedding params stage = reject (.structural found)

/-- Generating the stage ends with this target of its own not being found,
however definitions are compiled. -/
def Misses (stage : Stage) (catalog : Catalog) (params : Params)
    (target : String) :
    Prop :=
  stage.unionTarget? = some target ∧ ∀ compile,
    compileStage (embedFrom catalog compile) params stage =
      reject (.notFound target)

/-- Generating the stage is compiling the aggregation that it names, in whatever
way, and embedding what comes of it. -/
def Enters (stage : Stage) (catalog : Catalog) (params : Params) : Prop :=
  ∃ target embedded, stage.unionTarget? = some target ∧
    catalog.get? target = some embedded ∧ ∀ compile,
      compileStage (embedFrom catalog compile) params stage =
        compile embedded (params.within stage.key) >>= fun pipeline =>
          pure [(stage.operator, unionValue embedded.collection pipeline)]

theorem isRefused_of_unnamed
    (hunion : stage.operator = StageOperator.unionWith.token)
    (hunnamed : stage.unionTarget? = none ∨ stage.unionTarget? = some "")
    (params : Params) : stage.IsRefused params :=
  ⟨_, compileStage_of_planOf_error (planOf_of_unnamed hunion hunnamed params)⟩

theorem misses_of_get?_eq_none (htarget : stage.unionTarget? = some target)
    (hnonempty : target ≠ "") (hmissing : catalog.get? target = none)
    (params : Params) : stage.Misses catalog params target := by
  refine ⟨htarget, fun compile => ?_⟩
  rw [compileStage_of_planOf_embed
    (planOf_of_unionTarget htarget hnonempty params), embedFrom, hmissing]
  rfl

theorem enters_of_get?_eq_some {embedded : Definition}
    (htarget : stage.unionTarget? = some target) (hnonempty : target ≠ "")
    (hfound : catalog.get? target = some embedded) (params : Params) :
    stage.Enters catalog params := by
  refine ⟨target, embedded, htarget, hfound, fun compile => ?_⟩
  obtain ⟨htoken, -⟩ := unionTarget?_eq_some_iff.mp htarget
  rw [compileStage_of_planOf_embed
    (planOf_of_unionTarget htarget hnonempty params), embedFrom, hfound, htoken]
  simp [StageOperator.stage]

/-! The three are told apart by what comes of generating the stage where
compiling a definition always uses up its fuel. -/

/-- Generates the stage without getting anywhere in what it names. -/
def attempt (stage : Stage) (catalog : Catalog) (params : Params) :
    Except Halt Document :=
  ((compileStage (embedFrom catalog fun _ _ => throw .exhausted) params
    stage).run {}).1

theorem IsRefused.attempt_eq (h : stage.IsRefused params) (catalog : Catalog) :
    ∃ found, stage.attempt catalog params =
      .error (.rejected ⟨.structural found, []⟩) := by
  obtain ⟨found, hrefused⟩ := h
  rw [attempt, hrefused]
  exact ⟨found, rfl⟩

theorem Misses.attempt_eq (h : stage.Misses catalog params target) :
    stage.attempt catalog params =
      .error (.rejected ⟨.notFound target, []⟩) := by
  rw [attempt, h.2]
  rfl

theorem Enters.attempt_eq (h : stage.Enters catalog params) :
    stage.attempt catalog params = .error .exhausted := by
  obtain ⟨_, _, -, -, henters⟩ := h
  rw [attempt, henters]
  rfl

theorem IsRefused.not_misses (h : stage.IsRefused params) :
    ¬ stage.Misses catalog params target := by
  intro hmisses
  obtain ⟨_, hattempt⟩ := h.attempt_eq catalog
  rw [hmisses.attempt_eq] at hattempt
  cases hattempt

theorem IsRefused.not_enters (h : stage.IsRefused params) :
    ¬ stage.Enters catalog params := by
  intro henters
  obtain ⟨_, hattempt⟩ := h.attempt_eq catalog
  rw [henters.attempt_eq] at hattempt
  cases hattempt

theorem Misses.not_enters (h : stage.Misses catalog params target) :
    ¬ stage.Enters catalog params := by
  intro henters
  have hattempt := h.attempt_eq
  rw [henters.attempt_eq] at hattempt
  cases hattempt

theorem misses_iff :
    stage.Misses catalog params target ↔
      stage.unionTarget? = some target ∧ target ≠ "" ∧
        catalog.get? target = none := by
  constructor
  · intro h
    have htarget := h.1
    have hnonempty : target ≠ "" := by
      rintro rfl
      obtain ⟨hunion, -⟩ := unionTarget?_eq_some_iff.mp htarget
      exact (isRefused_of_unnamed hunion (.inr htarget) params).not_misses h
    refine ⟨htarget, hnonempty, Option.eq_none_iff_forall_ne_some.mpr
      fun embedded hfound => ?_⟩
    exact h.not_enters (enters_of_get?_eq_some htarget hnonempty hfound params)
  · rintro ⟨htarget, hnonempty, hmissing⟩
    exact misses_of_get?_eq_none htarget hnonempty hmissing params

theorem enters_iff :
    stage.Enters catalog params ↔
      ∃ target embedded, stage.unionTarget? = some target ∧ target ≠ "" ∧
        catalog.get? target = some embedded := by
  constructor
  · intro h
    obtain ⟨target, embedded, htarget, hfound, -⟩ := id h
    refine ⟨target, embedded, htarget, ?_, hfound⟩
    rintro rfl
    obtain ⟨hunion, -⟩ := unionTarget?_eq_some_iff.mp htarget
    exact (isRefused_of_unnamed hunion (.inr htarget) params).not_enters h
  · rintro ⟨target, embedded, htarget, hnonempty, hfound⟩
    exact enters_of_get?_eq_some htarget hnonempty hfound params

theorem isRefused_iff
    (hunion : stage.operator = StageOperator.unionWith.token) :
    stage.IsRefused params ↔
      stage.unionTarget? = none ∨ stage.unionTarget? = some "" := by
  constructor
  · intro h
    cases htarget : stage.unionTarget? with
    | none => exact .inl rfl
    | some target =>
        refine .inr (congrArg some ?_)
        by_contra hnonempty
        -- Any catalog will do: without definitions the target is missing.
        have hmissing : Catalog.empty.get? target = none := rfl
        exact h.not_misses
          (misses_of_get?_eq_none htarget hnonempty hmissing params)
  · intro hunnamed
    exact isRefused_of_unnamed hunion hunnamed params

end Stage

/-! ## Findings and generated unions agree -/

section Agreement

variable {catalog : Catalog} {name : String} {definition : Definition} {i : ℕ}
  {stage : Stage} (hfound : catalog.get? name = some definition)
  (hstage : definition.stages[i]? = some stage)
  (hunion : stage.operator = StageOperator.unionWith.token)

include hfound hstage hunion

theorem missingUnionTarget_mem_issues_iff :
    .missingUnionTarget name i ∈ catalog.issues ↔
      stage.unionTarget? = none := by
  have hoperator : stage.operator? = some .unionWith :=
    StageOperator.ofToken?_eq_some_iff.mpr hunion
  rw [Catalog.mem_issues_iff_of_place hfound hstage rfl rfl,
    Catalog.stageIssue?_eq_some_iff]
  simp [hoperator]

theorem danglingUnion_mem_issues_iff {target : String} :
    .danglingUnion name i target ∈ catalog.issues ↔
      stage.unionTarget? = some target ∧ catalog.get? target = none := by
  have hoperator : stage.operator? = some .unionWith :=
    StageOperator.ofToken?_eq_some_iff.mpr hunion
  rw [Catalog.mem_issues_iff_of_place hfound hstage rfl rfl,
    Catalog.stageIssue?_eq_some_iff]
  simp [hoperator]

/-- On a union the findings tell what becomes of it, as long as it does not name
the empty text: a missing target is found where it is refused for its structure,
a dangling one where that target is missed, and neither where what it names is
entered.  A union that names the empty text is always refused for its structure,
but what is found is a dangling target, or nothing if an aggregation of that
name is registered. -/
theorem issues_agree_with_generation (params : Params) :
    (stage.unionTarget? ≠ some "" →
      (.missingUnionTarget name i ∈ catalog.issues ↔ stage.IsRefused params) ∧
      (∀ target, .danglingUnion name i target ∈ catalog.issues ↔
        stage.Misses catalog params target) ∧
      ((.missingUnionTarget name i ∉ catalog.issues ∧
          ∀ target, .danglingUnion name i target ∉ catalog.issues) ↔
        stage.Enters catalog params)) ∧
    (stage.unionTarget? = some "" →
      stage.IsRefused params ∧
      .missingUnionTarget name i ∉ catalog.issues ∧
      ∀ target, .danglingUnion name i target ∈ catalog.issues ↔
        target = "" ∧ catalog.get? "" = none) := by
  simp only [missingUnionTarget_mem_issues_iff hfound hstage hunion,
    danglingUnion_mem_issues_iff hfound hstage hunion,
    Stage.isRefused_iff hunion, Stage.misses_iff, Stage.enters_iff]
  constructor
  · intro hnamed
    refine ⟨by simp [hnamed], fun target => ?_, ?_⟩
    · constructor
      · rintro ⟨htarget, hmissing⟩
        refine ⟨htarget, ?_, hmissing⟩
        rintro rfl
        exact hnamed htarget
      · rintro ⟨htarget, -, hmissing⟩
        exact ⟨htarget, hmissing⟩
    · constructor
      · rintro ⟨hsome, hfinds⟩
        obtain ⟨target, htarget⟩ := Option.ne_none_iff_exists'.mp hsome
        obtain ⟨embedded, hembedded⟩ :=
          Option.ne_none_iff_exists'.mp fun hmissing =>
            hfinds target ⟨htarget, hmissing⟩
        refine ⟨target, embedded, htarget, ?_, hembedded⟩
        rintro rfl
        exact hnamed htarget
      · rintro ⟨target, embedded, htarget, -, hembedded⟩
        simp [htarget, hembedded]
  · intro hempty
    simp [hempty, eq_comm]

end Agreement

/-- A union with the aggregation whose name is the empty text. -/
def Stage.unitesNameless : Stage :=
  ⟨none, "$unionWith", [("pipeline", .string "")]⟩

/-- An aggregation without a name, and a board that unites it. -/
def Catalog.nameless : Catalog :=
  .ofList [⟨"", "misc", []⟩, ⟨"board", "boards", [.unitesNameless]⟩]

/-- Nothing is found about the board, and yet its union is refused for its
structure, is never entered, and lets the board compile for no bindings. -/
theorem nameless_issues_disagree :
    Catalog.nameless.get? "board" =
      some ⟨"board", "boards", [.unitesNameless]⟩ ∧
      Stage.unitesNameless.operator = StageOperator.unionWith.token ∧
      Catalog.nameless.issues = [] ∧
      ∀ params, Stage.unitesNameless.IsRefused params ∧
        ¬ Stage.unitesNameless.Enters .nameless params ∧
        ∃ error, Catalog.nameless.compile "board" params = .error error ∧
          error.code = .structural := by
  refine ⟨rfl, rfl, rfl, fun params => ?_⟩
  have hrefused : Stage.unitesNameless.IsRefused params :=
    Stage.isRefused_of_unnamed rfl (.inr rfl) params
  exact ⟨hrefused, hrefused.not_enters, _, rfl, rfl⟩

/-- The union of the feed misses the aggregation that is found to dangle there,
that of the wall enters the feed, and that of the board is refused although no
target is found to be missing. -/
theorem feeds_issues_agree_with_generation :
    (∃ feed union, Catalog.feeds.get? "feed" = some feed ∧
      feed.stages[1]? = some union ∧
      .danglingUnion "feed" 1 "gone" ∈ Catalog.feeds.issues ∧
      ∀ params, union.Misses .feeds params "gone") ∧
    (∃ wall union, Catalog.feeds.get? "wall" = some wall ∧
      wall.stages[0]? = some union ∧
      ∀ params, union.Enters .feeds params) ∧
    .missingUnionTarget "board" 0 ∉ Catalog.nameless.issues ∧
      ∀ params, Stage.unitesNameless.IsRefused params := by
  have hissues : Catalog.feeds.issues = [.danglingUnion "feed" 1 "gone"] := rfl
  refine ⟨⟨_, _, rfl, rfl, ?_, fun params => ?_⟩,
    ⟨_, _, rfl, rfl, fun params => ?_⟩, ?_, fun params => ?_⟩
  · simp [hissues]
  · have hagree :=
      @issues_agree_with_generation .feeds "feed" _ 1 _ rfl rfl rfl params
    exact ((hagree.1 (by decide)).2.1 "gone").mp (by simp [hissues])
  · have hagree :=
      @issues_agree_with_generation .feeds "wall" _ 0 _ rfl rfl rfl params
    exact (hagree.1 (by decide)).2.2.mp (by simp [hissues])
  · have hagree :=
      @issues_agree_with_generation .nameless "board" _ 0 _ rfl rfl rfl .empty
    exact (hagree.2 rfl).2.1
  · have hagree :=
      @issues_agree_with_generation .nameless "board" _ 0 _ rfl rfl rfl params
    exact (hagree.2 rfl).1

end Aggregation
