import Aggregation.Proofs.Blame
import Aggregation.Proofs.DirectoryLoading
import Aggregation.Proofs.Issues
import Aggregation.Proofs.OperatorCheck

/-!
# Checked definitions

Whatever a load takes up has passed its check, so that it has a name and a
collection and all its operators are registered.  Where nothing is found about
such definitions either, compiles of them fail for their bindings, at a cycle,
in the order of a sort, or in the operator of a filter term, and for nothing
else.
-/

namespace Aggregation

open CompileM Result

/-! ## What a check asks for -/

namespace Definition

/-- A definition that is named, is about a collection, and has no operators but
registered ones. -/
structure Passes (definition : Definition) : Prop where
  named : Text.isBlank definition.name = false
  placed : Text.isBlank definition.collection = false
  registered : ∀ stage ∈ definition.stages, ∃ operator,
    stage.operator? = some operator

theorem passes_of_check {definition : Definition}
    (h : definition.check = .ok ()) :
    definition.Passes := by
  unfold check at h
  split at h
  · cases h
  · next hname =>
      split at h
      · cases h
      · next hcollection =>
          split at h
          · next operators hresolved =>
              refine ⟨eq_false_of_ne_true hname,
                eq_false_of_ne_true hcollection, fun stage hstage => ?_⟩
              have hmem : stage.operator? ∈ operators.map some := by
                rw [← resolveFrom_eq_ok_iff.mp hresolved]
                exact List.mem_map_of_mem hstage
              obtain ⟨operator, -, hoperator⟩ := List.mem_map.mp hmem
              exact ⟨operator, hoperator.symm⟩
          · cases h

theorem Passes.name_ne_empty {definition : Definition} (h : definition.Passes) :
    definition.name ≠ "" := by
  intro hempty
  have hnamed := h.named
  rw [hempty] at hnamed
  cases hnamed

end Definition

namespace Catalog

variable {catalog : Catalog} {files : Files} {dir : String} {strict : Bool}

/-- A catalog of definitions that have passed their check. -/
def IsChecked (catalog : Catalog) : Prop :=
  ∀ definition ∈ catalog.definitions, definition.Passes

theorem mem_of_mem_ofList {definitions : List Definition}
    {definition : Definition}
    (h : definition ∈ (ofList definitions).definitions) :
    definition ∈ definitions := by
  have hfound : (ofList definitions).get? definition.name = some definition :=
    get?_eq_some_iff.mpr ⟨h, rfl⟩
  rw [get?_ofList] at hfound
  exact List.mem_reverse.mp (List.mem_of_find?_eq_some hfound)

/-- Loads take up nothing that has not passed its check. -/
theorem isChecked_of_load
    (h : (load files dir strict).collect.1 = .ok catalog) :
    catalog.IsChecked := by
  cases hpaths : definitionFiles files dir with
  | error error =>
      rw [collect_load_of_unreadable hpaths] at h
      cases h
  | ok paths =>
      obtain ⟨-, rfl⟩ := (load_eq_ok_iff hpaths).mp h
      intro definition hmem
      obtain ⟨path, -, hloaded⟩ :=
        List.mem_filterMap.mp (mem_of_mem_ofList hmem)
      cases hload : Definition.loadFile files path with
      | error error =>
          rw [hload] at hloaded
          cases hloaded
      | ok other =>
          rw [hload] at hloaded
          obtain rfl : other = definition := Option.some.inj hloaded
          obtain ⟨_, _, -, -, -, hcheck⟩ :=
            Definition.loadFile_eq_ok_iff.mp hload
          exact Definition.passes_of_check hcheck

end Catalog

/-! ## How compiles of checked definitions fail -/

/-- An error for which the definitions need not be at fault beyond the order of
a sort and the unions that make a cycle. -/
def CompileError.IsResidual (error : CompileError) : Prop :=
  error.code = .typeMismatch ∨ error.code = .cycleDetected ∨
    (error.code = .structural ∧ ∃ origin, error.origin = some origin ∧
      origin.operator = StageOperator.sort.token) ∨
    (error.code = .unsupportedOperator ∧ ∃ field, error.field = some field)

theorem CompileError.IsResidual.through {error : CompileError}
    (h : error.IsResidual) (trace : Trace) :
    (error.through trace).IsResidual := by
  rcases h with hmismatch | hcycle | ⟨hcode, origin, horigin, hsort⟩ | hfilter
  · exact .inl hmismatch
  · exact .inr (.inl hcycle)
  · exact .inr (.inr (.inl
      ⟨hcode, origin, CompileError.origin_through horigin trace, hsort⟩))
  · exact .inr (.inr (.inr hfilter))

theorem CompileError.IsResidual.exists_field {error : CompileError}
    (h : error.IsResidual) (hcode : error.code = .unsupportedOperator) :
    ∃ field, error.field = some field := by
  rcases h with hother | hother | ⟨hother, -⟩ | ⟨-, hfield⟩
  · cases hcode.symm.trans hother
  · cases hcode.symm.trans hother
  · cases hcode.symm.trans hother
  · exact hfield

section Compiles

variable {catalog : Catalog} {active : List String} {definition : Definition}
  {params : Params} {stage : Stage} {cause : Cause} {error : CompileError}

/-- Where nothing is found about checked definitions, each union names one of
them. -/
theorem exists_target_of_issues_eq_nil (hchecked : catalog.IsChecked)
    (hissues : catalog.issues = []) (hmem : definition ∈ catalog.definitions)
    (hstage : stage ∈ definition.stages)
    (hunion : stage.operator? = some .unionWith) :
    ∃ target embedded, stage.unionTarget? = some target ∧ target ≠ "" ∧
      catalog.get? target = some embedded := by
  have hfound := Catalog.get?_eq_some_iff.mpr ⟨hmem, rfl⟩
  obtain ⟨i, hnone⟩ :=
    Catalog.stageIssue?_of_issues_eq_nil hissues hfound hstage
  obtain ⟨operator, hoperator, hresolves⟩ :=
    Catalog.stageIssue?_eq_none_iff.mp hnone
  obtain rfl : operator = .unionWith :=
    Option.some.inj (hoperator.symm.trans hunion)
  obtain ⟨target, embedded, htarget, hembedded⟩ := hresolves rfl
  refine ⟨target, embedded, htarget, ?_, hembedded⟩
  obtain ⟨hregistered, rfl⟩ := Catalog.get?_eq_some_iff.mp hembedded
  exact (hchecked embedded hregistered).name_ne_empty

/-- Whatever else checked definitions fail for is at a union that is found fault
with. -/
theorem Fails.isResidual_or_issues (hchecked : catalog.IsChecked)
    (h : Fails catalog active definition params error)
    (hmem : definition ∈ catalog.definitions) :
    error.IsResidual ∨
      (error.code ≠ .unsupportedOperator ∧ catalog.issues ≠ []) := by
  induction h with
  | cycle => exact .inl (.inr (.inl rfl))
  | @plan _ definition _ i stage cause _ hstage hcause =>
      have hstageMem := List.mem_of_getElem? hstage
      obtain ⟨operator, hoperator⟩ :=
        (hchecked definition hmem).registered stage hstageMem
      rcases planOf_error_of_registered hoperator hcause with
        hmismatch | hfilter | ⟨hcode, rfl | rfl⟩
      · exact .inl (.inl hmismatch)
      · exact .inl (.inr (.inr (.inr hfilter)))
      · exact .inl (.inr (.inr (.inl ⟨hcode, _, rfl,
          StageOperator.ofToken?_eq_some_iff.mp hoperator⟩)))
      · refine .inr ⟨fun hother => ?_, fun hissues => ?_⟩
        · cases hcode.symm.trans hother
        · obtain ⟨target, _, htarget, hnonempty, -⟩ :=
            exists_target_of_issues_eq_nil hchecked hissues hmem
              hstageMem hoperator
          rw [planOf_of_unionTarget htarget hnonempty] at hcause
          cases hcause
  | missing _ hstage htarget hmissing =>
      refine .inr ⟨nofun, fun hissues => ?_⟩
      obtain ⟨htoken, -⟩ := Stage.unionTarget?_eq_some_iff.mp htarget
      obtain ⟨other, _, hother, -, hfound⟩ :=
        exists_target_of_issues_eq_nil hchecked hissues hmem
          (List.mem_of_getElem? hstage)
          (StageOperator.ofToken?_eq_some_iff.mpr htoken)
      obtain rfl := Option.some.inj (htarget.symm.trans hother)
      rw [hmissing] at hfound
      cases hfound
  | within _ _ _ hfound _ ih =>
      rcases ih (Catalog.get?_eq_some_iff.mp hfound).1 with hresidual | hfault
      · exact .inl (hresidual.through _)
      · exact .inr hfault

theorem compile_isResidual_or_issues (hchecked : catalog.IsChecked)
    {name : String} (hname : name ∈ catalog.names)
    (h : catalog.compile name params = .error error) :
    error.IsResidual ∨
      (error.code ≠ .unsupportedOperator ∧ catalog.issues ≠ []) := by
  obtain ⟨definition, hmem, rfl⟩ := List.mem_map.mp hname
  have hfound := Catalog.get?_eq_some_iff.mpr ⟨hmem, rfl⟩
  rcases fails_of_compile h with ⟨hmissing, -⟩ | ⟨other, hother, hfails⟩
  · rw [hfound] at hmissing
    cases hmissing
  · obtain rfl := Option.some.inj (hfound.symm.trans hother)
    exact hfails.isResidual_or_issues hchecked hmem

end Compiles

/-- What a load guarantees.  Its definitions have names and collections that are
not blank, and only registered operators, so that no compile meets a stage
operator that is unknown.  If nothing is found about them either, a compile of a
registered name fails for its bindings, at a cycle, in the order of a sort or in
the operator of a filter term, and for nothing else. -/
theorem load_guarantees_compile {files : Files} {dir : String} {strict : Bool}
    {catalog : Catalog}
    (hload : (Catalog.load files dir strict).collect.1 = .ok catalog) :
    (∀ definition ∈ catalog.definitions, Text.isBlank definition.name = false ∧
      Text.isBlank definition.collection = false ∧
      ∀ stage ∈ definition.stages, ∃ operator,
        stage.operator? = some operator) ∧
    (∀ name ∈ catalog.names, ∀ params error,
      catalog.compile name params = .error error →
        ¬ (error.code = .unsupportedOperator ∧ error.field = none)) ∧
    (catalog.issues = [] → ∀ name ∈ catalog.names, ∀ params error,
      catalog.compile name params = .error error →
        error.code = .typeMismatch ∨ error.code = .cycleDetected ∨
        (error.code = .structural ∧ ∃ origin, error.origin = some origin ∧
          origin.operator = StageOperator.sort.token) ∨
        (error.code = .unsupportedOperator ∧ ∃ field, error.field = some field ∧
          error.ArisesInFilter params)) := by
  have hchecked := Catalog.isChecked_of_load hload
  refine ⟨fun definition hmem => ?_, fun name hname params error h => ?_,
    fun hissues name hname params error h => ?_⟩
  · have hpasses := hchecked definition hmem
    exact ⟨hpasses.named, hpasses.placed, hpasses.registered⟩
  · rintro ⟨hcode, hfield⟩
    rcases compile_isResidual_or_issues hchecked hname h with
      hresidual | ⟨hother, -⟩
    · obtain ⟨field, hsome⟩ := hresidual.exists_field hcode
      rw [hfield] at hsome
      cases hsome
    · exact hother hcode
  · rcases compile_isResidual_or_issues hchecked hname h with
      hresidual | ⟨-, hfault⟩
    · refine hresidual.imp_right (Or.imp_right (Or.imp_right
        fun ⟨hcode, field, hfield⟩ => ?_))
      exact ⟨hcode, field, hfield, arisesInFilter_of_compile h hfield⟩
    · exact absurd hissues hfault

theorem Catalog.load_mixed :
    (load .mixed "aggs" false).collect.1 = .ok (.ofList [.orders]) := by
  obtain ⟨names, hpaths, hascending, hnames⟩ :=
    definitionFiles_of_list Files.list_mixed FileTree.isListing_mixed
  obtain rfl := FileTree.names_mixed hascending hnames
  rw [load_lenient hpaths, ← Definition.loadable_mixed]
  rfl

/-- The definition that is loaded passes its check, and nothing is found about
it.  Without a filter it does not compile, but whatever is bound it is never for
want of an aggregation. -/
theorem load_mixed_guarantees_compile :
    (Catalog.load .mixed "aggs" false).collect.1 = .ok (.ofList [.orders]) ∧
      Text.isBlank Definition.orders.name = false ∧
      (Catalog.ofList [.orders]).issues = [] ∧
      (∃ error, (Catalog.ofList [.orders]).compile "orders" .empty =
        .error error) ∧
      ∀ params error, (Catalog.ofList [.orders]).compile "orders" params =
        .error error →
        error.code ≠ .notFound := by
  obtain ⟨hpasses, -, hfails⟩ := load_guarantees_compile Catalog.load_mixed
  refine ⟨Catalog.load_mixed, (hpasses _ (List.mem_singleton.mpr rfl)).1, rfl,
    ⟨_, rfl⟩, fun params error h => ?_⟩
  rcases hfails rfl "orders" (List.mem_singleton.mpr rfl) params error h with
    hcode | hcode | ⟨hcode, -⟩ | ⟨hcode, -⟩ <;>
    rw [hcode] <;> nofun

end Aggregation
