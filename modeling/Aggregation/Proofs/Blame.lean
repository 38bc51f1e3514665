import Aggregation.Command.Run
import Aggregation.Proofs.Rebinding
import Aggregation.Proofs.StaticFault

/-!
# Whom an error blames

The code of an error puts the blame on the definitions or on the bindings, and a
command reports it accordingly.  This file says how far that can be relied on.
An error that blames the definitions and names no field is theirs: no bindings
compile.  One that does name a field is the fault of a filter that was bound.
And an error that blames the bindings can be moved by others, unless a stage on
the way to it has no key, when it is the same for all bindings.
-/

namespace Aggregation

open CompileM

/-! ## Blaming the definitions -/

/-- The definitions are blamed, along with a field, for an operator that a
filter has and that is unknown. -/
theorem Cause.eq_unknownFilterOperator {cause : Cause} {field : String}
    (hcode : cause.code.isConfiguration = true)
    (hfield : cause.field = some field) :
    ∃ token, cause = .unknownFilterOperator field token := by
  cases cause with
  | unknownFilterOperator named token =>
      obtain rfl : named = field := Option.some.inj hfield
      exact ⟨token, rfl⟩
  | fieldMismatch => cases hcode
  | unknownStageOperator | notFound | mismatch | cycle | structural =>
      cases hfield

section Filters

variable {catalog : Catalog} {name : String} {params : Params}
  {error : CompileError}

theorem arisesInFilter_of_compile
    (h : catalog.compile name params = .error error) {field : String}
    (hfield : error.field = some field) : error.ArisesInFilter params := by
  rcases fails_of_compile h with ⟨-, rfl⟩ | ⟨definition, -, hfails⟩
  · cases hfield
  · refine hfails.arises.resolve_left fun hstage => ?_
    rw [hstage.1] at hfield
    cases hfield

end Filters

/-- An error that blames the definitions is their fault if it names no field:
then the name compiles for no bindings.  If it names one, it is down to a term
of a filter that the caller has bound, whose operator is unknown; and with
something else bound there the error does not arise where it did. -/
theorem compile_configuration_error_blame {catalog : Catalog} {name : String}
    {params : Params} {error : CompileError}
    (h : catalog.compile name params = .error error)
    (hcode : error.code.isConfiguration = true) :
    (error.field = none →
      ∀ params', ∃ error', catalog.compile name params' = .error error') ∧
    ∀ field, error.field = some field →
      (∃ origin filter term token, error.origin = some origin ∧
        (params.along error.trail.tail).bound? origin.key =
          some (.filter (some filter)) ∧
        term ∈ filter.terms ∧ term.field = some field ∧
          term.operator = some token ∧
        FilterOperator.ofToken? token = none) ∧
      ∃ params', ∀ error', catalog.compile name params' = .error error' →
        error'.trail ≠ error.trail := by
  constructor
  · intro hfield params'
    obtain ⟨error', herror', -⟩ :=
      compile_keepsFault catalog name params params' error h ⟨hcode, hfield⟩
    exact ⟨error', herror'⟩
  · intro field hfield
    obtain ⟨origin, filter, horigin, htoken, hbound, hfails⟩ :=
      arisesInFilter_of_compile h hfield
    obtain ⟨token, hcause⟩ := Cause.eq_unknownFilterOperator hcode hfield
    rw [hcause] at hfails
    obtain ⟨term, _, _, ⟨before, after, reached, hsplit, -, hterm⟩, -⟩ :=
      Filter.compileTerms_eq_error hfails
    obtain ⟨htermField, htermOperator, hunknown⟩ :=
      Filter.addTerm_eq_unknownFilterOperator hterm
    have hmem : term ∈ filter.terms := by
      rw [hsplit]
      exact List.mem_append_right _ List.mem_cons_self
    refine ⟨⟨origin, filter, term, token, horigin, hbound, hmem, htermField,
      htermOperator, hunknown⟩, ?_⟩
    obtain ⟨unions, htrail⟩ := List.head?_eq_some_iff.mp horigin
    have hkeyed : ∀ trace ∈ error.trail, trace.Keyed := by
      rw [htrail] at hbound ⊢
      exact Params.keyed_of_bound? hbound
    exact exists_params_without_trail catalog name horigin htoken rfl hkeyed

def Params.equalTotal : Params :=
  [("past",
    .params [("where", .filter (some ⟨[.tagged "total" "$eq" .null]⟩))])]

/-- The report is rejected for an operator that only its caller has named, the
definitions are blamed for that, and with another filter it compiles. -/
theorem compile_reports_blames_definitions :
    ∃ error pipeline, Catalog.reports.compile "report" .nearTotal =
      .error error ∧
      error.code.isConfiguration = true ∧
      (CommandError.compile error).code = "AGGC_CLI_COMPILE_ERROR" ∧
      Catalog.reports.compile "report" .equalTotal = .ok pipeline :=
  ⟨⟨.unknownFilterOperator "total" "$near",
      [⟨"orders", 0, some "where", "$match"⟩,
        ⟨"report", 1, some "past", "$unionWith"⟩]⟩,
    [[("$group", .document [])],
      [("$unionWith", .document [("coll", .string "orders"),
        ("pipeline", .array [.document
          [("$match", .document [("total", .document [("$eq", .null)])])]])])]],
    rfl, rfl, rfl, rfl⟩

/-- The feed, which unites an aggregation that is missing, compiles for no
bindings; the report is rejected for a term of its filter, and then for some
bindings not there. -/
theorem compile_configuration_error_blamed :
    (∀ params',
      ∃ error', Catalog.feeds.compile "feed" params' = .error error') ∧
      ∃ error, Catalog.reports.compile "report" .nearTotal = .error error ∧
        ∃ params', ∀ error', Catalog.reports.compile "report" params' =
          .error error' →
          error'.trail ≠ error.trail := by
  have hfeed : Catalog.feeds.compile "feed" [("count", .value .null)] =
      .error ⟨.notFound "gone", [⟨"feed", 1, none, "$unionWith"⟩]⟩ := by
    rfl
  have hreport : Catalog.reports.compile "report" .nearTotal =
      .error ⟨.unknownFilterOperator "total" "$near",
        [⟨"orders", 0, some "where", "$match"⟩,
          ⟨"report", 1, some "past", "$unionWith"⟩]⟩ := by
    rfl
  have hstatic := (compile_configuration_error_blame hfeed rfl).1 rfl
  obtain ⟨-, hmoved⟩ :=
    (compile_configuration_error_blame hreport rfl).2 "total" rfl
  exact ⟨hstatic, _, hreport, hmoved⟩

/-! ## Blaming the bindings -/

/-- A mismatch of shapes, for which the bindings are blamed, is avoided by some
other bindings.  Or else there is no key to bind something by on the way to it,
and then the name fails with this very error for all bindings. -/
theorem compile_mismatch_avoided_or_constant {catalog : Catalog} {name : String}
    {params : Params} {error : CompileError}
    (h : catalog.compile name params = .error error)
    (hcode : error.code = .typeMismatch) :
    (∃ params', ∀ error', catalog.compile name params' = .error error' →
      error'.code = .typeMismatch → error'.trail ≠ error.trail) ∨
    (∃ trace ∈ error.trail, ¬ trace.Keyed) ∧
      ∀ params', catalog.compile name params' = .error error := by
  by_cases hkeyed : ∀ trace ∈ error.trail, trace.Keyed
  · obtain ⟨origin, stage, horigin, -, -, hoperator, hfails⟩ :=
      planOf_origin_of_mismatch h hcode
    obtain ⟨operator, htoken, hrequires⟩ :=
      planOf_typeMismatch_operator hfails hcode
    obtain ⟨params', havoids⟩ :=
      exists_params_without_trail catalog name horigin (hoperator.trans htoken)
        hrequires hkeyed
    exact .inl ⟨params', fun error' herror' _ => havoids error' herror'⟩
  · push Not at hkeyed
    obtain ⟨trace, hmem, hunkeyed⟩ := hkeyed
    by_cases havoids : ∃ params', ∀ error',
        catalog.compile name params' = .error error' →
          error'.code = .typeMismatch → error'.trail ≠ error.trail
    · exact .inl havoids
    · push Not at havoids
      refine .inr ⟨⟨trace, hmem, hunkeyed⟩, fun params' => ?_⟩
      obtain ⟨error', herror', hcode', htrail⟩ := havoids params'
      rw [herror', mismatch_eq_of_not_keyed h herror' hcode hcode' htrail
        hmem hunkeyed]

theorem compile_digests_mismatch_avoided :
    ∃ error, Catalog.digests.compile "digest" [] = .error error ∧
      error.code = .typeMismatch ∧
      ∃ params', ∀ error', Catalog.digests.compile "digest" params' =
        .error error' →
        error'.code = .typeMismatch → error'.trail ≠ error.trail := by
  have hcompile : Catalog.digests.compile "digest" [] =
      .error ⟨.mismatch (.unbound "$limit"),
        [⟨"archive", 0, some "count", "$limit"⟩,
        ⟨"digest", 1, some "past", "$unionWith"⟩]⟩ := by
    rfl
  refine ⟨_, hcompile, rfl, ?_⟩
  refine (compile_mismatch_avoided_or_constant hcompile rfl).resolve_right ?_
  rintro ⟨-, hconstant⟩
  cases hconstant .bare

/-- A board that unites the archive, but has no key to pass anything on by. -/
def Catalog.boards : Catalog :=
  .ofList [.archive, ⟨"board", "boards",
    [⟨none, "$unionWith", [("pipeline", .string "archive")]⟩]⟩]

/-- Whatever is bound for the board, the archive within it lacks its count, and
what is bound is blamed for that. -/
theorem compile_boards_mismatch_not_avoided :
    ∃ error, error.code = .typeMismatch ∧
      (CommandError.compile error).code = "AGGC_CLI_PARAMS_ERROR" ∧
      ∀ params', Catalog.boards.compile "board" params' = .error error :=
  ⟨⟨.mismatch (.unbound "$limit"),
    [⟨"archive", 0, some "count", "$limit"⟩, ⟨"board", 0, none, "$unionWith"⟩]⟩,
    rfl, rfl, fun _ => rfl⟩

end Aggregation
