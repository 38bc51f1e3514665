import Aggregation.Filter.Query
import Aggregation.Proofs.Result

/-!
# Terms that fail

A filter fails at its first term that does, and the error names the field and
the operator of that term.
-/

namespace Aggregation

open Result

namespace FilterOperator

theorem ofToken?_eq_some {token : String} {operator : FilterOperator}
    (h : ofToken? token = some operator) : operator.token = token := by
  have hfound := List.find?_some h
  exact of_decide_eq_true hfound

theorem operand_eq_error {operator : FilterOperator} {field : String}
    {value : Value} {cause : Cause}
    (h : operator.operand field value = .error cause) :
    ∃ expected, cause = .fieldMismatch field operator.token expected := by
  unfold operand at h
  split at h
  · cases h
  · cases h
  · exact ⟨_, (Except.error.inj h).symm⟩
  · cases h
  · exact ⟨_, (Except.error.inj h).symm⟩

end FilterOperator

namespace Filter

/-- A term that fails is tagged, and the cause names its field and operator. -/
theorem addTerm_eq_error {document : Document} {term : FilterTerm}
    {cause : Cause} (h : addTerm document term = .error cause) :
    ∃ field token, term.field = some field ∧ term.operator = some token ∧
      cause.field = some field ∧ cause.operator = some token := by
  unfold addTerm at h
  split at h
  · next field token hfield htoken =>
      refine ⟨field, token, hfield, htoken, ?_⟩
      split at h
      · cases h
      · split at h
        · cases h
          exact ⟨rfl, rfl⟩
        · next operator hoperator =>
            rw [map_eq_error_iff] at h
            obtain ⟨expected, rfl⟩ := FilterOperator.operand_eq_error h
            exact ⟨rfl,
              congrArg some (FilterOperator.ofToken?_eq_some hoperator)⟩
  · cases h

/-- An operator is unknown only where a term names it. -/
theorem addTerm_eq_unknownFilterOperator {document : Document}
    {term : FilterTerm} {field token : String}
    (h : addTerm document term = .error (.unknownFilterOperator field token)) :
    term.field = some field ∧ term.operator = some token ∧
      FilterOperator.ofToken? token = none := by
  unfold addTerm at h
  split at h
  · next named operator hfield htoken =>
      split at h
      · cases h
      · split at h
        · next hunknown =>
            cases h
            exact ⟨hfield, htoken, hunknown⟩
        · next known hknown =>
            rw [map_eq_error_iff] at h
            obtain ⟨expected, hmismatch⟩ := FilterOperator.operand_eq_error h
            cases hmismatch
  · cases h

/-- Compiling the terms ends at this one, and for this cause. -/
def FailsAt (terms : List FilterTerm) (term : FilterTerm)
    (cause : Cause) : Prop :=
  ∃ before after reached, terms = before ++ term :: after ∧
    compileTerms before = .ok reached ∧ addTerm reached term = .error cause

theorem compileTerms_eq_error {terms : List FilterTerm} {cause : Cause}
    (h : compileTerms terms = .error cause) :
    ∃ term field token, FailsAt terms term cause ∧
      term.field = some field ∧ term.operator = some token ∧
      cause.field = some field ∧ cause.operator = some token := by
  obtain ⟨before, term, after, reached, hsplit, hbefore, hfails⟩ :=
    foldlM_eq_error_iff.mp h
  obtain ⟨field, token, hnamed⟩ := addTerm_eq_error hfails
  exact ⟨term, field, token, ⟨before, after, reached, hsplit, hbefore, hfails⟩,
    hnamed⟩

end Filter

end Aggregation
