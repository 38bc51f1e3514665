import Aggregation.Filter.Term

/-!
# Query documents

A filter compiles to a query document.  Terms are taken in order.  Those on the
same field share one operator document under it, so `age ≥ 18` and `age ≤ 65`
become one condition on `age`; of two terms with the same field and operator the
later counts.
-/

namespace Aggregation

namespace Filter

/-- Puts an operand beside the earlier ones on its field. -/
def addCondition (document : Document) (field : String)
    (operator : FilterOperator) (operand : Value) : Document :=
  let earlier : Document :=
    match Fields.get? document field with
    | some (.document conditions) => conditions
    | _ => []
  Fields.insert document field
    (.document (Fields.insert earlier operator.token operand))

def addTerm (document : Document) (term : FilterTerm) : Except Cause Document :=
  match term.field, term.operator with
  | some field, some token =>
    if term.omitEmpty && term.isZero then .ok document
    else
      match FilterOperator.ofToken? token with
      | none => .error (.unknownFilterOperator field token)
      | some operator =>
        (operator.operand field term.value).map
          (addCondition document field operator)
  | _, _ => .ok document

/-- Compiles terms in order (`compile_terms`), up to the first that is
refused. -/
def compileTerms (terms : List FilterTerm) : Except Cause Document :=
  terms.foldlM addTerm []

/-- Compiles a filter that may be absent (`build_filter`); an absent one is
refused. -/
def build : Option Filter → Except Cause Document
  | none => .error (.mismatch .absentFilter)
  | some filter => compileTerms filter.terms

end Filter

end Aggregation
