import Aggregation.Proofs.Conditions

/-!
# Terms that are left out

A term may be marked to be left out where its value is zero.  Leaving such terms
out beforehand, and clearing all other marks, does not change what a filter
compiles to.  The zero values that are listed for terms are null, `false`, zero
numbers, and empty strings, arrays and documents.  Beyond these, binary data
without bytes counts as zero as well, so that a condition on it is left out
although its value is not listed.
-/

namespace Aggregation

/-- A number is equal to zero, of either sign, exactly if it has no size. -/
theorem Double.equal_zero (d : Double) : d.equal (.zero false) = d.isZero := by
  have hzero : (Double.zero false).isZero = true := by decide
  have hnumber : (Double.zero false).isNaN = false := by decide
  cases hsize : d.isZero with
  | true =>
      have hcode : d.sizeCode = 0 := of_decide_eq_true hsize
      have hnumber' : d.isNaN = false := by
        rw [isNaN, hcode]
        decide
      simp [equal, hnumber, hnumber', hzero, hsize]
  | false =>
      have hbits : d.bits ≠ (Double.zero false).bits := by
        intro hsame
        have hd : d = Double.zero false := by
          cases d
          exact congrArg Double.mk hsame
        rw [hd, hzero] at hsize
        cases hsize
      simp [equal, hsize, hbits]

namespace Value

/-- The zero values that are listed for terms. -/
def isListedZero : Value → Bool
  | null => true
  | bool b => b = false
  | int32 n => n = 0
  | int64 n => n = 0
  | double d => d.equal (.zero false)
  | string s => s = ""
  | array items => items.isEmpty
  | document fields => fields.isEmpty
  | _ => false

def isEmptyBinary : Value → Bool
  | binary _ bytes => bytes.isEmpty
  | _ => false

theorem isZero_eq (value : Value) :
    value.isZero = (value.isListedZero || value.isEmptyBinary) := by
  cases value with
  | bool b => cases b <;> rfl
  | int32 | int64 | string =>
      rw [Bool.eq_iff_iff]
      simp [isZero, isListedZero, isEmptyBinary]
  | double d => simp [isZero, isListedZero, isEmptyBinary, Double.equal_zero]
  | array | document => simp [isZero, isListedZero, isEmptyBinary]
  | _ => rfl

end Value

namespace FilterTerm

variable {zero : Value → Bool} {term : FilterTerm} {condition : Condition}

/-- The term is marked, and has a zero value, by a rule for which values are
zero. -/
def isOmitted (zero : Value → Bool) (term : FilterTerm) : Bool :=
  term.isTagged && term.omitEmpty && zero term.value

def unmarked (term : FilterTerm) : FilterTerm :=
  { term with omitEmpty := false }

theorem condition?_eq_some_iff :
    term.condition? = some condition ↔
      term.field = some condition.field ∧ term.operator = some condition.token ∧
        term.value = condition.value ∧ term.isOmitted Value.isZero = false := by
  obtain ⟨_ | field, _ | token, value, omitEmpty⟩ := term
  case some.some =>
    obtain ⟨named, operator, operand⟩ := condition
    cases hzero : omitEmpty && value.isZero <;>
      simp [condition?, isOmitted, isTagged, isZero, hzero]
  all_goals simp [condition?]

theorem condition?_unmarked :
    term.condition? =
      if term.isOmitted Value.isZero then none
        else term.unmarked.condition? := by
  obtain ⟨_ | field, _ | token, value, omitEmpty⟩ := term
  case some.some =>
    cases hzero : omitEmpty && value.isZero <;>
      simp [condition?, isOmitted, isTagged, isZero, unmarked, hzero]
  all_goals simp [condition?, unmarked]

end FilterTerm

namespace Filter

variable {zero : Value → Bool} {terms : List FilterTerm}

/-- The terms that are left by a rule for zero values, with no more marks. -/
def settled (zero : Value → Bool) (terms : List FilterTerm) : List FilterTerm :=
  (terms.filter fun term => !term.isOmitted zero).map FilterTerm.unmarked

/-- Terms that are settled by a rule which leaves out the same of them make the
same conditions. -/
theorem conditions_settled
    (h : ∀ term ∈ terms, term.isOmitted zero = term.isOmitted Value.isZero) :
    Filter.conditions (settled zero terms) = Filter.conditions terms := by
  rw [settled, Filter.conditions, Filter.conditions, List.filterMap_map,
    List.filterMap_filter]
  apply List.filterMap_congr
  intro term hmem
  rw [FilterTerm.condition?_unmarked, h term hmem]
  cases term.isOmitted Value.isZero <;> rfl

theorem compileTerms_settled
    (h : ∀ term ∈ terms, term.isOmitted zero = term.isOmitted Value.isZero) :
    compileTerms (settled zero terms) = compileTerms terms := by
  rw [compileTerms_eq_foldlM, compileTerms_eq_foldlM, conditions_settled h]

/-- A condition is found unless a later one on its field by its operator is. -/
theorem lastValue?_append_cons (before after : List Condition)
    (condition : Condition) :
    lastValue? (before ++ condition :: after) condition.field condition.token =
      some
        ((lastValue? after condition.field condition.token).getD
          condition.value) := by
  rw [lastValue?_append, ← List.singleton_append, lastValue?_append]
  cases lastValue? after condition.field condition.token <;> simp [lastValue?]

/-- A term that is not left out is found in the document, where a later one on
the same field by the same operator may have taken its place. -/
theorem exists_operand_of_mem {before after : List FilterTerm}
    {term : FilterTerm} {field token : String} {document : Document}
    (hfield : term.field = some field) (htoken : term.operator = some token)
    (hkept : term.isOmitted Value.isZero = false)
    (hcompiled : compileTerms (before ++ term :: after) = .ok document) :
    ∃ operators operand, Fields.get? document field =
      some (.document operators) ∧
      Fields.get? operators token = some operand ∧
      ((∀ later ∈ after, later.field = some field →
        later.operator = some token →
        later.isOmitted Value.isZero = true) → operand = term.value) := by
  have hcondition : term.condition? = some ⟨field, token, term.value⟩ :=
    FilterTerm.condition?_eq_some_iff.mpr ⟨hfield, htoken, rfl, hkept⟩
  have hsplit : Filter.conditions (before ++ term :: after) =
      Filter.conditions before ++ ⟨field, token, term.value⟩ ::
        Filter.conditions after := by
    simp [Filter.conditions, hcondition]
  obtain ⟨-, hquery⟩ := compileTerms_eq_ok_iff.mp hcompiled
  have hmem : field ∈ Fields.keys document := by
    rw [hquery.keys_eq, hsplit, List.mem_eraseDups]
    simp
  obtain ⟨operators, hget, -, hoperators⟩ := hquery.on_field field hmem
  have hoperand := hoperators.get?_eq token
  rw [hsplit, lastValue?_append_cons _ _ ⟨field, token, term.value⟩] at hoperand
  refine ⟨operators, _, hget, hoperand, fun hlast => ?_⟩
  have hnone : lastValue? (Filter.conditions after) field token = none := by
    apply lastValue?_eq_none_iff.mpr
    intro later hlater hsame
    obtain ⟨rfl, rfl⟩ := hsame
    obtain ⟨other, hother, hmade⟩ := List.mem_filterMap.mp hlater
    obtain ⟨hfield', htoken', -, hkept'⟩ :=
      FilterTerm.condition?_eq_some_iff.mp hmade
    rw [hlast other hother hfield' htoken'] at hkept'
    cases hkept'
  rw [hnone]
  rfl

/-- A filter compiles as it does with all marked terms of zero value left out
beforehand and no marks on the others, where the zero values are the listed ones
and binary data without bytes.  The listed ones are all where no marked term has
such data.  Every other term is found in the document. -/
theorem compileTerms_eq_settled (terms : List FilterTerm) :
    compileTerms terms =
      compileTerms
        (settled (fun value => value.isListedZero || value.isEmptyBinary)
          terms) ∧
    ((∀ term ∈ terms, term.isOmitted Value.isEmptyBinary = false) →
      compileTerms terms = compileTerms (settled Value.isListedZero terms)) ∧
    ∀ before term after field token document, terms = before ++ term :: after →
      term.field = some field → term.operator = some token →
      term.isOmitted (fun value => value.isListedZero || value.isEmptyBinary) =
        false →
      compileTerms terms = .ok document →
        ∃ operators operand, Fields.get? document field =
          some (.document operators) ∧
          Fields.get? operators token = some operand ∧
          ((∀ later ∈ after, later.field = some field →
            later.operator = some token →
            later.isOmitted (fun value =>
              value.isListedZero || value.isEmptyBinary) =
              true) → operand = term.value) := by
  have hzero :
      (fun value : Value => value.isListedZero || value.isEmptyBinary) =
      Value.isZero := by
    funext value
    exact value.isZero_eq.symm
  rw [hzero]
  refine ⟨(compileTerms_settled fun _ _ => rfl).symm, fun hnone => ?_, ?_⟩
  · apply (compileTerms_settled _).symm
    intro term hmem
    have hbytes := hnone term hmem
    rw [FilterTerm.isOmitted] at hbytes
    rw [FilterTerm.isOmitted, FilterTerm.isOmitted, Value.isZero_eq,
      Bool.and_or_distrib_left, hbytes, Bool.or_false]
  · rintro before term after field token document rfl hfield htoken
      hkept hcompiled
    exact exists_operand_of_mem hfield htoken hkept hcompiled

/-- Conditions to be left out for zero values: the name is empty, but no date is
zero. -/
def optionalTerms : List FilterTerm :=
  [(FilterTerm.tagged "name" "$eq" (.string "")).omittingEmpty,
    (FilterTerm.tagged "since" "$gte" (.dateTime 0)).omittingEmpty]

/-- The name is left out, and the date is found in the document. -/
theorem compileTerms_optionalTerms :
    compileTerms optionalTerms =
      compileTerms (settled Value.isListedZero optionalTerms) ∧
    ∃ document operators operand, compileTerms optionalTerms = .ok document ∧
      Fields.get? document "name" = none ∧
      Fields.get? document "since" = some (.document operators) ∧
      Fields.get? operators "$gte" = some operand ∧ operand = .dateTime 0 := by
  obtain ⟨-, hlisted, hfound⟩ := compileTerms_eq_settled optionalTerms
  refine ⟨hlisted (by decide), ?_⟩
  obtain ⟨operators, operand, hget, hoperand, hvalue⟩ :=
    hfound [_] _ [] "since" "$gte" _ rfl rfl rfl (by decide) rfl
  exact ⟨_, operators, operand, rfl, rfl, hget, hoperand, hvalue nofun⟩

/-- A condition on binary data without bytes, to be left out for a zero
value. -/
def blankPayload : List FilterTerm :=
  [(FilterTerm.tagged "payload" "$eq" (.binary 0 [])).omittingEmpty]

/-- The condition on binary data is left out, although no listed value is.  If
it were not, it would be found in the document. -/
theorem compileTerms_blankPayload :
    compileTerms blankPayload = .ok [] ∧
    compileTerms (settled Value.isListedZero blankPayload) =
      .ok [("payload", .document [("$eq", .binary 0 [])])] ∧
    compileTerms blankPayload ≠
      compileTerms (settled Value.isListedZero blankPayload) := by
  have hcompiled : compileTerms blankPayload = .ok [] := by
    rfl
  have hsettled : compileTerms (settled Value.isListedZero blankPayload) =
      .ok [("payload", .document [("$eq", .binary 0 [])])] := by
    rfl
  refine ⟨hcompiled, hsettled, ?_⟩
  rw [hcompiled, hsettled]
  nofun

end Filter

end Aggregation
