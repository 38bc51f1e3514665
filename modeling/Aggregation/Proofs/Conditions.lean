import Aggregation.Proofs.Fields
import Aggregation.Proofs.Filter

/-!
# Conditions of a filter

Of the terms of a filter only some count: those with a field and an operator
whose value is not to be left out.  They are its conditions, and they alone
decide what it compiles to.  The first of them that cannot stand is refused.  If
all can, the document has the fields in the order of their first appearance,
under each its operators in the same way, and for every operator the last value
given for it.
-/

namespace Aggregation

open Result

/-- A term that counts. -/
structure Condition where
  field : String
  token : String
  value : Value

namespace FilterTerm

/-- The condition that a term makes, if it has a field and an operator and is
not left out for its value. -/
def condition? (term : FilterTerm) : Option Condition :=
  match term.field, term.operator with
  | some field, some token =>
    if term.omitEmpty && term.isZero then none
      else some ⟨field, token, term.value⟩
  | _, _ => none

end FilterTerm

namespace Condition

/-- No operator has the token. -/
def Unregistered (condition : Condition) : Prop :=
  ∀ operator : FilterOperator, operator.token ≠ condition.token

/-- The operator asks for a list or for a truth value, and the value is none. -/
inductive Mistyped (condition : Condition) : String → Prop
  | list (htoken : condition.token = "$in" ∨ condition.token = "$nin")
      (hvalue : ∀ items, condition.value ≠ .array items) :
      Mistyped condition "array"
  | truth (htoken : condition.token = "$exists")
      (hvalue : ∀ b, condition.value ≠ .bool b) : Mistyped condition "bool"

/-- What a condition is refused for. -/
inductive Faulty (condition : Condition) : Cause → Prop
  | unregistered (h : condition.Unregistered) :
      Faulty condition (.unknownFilterOperator condition.field condition.token)
  | mistyped {expected : String} (h : condition.Mistyped expected) :
      Faulty condition (.fieldMismatch condition.field condition.token expected)

def Suited (condition : Condition) : Prop :=
  ∀ cause, ¬ condition.Faulty cause

/-- The operators that a query document has for a field. -/
def operatorsOn (document : Document) (field : String) : Document :=
  match Fields.get? document field with
  | some (.document operators) => operators
  | _ => []

/-- The document with one more condition. -/
def place (document : Document) (condition : Condition) : Document :=
  Fields.insert document condition.field
    (.document
      (Fields.insert (operatorsOn document condition.field) condition.token
        condition.value))

end Condition

namespace Filter

/-- The conditions of a filter, in order. -/
def conditions (terms : List FilterTerm) : List Condition :=
  terms.filterMap FilterTerm.condition?

/-- The value of the last condition on a field by an operator. -/
def lastValue? (conditions : List Condition) (field token : String) :
    Option Value :=
  (conditions.reverse.find? fun condition =>
    condition.field = field ∧ condition.token = token).map Condition.value

/-- The operators of the conditions on one field, in the order of their first
appearance, each with the last value given for it. -/
structure IsOperatorsOn (field : String) (conditions : List Condition)
    (operators : Document) :
    Prop where
  keys_eq : Fields.keys operators =
    ((conditions.filter (·.field = field)).map Condition.token).eraseDups
  get?_eq : ∀ token, Fields.get? operators token =
    lastValue? conditions field token

/-- The fields of the conditions, in the order of their first appearance, each
with its operators. -/
structure IsQuery (conditions : List Condition)
    (document : Document) : Prop where
  keys_eq : Fields.keys document = (conditions.map Condition.field).eraseDups
  on_field : ∀ field ∈ Fields.keys document, ∃ operators,
    Fields.get? document field = some (.document operators) ∧ operators ≠ [] ∧
      IsOperatorsOn field conditions operators

end Filter

/-! ## One term -/

namespace FilterOperator

theorem ofToken?_token (operator : FilterOperator) :
    ofToken? operator.token = some operator := by
  cases operator <;> decide

theorem ofToken?_eq_none_iff {token : String} :
    ofToken? token = none ↔ ∀ operator : FilterOperator,
      operator.token ≠ token := by
  constructor
  · rintro h operator rfl
    rw [ofToken?_token] at h
    cases h
  · intro h
    exact List.find?_eq_none.mpr fun operator _ => by simpa using h operator

end FilterOperator

namespace Condition

variable {condition : Condition} {operator : FilterOperator} {cause : Cause}

/-- A known operator takes the value as its operand, unless the value does not
suit it. -/
theorem operand_eq (h : operator.token = condition.token) :
    (operator.operand condition.field condition.value = .ok condition.value ∧
        ∀ expected, ¬ condition.Mistyped expected) ∨
      ∃ expected, condition.Mistyped expected ∧
        operator.operand condition.field condition.value =
          .error (.fieldMismatch condition.field condition.token expected) := by
  obtain ⟨field, token, value⟩ := condition
  subst h
  cases operator with
  | eq | ne | gt | gte | lt | lte =>
      refine .inl ⟨rfl, ?_⟩
      rintro _ (⟨htoken, -⟩ | ⟨htoken, -⟩) <;>
        simp [FilterOperator.token] at htoken
  | isIn | notIn =>
      by_cases hlist : ∃ items, value = .array items
      · obtain ⟨items, rfl⟩ := hlist
        refine .inl ⟨rfl, ?_⟩
        rintro _ (⟨-, hvalue⟩ | ⟨htoken, -⟩)
        · exact hvalue items rfl
        · simp [FilterOperator.token] at htoken
      · have hvalue : ∀ items, value ≠ .array items :=
          fun items h => hlist ⟨items, h⟩
        refine .inr ⟨"array", .list (by simp [FilterOperator.token]) hvalue, ?_⟩
        cases value <;> first | rfl | exact absurd rfl (hvalue _)
  | present =>
      by_cases htruth : ∃ b, value = .bool b
      · obtain ⟨b, rfl⟩ := htruth
        refine .inl ⟨rfl, ?_⟩
        rintro _ (⟨htoken, -⟩ | ⟨-, hvalue⟩)
        · simp [FilterOperator.token] at htoken
        · exact hvalue b rfl
      · have hvalue : ∀ b, value ≠ .bool b := fun b h => htruth ⟨b, h⟩
        refine .inr ⟨"bool", .truth rfl hvalue, ?_⟩
        cases value <;> first | rfl | exact absurd rfl (hvalue _)

theorem Mistyped.unique {expected expected' : String}
    (h : condition.Mistyped expected) (h' : condition.Mistyped expected') :
    expected = expected' := by
  cases h with
  | list htoken =>
      cases h' with
      | list => rfl
      | truth htoken' => simp [htoken'] at htoken
  | truth htoken =>
      cases h' with
      | list htoken' => simp [htoken] at htoken'
      | truth => rfl

theorem Mistyped.not_unregistered {expected : String}
    (h : condition.Mistyped expected) :
    ¬ condition.Unregistered := by
  intro hunregistered
  cases h with
  | list htoken =>
      rcases htoken with htoken | htoken
      · exact hunregistered .isIn htoken.symm
      · exact hunregistered .notIn htoken.symm
  | truth htoken => exact hunregistered .present htoken.symm

theorem Faulty.unique {cause' : Cause} (h : condition.Faulty cause)
    (h' : condition.Faulty cause') : cause = cause' := by
  cases h with
  | unregistered h =>
      cases h' with
      | unregistered => rfl
      | mistyped h' => exact absurd h h'.not_unregistered
  | mistyped h =>
      cases h' with
      | unregistered h' => exact absurd h' h.not_unregistered
      | mistyped h' => rw [h.unique h']

/-- A cause names the field and the operator of the condition, and its code says
what is wrong with the condition. -/
theorem Faulty.blames (h : condition.Faulty cause) :
    cause.field = some condition.field ∧ cause.operator = some condition.token ∧
      ((condition.Unregistered ∧ cause.code = .unsupportedOperator) ∨
        ((∃ expected, condition.Mistyped expected) ∧
          cause.code = .typeMismatch)) := by
  cases h with
  | unregistered h => exact ⟨rfl, rfl, .inl ⟨h, rfl⟩⟩
  | mistyped h => exact ⟨rfl, rfl, .inr ⟨⟨_, h⟩, rfl⟩⟩

theorem not_suited_iff :
    ¬ condition.Suited ↔ condition.Unregistered ∨
      ∃ expected, condition.Mistyped expected := by
  rw [Suited, not_forall_not]
  constructor
  · rintro ⟨_, hunregistered | hmistyped⟩
    · exact .inl hunregistered
    · exact .inr ⟨_, hmistyped⟩
  · rintro (hunregistered | ⟨expected, hmistyped⟩)
    · exact ⟨_, .unregistered hunregistered⟩
    · exact ⟨_, .mistyped hmistyped⟩

/-- Puts a condition into a document, if it can stand. -/
def add (document : Document) (condition : Condition) : Except Cause Document :=
  match FilterOperator.ofToken? condition.token with
  | none => .error (.unknownFilterOperator condition.field condition.token)
  | some operator =>
    (operator.operand condition.field condition.value).map
      (Filter.addCondition document condition.field operator)

theorem add_cases (document : Document) (condition : Condition) :
    (condition.Suited ∧
        add document condition = .ok (place document condition)) ∨
      ∃ cause, condition.Faulty cause ∧
        add document condition = .error cause := by
  cases hoperator : FilterOperator.ofToken? condition.token with
  | none =>
      have hunregistered := FilterOperator.ofToken?_eq_none_iff.mp hoperator
      exact .inr ⟨_, .unregistered hunregistered, by rw [add, hoperator]⟩
  | some operator =>
      have htoken := FilterOperator.ofToken?_eq_some hoperator
      rcases operand_eq htoken with
        ⟨hoperand, hsuited⟩ | ⟨expected, hmistyped, hoperand⟩
      · refine .inl ⟨?_, ?_⟩
        · rintro _ (hunregistered | hmistyped)
          · exact hunregistered operator htoken
          · exact hsuited _ hmistyped
        · rw [add, hoperator]
          simp only [hoperand, Except.map, Filter.addCondition, htoken]
          rfl
      · refine .inr ⟨_, .mistyped hmistyped, ?_⟩
        rw [add, hoperator]
        simp only [hoperand, Except.map]

theorem add_eq_ok_iff {document document' : Document} :
    add document condition = .ok document' ↔
      condition.Suited ∧ document' = place document condition := by
  rcases add_cases document condition with
    ⟨hsuited, hadd⟩ | ⟨cause, hfaulty, hadd⟩
  · simp [hadd, hsuited, eq_comm]
  · have hnot : ¬ condition.Suited := fun hsuited => hsuited cause hfaulty
    simp [hadd, hnot]

theorem add_eq_error_iff {document : Document} :
    add document condition = .error cause ↔ condition.Faulty cause := by
  rcases add_cases document condition with
    ⟨hsuited, hadd⟩ | ⟨cause', hfaulty, hadd⟩
  · simp [hadd, hsuited cause]
  · rw [hadd, Except.error.injEq]
    exact ⟨fun h => h ▸ hfaulty, hfaulty.unique⟩

/-- Conditions put into a document one after another, all of which can stand. -/
theorem foldlM_add_eq_ok_iff {conditions : List Condition}
    {start document : Document} :
    conditions.foldlM add start = .ok document ↔
      (∀ condition ∈ conditions, condition.Suited) ∧
        document = conditions.foldl place start := by
  induction conditions generalizing start with
  | nil => simp [pure, Except.pure, eq_comm]
  | cons condition rest ih =>
      rw [List.foldlM_cons, bind_eq_ok_iff, List.forall_mem_cons,
        List.foldl_cons]
      simp only [add_eq_ok_iff, ih]
      constructor
      · rintro ⟨_, ⟨hsuited, rfl⟩, hrest, rfl⟩
        exact ⟨⟨hsuited, hrest⟩, rfl⟩
      · rintro ⟨⟨hsuited, hrest⟩, rfl⟩
        exact ⟨_, ⟨hsuited, rfl⟩, hrest, rfl⟩

end Condition

namespace Filter

variable {terms : List FilterTerm} {conditions : List Condition}
  {document : Document} {cause : Cause}

/-- Compiling takes up the conditions and passes over the other terms. -/
theorem compileTerms_eq_foldlM (terms : List FilterTerm) :
    compileTerms terms = (Filter.conditions terms).foldlM Condition.add [] := by
  have hterm : ∀ document term, addTerm document term =
      match term.condition? with
      | some condition => Condition.add document condition
      | none => .ok document := by
    rintro document ⟨_ | field, _ | token, value, omitEmpty⟩
    case some.some =>
      cases homit : omitEmpty && value.isZero
      · simp only [addTerm, FilterTerm.condition?, FilterTerm.isZero, homit,
          Condition.add]
        rfl
      · simp only [addTerm, FilterTerm.condition?, FilterTerm.isZero, homit]
        rfl
    all_goals rfl
  rw [compileTerms, Filter.conditions]
  generalize ([] : Document) = start
  induction terms generalizing start with
  | nil => rfl
  | cons term rest ih =>
      rw [List.foldlM_cons, hterm, List.filterMap_cons]
      cases term.condition? with
      | none => exact ih start
      | some condition =>
          rw [List.foldlM_cons]
          exact congrArg _ (funext ih)

/-! ## The query document -/

theorem lastValue?_append (first second : List Condition)
    (field token : String) :
    lastValue? (first ++ second) field token =
      (lastValue? second field token).or (lastValue? first field token) := by
  rw [lastValue?, List.reverse_append, List.find?_append, Option.map_or]
  rfl

theorem lastValue?_eq_none_iff {field token : String} :
    lastValue? conditions field token = none ↔
      ∀ condition ∈ conditions,
        ¬ (condition.field = field ∧ condition.token = token) := by
  simp [lastValue?]

theorem lastValue?_concat (conditions : List Condition) (condition : Condition)
    (field token : String) :
    lastValue? (conditions ++ [condition]) field token =
      if condition.field = field ∧
        condition.token = token then some condition.value
      else lastValue? conditions field token := by
  rw [lastValue?_append]
  by_cases h : condition.field = field ∧ condition.token = token <;>
    simp [h, lastValue?]

/-- The last value is found among the conditions on the field by the
operator. -/
theorem lastValue?_eq_getLast? (conditions : List Condition)
    (field token : String) :
    lastValue? conditions field token =
      ((conditions.filter fun condition =>
        condition.field = field ∧ condition.token = token).getLast?).map
        Condition.value := by
  rw [lastValue?, List.getLast?_eq_head?_reverse, ← List.filter_reverse,
    List.head?_filter]

/-- A field without conditions has no operators. -/
theorem isOperatorsOn_nil {field : String}
    (h : field ∉ conditions.map Condition.field) :
    IsOperatorsOn field conditions [] := by
  have hother : ∀ condition ∈ conditions, condition.field ≠ field :=
    fun condition hmem hfield => h (List.mem_map.mpr ⟨condition, hmem, hfield⟩)
  refine ⟨?_, fun token => ?_⟩
  · rw [List.filter_eq_nil_iff.mpr (by simpa using hother)]
    rfl
  · exact (lastValue?_eq_none_iff.mpr fun condition hmem hsame =>
      hother condition hmem hsame.1).symm

theorem IsOperatorsOn.place {operators : Document} {condition : Condition}
    (h : IsOperatorsOn condition.field conditions operators) :
    IsOperatorsOn condition.field (conditions ++ [condition])
      (Fields.insert operators condition.token condition.value) where
  keys_eq := by
    rw [Fields.keys_insert_eq_eraseDups h.keys_eq]
    simp
  get?_eq token := by
    rw [Fields.get?_insert, lastValue?_concat, h.get?_eq]
    simp

theorem IsOperatorsOn.place_of_ne {operators : Document} {field : String}
    {condition : Condition} (h : IsOperatorsOn field conditions operators)
    (hfield : condition.field ≠ field) :
    IsOperatorsOn field (conditions ++ [condition]) operators where
  keys_eq := by simpa [hfield] using h.keys_eq
  get?_eq token := by
    rw [lastValue?_concat, h.get?_eq]
    simp [hfield]

theorem IsQuery.operatorsOn (h : IsQuery conditions document) (field : String) :
    IsOperatorsOn field conditions (Condition.operatorsOn document field) := by
  by_cases hmem : field ∈ Fields.keys document
  · obtain ⟨operators, hget, -, hoperators⟩ := h.on_field field hmem
    simpa [Condition.operatorsOn, hget] using hoperators
  · rw [Condition.operatorsOn, Fields.get?_eq_none_iff.mpr hmem]
    rw [h.keys_eq, List.mem_eraseDups] at hmem
    exact isOperatorsOn_nil hmem

theorem IsQuery.place (h : IsQuery conditions document)
    (condition : Condition) :
    IsQuery (conditions ++ [condition])
      (Condition.place document condition) where
  keys_eq := by
    rw [Condition.place, Fields.keys_insert_eq_eraseDups h.keys_eq]
    simp
  on_field field hmem := by
    rw [Condition.place, Fields.get?_insert]
    by_cases hfield : condition.field = field
    · subst hfield
      exact ⟨_, if_pos rfl, Fields.insert_ne_nil, (h.operatorsOn _).place⟩
    · have hearlier : field ∈ Fields.keys document := by
        rw [Condition.place, Fields.keys_insert] at hmem
        split at hmem
        · exact hmem
        · simpa [Ne.symm hfield] using hmem
      obtain ⟨operators, hget, hnonempty, hoperators⟩ :=
        h.on_field field hearlier
      exact ⟨operators, by rw [if_neg hfield, hget], hnonempty,
        hoperators.place_of_ne hfield⟩

theorem isQuery_foldl (conditions : List Condition) :
    IsQuery conditions (conditions.foldl Condition.place []) := by
  induction conditions using List.reverseRecOn with
  | nil => exact ⟨rfl, nofun⟩
  | append_singleton conditions condition ih =>
      rw [List.foldl_concat]
      exact ih.place condition

theorem IsOperatorsOn.unique {field : String} {operators operators' : Document}
    (h : IsOperatorsOn field conditions operators)
    (h' : IsOperatorsOn field conditions operators') :
    operators = operators' := by
  apply Fields.eq_of_get?_eq
  · rw [h.keys_eq]
    exact Fields.nodup_eraseDups _
  · rw [h.keys_eq, h'.keys_eq]
  · intro token _
    rw [h.get?_eq, h'.get?_eq]

/-- Conditions have one query document. -/
theorem IsQuery.unique {document' : Document} (h : IsQuery conditions document)
    (h' : IsQuery conditions document') : document = document' := by
  have hkeys : Fields.keys document = Fields.keys document' := by
    rw [h.keys_eq, h'.keys_eq]
  apply Fields.eq_of_get?_eq
  · rw [h.keys_eq]
    exact Fields.nodup_eraseDups _
  · exact hkeys
  · intro field hmem
    obtain ⟨operators, hget, -, hoperators⟩ := h.on_field field hmem
    obtain ⟨operators', hget', -, hoperators'⟩ :=
      h'.on_field field (hkeys ▸ hmem)
    rw [hget, hget', hoperators.unique hoperators']

theorem compileTerms_eq_ok_iff :
    compileTerms terms = .ok document ↔
      (∀ condition ∈ Filter.conditions terms, condition.Suited) ∧
        IsQuery (Filter.conditions terms) document := by
  rw [compileTerms_eq_foldlM, Condition.foldlM_add_eq_ok_iff]
  have hquery := isQuery_foldl (Filter.conditions terms)
  exact and_congr_right fun _ => ⟨fun h => h ▸ hquery, fun h => h.unique hquery⟩

theorem compileTerms_eq_error_iff :
    compileTerms terms = .error cause ↔
      ∃ before condition after, Filter.conditions terms =
        before ++ condition :: after ∧
        (∀ earlier ∈ before, earlier.Suited) ∧ condition.Faulty cause := by
  rw [compileTerms_eq_foldlM, foldlM_eq_error_iff]
  simp only [Condition.add_eq_error_iff, Condition.foldlM_add_eq_ok_iff]
  constructor
  · rintro ⟨before, condition, after, _, hsplit, ⟨hbefore, -⟩, hfaulty⟩
    exact ⟨before, condition, after, hsplit, hbefore, hfaulty⟩
  · rintro ⟨before, condition, after, hsplit, hbefore, hfaulty⟩
    exact ⟨before, condition, after, _, hsplit, ⟨hbefore, rfl⟩, hfaulty⟩

/-- A filter compiles unless some condition cannot stand. -/
theorem exists_compileTerms_eq_error_iff :
    (∃ cause, compileTerms terms = .error cause) ↔
      ∃ condition ∈ Filter.conditions terms, ¬ condition.Suited := by
  cases hcompiled : compileTerms terms with
  | ok document =>
      obtain ⟨hsuited, -⟩ := compileTerms_eq_ok_iff.mp hcompiled
      simpa using hsuited
  | error cause =>
      obtain ⟨before, condition, after, hsplit, -, hfaulty⟩ :=
        compileTerms_eq_error_iff.mp hcompiled
      have hmem : condition ∈ Filter.conditions terms := by simp [hsplit]
      simpa using ⟨condition, hmem, fun hsuited => hsuited cause hfaulty⟩

/-- A term without field or operator, or one that is left out, makes no
condition. -/
theorem condition?_eq_none {term : FilterTerm}
    (h : term.isTagged = false ∨ (term.omitEmpty = true ∧ term.isZero = true)) :
    term.condition? = none := by
  obtain ⟨_ | field, _ | token, value, omitEmpty⟩ := term
  case some.some =>
    obtain ⟨homit, hzero⟩ := h.resolve_left (by simp [FilterTerm.isTagged])
    simp_all [FilterTerm.condition?]
  all_goals rfl

/-- Compiling a filter fails exactly if some condition has an unknown operator,
or a value that does not suit its operator.  The error is the one of the first
such condition: it names its field and operator, and its code tells the two
faults apart.  Otherwise there is one query document, with the fields, the
operators and the last values of the conditions, and nothing else.  A term that
makes no condition might as well not be there, however malformed it is. -/
theorem compileTerms_reference (terms : List FilterTerm) :
    ((∃ cause, compileTerms terms = .error cause) ↔
      ∃ condition ∈ Filter.conditions terms,
        condition.Unregistered ∨ ∃ expected, condition.Mistyped expected) ∧
    (∀ cause, compileTerms terms = .error cause →
      ∃ before condition after, Filter.conditions terms =
        before ++ condition :: after ∧
        (∀ earlier ∈ before, earlier.Suited) ∧ condition.Faulty cause ∧
        cause.field = some condition.field ∧
          cause.operator = some condition.token ∧
        ((condition.Unregistered ∧ cause.code = .unsupportedOperator) ∨
          ((∃ expected, condition.Mistyped expected) ∧
            cause.code = .typeMismatch))) ∧
    (∀ document, compileTerms terms = .ok document ↔
      (∀ condition ∈ Filter.conditions terms, condition.Suited) ∧
        IsQuery (Filter.conditions terms) document) ∧
    ∀ before term after, terms = before ++ term :: after →
      term.isTagged = false ∨ (term.omitEmpty = true ∧ term.isZero = true) →
        compileTerms terms = compileTerms (before ++ after) := by
  refine ⟨?_, fun cause hcause => ?_,
    fun document => compileTerms_eq_ok_iff, ?_⟩
  · simp only [exists_compileTerms_eq_error_iff, Condition.not_suited_iff]
  · obtain ⟨before, condition, after, hsplit, hbefore, hfaulty⟩ :=
      compileTerms_eq_error_iff.mp hcause
    exact ⟨before, condition, after, hsplit, hbefore, hfaulty, hfaulty.blames⟩
  · rintro before term after rfl hleft
    rw [compileTerms_eq_foldlM, compileTerms_eq_foldlM, Filter.conditions,
      Filter.conditions]
    simp only [List.filterMap_append, List.filterMap_cons,
      condition?_eq_none hleft]

end Filter

end Aggregation
