import Aggregation.Proofs.Conditions
import Mathlib.Data.List.FinRange

/-!
# Terms in another order

A filter means the same in whatever order its conditions stand, as long as those
on one field by one operator keep theirs, for of these the last one counts.
Whether it compiles does not depend on the order, and the query documents have
the same fields, the same operators under each field, and the same operands.
-/

namespace Aggregation

open Result

/-- A list in another order.  Every element has its place, and elements that are
tied to one another stand as they did. -/
structure Rearrangement {α : Type} (Tied : α → α → Prop)
    (before after : List α) where
  place : Fin before.length ≃ Fin after.length
  get_place : ∀ i, after[place i] = before[i]
  place_lt : ∀ i j, i < j → Tied before[i] before[j] → place i < place j

namespace Rearrangement

variable {α : Type} {Tied : α → α → Prop} {before after : List α}

theorem map_place (order : Rearrangement Tied before after)
    (positions : List (Fin before.length)) :
    (positions.map order.place).map (after[·]) = positions.map (before[·]) := by
  rw [List.map_map]
  apply List.map_congr_left
  intro i _
  exact order.get_place i

theorem map_finRange_perm (order : Rearrangement Tied before after) :
    ((List.finRange before.length).map order.place).Perm
      (List.finRange after.length) := by
  have hnodup := (List.nodup_finRange before.length).map order.place.injective
  apply (List.perm_ext_iff_of_nodup hnodup (List.nodup_finRange _)).mpr
  intro position
  simpa using ⟨order.place.symm position, order.place.apply_symm_apply position⟩

theorem map_getElem_finRange (list : List α) :
    (List.finRange list.length).map (list[·]) = list :=
  List.map_getElem_finRange list

theorem perm (order : Rearrangement Tied before after) : before.Perm after := by
  have hperm := order.map_finRange_perm.map (after[·])
  rw [order.map_place, map_getElem_finRange, map_getElem_finRange] at hperm
  exact hperm

/-- The positions of the elements that are kept, in order. -/
def positions (keep : α → Bool) (list : List α) : List (Fin list.length) :=
  (List.finRange list.length).filter fun i => keep list[i]

theorem filter_eq_map_positions (keep : α → Bool) (list : List α) :
    list.filter keep = (positions keep list).map (list[·]) := by
  calc
    list.filter keep =
        ((List.finRange list.length).map (list[·])).filter keep := by
      rw [map_getElem_finRange]
    _ = (positions keep list).map (list[·]) := List.filter_map

/-- Elements that are all tied to one another are the same list before and
after. -/
theorem filter_eq (order : Rearrangement Tied before after) {keep : α → Bool}
    (htied : ∀ a b, keep a = true → keep b = true → Tied a b) :
    before.filter keep = after.filter keep := by
  have hperm : ((positions keep before).map order.place).Perm
      (positions keep after) := by
    have hkept := order.map_finRange_perm.filter fun i => keep after[i]
    have hsame : (fun i => keep after[i]) ∘ order.place = fun i =>
        keep before[i] := by
      funext i
      exact congrArg keep (order.get_place i)
    rw [List.filter_map, hsame] at hkept
    exact hkept
  have hbefore :
      ((positions keep before).map order.place).Pairwise (· < ·) := by
    apply List.pairwise_map.mpr
    apply ((List.pairwise_lt_finRange before.length).filter _).imp_of_mem
    intro i j hi hj hlt
    exact order.place_lt i j hlt
      (htied _ _ (List.mem_filter.mp hi).2 (List.mem_filter.mp hj).2)
  have hafter : (positions keep after).Pairwise (· < ·) :=
    (List.pairwise_lt_finRange after.length).filter _
  calc
    before.filter keep = (positions keep before).map (before[·]) :=
      filter_eq_map_positions keep before
    _ = ((positions keep before).map order.place).map (after[·]) :=
      (order.map_place _).symm
    _ = (positions keep after).map (after[·]) := by
      rw [hperm.eq_of_pairwise (fun _ _ _ _ hlt hgt =>
        absurd hgt (lt_asymm hlt)) hbefore hafter]
    _ = after.filter keep := (filter_eq_map_positions keep after).symm

end Rearrangement

/-! ## Rival terms -/

/-- Two terms on one field by one operator, of which only the later one
counts. -/
def FilterTerm.Rivals (term other : FilterTerm) : Prop :=
  term.isTagged = true ∧ term.field = other.field ∧
    term.operator = other.operator

instance (term other : FilterTerm) : Decidable (term.Rivals other) :=
  inferInstanceAs (Decidable (_ ∧ _ ∧ _))

/-- The terms in another order, rivals as they stood. -/
abbrev Filter.Reordering (terms terms' : List FilterTerm) : Type :=
  Rearrangement FilterTerm.Rivals terms terms'

/-- Documents with the same fields, under which they have the same operators
with the same operands.  Only the order of the keys may differ. -/
structure Filter.SameQuery (document document' : Document) : Prop where
  keys_perm : (Fields.keys document).Perm (Fields.keys document')
  on_field : ∀ field ∈ Fields.keys document, ∃ operators operators',
    Fields.get? document field = some (.document operators) ∧
      Fields.get? document' field = some (.document operators') ∧
      (Fields.keys operators).Perm (Fields.keys operators') ∧
      ∀ token, Fields.get? operators token = Fields.get? operators' token

namespace Filter

variable {terms terms' : List FilterTerm}
  {conditions conditions' : List Condition} {document document' : Document}

/-- The conditions on a field by an operator are those of the terms on it. -/
theorem filter_conditions (terms : List FilterTerm) (field token : String) :
    ((Filter.conditions terms).filter fun condition =>
        condition.field = field ∧ condition.token = token) =
      Filter.conditions (terms.filter fun term =>
        term.field = some field ∧ term.operator = some token) := by
  rw [Filter.conditions, Filter.conditions, List.filter_filterMap,
    List.filterMap_filter]
  apply List.filterMap_congr
  intro term _
  obtain ⟨_ | named, _ | operator, value, omitEmpty⟩ := term
  case some.some =>
    cases homit : omitEmpty && value.isZero <;>
      simp [FilterTerm.condition?, FilterTerm.isZero, homit, Option.filter]
  all_goals simp [FilterTerm.condition?]

theorem Reordering.filter_conditions_eq (order : Reordering terms terms')
    (field token : String) :
    ((Filter.conditions terms).filter fun condition =>
        condition.field = field ∧ condition.token = token) =
      (Filter.conditions terms').filter fun condition =>
        condition.field = field ∧ condition.token = token := by
  rw [filter_conditions, filter_conditions, Rearrangement.filter_eq order]
  intro term other hterm hother
  obtain ⟨hfield, htoken⟩ := of_decide_eq_true hterm
  obtain ⟨hfield', htoken'⟩ := of_decide_eq_true hother
  refine ⟨?_, hfield.trans hfield'.symm, htoken.trans htoken'.symm⟩
  simp [FilterTerm.isTagged, hfield, htoken]

theorem IsOperatorsOn.keys_perm {field : String}
    {operators operators' : Document}
    (h : IsOperatorsOn field conditions operators)
    (h' : IsOperatorsOn field conditions' operators')
    (hperm : conditions.Perm conditions') :
    (Fields.keys operators).Perm (Fields.keys operators') := by
  rw [h.keys_eq, h'.keys_eq]
  exact Fields.eraseDups_perm ((hperm.filter _).map _)

/-- The same conditions in another order, with the same last values, make the
same query. -/
theorem IsQuery.sameQuery (h : IsQuery conditions document)
    (h' : IsQuery conditions' document') (hperm : conditions.Perm conditions')
    (hlast : ∀ field token,
      lastValue? conditions field token = lastValue? conditions' field token) :
    SameQuery document document' := by
  have hkeys : (Fields.keys document).Perm (Fields.keys document') := by
    rw [h.keys_eq, h'.keys_eq]
    exact Fields.eraseDups_perm (hperm.map _)
  refine ⟨hkeys, fun field hmem => ?_⟩
  obtain ⟨operators, hget, -, hoperators⟩ := h.on_field field hmem
  obtain ⟨operators', hget', -, hoperators'⟩ :=
    h'.on_field field (hkeys.mem_iff.mp hmem)
  refine ⟨operators, operators', hget, hget',
    hoperators.keys_perm hoperators' hperm, ?_⟩
  intro token
  rw [hoperators.get?_eq, hoperators'.get?_eq, hlast]

theorem exists_compileTerms_eq_ok_iff :
    (∃ document, compileTerms terms = .ok document) ↔
      ∀ condition ∈ Filter.conditions terms, condition.Suited := by
  simp only [compileTerms_eq_ok_iff, exists_and_left]
  exact and_iff_left ⟨_, isQuery_foldl _⟩

/-- Terms in another order compile exactly if they did, and to the same query
but for the order of its keys, as long as no two terms on one field by one
operator have changed their order. -/
theorem compileTerms_reordered (order : Reordering terms terms') :
    ((∃ document, compileTerms terms = .ok document) ↔
      ∃ document, compileTerms terms' = .ok document) ∧
    ∀ document document', compileTerms terms = .ok document →
      compileTerms terms' = .ok document' → SameQuery document document' := by
  have hperm : (Filter.conditions terms).Perm (Filter.conditions terms') :=
    (Rearrangement.perm order).filterMap _
  constructor
  · simp only [exists_compileTerms_eq_ok_iff, hperm.mem_iff]
  · intro document document' hdocument hdocument'
    obtain ⟨-, hquery⟩ := compileTerms_eq_ok_iff.mp hdocument
    obtain ⟨-, hquery'⟩ := compileTerms_eq_ok_iff.mp hdocument'
    apply hquery.sameQuery hquery' hperm
    intro field token
    rw [lastValue?_eq_getLast?, lastValue?_eq_getLast?,
      order.filter_conditions_eq]

/-- Two ages, of which the later one counts, and a status. -/
def ages : List FilterTerm :=
  [.tagged "age" "$gte" (.int32 18), .tagged "status" "$eq" (.string "open"),
    .tagged "age" "$gte" (.int32 21)]

def agesLast : List FilterTerm :=
  [.tagged "status" "$eq" (.string "open"), .tagged "age" "$gte" (.int32 18),
    .tagged "age" "$gte" (.int32 21)]

def agesReordering : Reordering ages agesLast where
  place := Equiv.swap (0 : Fin 3) (1 : Fin 3)
  get_place
    | (0 : Fin 3) | (1 : Fin 3) | (2 : Fin 3) => rfl
  place_lt := by decide

/-- The status comes first now, and of the ages the same one counts. -/
theorem compileTerms_ages_reordered :
    ∃ document document', compileTerms ages = .ok document ∧
      compileTerms agesLast = .ok document' ∧ SameQuery document document' ∧
      Fields.keys document = ["age", "status"] ∧
      Fields.keys document' = ["status", "age"] := by
  obtain ⟨-, hsame⟩ := compileTerms_reordered agesReordering
  exact ⟨_, _, rfl, rfl, hsame _ _ rfl rfl, rfl, rfl⟩

end Filter

end Aggregation
