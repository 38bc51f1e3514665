import Aggregation.Proofs.References
import Mathlib.Data.List.Induction
import Mathlib.Data.List.Nodup

/-!
# Looking definitions up

A catalog holds the definitions that it answers with, and is determined by its
answers.  Made of a list of definitions, it answers for a name with the last one
of that name.
-/

namespace Aggregation

/-- A definition that is added takes a place of its own, unless there is one of
its name. -/
theorem Definitions.length_add {definitions : List Definition}
    (definition : Definition) (h : Ascending definitions) :
    (add definitions definition).length =
      definitions.length +
        if (get? definitions definition.name).isSome then 0 else 1 := by
  induction definitions with
  | nil => rfl
  | cons first rest ih =>
      obtain ⟨hbelow, hrest⟩ := List.pairwise_cons.mp h
      by_cases hsame : first.name = definition.name
      · simp [add, get?, hsame]
      by_cases hless : definition.name < first.name
      · -- The names further on are greater still.
        have habsent : get? rest definition.name = none := by
          apply List.find?_eq_none.mpr
          intro other hmem
          have hgreater := String.lt_trans hless (hbelow other hmem)
          simpa using (Std.ne_of_lt hgreater).symm
        rw [get?] at habsent
        simp [add, get?, hsame, hless, habsent]
      · have hlength := ih hrest
        rw [get?] at hlength
        simp [add, get?, hsame, hless, hlength, Nat.add_right_comm]

namespace Catalog

variable {catalog other : Catalog}

/-- Of definitions with different names each is found. -/
theorem find?_name_eq_some_iff {definitions : List Definition}
    (hnodup : (definitions.map Definition.name).Nodup) {name : String}
    {definition : Definition} :
    definitions.find? (·.name = name) = some definition ↔
      definition ∈ definitions ∧ definition.name = name := by
  constructor
  · intro hfound
    have hname := List.find?_some hfound
    exact ⟨List.mem_of_find?_eq_some hfound, of_decide_eq_true hname⟩
  · rintro ⟨hmem, hname⟩
    cases hfound : definitions.find? (·.name = name) with
    | none =>
        simpa [hname] using List.find?_eq_none.mp hfound definition hmem
    | some other =>
        have hother := List.find?_some hfound
        rw [decide_eq_true_eq] at hother
        exact congrArg some (List.inj_on_of_nodup_map hnodup
          (List.mem_of_find?_eq_some hfound) hmem (hother.trans hname.symm))

theorem names_nodup (catalog : Catalog) : catalog.names.Nodup := by
  apply List.pairwise_map.mpr
  apply catalog.ascending.imp
  intro first second hless hsame
  rw [hsame] at hless
  exact String.lt_irrefl _ hless

theorem get?_eq_some_iff {name : String} {definition : Definition} :
    catalog.get? name = some definition ↔
      definition ∈ catalog.definitions ∧ definition.name = name :=
  find?_name_eq_some_iff catalog.names_nodup

/-- A catalog is what it answers for each name. -/
theorem eq_of_get?_eq (h : ∀ name, catalog.get? name = other.get? name) :
    catalog = other := by
  have hmem : ∀ definition,
      definition ∈ catalog.definitions ↔ definition ∈ other.definitions := by
    intro definition
    calc
      definition ∈ catalog.definitions ↔
          catalog.get? definition.name = some definition := by
            simp [get?_eq_some_iff]
      _ ↔ other.get? definition.name = some definition := by rw [h]
      _ ↔ definition ∈ other.definitions := by simp [get?_eq_some_iff]
  have hperm : catalog.definitions.Perm other.definitions :=
    (List.perm_ext_iff_of_nodup catalog.names_nodup.of_map
      other.names_nodup.of_map).mpr hmem
  have hsame : catalog.definitions = other.definitions := by
    apply hperm.eq_of_pairwise _ catalog.ascending other.ascending
    intro first second _ _ hless hgreater
    exact absurd (String.lt_trans hless hgreater) (String.lt_irrefl _)
  cases catalog
  cases other
  cases hsame
  rfl

/-- Of definitions with one name the last counts. -/
theorem get?_ofList (definitions : List Definition) (name : String) :
    (ofList definitions).get? name =
      definitions.reverse.find? (·.name = name) := by
  induction definitions using List.reverseRecOn with
  | nil => rfl
  | append_singleton definitions definition ih =>
      have hadd : ofList (definitions ++ [definition]) =
          (ofList definitions).add definition := by
        simp [ofList]
      rw [hadd, get?_add, ih, List.reverse_append, List.reverse_singleton,
        List.singleton_append, List.find?_cons]
      by_cases hname : definition.name = name <;> simp [hname]

theorem contains_ofList (definitions : List Definition) (name : String) :
    (ofList definitions).contains name = true ↔
      name ∈ definitions.map Definition.name := by
  rw [contains, get?_ofList, List.find?_isSome]
  simp

theorem size_add (catalog : Catalog) (definition : Definition) :
    (catalog.add definition).size =
      catalog.size + if catalog.contains definition.name then 0 else 1 :=
  Definitions.length_add definition catalog.ascending

/-- A catalog is made of the definitions that it holds. -/
theorem ofList_definitions (catalog : Catalog) :
    ofList catalog.definitions = catalog := by
  apply eq_of_get?_eq
  intro name
  have hnodup : (catalog.definitions.reverse.map Definition.name).Nodup := by
    rw [List.map_reverse, List.nodup_reverse]
    exact catalog.names_nodup
  apply Option.ext
  intro definition
  rw [get?_ofList, find?_name_eq_some_iff hnodup, List.mem_reverse,
    get?_eq_some_iff]

end Catalog

end Aggregation
