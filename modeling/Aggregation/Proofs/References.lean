import Aggregation.Catalog
import Mathlib.Logic.Relation

/-!
# References between aggregations

A union stage refers from the aggregation it stands in to the one it names.
An aggregation is grounded when following such references from it comes to an
end, and then no cycle can be reached from it.
-/

namespace Aggregation.Catalog

variable {catalog : Catalog}

/-- A catalog answers for a name with a definition of that name. -/
theorem get?_name {name : String} {definition : Definition}
    (hfound : catalog.get? name = some definition) :
    definition.name = name := by
  have hname := List.find?_some hfound
  exact of_decide_eq_true hname

theorem mem_of_get? {name : String} {definition : Definition}
    (hfound : catalog.get? name = some definition) :
    definition ∈ catalog.definitions :=
  List.mem_of_find?_eq_some hfound

/-- The definition of one name has a union stage that names the other. -/
def Unites (catalog : Catalog) (name target : String) : Prop :=
  ∃ definition, catalog.get? name = some definition ∧
    ∃ stage ∈ definition.stages, stage.unionTarget? = some target

/-- Following unions from this name comes to an end. -/
def Grounded (catalog : Catalog) (name : String) : Prop :=
  Acc (fun target source => catalog.Unites source target) name

theorem Grounded.of_unites {name : String}
    (h : ∀ target, catalog.Unites name target → catalog.Grounded target) :
    catalog.Grounded name :=
  Acc.intro name h

theorem Grounded.of_reaches {name target : String}
    (hname : catalog.Grounded name)
    (hreaches : Relation.ReflTransGen catalog.Unites name target) :
    catalog.Grounded target := by
  induction hreaches with
  | refl => exact hname
  | tail _ hunites ih => exact Acc.inv ih hunites

/-- A grounded name does not refer back to itself. -/
theorem Grounded.not_cyclic {name : String} (hname : catalog.Grounded name) :
    ¬ Relation.TransGen catalog.Unites name name := by
  induction hname with
  | intro name _ ih =>
      intro hcycle
      obtain ⟨target, hunites, hback⟩ := Relation.TransGen.head'_iff.mp hcycle
      exact ih target hunites (Relation.TransGen.tail' hback hunites)

end Aggregation.Catalog
