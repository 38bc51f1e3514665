import Aggregation.Definition

/-!
# Catalogs

A catalog holds one definition for each name, in ascending order of names.  The
order is part of the type, so a catalog is determined by what it answers for
each name.
-/

namespace Aggregation

namespace Definitions

/-- Puts a definition among others in order of names; one with the same name is
replaced. -/
def add : List Definition → Definition → List Definition
  | [], definition => [definition]
  | first :: rest, definition =>
    if first.name = definition.name then definition :: rest
    else if definition.name < first.name then definition :: first :: rest
    else first :: add rest definition

def get? (definitions : List Definition) (name : String) : Option Definition :=
  definitions.find? (·.name = name)

def Ascending (definitions : List Definition) : Prop :=
  definitions.Pairwise (·.name < ·.name)

theorem mem_add {definitions : List Definition} {definition other : Definition}
    (h : other ∈ add definitions definition) :
    other = definition ∨ other ∈ definitions := by
  induction definitions with
  | nil => simpa [add] using h
  | cons first rest ih =>
    unfold add at h
    split at h
    · rcases List.mem_cons.1 h with h | h
      · exact .inl h
      · exact .inr (List.mem_cons_of_mem _ h)
    · split at h
      · rcases List.mem_cons.1 h with h | h
        · exact .inl h
        · exact .inr h
      · rcases List.mem_cons.1 h with h | h
        · exact .inr (h ▸ List.mem_cons_self)
        · rcases ih h with h | h
          · exact .inl h
          · exact .inr (List.mem_cons_of_mem _ h)

theorem add_ascending {definitions : List Definition} (definition : Definition)
    (h : Ascending definitions) : Ascending (add definitions definition) := by
  induction definitions with
  | nil => simp [add, Ascending]
  | cons first rest ih =>
    obtain ⟨below, tail⟩ := List.pairwise_cons.1 h
    unfold add
    split
    next same =>
      exact List.pairwise_cons.2 ⟨fun other mem => same ▸ below other mem, tail⟩
    next differ =>
      split
      next less =>
        refine List.pairwise_cons.2 ⟨fun other mem => ?_, h⟩
        rcases List.mem_cons.1 mem with rfl | mem
        · exact less
        · exact String.lt_trans less (below other mem)
      next notLess =>
        have greater : first.name < definition.name :=
          Std.lt_of_le_of_ne (Std.not_lt.1 notLess) differ
        refine List.pairwise_cons.2 ⟨fun other mem => ?_, ih tail⟩
        rcases mem_add mem with rfl | mem
        · exact greater
        · exact below other mem

/-- A definition that is added answers for its name, and for no other. -/
theorem get?_add (definitions : List Definition) (definition : Definition)
    (name : String) :
    get? (add definitions definition) name =
      if definition.name = name then some definition
        else get? definitions name := by
  unfold get?
  induction definitions with
  | nil => by_cases hname : definition.name = name <;> simp [add, hname]
  | cons first rest ih =>
    unfold add
    split
    next same =>
      rw [List.find?_cons, List.find?_cons, same]
      by_cases hname : definition.name = name <;> simp [hname]
    next differ =>
      split
      · rw [List.find?_cons]
        by_cases hname : definition.name = name <;> simp [hname]
      · rw [List.find?_cons, List.find?_cons, ih]
        by_cases hfirst : first.name = name
        · have other : definition.name ≠ name :=
            fun hname => differ (hfirst.trans hname.symm)
          simp [hfirst, other]
        · simp [hfirst]

end Definitions

structure Catalog where
  definitions : List Definition
  ascending : Definitions.Ascending definitions

/-- A finding about one stage of a catalog. -/
inductive Issue where
  | unsupportedOperator (aggregation : String) (index : Nat) (operator : String)
  | missingUnionTarget (aggregation : String) (index : Nat)
  | danglingUnion (aggregation : String) (index : Nat) (target : String)
  deriving DecidableEq

namespace Issue

def aggregation : Issue → String
  | unsupportedOperator aggregation _ _ => aggregation
  | missingUnionTarget aggregation _ => aggregation
  | danglingUnion aggregation _ _ => aggregation

def index : Issue → Nat
  | unsupportedOperator _ index _ => index
  | missingUnionTarget _ index => index
  | danglingUnion _ index _ => index

def text : Issue → String
  | unsupportedOperator aggregation index operator =>
    s!"{aggregation}#{index}: operator '{operator}' is not supported"
  | missingUnionTarget aggregation index =>
    s!"{aggregation}#{index}: union stage has no 'pipeline' argument"
  | danglingUnion aggregation index target =>
    s!"{aggregation}#{index}: union references unknown aggregation '{target}'"

end Issue

namespace Catalog

def empty : Catalog := ⟨[], .nil⟩

def add (catalog : Catalog) (definition : Definition) : Catalog :=
  ⟨Definitions.add catalog.definitions definition,
    Definitions.add_ascending definition catalog.ascending⟩

/-- A catalog of these definitions (`from_specs`).  Later ones replace earlier
ones with the same name. -/
def ofList (definitions : List Definition) : Catalog :=
  definitions.foldl add empty

def get? (catalog : Catalog) (name : String) : Option Definition :=
  Definitions.get? catalog.definitions name

/-- Adds a definition, and answers the one that it replaced. -/
def insert (catalog : Catalog) (definition : Definition) :
    Option Definition × Catalog :=
  (catalog.get? definition.name, catalog.add definition)

def contains (catalog : Catalog) (name : String) : Bool :=
  (catalog.get? name).isSome

theorem get?_add (catalog : Catalog) (definition : Definition) (name : String) :
    (catalog.add definition).get? name =
      if definition.name = name then some definition else catalog.get? name :=
  Definitions.get?_add catalog.definitions definition name

def size (catalog : Catalog) : Nat := catalog.definitions.length

def isEmpty (catalog : Catalog) : Bool := catalog.definitions.isEmpty

/-- The names in ascending order. -/
def names (catalog : Catalog) : List String :=
  catalog.definitions.map Definition.name

/-- What is wrong with one stage: an unknown operator, or a union that does not
resolve. -/
def stageIssue? (catalog : Catalog) (aggregation : String) (index : Nat)
    (stage : Stage) :
    Option Issue :=
  match stage.operator? with
  | none => some (.unsupportedOperator aggregation index stage.operator)
  | some .unionWith =>
    match stage.unionTarget? with
    | none => some (.missingUnionTarget aggregation index)
    | some target =>
      if catalog.contains target then none
        else some (.danglingUnion aggregation index target)
  | some _ => none

/-- The findings about one definition, by stage. -/
def definitionIssues (catalog : Catalog) (definition : Definition) :
    List Issue :=
  definition.stages.zipIdx.filterMap fun (stage, index) =>
    catalog.stageIssue? definition.name index stage

/-- All findings, by name and then by stage (`validate`). -/
def issues (catalog : Catalog) : List Issue :=
  catalog.definitions.flatMap catalog.definitionIssues

end Catalog

end Aggregation
