import Aggregation.Proofs.Derivation
import Aggregation.Proofs.Trail

/-!
# Cycles

The compiler reports a cycle with the way that leads to it: the aggregations
which it left, from the outermost in, and then one of them again.  An
aggregation from which a cycle of unions can be reached does not compile,
whatever is bound, although what it fails with may be something else.
-/

namespace Aggregation

open Relation

/-- The aggregations of the trail read backwards, so that the outermost is
first. -/
def CompileError.route (error : CompileError) : List String :=
  (error.trail.map Trace.aggregation).reverse

namespace CompileError

theorem route_through (error : CompileError) (trace : Trace) :
    (error.through trace).route = trace.aggregation :: error.route := by
  simp [route, CompileError.through]

/-- The error reports a cycle that is closed by this name: the path leads
through what was open and on by unions, and the name closing it is on it. -/
structure ClosesCycle (error : CompileError) (catalog : Catalog)
    (active : List String) (name closing : String) : Prop where
  path : error.cause = .cycle (active.reverse ++ (error.route ++ [closing]))
  start : (error.route ++ [closing]).head? = some name
  linked : (error.route ++ [closing]).IsChain catalog.Unites
  closes : closing ∈ error.route ∨ closing ∈ active

/-- A union that leads to a cycle is the way to it. -/
theorem ClosesCycle.through {error : CompileError} {catalog : Catalog}
    {active : List String} {target closing : String} {trace : Trace}
    (h : error.ClosesCycle catalog (trace.aggregation :: active) target closing)
    (hunites : catalog.Unites trace.aggregation target) :
    (error.through trace).ClosesCycle catalog active trace.aggregation
      closing where
  path := by
    have hcause : (error.through trace).cause = error.cause := rfl
    rw [hcause, h.path, route_through, List.reverse_cons, List.append_assoc]
    rfl
  start := by
    rw [route_through]
    rfl
  linked := by
    rw [route_through, List.cons_append, List.isChain_cons]
    constructor
    · intro next hnext
      rw [h.start] at hnext
      cases hnext
      exact hunites
    · exact h.linked
  closes := by
    rw [route_through]
    cases h.closes with
    | inl hroute => exact .inl (List.mem_cons_of_mem _ hroute)
    | inr hopened =>
        cases List.mem_cons.mp hopened with
        | inl hself => exact .inl (hself ▸ List.mem_cons_self)
        | inr hactive => exact .inr hactive

end CompileError

namespace Fails

variable {catalog : Catalog} {active : List String} {definition : Definition}
  {params : Params} {error : CompileError}

/-- What fails for a cycle reports the one that it closes. -/
theorem closesCycle (h : Fails catalog active definition params error)
    (hregistered : catalog.get? definition.name = some definition)
    (hcode : error.code = .cycleDetected) :
    ∃ closing, error.ClosesCycle catalog active definition.name closing := by
  induction h with
  | @cycle active definition params hopen =>
      refine ⟨definition.name, ?_, rfl, List.isChain_singleton _, .inr hopen⟩
      simp [CompileError.route]
  | missing => cases hcode
  | plan hclosed hstage hcause =>
      exact absurd hcode (planOf_error_not_cycle hcause)
  | @within active definition params i stage target embedded error hclosed
      hstage htarget hfound hinner ih =>
      have hname : embedded.name = target := Catalog.get?_name hfound
      obtain ⟨closing, hcloses⟩ := ih (hname ▸ hfound) hcode
      have hunites : catalog.Unites definition.name embedded.name :=
        ⟨definition, hregistered, stage, List.mem_of_getElem? hstage,
          hname ▸ htarget⟩
      exact ⟨closing, hcloses.through hunites⟩

end Fails

theorem closesCycle_of_compile {catalog : Catalog} {name : String}
    {params : Params} {error : CompileError}
    (h : catalog.compile name params = .error error)
    (hcode : error.code = .cycleDetected) :
    ∃ closing, error.ClosesCycle catalog [] name closing := by
  cases fails_of_compile h with
  | inl hmissing =>
      obtain ⟨-, rfl⟩ := hmissing
      cases hcode
  | inr hregistered =>
      obtain ⟨definition, hfound, hfails⟩ := hregistered
      obtain rfl : definition.name = name := Catalog.get?_name hfound
      exact hfails.closesCycle hfound hcode

/-- No aggregation is left twice. -/
theorem route_nodup_of_compile {catalog : Catalog} {name : String}
    {params : Params} {error : CompileError}
    (h : catalog.compile name params = .error error) :
    error.route.Nodup := by
  apply List.nodup_reverse.mpr
  cases fails_of_compile h with
  | inl hmissing =>
      obtain ⟨-, rfl⟩ := hmissing
      exact List.nodup_nil
  | inr hregistered =>
      obtain ⟨definition, hfound, hfails⟩ := hregistered
      obtain rfl : definition.name = name := Catalog.get?_name hfound
      exact (hfails.isTrail hfound List.not_mem_nil).nodup

theorem compile_fails_of_cycle {catalog : Catalog} {name other : String}
    (hreaches : ReflTransGen catalog.Unites name other)
    (hcycle : TransGen catalog.Unites other other) (params : Params) :
    ∃ error, catalog.compile name params = .error error := by
  cases hcompile : catalog.compile name params with
  | error error => exact ⟨error, rfl⟩
  | ok pipeline =>
      have hgrounded := (derives_of_compile hcompile).grounded
      exact absurd hcycle (hgrounded.of_reaches hreaches).not_cyclic

/-- A reported cycle is one of unions that starts from the name asked for: the
message spells out the trail, read backwards, and the name on it that is met
again.  And where a cycle can be reached there is no compiling. -/
theorem compile_cycle_reported (catalog : Catalog) (name : String) :
    (∀ params error, catalog.compile name params = .error error →
      error.code = .cycleDetected →
        ∃ closing,
          error.message = "union cycle detected: " ++
            String.intercalate " -> " (error.route ++ [closing]) ∧
          (error.route ++ [closing]).head? = some name ∧
          (error.route ++ [closing]).IsChain catalog.Unites ∧
          error.route.Nodup ∧ closing ∈ error.route) ∧
      ∀ other, ReflTransGen catalog.Unites name other →
        TransGen catalog.Unites other other →
          ∀ params, ∃ error, catalog.compile name params = .error error := by
  constructor
  · intro params error h hcode
    obtain ⟨closing, hcloses⟩ := closesCycle_of_compile h hcode
    have hmessage : error.message = "union cycle detected: " ++
        String.intercalate " -> " (error.route ++ [closing]) := by
      rw [CompileError.message, hcloses.path]
      rfl
    have hnodup : error.route.Nodup := route_nodup_of_compile h
    have hmet : closing ∈ error.route :=
      hcloses.closes.resolve_right List.not_mem_nil
    exact ⟨closing, hmessage, hcloses.start, hcloses.linked, hnodup, hmet⟩
  · intro other hreaches hcycle
    exact compile_fails_of_cycle hreaches hcycle

/-- Two aggregations that unite each other, and a third that unites one of
them. -/
def Catalog.looped : Catalog :=
  .ofList
    [⟨"entry", "entries",
        [⟨none, "$unionWith", [("pipeline", .string "left")]⟩]⟩,
      ⟨"left", "entries",
        [⟨none, "$group", []⟩,
          ⟨some "other", "$unionWith", [("pipeline", .string "right")]⟩]⟩,
      ⟨"right", "entries",
        [⟨none, "$unionWith", [("pipeline", .string "left")]⟩]⟩]

/-- The third names the two others, and compiles for no bindings. -/
theorem compile_looped_cycle_reported :
    (∃ error, Catalog.looped.compile "entry" [] = .error error ∧
      error.route = ["entry", "left", "right"] ∧
      ∃ closing,
        error.message = "union cycle detected: " ++
          String.intercalate " -> " (error.route ++ [closing]) ∧
        (error.route ++ [closing]).IsChain Catalog.looped.Unites ∧
        closing ∈ error.route) ∧
      ∀ params, ∃ error, Catalog.looped.compile "entry" params =
        .error error := by
  obtain ⟨hreported, hfails⟩ := compile_cycle_reported .looped "entry"
  have hcompile : Catalog.looped.compile "entry" [] =
      .error ⟨.cycle ["entry", "left", "right", "left"],
        [⟨"right", 0, none, "$unionWith"⟩,
          ⟨"left", 1, some "other", "$unionWith"⟩,
          ⟨"entry", 0, none, "$unionWith"⟩]⟩ := by
    rfl
  have hentry : Catalog.looped.Unites "entry" "left" :=
    ⟨_, rfl, _, List.mem_cons_self, rfl⟩
  have hleft : Catalog.looped.Unites "left" "right" :=
    ⟨_, rfl, _, List.mem_cons_of_mem _ List.mem_cons_self, rfl⟩
  have hright : Catalog.looped.Unites "right" "left" :=
    ⟨_, rfl, _, List.mem_cons_self, rfl⟩
  constructor
  · obtain ⟨closing, hmessage, -, hlinked, -, hcloses⟩ :=
      hreported _ _ hcompile rfl
    exact ⟨_, hcompile, rfl, closing, hmessage, hlinked, hcloses⟩
  · exact hfails "left" (.single hentry) (.tail (.single hleft) hright)

end Aggregation
