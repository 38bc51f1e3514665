import Aggregation.Proofs.Cycle

/-!
# Definitions from outside the catalog

A definition need not be registered to be compiled.  Its unions lead into the
catalog and never back to it, but what is open is known by name, and so the
aggregation that is registered under its name counts as the definition met
again.  Such a definition is refused for a cycle where unions do go round, or
where they lead to that aggregation; and where they do it compiles for no
bindings.
-/

namespace Aggregation

open CompileM Result Relation

/-- A union stage of the definition names the target. -/
def Definition.Unites (definition : Definition) (target : String) : Prop :=
  ∃ stage ∈ definition.stages, stage.unionTarget? = some target

/-! ## Where a reported cycle leads -/

/-- Whoever follows a chain gets to its end. -/
theorem reflTransGen_of_isChain {α : Type} {R : α → α → Prop} {links : List α}
    {first last : α} (hfirst : (links ++ [last]).head? = some first)
    (hlinked : (links ++ [last]).IsChain R) : ReflTransGen R first last := by
  have hnonempty : links ++ [last] ≠ [] := by simp
  have hreaches :=
    List.relationReflTransGen_of_exists_isChain _ hlinked hnonempty
  rw [List.getLast_concat] at hreaches
  rw [List.head?_eq_some_head hnonempty] at hfirst
  exact Option.some.inj hfirst ▸ hreaches

namespace CompileError.ClosesCycle

variable {error : CompileError} {catalog : Catalog} {active : List String}
  {name closing : String}

theorem reaches (h : error.ClosesCycle catalog active name closing) :
    ReflTransGen catalog.Unites name closing :=
  reflTransGen_of_isChain h.start h.linked

/-- A name that is met again on the way itself is on a cycle. -/
theorem cyclic (h : error.ClosesCycle catalog active name closing)
    (hmet : closing ∈ error.route) :
    TransGen catalog.Unites closing closing := by
  obtain ⟨before, after, hroute⟩ := List.append_of_mem hmet
  have hlinked := h.linked
  rw [hroute, List.append_assoc] at hlinked
  obtain ⟨hnext, hround⟩ := List.isChain_cons.mp hlinked.right_of_append
  obtain ⟨next, hhead⟩ : ∃ next, (after ++ [closing]).head? = some next := by
    cases after <;> exact ⟨_, rfl⟩
  exact TransGen.head' (hnext next hhead) (reflTransGen_of_isChain hhead hround)

end CompileError.ClosesCycle

namespace Fails

variable {catalog : Catalog} {active : List String} {definition : Definition}
  {params : Params} {error : CompileError} {path : List String}

/-- The name that closes a cycle is that of a registered aggregation. -/
theorem closing_registered (h : Fails catalog active definition params error)
    (hregistered : catalog.get? definition.name = some definition)
    (hcause : error.cause = .cycle path) :
    ∃ closing other, path.getLast? = some closing ∧
      catalog.get? closing = some other := by
  induction h with
  | @cycle active definition =>
      cases hcause
      exact ⟨definition.name, definition, by simp, hregistered⟩
  | plan _ _ hfails =>
      subst hcause
      exact absurd rfl (planOf_error_not_cycle hfails)
  | missing => cases hcause
  | within _ _ _ hfound _ ih =>
      have hname := Catalog.get?_name hfound
      exact ih (hname ▸ hfound) hcause

end Fails

/-- A definition that is refused for a cycle unites something from which unions
lead round, or to its own name. -/
theorem Fails.meets_again {catalog : Catalog} {definition : Definition}
    {params : Params} {error : CompileError}
    (h : Fails catalog [] definition params error)
    (hcode : error.code = .cycleDetected) :
    ∃ target, definition.Unites target ∧
      ((∃ other, ReflTransGen catalog.Unites target other ∧
          TransGen catalog.Unites other other) ∨
        ReflTransGen catalog.Unites target definition.name ∧
          ∃ other, catalog.get? definition.name = some other) := by
  cases h with
  | cycle hopen => cases hopen
  | plan _ _ hfails => exact absurd hcode (planOf_error_not_cycle hfails)
  | missing => cases hcode
  | @within _ _ _ i stage target embedded error _ hstage htarget hfound
      hinner =>
      obtain rfl : embedded.name = target := Catalog.get?_name hfound
      refine ⟨_, ⟨stage, List.mem_of_getElem? hstage, htarget⟩, ?_⟩
      obtain ⟨closing, hcloses⟩ := hinner.closesCycle hfound hcode
      rcases hcloses.closes with hroute | hopened
      · exact .inl ⟨closing, hcloses.reaches, hcloses.cyclic hroute⟩
      · obtain rfl := List.mem_singleton.mp hopened
        refine .inr ⟨hcloses.reaches, ?_⟩
        obtain ⟨last, other, hlast, hother⟩ :=
          hinner.closing_registered hfound hcloses.path
        rw [← List.append_assoc, List.getLast?_concat] at hlast
        cases hlast
        exact ⟨other, hother⟩

/-! ## What compiles leads to nothing open -/

/-- What compiles among open aggregations has no unions that lead to one of
them, or back to itself. -/
theorem fresh_of_outcome {catalog : Catalog} (active : List String)
    (definition : Definition) :
    ∀ {params pipeline}, outcome catalog active definition params =
      .ok pipeline →
      ∀ target, definition.Unites target →
        ∀ other, ReflTransGen catalog.Unites target other →
          other ∉ definition.name :: active := by
  induction active, definition using opening_induction catalog with
  | hstep active definition ih =>
      intro params pipeline houtcome target ⟨stage, hstage, htarget⟩ other
        hreaches
      by_cases hopen : definition.name ∈ active
      · rw [outcome_of_open hopen] at houtcome
        cases houtcome
      rw [outcome_of_closed hopen] at houtcome
      obtain ⟨document, hdocument⟩ := exists_stageOutcome_of_mem houtcome hstage
      rcases stageOutcome_eq_ok_iff.mp hdocument with
        ⟨value, hyields, -⟩ |
        ⟨named, collection, inner, hnamed, -, hembedded, -⟩
      · exact absurd htarget (hyields.not_union target)
      obtain rfl : target = named := Option.some.inj (htarget.symm.trans hnamed)
      obtain ⟨embedded, hfound, hinner, -⟩ := embedded_eq_ok_iff.mp hembedded
      obtain rfl : embedded.name = target := Catalog.get?_name hfound
      rcases ReflTransGen.cases_head hreaches with rfl | ⟨next, hunites, hrest⟩
      · intro hmet
        rw [outcome_of_open hmet] at hinner
        cases hinner
      · obtain ⟨registered, hregistered, hnext⟩ := hunites
        obtain rfl : embedded = registered :=
          Option.some.inj (hfound.symm.trans hregistered)
        have hfresh := ih hopen _ embedded hfound hinner next hnext other hrest
        exact fun hmet => hfresh (List.mem_cons_of_mem _ hmet)

theorem compileDefinition_fails_of_reaches {catalog : Catalog}
    {definition : Definition} {target : String}
    (hunites : definition.Unites target)
    (hreaches : ReflTransGen catalog.Unites target definition.name)
    (params : Params) :
    ∃ error, (catalog.compileDefinition definition params).collect.1 =
      .error error := by
  cases hcompile : (catalog.compileDefinition definition params).collect.1 with
  | error error => exact ⟨error, rfl⟩
  | ok pipeline =>
      rw [collect_compileDefinition] at hcompile
      have hfresh :=
        fresh_of_outcome [] definition hcompile target hunites _ hreaches
      exact absurd List.mem_cons_self hfresh

/-- A definition, registered or not, is refused for a cycle only where what it
unites leads to a cycle of the catalog, where it is registered itself and on
such a cycle, or where what it unites leads to another definition that is
registered under its name.  Where its unions lead to its own name it compiles
for no bindings. -/
theorem compileDefinition_cycle_detected (catalog : Catalog)
    (definition : Definition) :
    (∀ params error,
      (catalog.compileDefinition definition params).collect.1 = .error error →
      error.code = .cycleDetected →
        (∃ target other, definition.Unites target ∧
          ReflTransGen catalog.Unites target other ∧
          TransGen catalog.Unites other other) ∨
        (catalog.get? definition.name = some definition ∧
          TransGen catalog.Unites definition.name definition.name) ∨
        ∃ other target, catalog.get? definition.name = some other ∧
          other ≠ definition ∧ definition.Unites target ∧
          ReflTransGen catalog.Unites target definition.name) ∧
    ∀ target, definition.Unites target →
      ReflTransGen catalog.Unites target definition.name →
        ∀ params, ∃ error,
          (catalog.compileDefinition definition params).collect.1 =
            .error error := by
  constructor
  · intro params error h hcode
    rw [collect_compileDefinition] at h
    obtain ⟨target, hunites, ⟨other, hreaches, hcycle⟩
        | ⟨hreaches, other, hother⟩⟩ :=
      (fails_of_outcome [] definition h).meets_again hcode
    · exact .inl ⟨target, other, hunites, hreaches, hcycle⟩
    by_cases hself : other = definition
    · rw [hself] at hother
      exact .inr (.inl ⟨hother, .head' ⟨definition, hother, hunites⟩ hreaches⟩)
    · exact .inr (.inr ⟨other, target, hother, hself, hunites, hreaches⟩)
  · intro target hunites hreaches
    exact compileDefinition_fails_of_reaches hunites hreaches

/-- Posts that are not out yet, along with those that are registered under the
same name. -/
def Definition.drafts : Definition :=
  ⟨"posts", "drafts", [⟨none, "$unionWith", [("pipeline", .string "posts")]⟩]⟩

def Catalog.posts : Catalog :=
  .ofList [⟨"posts", "posts", []⟩]

theorem Catalog.posts_not_cyclic (name : String) :
    ¬ TransGen Catalog.posts.Unites name name := by
  intro hcycle
  obtain ⟨_, hunites, -⟩ := TransGen.head'_iff.mp hcycle
  obtain ⟨definition, hfound, stage, hstage, -⟩ := hunites
  obtain rfl : definition = ⟨"posts", "posts", []⟩ :=
    List.mem_singleton.mp (Catalog.mem_of_get? hfound)
  cases hstage

theorem Catalog.posts_get?_ne_drafts :
    Catalog.posts.get? Definition.drafts.name ≠ some .drafts := by
  intro hfound
  have hcollection := congrArg (Option.map Definition.collection) hfound
  exact absurd hcollection (by decide)

theorem compileDefinition_drafts :
    (Catalog.posts.compileDefinition .drafts []).collect.1 =
      .error ⟨.cycle ["posts", "posts"],
        [⟨"posts", 0, none, "$unionWith"⟩]⟩ := by
  rfl

/-- The drafts are refused for a cycle, although no unions go round among what
is registered, and they are not registered themselves. -/
theorem compileDefinition_drafts_refused :
    ∃ error, (Catalog.posts.compileDefinition .drafts []).collect.1 =
      .error error ∧
      error.code = .cycleDetected ∧
      (∀ name, ¬ TransGen Catalog.posts.Unites name name) ∧
      Catalog.posts.get? Definition.drafts.name ≠ some .drafts :=
  ⟨_, compileDefinition_drafts, rfl, Catalog.posts_not_cyclic,
    Catalog.posts_get?_ne_drafts⟩

/-- The drafts are refused for the posts that are registered under their name,
and so whatever is bound. -/
theorem compileDefinition_drafts_meets_posts :
    (∃ other, Catalog.posts.get? "posts" = some other ∧ other ≠ .drafts) ∧
      ∀ params, ∃ error,
        (Catalog.posts.compileDefinition .drafts params).collect.1 =
          .error error := by
  obtain ⟨hmeets, hfails⟩ := compileDefinition_cycle_detected .posts .drafts
  constructor
  · rcases hmeets [] _ compileDefinition_drafts rfl with
      ⟨_, name, -, -, hcycle⟩ | ⟨-, hcycle⟩ | ⟨other, _, hfound, hother, -, -⟩
    · exact absurd hcycle (Catalog.posts_not_cyclic name)
    · exact absurd hcycle (Catalog.posts_not_cyclic _)
    · exact ⟨other, hfound, hother⟩
  · exact hfails "posts" ⟨_, List.mem_cons_self, rfl⟩ .refl

end Aggregation
