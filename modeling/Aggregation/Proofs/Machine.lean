import Aggregation.Proofs.References
import Aggregation.Proofs.Stage
import Mathlib.Data.List.Perm.Subperm
import Mathlib.Logic.Function.Iterate

/-!
# The compiler step by step

A machine with an explicit stack of activations does what the compiler does,
one stage at a time and without fuel.  Each moment of a run is a state of it,
so that its invariant speaks of every moment: open aggregations are distinct
and, the outermost apart, registered (`Sound`).  Every run comes to an end, and
there it answers with the outcome (`leads_to_outcome`).
-/

namespace Aggregation.Machine

open CompileM

/-- A definition under way: the stages from this index on, and the documents of
those before. -/
structure Activation where
  definition : Definition
  params : Params
  index : ℕ
  stages : List Stage
  done : Pipeline

namespace Activation

def start (definition : Definition) (params : Params) : Activation :=
  ⟨definition, params, 0, definition.stages, []⟩

/-- The first stage has compiled to this document. -/
def advance (activation : Activation) (document : Document) : Activation :=
  { activation with
    index := activation.index + 1
    stages := activation.stages.tail
    done := activation.done ++ [document] }

/-- The error as it leaves the first stage. -/
def blame (activation : Activation) (error : CompileError) : CompileError :=
  match activation.stages with
  | [] => error
  | stage :: _ =>
      error.through (stage.trace activation.definition.name activation.index)

end Activation

/-- Suspended activations wait at a union, innermost first. -/
inductive State where
  /-- A definition is about to be opened. -/
  | enter (definition : Definition) (params : Params)
      (suspended : List Activation)
  /-- The stages of the innermost open aggregation are compiled. -/
  | work (current : Activation) (suspended : List Activation)
  /-- A definition has been closed, or was not opened, with this result. -/
  | leave (definition : Definition) (result : Except CompileError Pipeline)
      (suspended : List Activation)

def names (activations : List Activation) : List String :=
  activations.map fun activation => activation.definition.name

/-- The open aggregations, innermost first. -/
def State.active : State → List String
  | enter _ _ suspended => names suspended
  | work current suspended => names (current :: suspended)
  | leave _ _ suspended => names suspended

def workStep (catalog : Catalog) (current : Activation)
    (suspended : List Activation) :
    State :=
  match current.stages with
  | [] => .leave current.definition (.ok current.done) suspended
  | stage :: _ =>
      match planOf current.params stage with
      | .error cause =>
          .leave current.definition (.error (current.blame ⟨cause, []⟩))
            suspended
      | .ok (operator, .operand value) =>
          .work (current.advance (operator.stage value)) suspended
      | .ok (operator, .filter document) =>
          .work (current.advance (operator.stage (.document document)))
            suspended
      | .ok (_, .embed target params) =>
          match catalog.get? target with
          | none =>
              .leave current.definition
                (.error (current.blame ⟨.notFound target, []⟩)) suspended
          | some definition => .enter definition params (current :: suspended)

/-- One step.  A result without suspended activations is final. -/
def next (catalog : Catalog) : State → State
  | .enter definition params suspended =>
      if definition.name ∈ names suspended then
        .leave definition
          (.error ⟨.cycle (definition.name :: names suspended).reverse, []⟩)
          suspended
      else .work (.start definition params) suspended
  | .work current suspended => workStep catalog current suspended
  | .leave definition result [] => .leave definition result []
  | .leave definition (.ok pipeline) (caller :: suspended) =>
      .work
        (caller.advance
          (StageOperator.unionWith.stage
            (unionValue definition.collection pipeline)))
        suspended
  | .leave _ (.error error) (caller :: suspended) =>
      .leave caller.definition (.error (caller.blame error)) suspended

section Steps

variable {catalog : Catalog} {definition : Definition}
  {suspended : List Activation}

theorem next_enter_of_open (hopen : definition.name ∈ names suspended)
    (params : Params) :
    next catalog (.enter definition params suspended) =
      .leave definition
        (.error ⟨.cycle (definition.name :: names suspended).reverse, []⟩)
        suspended :=
  if_pos hopen

theorem next_enter_of_closed (hclosed : definition.name ∉ names suspended)
    (params : Params) :
    next catalog (.enter definition params suspended) =
      .work (.start definition params) suspended :=
  if_neg hclosed

theorem next_work (current : Activation) :
    next catalog (.work current suspended) =
      workStep catalog current suspended :=
  rfl

end Steps

/-! ## What every step keeps -/

/-- The aggregations that are open, and the one that is about to be. -/
def State.named : State → List String
  | enter definition _ suspended => definition.name :: names suspended
  | state => state.active

/-- Open aggregations are distinct, and each of them is registered or the one
that the run is about. -/
structure Sound (catalog : Catalog) (name : String) (state : State) : Prop where
  nodup : state.active.Nodup
  known : ∀ opened ∈ state.named, opened = name ∨ opened ∈ catalog.names

variable {catalog : Catalog} {name : String}

theorem Sound.enter (definition : Definition) (params : Params) :
    Sound catalog definition.name (.enter definition params []) where
  nodup := List.nodup_nil
  known := by simp [State.named, names]

/-- A state whose open aggregations are among those of a sound one is sound. -/
theorem Sound.of_sublist {state after : State} (h : Sound catalog name state)
    (hactive : after.active.Sublist state.named) (hnodup : after.active.Nodup)
    (hnamed : after.named = after.active) : Sound catalog name after where
  nodup := hnodup
  known := by
    intro opened hopened
    rw [hnamed] at hopened
    exact h.known opened (hactive.subset hopened)

theorem Sound.workStep {current : Activation} {suspended : List Activation}
    (h : Sound catalog name (.work current suspended)) :
    Sound catalog name (workStep catalog current suspended) := by
  have hnodup : (current.definition.name :: names suspended).Nodup := h.nodup
  have hleave : ∀ result,
      Sound catalog name (.leave current.definition result suspended) :=
        fun result =>
    h.of_sublist (List.sublist_cons_self _ _) (List.nodup_cons.mp hnodup).2 rfl
  have hadvance : ∀ document,
      Sound catalog name (.work (current.advance document) suspended) :=
        fun document =>
    h.of_sublist (List.Sublist.refl _) hnodup rfl
  unfold Machine.workStep
  split
  · exact hleave _
  · split
    · exact hleave _
    · exact hadvance _
    · exact hadvance _
    · next target params _ =>
        cases hfound : catalog.get? target with
        | none => exact hleave _
        | some definition =>
            constructor
            · exact hnodup
            · intro opened hopened
              cases List.mem_cons.mp hopened with
              | inl hself => exact .inr (hself ▸ mem_names_of_get? hfound)
              | inr hopen => exact h.known opened hopen

theorem Sound.next {state : State} (h : Sound catalog name state) :
    Sound catalog name (next catalog state) := by
  rcases state with ⟨definition, params, suspended⟩ | ⟨current, suspended⟩ |
    ⟨definition, result, _ | ⟨caller, suspended⟩⟩
  · have hnodup : (names suspended).Nodup := h.nodup
    by_cases hopen : definition.name ∈ names suspended
    · rw [next_enter_of_open hopen]
      exact h.of_sublist (List.sublist_cons_self _ _) hnodup rfl
    · rw [next_enter_of_closed hopen]
      exact h.of_sublist (List.Sublist.refl _)
        (List.nodup_cons.mpr ⟨hopen, hnodup⟩) rfl
  · exact h.workStep
  · exact h
  · have hnodup : (caller.definition.name :: names suspended).Nodup := h.nodup
    rcases result with error | pipeline
    · exact h.of_sublist (List.sublist_cons_self _ _)
        (List.nodup_cons.mp hnodup).2 rfl
    · exact h.of_sublist (List.Sublist.refl _) hnodup rfl

theorem Sound.iterate {state : State} (h : Sound catalog name state)
    (steps : ℕ) :
    Sound catalog name ((Machine.next catalog)^[steps] state) := by
  induction steps with
  | zero => exact h
  | succ steps ih =>
      rw [Function.iterate_succ_apply']
      exact ih.next

/-- No more aggregations are open than are registered, the one that the run is
about apart. -/
theorem Sound.length_le {state : State} (h : Sound catalog name state) :
    state.active.length ≤
      catalog.size + if catalog.contains name then 0 else 1 := by
  have hsize : catalog.names.length = catalog.size := List.length_map _
  have hactive : ∀ opened ∈ state.active, opened = name ∨
      opened ∈ catalog.names := by
    intro opened hopened
    cases state with
    | enter => exact h.known opened (List.mem_cons_of_mem _ hopened)
    | work | leave => exact h.known opened hopened
  by_cases hregistered : catalog.contains name = true
  · have hname : name ∈ catalog.names := by
      obtain ⟨definition, hfound⟩ := Option.isSome_iff_exists.mp hregistered
      exact Catalog.get?_name hfound ▸ mem_names_of_get? hfound
    have hsubset : state.active ⊆ catalog.names := by
      intro opened hopened
      cases hactive opened hopened with
      | inl hself => exact hself ▸ hname
      | inr hknown => exact hknown
    calc
      state.active.length ≤ catalog.names.length :=
        (List.subperm_of_subset h.nodup hsubset).length_le
      _ = catalog.size + if catalog.contains name then 0 else 1 := by
        simp [hregistered, hsize]
  · have hsubset : state.active ⊆ name :: catalog.names := by
      intro opened hopened
      exact List.mem_cons.mpr (hactive opened hopened)
    calc
      state.active.length ≤ (name :: catalog.names).length :=
        (List.subperm_of_subset h.nodup hsubset).length_le
      _ = catalog.size + if catalog.contains name then 0 else 1 := by
        simp [hregistered, hsize]

/-! ## Where a run ends -/

/-- A run from the one state comes to the other. -/
def Leads (catalog : Catalog) (state after : State) : Prop :=
  ∃ steps : ℕ, (next catalog)^[steps] state = after

theorem Leads.refl (state : State) : Leads catalog state state := ⟨0, rfl⟩

theorem Leads.of_next {state after : State}
    (h : Leads catalog (next catalog state) after) :
    Leads catalog state after := by
  obtain ⟨steps, rfl⟩ := h
  exact ⟨steps + 1, Function.iterate_succ_apply _ _ _⟩

theorem Leads.trans {state between after : State}
    (hfirst : Leads catalog state between)
    (hsecond : Leads catalog between after) : Leads catalog state after := by
  obtain ⟨first, rfl⟩ := hfirst
  obtain ⟨second, rfl⟩ := hsecond
  exact ⟨second + first, Function.iterate_add_apply _ _ _ _⟩

/-- Where the first stage leads, given that what it embeds leads to its
outcome. -/
def afterStage (current : Activation) (suspended : List Activation) :
    Except CompileError Document → State
  | .ok document => .work (current.advance document) suspended
  | .error error =>
    .leave current.definition (.error (current.blame error)) suspended

theorem leads_afterStage {active : List String} {current : Activation}
    {suspended : List Activation} {stage : Stage} {stages : List Stage}
    (hstages : current.stages = stage :: stages)
    (hembedded : ∀ target embedded, catalog.get? target = some embedded →
      ∀ bound, Leads catalog (.enter embedded bound (current :: suspended))
        (.leave embedded (outcome catalog active embedded bound)
          (current :: suspended))) :
    Leads catalog (.work current suspended)
      (afterStage current suspended
        (stageOutcome (embedded catalog active) current.params stage)) := by
  apply Leads.of_next
  rw [next_work, workStep]
  cases hplan : planOf current.params stage with
  | error cause =>
      rw [stageOutcome_of_planOf_error hplan]
      simp only [hstages, hplan]
      exact .refl _
  | ok planned =>
      obtain ⟨operator, plan⟩ := planned
      simp only [stageOutcome, hstages, hplan]
      cases plan with
      | operand value => exact .refl _
      | filter document => exact .refl _
      | embed target bound =>
          have hunion := planOf_embed_operator hplan
          simp only [planOutcome, embedded]
          cases hfound : catalog.get? target with
          | none => exact .refl _
          | some definition =>
              apply (hembedded target definition hfound bound).trans
              apply Leads.of_next
              simp only [hunion]
              cases outcome catalog active definition bound <;> exact .refl _

theorem leads_of_stages {active : List String} {suspended : List Activation}
    (hembedded : ∀ current : Activation,
      current.definition.name :: names suspended = active →
      ∀ target embedded, catalog.get? target = some embedded →
        ∀ bound, Leads catalog (.enter embedded bound (current :: suspended))
          (.leave embedded (outcome catalog active embedded bound)
            (current :: suspended)))
    (current : Activation)
    (hactive : current.definition.name :: names suspended = active) :
    Leads catalog (.work current suspended)
      (.leave current.definition
        ((stagesOutcome (embedded catalog active) current.definition.name
          current.params current.index current.stages).map (current.done ++ ·))
        suspended) := by
  induction hstages : current.stages generalizing current with
  | nil =>
      apply Leads.of_next
      rw [next_work, workStep, hstages]
      simp only [stagesOutcome, Except.map, List.append_nil]
      exact .refl _
  | cons stage stages ih =>
      have hstage := leads_afterStage hstages (hembedded current hactive)
      apply hstage.trans
      rw [stagesOutcome_cons]
      cases stageOutcome (embedded catalog active) current.params stage with
      | error error =>
          simp only [afterStage, Activation.blame, hstages]
          exact .refl _
      | ok document =>
          have hrest := ih (current.advance document) hactive
            (by simp [Activation.advance, hstages])
          apply hrest.trans
          simp only [Activation.advance]
          cases stagesOutcome (embedded catalog active) current.definition.name
              current.params (current.index + 1) stages with
          | error error => exact .refl _
          | ok documents =>
              simp only [Except.map, List.append_assoc, List.singleton_append]
              exact .refl _

/-- From the opening of a definition the machine comes to its outcome, whatever
is suspended. -/
theorem leads_to_outcome (catalog : Catalog) (active : List String)
    (definition : Definition) :
    ∀ params suspended, names suspended = active →
      Leads catalog (.enter definition params suspended)
        (.leave definition (outcome catalog active definition params)
          suspended) := by
  induction active, definition using opening_induction catalog with
  | hstep active definition ih =>
      intro params suspended hactive
      subst hactive
      apply Leads.of_next
      by_cases hopen : definition.name ∈ names suspended
      · rw [next_enter_of_open hopen, outcome_of_open hopen]
        exact .refl _
      · rw [next_enter_of_closed hopen, outcome_of_closed hopen]
        have hrun := leads_of_stages
          (fun current hcurrent target embedded hfound bound =>
            ih hopen target embedded hfound bound (current :: suspended)
              hcurrent)
          (.start definition params) rfl
        have hmap : ∀ result : Except CompileError Pipeline,
            result.map ([] ++ ·) = result := by
          rintro (error | pipeline) <;> rfl
        simp only [Activation.start, hmap] at hrun
        exact hrun

/-- Compiling a definition takes finitely many steps, at each of which the open
aggregations are distinct and no more than are registered, an outermost one
that is not registered apart.  Fuel for two definitions more than are registered
is not used up, and more fuel changes nothing. -/
theorem compile_terminates_with_bounded_stack (catalog : Catalog)
    (definition : Definition) (params : Params) :
    (∃ steps : ℕ, (next catalog)^[steps] (.enter definition params []) =
      .leave definition
        (catalog.compileDefinition definition params).collect.1 []) ∧
    (∀ steps : ℕ,
      ((next catalog)^[steps] (.enter definition params [])).active.Nodup ∧
      ((next catalog)^[steps] (.enter definition params [])).active.length ≤
        catalog.size + if catalog.contains definition.name then 0 else 1) ∧
    ∀ (extra : ℕ) (frame : Frame),
      ((compileDefinition catalog (catalog.size + 2 + extra) definition
        params).run frame).1 =
      ((compileDefinition catalog (catalog.size + 2) definition
        params).run frame).1 ∧
      ((compileDefinition catalog (catalog.size + 2) definition
        params).run frame).1 ≠ .error .exhausted := by
  refine ⟨?_, ?_, ?_⟩
  · rw [collect_compileDefinition]
    exact leads_to_outcome catalog [] definition params [] rfl
  · intro steps
    have hstart : Sound catalog definition.name (.enter definition params []) :=
      .enter definition params
    have hsound := hstart.iterate steps
    exact ⟨hsound.nodup, hsound.length_le⟩
  · intro extra frame
    have hroom := room_le catalog frame.active definition.name
    have hmore := computes_compileDefinition catalog (catalog.size + 2 + extra)
      frame.active definition params (by omega) frame rfl
    have henough := computes_compileDefinition catalog (catalog.size + 2)
      frame.active definition params (by omega) frame rfl
    constructor
    · rw [hmore, henough]
    · rw [henough]
      cases outcome catalog frame.active definition params with
      | error error => nofun
      | ok pipeline => nofun

end Aggregation.Machine
