import Aggregation.Proofs.CompileLog

/-!
# Frames used again

A frame is asked for one thing after another: for a definition, for stages, for
a single stage, or for what a union embeds.  Each of these leaves the open
aggregations as it found them, whether it succeeds or fails, and of the frame it
looks at nothing else.  So what is asked for comes to the same whatever the
frame has been asked for before.
-/

namespace Aggregation

open CompileM

namespace CompileM

/-- From given open aggregations the computation always comes to the same result
and adds the same events, whatever was logged before, and it leaves the open
aggregations as they were. -/
def Steady {α : Type} (body : CompileM α) : Prop :=
  ∀ active, ∃ (result : Except CompileError α) (events : List Event), ∀ log,
    body.run ⟨active, log⟩ =
      (result.mapError .rejected, ⟨active, log ++ events⟩)

theorem Steady.of_restores {α : Type} {body : CompileM α}
    (hkept : Restores body)
    (hends : ∀ active, ∃ result, Computes active body result)
    (hlogs : ∀ active, ∃ events, Logs active body events) : Steady body := by
  intro active
  obtain ⟨result, hresult⟩ := hends active
  obtain ⟨events, hevents⟩ := hlogs active
  refine ⟨result, events, fun log => ?_⟩
  have hactive := hkept ⟨active, log⟩
  have hended := hresult ⟨active, log⟩ rfl
  have hlog := hevents ⟨active, log⟩ rfl
  rcases hrun : body.run ⟨active, log⟩ with ⟨ended, opened, logged⟩
  rw [hrun] at hactive hended hlog
  simp only at hactive hended hlog
  rw [hactive, hended, hlog]

end CompileM

/-- What a frame can be asked to compile. -/
inductive FrameCall where
  | ofDefinition (definition : Definition) (params : Params)
  /-- The stages of an aggregation from an index on. -/
  | ofStages (name : String) (params : Params) (index : ℕ) (stages : List Stage)
  | ofStage (params : Params) (stage : Stage)
  /-- The registered aggregation that a union names. -/
  | ofTarget (target : String) (params : Params)

namespace FrameCall

def Result : FrameCall → Type
  | ofDefinition .. => Pipeline
  | ofStages .. => Pipeline
  | ofStage .. => Document
  | ofTarget .. => String × Pipeline

/-- Compiles what is asked for, with fuel for so many nested definitions. -/
def perform (catalog : Catalog) (fuel : ℕ) :
    (call : FrameCall) → CompileM call.Result
  | ofDefinition definition params =>
    compileDefinition catalog fuel definition params
  | ofStages name params index stages =>
    compileStages (embedFrom catalog (compileDefinition catalog fuel)) name
      params index stages
  | ofStage params stage =>
    compileStage (embedFrom catalog (compileDefinition catalog fuel))
      params stage
  | ofTarget target params =>
    embedFrom catalog (compileDefinition catalog fuel) target params

/-- The frame that these calls leave, made one after another whatever they come
to. -/
def frameAfter (catalog : Catalog) (fuel : ℕ) (history : List FrameCall)
    (frame : Frame) :
    Frame :=
  history.foldl
    (fun frame call => ((call.perform catalog fuel).run frame).2) frame

theorem restores_perform (catalog : Catalog) (fuel : ℕ) (call : FrameCall) :
    Restores (call.perform catalog fuel) := by
  have hcompile := restores_compileDefinition catalog fuel
  have hembed : ∀ target params,
      Restores
        (embedFrom catalog (compileDefinition catalog fuel) target params) :=
    restores_embedFrom hcompile
  cases call with
  | ofDefinition definition params => exact hcompile definition params
  | ofStages name params index stages =>
      exact restores_compileStages hembed name params index stages
  | ofStage params stage => exact restores_compileStage hembed params stage
  | ofTarget target params => exact hembed target params

/-- The fuel of the compiler, or more, suffices within any open aggregations. -/
theorem steady_perform (catalog : Catalog) {fuel : ℕ}
    (hfuel : catalog.size + 2 ≤ fuel) (call : FrameCall) :
    Steady (call.perform catalog fuel) := by
  have hroom (active : List String) (name : String) :
      room catalog active name < fuel := by
    have hle := room_le catalog active name
    omega
  have hkept : ∀ target params,
      Restores
        (embedFrom catalog (compileDefinition catalog fuel) target params) :=
    restores_embedFrom (restores_compileDefinition catalog fuel)
  have hends (active : List String) := computes_embedFrom
    (fun {_ definition} _ params =>
      computes_compileDefinition catalog fuel active definition params
        (hroom _ _))
    (restores_compileDefinition catalog fuel)
  have hlogs (active : List String) := logs_embedFrom
    fun {_ definition} _ params =>
      logs_compileDefinition catalog fuel active definition params (hroom _ _)
  apply Steady.of_restores (call.restores_perform catalog fuel)
  · intro active
    cases call with
    | ofDefinition definition params =>
        exact ⟨_, computes_compileDefinition _ _ active _ _ (hroom _ _)⟩
    | ofStages name params index stages =>
        exact ⟨_, computes_compileStages (hends active) hkept name params
          index stages⟩
    | ofStage params stage =>
        exact ⟨_, computes_compileStage (hends active) hkept params stage⟩
    | ofTarget target params => exact ⟨_, hends active target params⟩
  · intro active
    cases call with
    | ofDefinition definition params =>
        exact ⟨_, logs_compileDefinition _ _ active _ _ (hroom _ _)⟩
    | ofStages name params index stages =>
        exact ⟨_, logs_compileStages (hlogs active) (hends active) hkept name
          params index stages⟩
    | ofStage params stage =>
        exact ⟨_, logs_compileStage (hlogs active) params stage⟩
    | ofTarget target params => exact ⟨_, hlogs active target params⟩

/-- One call after another, the open aggregations stay as they are. -/
theorem active_frameAfter (catalog : Catalog) (fuel : ℕ)
    (history : List FrameCall) (frame : Frame) :
    (frameAfter catalog fuel history frame).active = frame.active := by
  induction history generalizing frame with
  | nil => rfl
  | cons call history ih =>
      calc (frameAfter catalog fuel (call :: history) frame).active
          = ((call.perform catalog fuel).run frame).2.active := ih _
        _ = frame.active := call.restores_perform catalog fuel frame

end FrameCall

/-- Whatever a frame is asked for, and whatever that comes to, it is left with
the open aggregations that it had, also after any number of such calls.  A call
made then comes to what it would have come to at first, with the same events. -/
theorem frame_restored (catalog : Catalog) (history : List FrameCall)
    (frame : Frame) :
    (∀ fuel, (FrameCall.frameAfter catalog fuel history frame).active =
      frame.active) ∧
      ∀ (extra : ℕ) (call : FrameCall),
        let fuel := catalog.size + 2 + extra
        let left := FrameCall.frameAfter catalog fuel history frame
        ∃ (result : Except CompileError call.Result) (events : List Event),
          (call.perform catalog fuel).run frame =
              (result.mapError .rejected, ⟨frame.active, frame.log ++ events⟩) ∧
            (call.perform catalog fuel).run left =
              (result.mapError .rejected,
                ⟨frame.active, left.log ++ events⟩) := by
  refine ⟨fun fuel => FrameCall.active_frameAfter catalog fuel history frame,
    fun extra call => ?_⟩
  intro fuel left
  have hleft : left = ⟨frame.active, left.log⟩ := by
    rw [← FrameCall.active_frameAfter catalog fuel history frame]
  obtain ⟨result, events, hrun⟩ :=
    call.steady_perform catalog (Nat.le_add_right _ extra) frame.active
  refine ⟨result, events, hrun frame.log, ?_⟩
  rw [hleft]
  exact hrun left.log

end Aggregation
