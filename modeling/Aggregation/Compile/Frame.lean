import Aggregation.Event

/-!
# Compile frames

The state of one top-level compile: the aggregations that are open, innermost
first, and the events so far.  A computation on frames may also end early,
because the input is rejected or because its fuel is used up.  `opened` closes
on every way out what it opened, so the open aggregations after a step are those
before it.
-/

namespace Aggregation

/-- The state of one compile (`CompileFrame`). -/
structure Frame where
  active : List String := []
  log : List Event := []

inductive Halt where
  | rejected (error : CompileError)
  /-- More aggregations are nested than the fuel allows for. -/
  | exhausted

def Halt.through (trace : Trace) : Halt → Halt
  | rejected error => rejected (error.through trace)
  | exhausted => exhausted

abbrev CompileM := ExceptT Halt (StateM Frame)

namespace CompileM

variable {α β : Type}

def reject (cause : Cause) : CompileM α :=
  throw (.rejected ⟨cause, []⟩)

def ofExcept : Except Cause α → CompileM α
  | .ok value => pure value
  | .error cause => reject cause

/-- Adds an event to the log. -/
def note (event : Event) : CompileM Unit :=
  modify fun frame => { frame with log := frame.log ++ [event] }

/-- Runs with an aggregation open, as `compile_spec` runs the stages of one. -/
def opened (name : String) (body : CompileM α) : CompileM α :=
  ExceptT.mk fun frame =>
    let (result, after) :=
      body.run { frame with active := name :: frame.active }
    (result, { after with active := after.active.tail })

/-- Adds a stage to the trail of whatever rejects the body (`at_stage`). -/
def traced (trace : Trace) (body : CompileM α) : CompileM α :=
  ExceptT.mk fun frame =>
    let (result, after) := body.run frame
    (result.mapError (Halt.through trace), after)

/-- Whatever the outcome, the open aggregations are left as they were. -/
def Restores (body : CompileM α) : Prop :=
  ∀ frame, (body.run frame).2.active = frame.active

/-- From a frame with these aggregations open, the fuel suffices. -/
def Settles (active : List String) (body : CompileM α) : Prop :=
  ∀ frame, frame.active = active → (body.run frame).1 ≠ .error .exhausted

/-- The second part goes on from the frame that the first leaves, and does not
run where that one ends early. -/
theorem run_bind (body : CompileM α) (next : α → CompileM β) (frame : Frame) :
    (body >>= next).run frame =
      match body.run frame with
      | (.ok value, after) => (next value).run after
      | (.error halt, after) => (.error halt, after) := by
  change (ExceptT.bind body next).run frame = _
  simp only [ExceptT.bind, ExceptT.run, ExceptT.mk, bind, StateT.bind]
  rcases h : body frame with ⟨result | value, after⟩ <;> rfl

theorem restores_pure (value : α) : Restores (pure value : CompileM α) :=
  fun _ => rfl

theorem restores_reject (cause : Cause) :
    Restores (reject cause : CompileM α) := fun _ => rfl

theorem restores_note (event : Event) : Restores (note event) := fun _ => rfl

theorem restores_ofExcept (result : Except Cause α) :
    Restores (ofExcept result) := by
  cases result
  · exact restores_reject _
  · exact restores_pure _

theorem Restores.bind {body : CompileM α} {next : α → CompileM β}
    (first : Restores body) (second : ∀ value, Restores (next value)) :
    Restores (body >>= next) := by
  intro frame
  have kept := first frame
  rw [run_bind]
  rcases h : body.run frame with ⟨result | value, after⟩
  · simpa [h] using kept
  · have kept' := second value after
    simp only [h] at kept ⊢
    rw [kept', kept]

/-- An aggregation is closed again also where the body ends early. -/
theorem Restores.opened {body : CompileM α} (h : Restores body)
    (name : String) :
    Restores (opened name body) := by
  intro frame
  have kept := h { frame with active := name :: frame.active }
  change (body.run { frame with active := name :: frame.active }).2.active.tail
    = frame.active
  rw [kept]
  rfl

theorem Restores.traced {body : CompileM α} (h : Restores body)
    (trace : Trace) :
    Restores (traced trace body) := fun frame => h frame

theorem settles_pure (active : List String) (value : α) :
    Settles active (pure value : CompileM α) := fun _ _ => nofun

theorem settles_reject (active : List String) (cause : Cause) :
    Settles active (reject cause : CompileM α) := fun _ _ => nofun

theorem settles_note (active : List String) (event : Event) :
    Settles active (note event) :=
  fun _ _ => nofun

theorem settles_ofExcept (active : List String) (result : Except Cause α) :
    Settles active (ofExcept result) := by
  cases result
  · exact settles_reject _ _
  · exact settles_pure _ _

/-- The first part leaves the open aggregations as they were, so the second
starts with the same ones open. -/
theorem Settles.bind {active : List String} {body : CompileM α}
    {next : α → CompileM β} (first : Settles active body) (kept : Restores body)
    (second : ∀ value, Settles active (next value)) :
    Settles active (body >>= next) := by
  intro frame same
  have settled := first frame same
  have stays := kept frame
  rw [run_bind]
  rcases h : body.run frame with ⟨result | value, after⟩
  · simpa [h] using settled
  · refine second value after ?_
    simpa [h, same] using stays

/-- The body runs with one more aggregation open. -/
theorem Settles.opened {active : List String} {body : CompileM α}
    {name : String} (h : Settles (name :: active) body) :
    Settles active (opened name body) := by
  intro frame same
  exact h { frame with active := name :: frame.active } (by simp [same])

theorem Settles.traced {active : List String} {body : CompileM α}
    (h : Settles active body) (trace : Trace) :
    Settles active (traced trace body) := by
  intro frame same
  have settled := h frame same
  change (body.run frame).1.mapError (Halt.through trace) ≠ .error .exhausted
  rcases hr : (body.run frame).1 with halt | value
  · rcases halt with error | _
    · exact nofun
    · exact absurd hr settled
  · exact nofun

end CompileM

end Aggregation
