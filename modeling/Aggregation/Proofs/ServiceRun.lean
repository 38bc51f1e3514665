import Aggregation.Proofs.Loading
import Aggregation.Proofs.Outcome
import Aggregation.Service
import Mathlib.Data.List.Induction

/-!
# Runs of a query service

A service is asked for one thing after another, and its gateway is told now and
then to fail or to stop failing.  The gateway gets a call for each request that
compiles, in order, and no other.  What a request is answered with is settled by
the request itself and by whether the gateway fails, up to what the gateway puts
into a success.
-/

namespace Aggregation

/-- What a service is asked for, and what its gateway is told in between. -/
inductive ServiceStep where
  | aggregate (name : String) (params : Params)
  | find (collection : String) (filter : Option Filter)
  | setFailing (failing : Bool)

/-- A gateway that keeps every call that it gets, fails while told to, and
succeeds with what it makes of the calls so far otherwise. -/
def Gateway.recording {Output Failure : Type}
    (respond : List GatewayCall → Output) (failure : Failure) :
    Gateway (StateM RecordingState) Output Failure where
  run call := do
    modify fun state => { state with calls := state.calls ++ [call] }
    let state ← get
    pure (if state.failing then .error failure else .ok (respond state.calls))

theorem recordingGateway_eq_recording :
    recordingGateway = .recording List.length .unavailable :=
  rfl

namespace ServiceStep

/-- What a step compiles to, if it is a request. -/
def compiled? (catalog : Catalog) :
    ServiceStep → Option (Except CompileError GatewayCall)
  | aggregate name params =>
    some ((catalog.compileNamed name params).collect.1.map
      fun (definition, pipeline) => .aggregate definition.collection pipeline)
  | find collection filter =>
    match Filter.build filter with
    | .ok document => some (.ok (.find collection document))
    | .error cause => some (.error ⟨cause, []⟩)
  | setFailing _ => none

/-- The call that a step comes to, if it is a request that compiles. -/
def call? (catalog : Catalog) (step : ServiceStep) : Option GatewayCall :=
  (step.compiled? catalog).bind Except.toOption

/-- Whether the gateway fails after a step, if the step is about that. -/
def switch? : ServiceStep → Option Bool
  | setFailing failing => some failing
  | _ => none

/-- Whether the gateway fails after these steps. -/
def failing (history : List ServiceStep) : Bool :=
  history.foldl (fun before step => step.switch?.getD before) false

end ServiceStep

/-- What a request is answered with, and the events on the way. -/
abbrev ServiceAnswer (Output Failure : Type) :=
  Except (ServiceError Failure) Output × List Event

/-- An answer without what the gateway puts into a success. -/
def ServiceAnswer.outline {Output Failure : Type}
    (answer : ServiceAnswer Output Failure) :
    ServiceAnswer Unit Failure :=
  (answer.1.map fun _ => (), answer.2)

namespace QueryService

variable {Output Failure : Type}

/-- Takes one step. -/
def perform (service : QueryService)
    (gateway : Gateway (StateM RecordingState) Output Failure) :
    ServiceStep → StateM RecordingState (Option (ServiceAnswer Output Failure))
  | .aggregate name params =>
    some <$> dispatch gateway (service.aggregateCall name params)
  | .find collection filter =>
    some <$> dispatch gateway (findCall collection filter)
  | .setFailing failing => do
    modify fun state => { state with failing }
    pure none

/-- The state of the gateway after these steps, from no calls and no failure. -/
def stateAfter (service : QueryService)
    (gateway : Gateway (StateM RecordingState) Output Failure)
    (history : List ServiceStep) : RecordingState :=
  history.foldl
    (fun state step => ((service.perform gateway step).run state).2) {}

/-- What a step answers after these. -/
def answerAfter (service : QueryService)
    (gateway : Gateway (StateM RecordingState) Output Failure)
    (history : List ServiceStep) (step : ServiceStep) :
    Option (ServiceAnswer Output Failure) :=
  ((service.perform gateway step).run (service.stateAfter gateway history)).1

variable (service : QueryService) (respond : List GatewayCall → Output)
  (failure : Failure)

/-! ## Single steps -/

/-- A request that does not compile never reaches the gateway, and one that does
is kept by it. -/
theorem run_dispatch_recording (call : LoggedExcept CompileError GatewayCall)
    (state : RecordingState) :
    (dispatch (.recording respond failure) call).run state =
      match call.collect.1 with
      | .error error => ((.error (.compile error), call.collect.2), state)
      | .ok compiled =>
        ((if state.failing then .error (.gateway failure)
          else .ok (respond (state.calls ++ [compiled])), call.collect.2),
          { state with calls := state.calls ++ [compiled] }) := by
  unfold dispatch
  rcases call.collect with ⟨error | compiled, events⟩
  · rfl
  · rcases state with ⟨calls, failing⟩
    cases failing <;> rfl

theorem collect_aggregateCall (name : String) (params : Params) :
    (service.aggregateCall name params).collect.1 =
      (service.catalog.compileNamed name params).collect.1.map
        fun (definition, pipeline) =>
        .aggregate definition.collection pipeline := by
  rw [aggregateCall, LoggedExcept.collect, LoggedExcept.run_bind]
  rw [LoggedExcept.collect]
  rcases (service.catalog.compileNamed name params).run [] with
    ⟨error | compiled, events⟩ <;>
    rfl

theorem collect_findCall (collection : String) (filter : Option Filter) :
    (findCall collection filter).collect.1 =
      match Filter.build filter with
      | .ok document => .ok (.find collection document)
      | .error cause => .error ⟨cause, []⟩ := by
  unfold findCall
  cases Filter.build filter <;> rfl

/-- What is logged on the way to a call. -/
def eventsOf : ServiceStep → List Event
  | .aggregate name params => (service.aggregateCall name params).collect.2
  | .find collection filter => (findCall collection filter).collect.2
  | .setFailing _ => []

/-- One step: a request answers by what it compiles to and whether the gateway
fails, and leaves its call behind if it has one. -/
theorem run_perform (step : ServiceStep) (state : RecordingState) :
    (service.perform (.recording respond failure) step).run state =
      match step.compiled? service.catalog with
      | none =>
        (none, { state with failing := step.switch?.getD state.failing })
      | some (.error error) =>
        (some (.error (.compile error), service.eventsOf step), state)
      | some (.ok call) =>
        (some (if state.failing then .error (.gateway failure)
          else .ok (respond (state.calls ++ [call])), service.eventsOf step),
          { state with calls := state.calls ++ [call] }) := by
  cases step with
  | setFailing failing => rfl
  | aggregate name params =>
      have hrun := run_dispatch_recording respond failure
        (service.aggregateCall name params) state
      simp only [perform, StateT.run_map, hrun, collect_aggregateCall,
        ServiceStep.compiled?, eventsOf]
      cases (service.catalog.compileNamed name params).collect.1 <;> rfl
  | find collection filter =>
      have hrun := run_dispatch_recording respond failure
        (findCall collection filter) state
      simp only [perform, StateT.run_map, hrun, collect_findCall,
        ServiceStep.compiled?, eventsOf]
      cases Filter.build filter <;> rfl

/-! ## Runs -/

theorem stateAfter_concat (history : List ServiceStep) (step : ServiceStep) :
    service.stateAfter (.recording respond failure) (history ++ [step]) =
      ((service.perform (.recording respond failure) step).run
        (service.stateAfter (.recording respond failure) history)).2 := by
  rw [stateAfter, stateAfter, List.foldl_append]
  rfl

/-- The gateway has got the calls of the requests that compile, in order. -/
theorem calls_stateAfter (history : List ServiceStep) :
    (service.stateAfter (.recording respond failure) history).calls =
      history.filterMap (ServiceStep.call? service.catalog) := by
  induction history using List.reverseRecOn with
  | nil => rfl
  | append_singleton history step ih =>
      rw [stateAfter_concat, run_perform, List.filterMap_append, ← ih]
      cases hcompiled : step.compiled? service.catalog with
      | none => simp [ServiceStep.call?, hcompiled]
      | some compiled =>
          cases compiled <;>
            simp [ServiceStep.call?, hcompiled, Except.toOption]

/-- The gateway fails if the last step that was about that told it to. -/
theorem failing_stateAfter (history : List ServiceStep) :
    (service.stateAfter (.recording respond failure) history).failing =
      ServiceStep.failing history := by
  induction history using List.reverseRecOn with
  | nil => rfl
  | append_singleton history step ih =>
      rw [stateAfter_concat, run_perform, ServiceStep.failing,
        List.foldl_append, ← ServiceStep.failing, ← ih]
      cases step with
      | setFailing failing => rfl
      | aggregate name params =>
          simp only [ServiceStep.compiled?]
          cases (service.catalog.compileNamed name params).collect.1 <;> rfl
      | find collection filter =>
          simp only [ServiceStep.compiled?]
          cases Filter.build filter <;> rfl

/-- What a step answers after others: nothing, the compiler's error, the
gateway's failure, or what the gateway makes of the calls so far. -/
theorem answerAfter_eq (history : List ServiceStep) (step : ServiceStep) :
    service.answerAfter (.recording respond failure) history step =
      match step.compiled? service.catalog with
      | none => none
      | some (.error error) =>
        some (.error (.compile error), service.eventsOf step)
      | some (.ok call) =>
        some (if ServiceStep.failing history then .error (.gateway failure)
          else
            .ok (respond
              (history.filterMap (ServiceStep.call? service.catalog) ++
                [call])),
          service.eventsOf step) := by
  rw [answerAfter, run_perform, calls_stateAfter, failing_stateAfter]
  split <;> rfl

end QueryService

/-- Whatever a service is asked for, the gateway gets one call for each request
that compiles, with what it compiles to, in order, and no other.  A request
answers with the compiler's error if and only if it does not compile, with the
gateway's failure if and only if it compiles and the gateway fails, and with
what the gateway makes of its calls otherwise.  What came before counts only by
whether the gateway fails, and by what the gateway itself makes of earlier
calls. -/
theorem service_run (service : QueryService) {Output Failure : Type}
    (respond : List GatewayCall → Output) (failure : Failure)
    (history : List ServiceStep) :
    let gateway := Gateway.recording respond failure
    let catalog := service.catalog
    (service.stateAfter gateway history).calls =
        history.filterMap (ServiceStep.call? catalog) ∧
      (∀ step,
        (service.answerAfter gateway history step = none ↔
          step.compiled? catalog = none) ∧
        (∀ error, (∃ events, service.answerAfter gateway history step =
            some (.error (.compile error), events)) ↔
          step.compiled? catalog = some (.error error)) ∧
        (∀ reported, (∃ events, service.answerAfter gateway history step =
            some (.error (.gateway reported), events)) ↔
          reported = failure ∧
            (∃ call, step.compiled? catalog = some (.ok call)) ∧
            ServiceStep.failing history = true) ∧
        ∀ output, (∃ events, service.answerAfter gateway history step =
            some (.ok output, events)) ↔
          ∃ call, step.compiled? catalog = some (.ok call) ∧
            ServiceStep.failing history = false ∧
            output =
              respond
                (history.filterMap (ServiceStep.call? catalog) ++ [call])) ∧
      ∀ history' step,
        ServiceStep.failing history' = ServiceStep.failing history →
        (service.answerAfter gateway history' step).map ServiceAnswer.outline =
            (service.answerAfter gateway history step).map
              ServiceAnswer.outline ∧
          ((∀ earlier earlier' call,
              respond (earlier ++ [call]) = respond (earlier' ++ [call])) →
            service.answerAfter gateway history' step =
              service.answerAfter gateway history step) := by
  intro gateway catalog
  refine ⟨service.calls_stateAfter respond failure history, fun step => ?_,
    fun history' step hsame => ?_⟩
  · rw [service.answerAfter_eq respond failure history step]
    rcases step.compiled? service.catalog with _ | (error | call)
    · simp [catalog]
    · simp [catalog]
    · cases ServiceStep.failing history <;> simp [catalog, eq_comm]
  · rw [service.answerAfter_eq respond failure history step,
      service.answerAfter_eq respond failure history' step, hsame]
    rcases step.compiled? service.catalog with _ | (error | call)
    · simp
    · simp
    · cases ServiceStep.failing history with
      | true => simp
      | false =>
          refine ⟨rfl, fun hrespond => ?_⟩
          have hlast :=
            hrespond (history'.filterMap (ServiceStep.call? service.catalog))
              (history.filterMap (ServiceStep.call? service.catalog)) call
          simp only [hlast]

/-! A service for one definition, which matches sales by a filter that has to be
bound. -/

namespace ServiceStep

def bound : ServiceStep := aggregate "orders" [("where", .filter (some .empty))]

def unbound : ServiceStep := aggregate "orders" .empty

/-- Two requests, one of which compiles, and one for a gateway that fails by
then. -/
def outage : List ServiceStep :=
  [bound, unbound, setFailing true, find "users" (some .empty)]

end ServiceStep

def QueryService.orders : QueryService where
  catalog := .ofList [⟨"orders", "sales", [⟨some "where", "$match", []⟩]⟩]

namespace GatewayCall

/-- How many stages a pipeline has, or how many fields a filter. -/
def size : GatewayCall → ℕ
  | aggregate _ pipeline => pipeline.length
  | find _ filter => filter.length

/-- The size of the call that has come last, which is all that a success tells
of then. -/
def lastSize (calls : List GatewayCall) : ℕ :=
  (calls.getLast?.map size).getD 0

theorem lastSize_concat (earlier : List GatewayCall) (call : GatewayCall) :
    lastSize (earlier ++ [call]) = call.size := by
  simp [lastSize]

end GatewayCall

/-- The gateway has got the two calls that compile, though the second was in
vain.  It answers that there have been three once it no longer fails.  One that
answers with the size of a call alone answers then as it would have at first. -/
theorem service_run_outage :
    let service := QueryService.orders
    let history := ServiceStep.outage
    let recovered := history ++ [.setFailing false]
    let sizing := Gateway.recording GatewayCall.lastSize
      RecordingFailure.unavailable
    (service.stateAfter recordingGateway history).calls =
        [.aggregate "sales" [[("$match", .document [])]], .find "users" []] ∧
      (∃ events, service.answerAfter recordingGateway history .unbound =
        some (.error (.compile ⟨.mismatch (.unbound "$match"),
          [⟨"orders", 0, some "where", "$match"⟩]⟩), events)) ∧
      (∃ events, service.answerAfter recordingGateway history .bound =
        some (.error (.gateway .unavailable), events)) ∧
      (∃ events, service.answerAfter recordingGateway recovered .bound =
        some (.ok 3, events)) ∧
      service.answerAfter sizing recovered .bound =
        service.answerAfter sizing [] .bound ∧
      ∃ events, service.answerAfter sizing [] .bound =
        some (.ok 1, events) := by
  intro service history recovered sizing
  rw [recordingGateway_eq_recording]
  obtain ⟨hcalls, hanswers, -⟩ :=
    service_run service List.length RecordingFailure.unavailable history
  obtain ⟨-, hlater, -⟩ :=
    service_run service List.length RecordingFailure.unavailable recovered
  obtain ⟨-, hfirst, hsame⟩ :=
    service_run service GatewayCall.lastSize RecordingFailure.unavailable []
  refine ⟨hcalls, ?_, ?_, ?_, ?_, ?_⟩
  · exact ((hanswers .unbound).2.1 _).mpr rfl
  · exact ((hanswers .bound).2.2.1 _).mpr ⟨rfl, ⟨_, rfl⟩, rfl⟩
  · exact ((hlater .bound).2.2.2 3).mpr ⟨_, rfl, rfl, rfl⟩
  · refine (hsame recovered .bound rfl).2 fun earlier earlier' call => ?_
    rw [GatewayCall.lastSize_concat, GatewayCall.lastSize_concat]
  · exact ((hfirst .bound).2.2.2 1).mpr ⟨_, rfl, rfl, rfl⟩

end Aggregation
