import Aggregation.Compile

/-!
# Query service

A service compiles against one catalog and hands what it compiled to a gateway,
which owns the database.  Nothing reaches the gateway that did not compile.
-/

namespace Aggregation

/-- What a gateway is asked to run. -/
inductive GatewayCall where
  | aggregate (collection : String) (pipeline : Pipeline)
  | find (collection : String) (filter : Document)

structure Gateway (m : Type → Type) (Output Failure : Type) where
  run : GatewayCall → m (Except Failure Output)

inductive ServiceError (Failure : Type) where
  | compile (error : CompileError)
  | gateway (failure : Failure)

namespace ServiceError

variable {Failure : Type}

def asCompileError? : ServiceError Failure → Option CompileError
  | compile error => some error
  | gateway _ => none

def message (describe : Failure → String) : ServiceError Failure → String
  | compile error => error.display
  | gateway failure => "gateway error: " ++ describe failure

end ServiceError

structure QueryService where
  catalog : Catalog
  /-- Whether compiled pipelines are logged prominently. -/
  logPipelines : Bool := false

namespace QueryService

/-- The call that runs a named aggregation on its collection:
`execute_aggregation` up to the gateway. -/
def aggregateCall (service : QueryService) (name : String) (params : Params) :
    LoggedExcept CompileError GatewayCall := do
  let (definition, pipeline) ← service.catalog.compileNamed name params
  emit (.aggregationDispatched service.logPipelines name definition.collection
    pipeline)
  pure (.aggregate definition.collection pipeline)

/-- The call that finds by a filter, which may be absent: `execute_find` up to
the gateway. -/
def findCall (collection : String) (filter : Option Filter) :
    LoggedExcept CompileError GatewayCall := do
  match Filter.build filter with
  | .error cause => throw ⟨cause, []⟩
  | .ok document =>
    emit (.filterCompiled document)
    emit (.findDispatched collection document)
    pure (.find collection document)

/-- Hands a compiled call over.  The events are those of the compile. -/
def dispatch {m : Type → Type} [Monad m] {Output Failure : Type}
    (gateway : Gateway m Output Failure)
    (call : LoggedExcept CompileError GatewayCall) :
    m (Except (ServiceError Failure) Output × List Event) :=
  match call.collect with
  | (.error error, events) => pure (.error (.compile error), events)
  | (.ok call, events) => do
    let answer ← gateway.run call
    pure (answer.mapError .gateway, events)

end QueryService

/-- A gateway that keeps every call and fails while told to. -/
structure RecordingState where
  calls : List GatewayCall := []
  failing : Bool := false

inductive RecordingFailure where
  | unavailable

def RecordingFailure.text : RecordingFailure → String
  | unavailable => "database unavailable"

/-- Answers how many calls there have been, so an answer depends on the earlier
calls.  A call that fails is kept too. -/
def recordingGateway :
    Gateway (StateM RecordingState) Nat RecordingFailure where
  run call := do
    modify fun state => { state with calls := state.calls ++ [call] }
    let state ← get
    pure (if state.failing then .error .unavailable else .ok state.calls.length)

end Aggregation
