import QueryAdmission.Gate
import QueryAdmission.Metrics

/-! The admission step in front of an execution: evaluate the request, count what was found,
put the cache directive on the response, and stop the request if it was rejected. A
request that is rejected is counted and gets its directive too. -/

namespace QueryAdmission

/-- The response entry of a request context. -/
inductive ResponseEntry where
  | missing
  | null
  | present
  deriving DecidableEq, Repr

/-- What a request brings along: nothing, a dictionary, or an object of its own kind. -/
inductive Context where
  | none
  | dictionary (entry : ResponseEntry)
  | object (entry : ResponseEntry)
  deriving DecidableEq, Repr

/-- Whether there is a response to put headers on. -/
def Context.hasResponse : Context → Bool
  | .none => false
  | .dictionary entry => entry = .present
  | .object entry => entry = .present

/-- What the step in front of an execution is configured with. -/
structure AdmissionControl where
  gate : Gate
  selector : CacheSelector

/-- How an admission step ends. -/
inductive StepEnd where
  /-- Execution goes on. -/
  | admitted
  | rejected (rejection : Rejection)
  /-- The step broke off. -/
  | failed (failure : Failure)
  deriving DecidableEq

/-- What an admission step leaves behind besides the metrics. -/
structure AdmissionStep where
  ending : StepEnd
  /-- The directive that the response now carries, if the step set one. -/
  header : Option CacheDirective
  /-- What an evaluation logged that came to its end. One that failed can have logged something
  before; these records are not kept here. -/
  logs : List LogRecord

namespace AdmissionControl

def standard : AdmissionControl := ⟨.standard, .standard⟩

/-- The directive for an evaluated operation. -/
def directive (control : AdmissionControl) (operation : Operation) (decision : Decision) :
    CacheDirective :=
  control.selector.forResponse operation.type.text operation.name (!decision.isAllowed)

/-- Counts an evaluated operation: complexity, depth, decision, directive, in this order. A
depth that is out of range stops the counting there. -/
def record (control : AdmissionControl) (metrics : Metrics) (operation : Operation)
    (evaluation : Evaluation) : Metrics × Option Failure :=
  match metrics.observeComplexity operation.type (.float evaluation.complexity) with
  | none => (metrics, some .outOfRange)
  | some metrics =>
    let metrics := metrics.openDepth operation.type
    match metrics.observeDepth operation.type evaluation.depth with
    | none => (metrics, some .outOfRange)
    | some metrics =>
      ((metrics.countDecision operation.type evaluation.decision).countDirective
        (control.directive operation evaluation.decision), none)

/-- One admission step. -/
def step (control : AdmissionControl) (metrics : Metrics) (document : Option Document)
    (name : Option String) (context : Context) : Metrics × AdmissionStep :=
  match control.gate.evaluate document name with
  | .error failure => (metrics, ⟨.failed failure, none, []⟩)
  | .ok (evaluation, logs) =>
    match evaluation.operation with
    | none => (metrics, ⟨.admitted, none, logs⟩)
    | some operation =>
      match control.record metrics operation evaluation with
      | (metrics, some failure) => (metrics, ⟨.failed failure, none, logs⟩)
      | (metrics, none) =>
        let header :=
          if context.hasResponse then some (control.directive operation evaluation.decision)
          else none
        match evaluation.decision with
        | .allowed => (metrics, ⟨.admitted, header, logs⟩)
        | .rejected rejection => (metrics, ⟨.rejected rejection, header, logs⟩)

end AdmissionControl

end QueryAdmission
