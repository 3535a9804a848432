import QueryAdmission.Admission
import QueryAdmission.Execution
import QueryAdmission.Settings
import QueryAdmission.Syntax.Grammar
import QueryAdmission.Validation

/-! The study room behind admission control. What reads, validates and executes requests is an
engine, which takes the admission step on its way and runs the resolvers of the study room.
The standard engine reads a request, looks up its operation, validates its document and admits
it, and only then executes it: what stops a request early leaves everything behind it undone. -/

namespace QueryAdmission

open StudyRoom

/-- A request to the service. -/
structure Request where
  source : String
  /-- The operation that is asked for; without it the first one is meant. -/
  operationName : Option String
  /-- Values for the variables of the operation. -/
  variableValues : List (String × Json)
  /-- Whether the way in is open to mutations. -/
  mayMutate : Bool

/-- Why a request gets no response. -/
inductive Refusal where
  | missingQuery
  | noSuchOperation
  | mutationNotAllowed
  deriving DecidableEq, Repr

/-- An error of a response. -/
inductive ResponseError where
  /-- The document cannot be read, or it is not valid. -/
  | document
  | rejected (rejection : Rejection)
  /-- The evaluation of the request broke off. -/
  | evaluation (failure : Failure)
  | execution (error : ExecutionError)
  deriving DecidableEq

/-- What an execution comes to: data, which is null if there is nothing to answer, and what is
wrong. -/
structure ExecutionResult where
  data : Json
  errors : List ResponseError

/-- A result that says only what is wrong. -/
def ExecutionResult.ofError (error : ResponseError) : ExecutionResult := ⟨.null, [error]⟩

/-- How the service of a request ends. -/
abbrev Ending := Except Refusal ExecutionResult

/-! ## Engines -/

/-- What an engine does with a request. -/
inductive Proceeding where
  /-- It takes no admission step. -/
  | early (execution : Execution Ending)
  /-- It takes the admission step, with the document and the name of an operation that it has
  there, and goes on by the error that the step raises, if any. -/
  | admission (document : Option Document) (name : Option String)
      (next : Option ResponseError → Execution Ending)

/-- What serves requests around the admission step. -/
structure Engine where
  parse? : String → Option Document
  isValid : Document → Bool
  /-- The values of the variables of an operation, from those that a request sends. -/
  variables? : Operation → List (String × Json) → Option Variables
  /-- Whether a selection with some directives takes part. -/
  takesPart? : Variables → List Directive → Option Bool
  /-- The values of the arguments of a field. -/
  inputs? : Variables → FieldSpec → List Argument → Option Inputs
  /-- Executes an operation that spreads some fragments, with values for its variables. -/
  execute : Operation → List Fragment → List (String × Json) → Execution ExecutionResult
  proceed : Request → Proceeding

namespace Document

/-- The operation of a name, or the first one if no name is given. -/
def operationNamed? (document : Document) (name : Option String) : Option Operation :=
  match name with
  | none => document.operations.head?
  | some name => document.operations.find? (·.name == some name)

end Document

namespace Engine

namespace Standard

def execute (operation : Operation) (fragments : List Fragment) (sent : List (String × Json)) :
    Execution ExecutionResult :=
  Execution.map (fun answered => ⟨answered.value.getD .null, answered.errors.map .execution⟩)
    (operation.answering fragments sent)

/-- What is done behind the admission step: the error that it raised is answered, or else the
operation is executed that an executor takes from the document. -/
def behind (document : Document) (name : Option String) (sent : List (String × Json)) :
    Option ResponseError → Execution Ending
  | some error => .done (.ok (.ofError error))
  | none =>
    match document.taken? name with
    | none => .done (.ok (.ofError (.execution .request)))
    | some operation => (execute operation document.takenFragments sent).map .ok

def proceed (request : Request) : Proceeding :=
  if request.source.isEmpty then .early (.done (.error .missingQuery))
  else
    match Document.parse? request.source with
    | none => .early (.done (.ok (.ofError .document)))
    | some document =>
      match document.operationNamed? request.operationName with
      | none => .early (.done (.error .noSuchOperation))
      | some operation =>
        if operation.type = .mutation && !request.mayMutate then
          .early (.done (.error .mutationNotAllowed))
        else if document.isValid then
          let name := request.operationName <|> operation.name
          .admission (some document) name (behind document name request.variableValues)
        else .early (.done (.ok (.ofError .document)))

end Standard

def standard : Engine where
  parse? := Document.parse?
  isValid := Document.isValid
  variables? := Operation.variablesFrom?
  takesPart? := QueryAdmission.takesPart?
  inputs? values spec := spec.inputs? values
  execute := Standard.execute
  proceed := Standard.proceed

end Engine

/-! ## Requests and what comes of them -/

/-- What requests leave behind. -/
structure ServiceState where
  store : Store
  metrics : Metrics

def ServiceState.fresh : ServiceState := ⟨.sample, .empty⟩

/-- An admission step that was taken: in front of what, and how. -/
structure Admission where
  document : Option Document
  name : Option String
  step : AdmissionStep

/-- What came of a request: the state behind it, the admission step if it was taken, the
resolvers that ran, and the outcome. -/
structure Handling where
  after : ServiceState
  admission : Option Admission
  calls : List ResolverCall
  outcome : Ending

/-- What a request is answered, with what the admission step added. -/
structure Response where
  /-- Null if there is nothing to answer. -/
  data : Json
  errors : List ResponseError
  header : Option CacheDirective
  logs : List LogRecord

def Handling.response (handling : Handling) : Except Refusal Response := do
  let result ← handling.outcome
  return ⟨result.data, result.errors, handling.admission.bind (·.step.header),
    (handling.admission.map (·.step.logs)).getD []⟩

/-- The error that a step raises in front of an execution. -/
def StepEnd.raised? : StepEnd → Option ResponseError
  | .admitted => none
  | .rejected rejection => some (.rejected rejection)
  | .failed failure => some (.evaluation failure)

/-- The step in front of an execution as settings configure it. -/
def Settings.control (s : Settings) : Except SetupError AdmissionControl := do
  return ⟨← s.gate, s.selector⟩

namespace AdmissionControl

/-- Goes on with a request as an engine proceeds with it. -/
def follow (control : AdmissionControl) (state : ServiceState) (context : Context) :
    Proceeding → Handling
  | .early execution =>
    let run := execution.run state.store
    ⟨{ state with store := run.store }, none, run.calls, run.result⟩
  | .admission document name next =>
    let (metrics, step) := control.step state.metrics document name context
    let run := (next step.ending.raised?).run state.store
    ⟨⟨run.store, metrics⟩, some ⟨document, name, step⟩, run.calls, run.result⟩

/-- Lets an engine serve a request. -/
def handle (control : AdmissionControl) (engine : Engine) (state : ServiceState)
    (request : Request) (context : Context) : Handling :=
  control.follow state context (engine.proceed request)

/-- Answers a request with the standard engine. -/
def answer (control : AdmissionControl) (state : ServiceState) (request : Request)
    (context : Context) : ServiceState × Except Refusal Response :=
  let handling := control.handle .standard state request context
  (handling.after, handling.response)

end AdmissionControl

end QueryAdmission
