import QueryAdmission.Complexity
import QueryAdmission.Decision
import QueryAdmission.Depth
import QueryAdmission.Log

/-! The admission gate: it scores and measures the operation a request targets and holds
the two numbers against a policy. Complexity is looked at first, and only the first
violated limit is reported. -/

namespace QueryAdmission

structure Policy where
  maxComplexity : Quantity
  maxDepth : Quantity
  deriving DecidableEq

namespace Policy

def standard : Policy := ⟨.int 500, .int 10⟩

/-- A policy without negative limits. -/
def make (maxComplexity maxDepth : Quantity) : Except SetupError Policy :=
  if maxComplexity.isNegative then .error (.negativeMaxComplexity maxComplexity)
  else if maxDepth.isNegative then .error (.negativeMaxDepth maxDepth)
  else .ok ⟨maxComplexity, maxDepth⟩

/-- The verdict on an operation with the given measurements. -/
def decide (policy : Policy) (complexity depth : Quantity) : Decision :=
  if policy.maxComplexity.lt complexity then
    .rejected ⟨.tooComplex,
      [("complexity", .quantity complexity), ("maxComplexity", .quantity policy.maxComplexity)]⟩
  else if policy.maxDepth.lt depth then
    .rejected ⟨.tooDeep,
      [("depth", .quantity depth), ("maxDepth", .quantity policy.maxDepth)]⟩
  else .allowed

end Policy

/-- What the gate found out about one request. -/
structure Evaluation where
  operation : Option Operation
  complexity : Binary64
  depth : Quantity
  decision : Decision

/-- What requests are judged by. The scorer and the meter have no fragments of their own: what
spreads are resolved with are the fragments of a request, or none. -/
structure Gate where
  policy : Policy
  scorer : Scorer
  meter : DepthMeter
  resolveFragments : Bool
  /-- Whether every evaluation is logged, for tuning the limits. -/
  logEvaluations : Bool
  logger : String

namespace Gate

def standardLogger : String := "query_guard.admission.gate"

/-- The logger of depth walks. -/
def depthLogger : String := "query_guard.analysis.depth"

/-- Whether the scorer looks no deeper than the policy allows. -/
def cutoffFits (policy : Policy) (scorer : Scorer) : Bool :=
  !policy.maxDepth.lt (.int scorer.cutoff)

/-- A gate, unless its scorer looks deeper than its policy allows. Without a meter of its
own it measures up to one level past the limit, which is enough to see a violation. -/
def make (policy : Policy) (scorer : Scorer) (meter : Option DepthMeter)
    (resolveFragments logEvaluations : Bool) (logger : String) : Except SetupError Gate :=
  if cutoffFits policy scorer then
    .ok { policy, scorer, meter := meter.getD (.capped policy.maxDepth.succ)
          resolveFragments, logEvaluations, logger }
  else .error (.cutoffBeyondDepth scorer.cutoff policy.maxDepth)

/-- The gate with nothing configured. -/
def standard : Gate where
  policy := .standard
  scorer := .standard
  meter := .capped (.int 11)
  resolveFragments := true
  logEvaluations := false
  logger := standardLogger

/-- The verdict on measurements; without an operation there is nothing to reject. -/
def decide (gate : Gate) (operation : Option Operation) (complexity depth : Quantity) :
    Decision :=
  if operation.isSome then gate.policy.decide complexity depth else .allowed

/-- How logs show a depth: by its whole part, however long that is. An endless depth has none, and
fails the evaluation: a handler that formats records as they are logged raises what goes wrong
there. With one that drops such records the evaluation would go on. -/
def depthText (depth : Quantity) : Except Failure String :=
  match depth.whole? with
  | some n => .ok (toString n)
  | none => .error .endlessDepth

/-- What an abandoned depth walk logs. -/
def depthLog (meter : DepthMeter) (reading : DepthMeter.Reading) :
    Except Failure (List LogRecord) := do
  if reading.exhausted then
    return [⟨.warning, depthLogger, "Depth traversal stopped after " ++ toString meter.budget ++
      " selections; reporting depth " ++ (← depthText reading.depth)⟩]
  else return []

/-- How logs refer to an operation. -/
def logName (operation : Operation) : String :=
  match operation.name with
  | some name => if name.isEmpty then "anonymous" else name
  | none => "anonymous"

/-- The log of an evaluation: the measurements if asked for, then the rejection if any. -/
def evaluationLog (gate : Gate) (operation : Operation) (complexity : Binary64)
    (depth : Quantity) (decision : Decision) : Except Failure (List LogRecord) := do
  let subject := operation.type.text ++ " " ++ logName operation
  let measured ← if gate.logEvaluations then do
      pure [⟨.info, gate.logger, "[GraphQL] " ++ subject ++ ": complexity=" ++
        complexity.text ++ ", depth=" ++ (← depthText depth)⟩]
    else pure []
  match decision with
  | .allowed => return measured
  | .rejected rejection =>
    return measured ++ [⟨.warning, gate.logger,
      "Rejected " ++ subject ++ ": " ++ (← rejection.message)⟩]

/-- The fragments that spreads are resolved with, if they are resolved at all. If they are not,
spreads stand for nothing, since the scorer and the meter bring no fragments along. -/
def bound (gate : Gate) (document : Document) : Option (List Fragment) :=
  if gate.resolveFragments then some document.fragments else none

/-- Scores, measures and judges the operation a request targets, and says what is logged
meanwhile. A request that targets nothing is allowed without a log. -/
def evaluate (gate : Gate) (document : Option Document) (name : Option String) :
    Except Failure (Evaluation × List LogRecord) :=
  match document with
  | none => .ok (⟨none, .zero, .int 0, .allowed⟩, [])
  | some document =>
    match document.target? name with
    | none => .ok (⟨none, .zero, .int 0, .allowed⟩, [])
    | some operation => do
      let fragments := gate.bound document
      let complexity ← gate.scorer.score fragments operation.selections 0
      let reading := gate.meter.measure fragments operation.selections 0
      let warning ← depthLog gate.meter reading
      let decision := gate.decide (some operation) (.float complexity) reading.depth
      let log ← gate.evaluationLog operation complexity reading.depth decision
      return (⟨some operation, complexity, reading.depth, decision⟩,
        warning ++ log)

end Gate

end QueryAdmission
