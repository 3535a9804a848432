import QueryAdmission.Cache
import QueryAdmission.Decision
import QueryAdmission.Syntax

/-! What is counted about admissions: decisions, rejections and cache directives as running
totals, complexities and depths as histograms by operation type. A histogram keeps one
count for each bucket; the cumulative counts that readers see are derived from them. -/

namespace QueryAdmission

/-- A count for every key, raised by one at a single key. -/
def bump {κ : Type} [DecidableEq κ] (counts : κ → Nat) (key : κ) : κ → Nat :=
  fun k => if k = key then counts k + 1 else counts k

/-- A table with the entry of a single key replaced. -/
def put {κ α : Type} [DecidableEq κ] (table : κ → α) (key : κ) (value : α) : κ → α :=
  fun k => if k = key then value else table k

/-- Observations by the first bound that they do not exceed, and their sum. -/
structure Histogram where
  counts : List Nat
  sum : Binary64
  deriving DecidableEq

namespace Histogram

/-- Bounds with the one that takes every number at the end. -/
def withTop (bounds : List Nat) : List Quantity :=
  bounds.map (fun (b : Nat) => .int b) ++ [.float (.infinite false)]

/-- The bounds for complexities. -/
def complexityBounds : List Nat := [5, 10, 25, 50, 100, 250, 500, 1000, 2500]

/-- The bounds for depths. -/
def depthBounds : List Nat := [1, 2, 3, 4, 5, 6, 8, 10, 15, 20]

/-- A histogram without observations. -/
def empty (bounds : List Nat) : Histogram := ⟨List.replicate (bounds.length + 1) 0, .zero⟩

/-- One more in the first bucket that takes the value; NaN fits none. -/
def place (value : Quantity) : List Quantity → List Nat → List Nat
  | bound :: bounds, n :: counts =>
    if value.le bound then (n + 1) :: counts else n :: place value bounds counts
  | _, counts => counts

/-- Adds to the sum and then to a bucket. A value out of range changes nothing. -/
def record? (bounds : List Nat) (h : Histogram) (value : Quantity) : Option Histogram := do
  let sum ← h.sum.plus? value
  return ⟨place value (withTop bounds) h.counts, sum⟩

/-- How many observations each bucket and those before it hold. -/
def cumulative (h : Histogram) : List Nat :=
  let rec go (total : Nat) : List Nat → List Nat
    | [] => []
    | n :: rest => (total + n) :: go (total + n) rest
  go 0 h.counts

/-- How many observations fitted a bucket. -/
def count (h : Histogram) : Nat := h.cumulative.getLastD 0

end Histogram

/-- How a decision is counted. -/
inductive Outcome where
  | allowed
  | rejected
  deriving DecidableEq, Repr

def Outcome.label : Outcome → String
  | .allowed => "allowed"
  | .rejected => "rejected"

def Decision.outcome : Decision → Outcome
  | .allowed => .allowed
  | .rejected _ => .rejected

/-- The running totals. A histogram exists from its first observation on. -/
structure Metrics where
  decisions : OperationType × Outcome → Nat
  rejections : RejectionKind → Nat
  directives : CacheDirective → Nat
  complexity : OperationType → Option Histogram
  depth : OperationType → Option Histogram

namespace Metrics

def empty : Metrics where
  decisions := fun _ => 0
  rejections := fun _ => 0
  directives := fun _ => 0
  complexity := fun _ => none
  depth := fun _ => none

def observeComplexity (m : Metrics) (type : OperationType) (value : Quantity) : Option Metrics :=
  let before := (m.complexity type).getD (.empty Histogram.complexityBounds)
  (before.record? Histogram.complexityBounds value).map fun h =>
    { m with complexity := put m.complexity type (some h) }

/-- The depths of a type are shown from the first attempt to observe one on. -/
def openDepth (m : Metrics) (type : OperationType) : Metrics :=
  { m with depth := put m.depth type (some ((m.depth type).getD (.empty Histogram.depthBounds))) }

def observeDepth (m : Metrics) (type : OperationType) (value : Quantity) : Option Metrics :=
  let before := (m.depth type).getD (.empty Histogram.depthBounds)
  (before.record? Histogram.depthBounds value).map fun h =>
    { m with depth := put m.depth type (some h) }

/-- Counts a decision, and the rejection if it is one. -/
def countDecision (m : Metrics) (type : OperationType) (decision : Decision) : Metrics :=
  let m := { m with decisions := bump m.decisions (type, decision.outcome) }
  match decision with
  | .allowed => m
  | .rejected r => { m with rejections := bump m.rejections r.kind }

def countDirective (m : Metrics) (directive : CacheDirective) : Metrics :=
  { m with directives := bump m.directives directive }

end Metrics

/-- A value that readers of metrics see. -/
inductive SampleValue where
  | total (n : Nat)
  | histogram (bounds : List Nat) (histogram : Histogram)
  deriving DecidableEq

/-- One labelled value. -/
structure Sample where
  name : String
  labels : List (String × String)
  value : SampleValue
  deriving DecidableEq

namespace Metrics

def histogramSample (name : String) (bounds : List Nat) (type : OperationType) (h : Histogram) :
    Sample :=
  ⟨name, [("operation_type", type.text)], .histogram bounds h⟩

/-- All values that exist, sorted by name and labels. -/
def samples (m : Metrics) : List Sample :=
  let decisions := OperationType.all.flatMap fun type =>
    [Outcome.allowed, .rejected].filterMap fun outcome =>
      let n := m.decisions (type, outcome)
      if n = 0 then none
      else some ⟨"graphql_admission_decisions_total",
        [("operation_type", type.text), ("outcome", outcome.label)], .total n⟩
  let rejections := [RejectionKind.tooComplex, .tooDeep].filterMap fun kind =>
    let n := m.rejections kind
    if n = 0 then none
    else some ⟨"graphql_admission_rejections_total", [("code", kind.code)], .total n⟩
  let directives := CacheDirective.all.filterMap fun directive =>
    let n := m.directives directive
    if n = 0 then none
    else some ⟨"graphql_cache_directives_total", [("directive", directive.label)], .total n⟩
  let complexities := OperationType.all.filterMap fun type =>
    (m.complexity type).map
      (histogramSample "graphql_query_complexity" Histogram.complexityBounds type)
  let depths := OperationType.all.filterMap fun type =>
    (m.depth type).map (histogramSample "graphql_query_depth" Histogram.depthBounds type)
  decisions ++ rejections ++ directives ++ complexities ++ depths

/-- The values that a later reading shows and an earlier one did not show alike. -/
def changes (before after : Metrics) : List Sample :=
  let old := before.samples
  after.samples.filter fun s => !old.contains s

end Metrics

end QueryAdmission
