import QueryAdmission.Cache
import QueryAdmission.Gate

/-! The settings of the service, and the admission gate and cache selector that they
describe. Settings that exist keep their bounds: limits and the default cost are not
negative, the budget is positive, and scoring looks no deeper than the depth limit. -/

namespace QueryAdmission

/-- The names of the settings. -/
inductive Setting where
  | host
  | port
  | debug
  | enableGraphiql
  | maxComplexity
  | maxDepth
  | complexityCutoff
  | defaultFieldCost
  | fieldCosts
  | resolveFragments
  | depthNodeBudget
  | publicQueries
  | noStoreOnRejection
  | logLevel
  | logEvaluations
  deriving DecidableEq, Repr

namespace Setting

def all : List Setting :=
  [host, port, debug, enableGraphiql, maxComplexity, maxDepth, complexityCutoff,
    defaultFieldCost, fieldCosts, resolveFragments, depthNodeBudget, publicQueries,
    noStoreOnRejection, logLevel, logEvaluations]

/-- How a setting is written. -/
def name : Setting → String
  | host => "host"
  | port => "port"
  | debug => "debug"
  | enableGraphiql => "enable_graphiql"
  | maxComplexity => "max_complexity"
  | maxDepth => "max_depth"
  | complexityCutoff => "complexity_cutoff"
  | defaultFieldCost => "default_field_cost"
  | fieldCosts => "field_costs"
  | resolveFragments => "resolve_fragments"
  | depthNodeBudget => "depth_node_budget"
  | publicQueries => "public_queries"
  | noStoreOnRejection => "no_store_on_rejection"
  | logLevel => "log_level"
  | logEvaluations => "log_evaluations"

/-- Settings with parts, which text sources write as JSON. -/
def isStructured : Setting → Bool
  | fieldCosts => true
  | publicQueries => true
  | _ => false

end Setting

/-- A double of at least zero, which NaN is not. -/
abbrev NonNegative := { x : Binary64 // (Quantity.float x).isNonNegative = true }

structure Settings where
  host : String
  port : Int
  debug : Bool
  enableGraphiql : Bool
  maxComplexity : NonNegative
  maxDepth : Nat
  complexityCutoff : Nat
  defaultFieldCost : NonNegative
  fieldCosts : List (String × Binary64)
  resolveFragments : Bool
  depthNodeBudget : Nat
  publicQueries : List String
  noStoreOnRejection : Bool
  logLevel : String
  logEvaluations : Bool
  budget_pos : 0 < depthNodeBudget
  cutoff_le : complexityCutoff ≤ maxDepth

namespace Settings

/-- The logger of gates that are built from settings. -/
def gateLogger : String := "query_guard.admission"

/-- The cost table that the settings describe. -/
def costTable (s : Settings) : Except SetupError CostTable :=
  CostTable.make (s.fieldCosts.map fun (name, cost) => (name, .float cost))
    (.float s.defaultFieldCost)

/-- The scorer that the settings describe; page sizes are priced as usual. -/
def scorer (s : Settings) : Except SetupError Scorer := do
  Scorer.make (← s.costTable) s.complexityCutoff Scorer.standardPageArgument
    Scorer.standardPageCap Scorer.standardPageWeight

/-- The admission gate that the settings describe. -/
def gate (s : Settings) : Except SetupError Gate := do
  let scorer ← s.scorer
  let meter ← DepthMeter.make (some (.int (s.maxDepth + 1))) s.depthNodeBudget
  let policy ← Policy.make (.float s.maxComplexity) (.int s.maxDepth)
  Gate.make policy scorer (some meter) s.resolveFragments s.logEvaluations gateLogger

/-- The cache selector that the settings describe. -/
def selector (s : Settings) : CacheSelector :=
  ⟨s.publicQueries.map some, s.noStoreOnRejection⟩

end Settings

end QueryAdmission
