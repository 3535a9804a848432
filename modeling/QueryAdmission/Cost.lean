import QueryAdmission.SetupError
import QueryAdmission.Text.CodePoint

/-! What a field costs: a price list by name, and one price for every other name. Names
count exactly as they are written. -/

namespace QueryAdmission

structure CostTable where
  costs : List (String × Quantity)
  fallback : Quantity
  deriving DecidableEq

namespace CostTable

/-- Lists backed by joins cost ten, single records five. -/
def standardCosts : List (String × Quantity) :=
  [("members", .int 10), ("artifacts", .int 10), ("notifications", .int 10),
    ("pendingRequests", .int 10), ("owner", .int 5), ("createdBy", .int 5),
    ("fromUser", .int 5), ("subject", .int 5), ("user", .int 5)]

def standardFallback : Quantity := .int 1

def standard : CostTable := ⟨standardCosts, standardFallback⟩

/-- The names whose cost is negative, in the order of their code points. -/
def negativeNames (costs : List (String × Quantity)) : List String :=
  ((costs.filter (·.2.isNegative)).map Prod.fst).mergeSort comesBefore

/-- A cost table without negative costs. The cost of unlisted names is looked at first. -/
def make (costs : List (String × Quantity)) (fallback : Quantity) :
    Except SetupError CostTable :=
  if fallback.isNegative then .error (.negativeDefaultCost fallback)
  else match negativeNames costs with
    | [] => .ok ⟨costs, fallback⟩
    | names => .error (.negativeCosts names)

def costOf (table : CostTable) (name : String) : Quantity :=
  (table.costs.lookup name).getD table.fallback

end CostTable

end QueryAdmission
