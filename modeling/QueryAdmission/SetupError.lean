import QueryAdmission.Number.Quantity

/-! Why a part of the admission gate cannot be set up. -/

namespace QueryAdmission

inductive SetupError where
  | negativeDefaultCost (cost : Quantity)
  | negativeCosts (names : List String)
  | negativeCutoff (cutoff : Int)
  | emptyBudget (budget : Int)
  | negativeMaxComplexity (limit : Quantity)
  | negativeMaxDepth (limit : Quantity)
  | cutoffBeyondDepth (cutoff : Nat) (maxDepth : Quantity)
  deriving DecidableEq

namespace SetupError

/-- What an error says, if its numbers can be written. -/
def text : SetupError → Except WholeNumber.TextError String
  | .negativeDefaultCost cost => do
    return "Default field cost must be non-negative, got " ++ (← cost.text) ++ "."
  | .negativeCosts names =>
    return "Field costs must be non-negative: " ++ ", ".intercalate names ++ "."
  | .negativeCutoff cutoff => do
    return "Scorer cutoff must be non-negative, got " ++ (← WholeNumber.write cutoff) ++ "."
  | .emptyBudget budget => do
    return "Node budget must be positive, got " ++ (← WholeNumber.write budget) ++ "."
  | .negativeMaxComplexity limit => do
    return "max_complexity must be non-negative, got " ++ (← limit.text) ++ "."
  | .negativeMaxDepth limit => do
    return "max_depth must be non-negative, got " ++ (← limit.text) ++ "."
  | .cutoffBeyondDepth cutoff maxDepth => do
    return "Scorer cutoff (" ++ (← WholeNumber.write cutoff) ++ ") must not exceed max_depth (" ++
      (← maxDepth.text) ++ ")."

/-- What is said of an error; where it cannot be written, that is what is said. -/
def message (e : SetupError) : String :=
  match e.text with
  | .ok text => text
  | .error e => e.message

end SetupError

end QueryAdmission
