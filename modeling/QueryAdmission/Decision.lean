import QueryAdmission.Failure
import QueryAdmission.Number.Quantity

/-! The outcome of admission: an operation is allowed, or it is rejected for one violated
limit. A rejection carries the measured value and the limit as named details, and its
message shows them. -/

namespace QueryAdmission

inductive RejectionKind where
  | tooComplex
  | tooDeep
  deriving DecidableEq, Repr

/-- The code that clients see. -/
def RejectionKind.code : RejectionKind → String
  | .tooComplex => "QUERY_TOO_COMPLEX"
  | .tooDeep => "QUERY_TOO_DEEP"

/-- The kind that a code stands for. -/
def RejectionKind.ofCode? (code : String) : Option RejectionKind :=
  [RejectionKind.tooComplex, .tooDeep].find? (·.code == code)

/-- What is said of a value that stands for no kind, as it is written. -/
def RejectionKind.unknownMessage (written : String) : String :=
  written ++ " is not a valid RejectionKind"

/-- The value of a detail. -/
inductive Detail where
  | quantity (q : Quantity)
  | text (s : String)
  | none
  deriving DecidableEq

def Detail.shown : Detail → Except Failure String
  | .quantity q => q.text.mapError .literal
  | .text s => .ok s
  | .none => .ok "None"

/-- Equality of details: numbers by value, all else literally. -/
def Detail.same : Detail → Detail → Bool
  | .quantity a, .quantity b => a.same b
  | .text a, .text b => a == b
  | .none, .none => true
  | _, _ => false

structure Rejection where
  kind : RejectionKind
  details : List (String × Detail)
  deriving DecidableEq

namespace Rejection

/-- The text of a detail that the message needs. -/
def shown (r : Rejection) (key : String) : Except Failure String :=
  match r.details.lookup key with
  | some detail => detail.shown
  | none => .error (.missingDetail key)

/-- Says what was measured and what is allowed. -/
def message (r : Rejection) : Except Failure String :=
  match r.kind with
  | .tooComplex => do
    return "Query complexity (" ++ (← r.shown "complexity") ++
      ") exceeds maximum allowed (" ++ (← r.shown "maxComplexity") ++ ")"
  | .tooDeep => do
    return "Query depth (" ++ (← r.shown "depth") ++
      ") exceeds maximum allowed (" ++ (← r.shown "maxDepth") ++ ")"

/-- What an error response adds to the message: the code, then the details. A detail named
like the code takes its place. -/
def extensions (r : Rejection) : List (String × Detail) :=
  if r.details.any (·.1 == "code") then r.details
  else ("code", .text r.kind.code) :: r.details

/-- Equality of rejections: the same kind, and the same details in any order. -/
def same (a b : Rejection) : Bool :=
  a.kind == b.kind && a.details.length == b.details.length &&
    a.details.all fun (key, detail) => (b.details.lookup key).any detail.same

end Rejection

inductive Decision where
  | allowed
  | rejected (rejection : Rejection)
  deriving DecidableEq

def Decision.isAllowed : Decision → Bool
  | .allowed => true
  | .rejected _ => false

end QueryAdmission
