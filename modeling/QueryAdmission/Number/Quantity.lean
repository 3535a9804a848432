import QueryAdmission.Number.Shortest
import QueryAdmission.Text.WholeNumber

/-! Costs, limits and measurements are numbers of two kinds: whole numbers of any
size and doubles. They compare by value and without rounding; arithmetic that
meets a double is double arithmetic. -/

namespace QueryAdmission

/-- A whole number or a double. The two print differently even where they are equal. -/
inductive Quantity where
  | int (n : Int)
  | float (x : Binary64)
  deriving DecidableEq

namespace Quantity

/-- Where a quantity lies; a whole number lies a multiple of `2^1074` units out. -/
def point? : Quantity → Option Point
  | .int n => some (.mid (n * Binary64.one))
  | .float x => x.point?

/-- The order by value. NaN is not less than anything, nor anything less than it. -/
def lt (a b : Quantity) : Bool :=
  match a.point?, b.point? with
  | some p, some q => p.lt q
  | _, _ => false

/-- At most, by value; false as soon as NaN takes part. -/
def le (a b : Quantity) : Bool :=
  match a.point?, b.point? with
  | some p, some q => !q.lt p
  | _, _ => false

/-- Equality by value: a whole number equals the double of its value, NaN nothing. -/
def same (a b : Quantity) : Bool := a.le b && b.le a

def isNegative (a : Quantity) : Bool := a.lt (.int 0)

/-- At least zero; NaN is neither this nor negative. -/
def isNonNegative (a : Quantity) : Bool := (Quantity.int 0).le a

/-- The first unless the second is less. -/
def min (a b : Quantity) : Quantity := if b.lt a then b else a

/-- The first unless the second is greater. -/
def max (a b : Quantity) : Quantity := if a.lt b then b else a

/-- The quantity as a double, unless it is a whole number out of range. -/
def toBinary64? : Quantity → Option Binary64
  | .int n => Binary64.ofInt? n
  | .float x => some x

/-- The sum; whole numbers add exactly. -/
def add? : Quantity → Quantity → Option Quantity
  | .int m, .int n => some (.int (m + n))
  | a, b => do return .float ((← a.toBinary64?) + (← b.toBinary64?))

/-- The product; whole numbers multiply exactly. -/
def mul? : Quantity → Quantity → Option Quantity
  | .int m, .int n => some (.int (m * n))
  | a, b => do return .float ((← a.toBinary64?) * (← b.toBinary64?))

/-- One more. -/
def succ : Quantity → Quantity
  | .int n => .int (n + 1)
  | .float x => .float (x + Binary64.ofInt 1)

/-- How a quantity is written. Every double can be, but not every whole number. -/
def text : Quantity → Except WholeNumber.TextError String
  | .int n => WholeNumber.write n
  | .float x => .ok x.text

/-- The whole part, where there is one. -/
def whole? : Quantity → Option Int
  | .int n => some n
  | .float (.finite negative units _ _) =>
    some (Binary64.signedUnits negative (units / Binary64.one))
  | .float _ => none

end Quantity

/-- A running double plus a quantity; none if the quantity is out of range. -/
def Binary64.plus? (x : Binary64) (q : Quantity) : Option Binary64 :=
  q.toBinary64?.map (x + ·)

end QueryAdmission
