import QueryAdmission.Number.Binary64
import QueryAdmission.Number.PowerOfTen

/-! The text of a double: the fewest significant digits that read back to it, laid
out positionally near one and with a power of ten elsewhere. The digits are found
on the decimal grids themselves: for one, two, up to seventeen digits the two grid
points around the value are tried, and the first that rounds back is taken. -/

namespace QueryAdmission

namespace Shortest

/-- More decimal places than the smallest positive double has zeros after its point. -/
def places : Nat := 340

/-- The power of ten of the leading digit of `units`. -/
def leading (units : Nat) : Int :=
  let scaled := units * tenTo places / Binary64.one
  ((Nat.toDigits 10 scaled).length : Int) - 1 - places

/-- `coefficient · 10 ^ power` as a quotient of units. -/
def ratio (coefficient : Nat) (power : Int) : Nat × Nat :=
  if 0 ≤ power then (coefficient * tenTo power.toNat * Binary64.one, 1)
  else (coefficient * Binary64.one, tenTo (-power).toNat)

/-- Whether `coefficient · 10 ^ power` rounds to `units`. -/
def readsBack (units coefficient : Nat) (power : Int) : Bool :=
  let (num, den) := ratio coefficient power
  roundUnits num den == units

/-- The point of the grid `10 ^ power` that stands for `units`: of the two neighbours
those that read back, of two the nearer, and of two equally near the even one. -/
def onGrid? (units : Nat) (power : Int) : Option Nat :=
  let (num, den) :=
    if 0 ≤ power then (units, Binary64.one * tenTo power.toNat)
    else (units * tenTo (-power).toNat, Binary64.one)
  let below := num / den
  let best := halfEven num den
  let other := if best = below then below + 1 else below
  if readsBack units best power then some best
  else if readsBack units other power then some other
  else none

/-- The most digits that a double needs. -/
def mostDigits : Nat := 17

/-- Digits and power of ten of the shortest numeral for `units`, as the coefficient on
the coarsest grid that has one. -/
def coefficient (units : Nat) : Nat × Int :=
  let top := leading units
  let grids := (List.range mostDigits).map fun (n : Nat) => top - n
  (grids.findSome? fun power => (onGrid? units power).map (·, power)).getD (units, 0)

end Shortest

/-- Where a layout writes a number positionally, and how it writes the rest. -/
structure FloatLayout where
  /-- The least power of ten of a leading digit that is written positionally. -/
  least : Int
  /-- The first power of ten that is written with an exponent again. -/
  limit : Int
  /-- The least number of digits of an exponent. -/
  exponentWidth : Nat

namespace FloatLayout

def zeros (n : Nat) : List Char := List.replicate n '0'

/-- Pads with zeros on the left. -/
def padLeft (width : Nat) (digits : List Char) : List Char :=
  zeros (width - digits.length) ++ digits

/-- Digits with a point after `whole` of them, and a zero on a side that would be empty. -/
def positional (digits : List Char) (whole : Int) : List Char :=
  if whole ≤ 0 then "0.".toList ++ zeros (-whole).toNat ++ digits
  else
    let n := whole.toNat
    if digits.length ≤ n then digits ++ zeros (n - digits.length) ++ ".0".toList
    else digits.take n ++ '.' :: digits.drop n

/-- One digit, the others after a point if there are any, and the power of ten. -/
def scientific (layout : FloatLayout) (digits : List Char) (top : Int) : List Char :=
  let mantissa := match digits with
    | [] => []
    | [d] => [d]
    | d :: ds => d :: '.' :: ds
  let sign := if top < 0 then '-' else '+'
  mantissa ++ 'e' :: sign :: padLeft layout.exponentWidth (Nat.toDigits 10 top.natAbs)

/-- Drops the zeros at the end of a run of digits. -/
def dropTrailingZeros (digits : List Char) : List Char :=
  (digits.reverse.dropWhile (· == '0')).reverse

/-- The text of a double. -/
def write (layout : FloatLayout) : Binary64 → String
  | .nan => "nan"
  | .infinite negative => if negative then "-inf" else "inf"
  | .finite negative units _ _ =>
    let body :=
      if units = 0 then "0.0".toList
      else
        let (coefficient, power) := Shortest.coefficient units
        let written := Nat.toDigits 10 coefficient
        let top := power + written.length - 1
        let digits := dropTrailingZeros written
        if layout.least ≤ top ∧ top < layout.limit then positional digits (top + 1)
        else layout.scientific digits top
    String.ofList (if negative then '-' :: body else body)

end FloatLayout

/-- Scores and limits are written positionally from one ten-thousandth up to sixteen
digits before the point, and with an exponent of at least two digits elsewhere. -/
def scoreLayout : FloatLayout := ⟨-4, 16, 2⟩

def Binary64.text (x : Binary64) : String := scoreLayout.write x

end QueryAdmission
