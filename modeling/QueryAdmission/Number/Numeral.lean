import QueryAdmission.Number.Binary64
import QueryAdmission.Number.PowerOfTen
import QueryAdmission.Text.Sign

/-! Decimal numerals: a sign, digits with an optional point, an optional power of
ten. A numeral is read exactly and only then rounded to a double, so the result
is the nearest one however many digits were written. -/

namespace QueryAdmission

/-- The number `± coefficient · 10 ^ exponent` as it was written. -/
structure Numeral where
  negative : Bool
  coefficient : Nat
  exponent : Int
  deriving DecidableEq, Repr

namespace Numeral

/-- The value of an ASCII digit. -/
def digit? (c : Char) : Option Nat :=
  if '0' ≤ c ∧ c ≤ '9' then some (c.toNat - '0'.toNat) else none

def isDigit (c : Char) : Bool := (digit? c).isSome

/-- The number that a run of digits writes in base ten. -/
def ofDigits (digits : List Char) : Nat :=
  digits.foldl (fun n c => n * 10 + (digit? c).getD 0) 0

/-- A signed whole number that takes up all of the text. -/
def readExponent? (text : List Char) : Option Int :=
  let (negative, digits) := splitSign text
  if digits.isEmpty || !digits.all isDigit then none
  else some (if negative then -(ofDigits digits : Int) else ofDigits digits)

/-- Reads digits with an optional point and an optional power of ten. At least one digit
is needed, on either side of the point. -/
def read? (text : List Char) : Option Numeral :=
  let (negative, unsigned) := splitSign text
  let whole := unsigned.takeWhile isDigit
  let (fraction, tail) := match unsigned.dropWhile isDigit with
    | '.' :: rest => (rest.takeWhile isDigit, rest.dropWhile isDigit)
    | rest => ([], rest)
  if whole.isEmpty && fraction.isEmpty then none
  else
    let finish (shift : Int) : Numeral :=
      ⟨negative, ofDigits (whole ++ fraction), shift - fraction.length⟩
    match tail with
    | [] => some (finish 0)
    | c :: rest => if c = 'e' ∨ c = 'E' then (readExponent? rest).map finish else none

/-- Beyond this power of ten, above or below, a double can no longer tell numbers apart. -/
def reach : Int := 400

/-- The nearest double. Powers of ten far out of range are settled by their sign alone, so
that a huge exponent costs nothing. -/
def toBinary64 (n : Numeral) : Binary64 :=
  let places : Int := (Nat.toDigits 10 n.coefficient).length + n.exponent
  if n.coefficient = 0 then Binary64.signedZero n.negative
  else if reach < places then .infinite n.negative
  else if places < -reach then Binary64.signedZero n.negative
  else if 0 ≤ n.exponent then
    Binary64.nearest n.negative (n.coefficient * tenTo n.exponent.toNat * Binary64.one) 1
  else
    Binary64.nearest n.negative (n.coefficient * Binary64.one) (tenTo (-n.exponent).toNat)

end Numeral

/-- Reads a double: a numeral, or a signed `inf`, `infinity` or `nan` in any case. -/
def Binary64.read? (text : List Char) : Option Binary64 :=
  let (negative, unsigned) := splitSign text
  let word := String.ofList (unsigned.map Char.toLower)
  if word = "inf" ∨ word = "infinity" then some (.infinite negative)
  else if word = "nan" then some .nan
  else (Numeral.read? text).map Numeral.toBinary64

end QueryAdmission
