import QueryAdmission.Number.PowerOfTen
import QueryAdmission.Text.Blank
import QueryAdmission.Text.Cut
import QueryAdmission.Text.DecimalDigit
import QueryAdmission.Text.Quoted
import QueryAdmission.Text.Sign

/-! Whole numbers as text: blanks around, one sign, digits of any script with single
underscores between them. The length of the digits in front is checked before what
follows them, so a text can be too long where it is no number either. Numbers are written
with no more digits than are read. -/

namespace QueryAdmission

namespace WholeNumber

/-- The most digits that are read or written; underscores and the sign do not count. -/
def digitLimit : Nat := 4300

/-- Why a text is not read as a whole number, or a whole number is not written. -/
inductive TextError where
  | malformed (text : String)
  | tooLong (digits : Nat)
  /-- The number has too many digits to be written. -/
  | unwritable
  deriving DecidableEq, Repr

/-- At most this many characters of a rejected text are shown. -/
def shownLimit : Nat := 200

def TextError.message : TextError → String
  | .malformed text =>
    "invalid literal for int() with base 10: " ++ String.ofList ((quoted text).take shownLimit)
  | .tooLong digits =>
    "Exceeds the limit (" ++ toString digitLimit ++ " digits) for integer string conversion: " ++
      "value has " ++ toString digits ++
      " digits; use sys.set_int_max_str_digits() to increase the limit"
  | .unwritable =>
    "Exceeds the limit (" ++ toString digitLimit ++ " digits) for integer string conversion; " ++
      "use sys.set_int_max_str_digits() to increase the limit"

/-- Whether a character is a digit or separates digits. -/
def isDigitPart (c : Char) : Bool := c == '_' || (decimalDigit? c).isSome

/-- The digit values of a text that holds nothing but digits and single underscores
between them. -/
def digits? (text : List Char) : Option (List Nat) := do
  let parts ← (cut '_' text).mapM fun group => do
    if group.isEmpty then none
    group.mapM decimalDigit?
  return parts.flatten

def ofDigits (digits : List Nat) : Nat := digits.foldl (fun n d => n * 10 + d) 0

/-- The whole number that a text writes. -/
def read (text : String) : Except TextError Int :=
  let (negative, unsigned) := splitSign (trimBlanks text.toList)
  match digits? (unsigned.takeWhile isDigitPart) with
  | none => .error (.malformed text)
  | some digits =>
    if digitLimit < digits.length then .error (.tooLong digits.length)
    else if !(unsigned.dropWhile isDigitPart).isEmpty then .error (.malformed text)
    else .ok (if negative then -(ofDigits digits : Int) else ofDigits digits)

/-- The text of a whole number, unless its digits are too many. -/
def write (n : Int) : Except TextError String :=
  if n.natAbs < tenTo digitLimit then .ok (toString n) else .error .unwritable

end WholeNumber

end QueryAdmission
