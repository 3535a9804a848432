import QueryAdmission.Text.WholeNumber

/-! Why the evaluation of a request breaks off. -/

namespace QueryAdmission

inductive Failure where
  /-- A whole number is not read from a pagination literal, or is not written in a message. -/
  | literal (error : WholeNumber.TextError)
  /-- A whole number is beyond the range of doubles. -/
  | outOfRange
  /-- A depth without end should be logged as a whole number. -/
  | endlessDepth
  /-- A rejection lacks a detail that its message shows. -/
  | missingDetail (key : String)
  deriving DecidableEq, Repr

def Failure.message : Failure → String
  | .literal error => error.message
  | .outOfRange => "int too large to convert to float"
  | .endlessDepth => "cannot convert float infinity to integer"
  | .missingDetail key => String.ofList (quoted key)

end QueryAdmission
