/-! Signs in front of written numbers, for the readers of all number formats. -/

namespace QueryAdmission

/-- Splits off a sign in front, if any: whether it was a minus, and what follows. -/
def splitSign : List Char → Bool × List Char
  | '-' :: rest => (true, rest)
  | '+' :: rest => (false, rest)
  | rest => (false, rest)

end QueryAdmission
