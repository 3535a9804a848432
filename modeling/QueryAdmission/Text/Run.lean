/-! Sets of characters as runs of code points. -/

namespace QueryAdmission

/-- Whether a character lies in one of the runs, each given by its first and last code point. -/
def isWithin (runs : List (Nat × Nat)) (c : Char) : Bool :=
  runs.any fun (first, last) => first ≤ c.toNat && c.toNat ≤ last

end QueryAdmission
