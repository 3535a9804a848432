/-! Powers of ten, which decimal numerals count in. -/

namespace QueryAdmission

/-- The number that is written as a one and `places` zeros. -/
def tenTo (places : Nat) : Nat := Nat.pow 10 places

end QueryAdmission
