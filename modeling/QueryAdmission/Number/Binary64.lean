/-! Double-precision numbers as exact values. A finite one is a sign and a whole
number of units of `2^-1074`, the smallest step of the format, so sums, products
and comparisons are statements about natural numbers. Every inexact result goes
through one rounding, `nearest`, and every magnitude carries the reason why the
format can hold it. -/

namespace QueryAdmission

/-- `num / den` to the nearest whole number; a half goes to the even neighbour. -/
def halfEven (num den : Nat) : Nat :=
  if 2 * (num % den) < den ∨ 2 * (num % den) = den ∧ num / den % 2 = 0 then
    num / den
  else
    num / den + 1

/-- How many low bits of `num / den` do not fit into a significand of 53 bits. -/
def excessBits (num den : Nat) : Nat := Nat.log2 (num / den) - 52

/-- The significand that `num / den` keeps once the excess bits are rounded away. -/
def significand (num den : Nat) : Nat := halfEven num (den <<< excessBits num den)

/-- `num / den` units, rounded to 53 significant bits and never below one unit. -/
def roundUnits (num den : Nat) : Nat := significand num den <<< excessBits num den

theorem halfEven_le (num den : Nat) : halfEven num den ≤ num / den + 1 := by
  unfold halfEven
  split <;> omega

/-- One more than the largest significand. -/
def significandLimit : Nat := 1 <<< 53

theorem significand_le (num den : Nat) : significand num den ≤ significandLimit := by
  have hlog : num / den < 2 ^ (Nat.log2 (num / den) + 1) := Nat.lt_log2_self
  have hle : Nat.log2 (num / den) + 1 ≤ 53 + excessBits num den := by
    unfold excessBits
    omega
  have hlt : num / den < 2 ^ 53 * 2 ^ excessBits num den := by
    rw [← Nat.pow_add]
    exact Nat.lt_of_lt_of_le hlog (Nat.pow_le_pow_right (by omega) hle)
  have hq : num / (den <<< excessBits num den) < 2 ^ 53 := by
    rw [Nat.shiftLeft_eq, ← Nat.div_div_eq_div_mul]
    exact (Nat.div_lt_iff_lt_mul (Nat.two_pow_pos _)).mpr hlt
  exact Nat.le_trans (halfEven_le _ _) hq

/-- A magnitude with at most 53 significant bits. -/
def Short (units : Nat) : Prop := ∃ m e, m < significandLimit ∧ units = m <<< e

theorem short_roundUnits (num den : Nat) : Short (roundUnits num den) := by
  by_cases h : significand num den = significandLimit
  · refine ⟨1, 53 + excessBits num den, by decide, ?_⟩
    rw [roundUnits, h, significandLimit, Nat.shiftLeft_add]
  · have := significand_le num den
    exact ⟨significand num den, excessBits num den, by omega, rfl⟩

/-- How many bits the count of units has at most: 1024 before the point, 1074 behind it. -/
def widestBits : Nat := 1024 + 1074

/-- The first magnitude, in units, that is too large for the format. -/
def unitsLimit : Nat := 1 <<< widestBits

theorem unitsLimit_pos : 0 < unitsLimit := by
  rw [unitsLimit, Nat.one_shiftLeft]
  exact Nat.two_pow_pos widestBits

/-- A double: not a number, an infinity, or a signed count of units of `2^-1074`. -/
inductive Binary64 where
  | nan
  | infinite (negative : Bool)
  | finite (negative : Bool) (units : Nat) (short : Short units) (small : units < unitsLimit)
  deriving DecidableEq

namespace Binary64

/-- The double nearest to `num / den` units: ties go to the even significand, and what
does not fit becomes an infinity. -/
def nearest (negative : Bool) (num den : Nat) : Binary64 :=
  if h : roundUnits num den < unitsLimit then
    .finite negative (roundUnits num den) (short_roundUnits num den) h
  else
    .infinite negative

/-- Units in the number one. -/
def one : Nat := 1 <<< 1074

/-- Zero with the given sign. -/
def signedZero (negative : Bool) : Binary64 :=
  .finite negative 0 ⟨0, 0, by decide, rfl⟩ unitsLimit_pos

def zero : Binary64 := signedZero false

instance : Inhabited Binary64 := ⟨zero⟩

/-- The double nearest to a whole number; an infinity if it is too large. -/
def ofInt (n : Int) : Binary64 := nearest (n < 0) (n.natAbs * one) 1

/-- The double nearest to a whole number, or none if the number is out of range. -/
def ofInt? (n : Int) : Option Binary64 :=
  match ofInt n with
  | .finite s u hs hu => some (.finite s u hs hu)
  | _ => none

/-- The signed count of units of a finite double. -/
def signedUnits (negative : Bool) (units : Nat) : Int := if negative then -units else units

/-- Addition: the exact sum rounded. A zero sum is negative only if both operands are. -/
def add : Binary64 → Binary64 → Binary64
  | .nan, _ => .nan
  | _, .nan => .nan
  | .infinite s, .infinite t => if s = t then .infinite s else .nan
  | .infinite s, .finite .. => .infinite s
  | .finite .., .infinite t => .infinite t
  | .finite s u _ _, .finite t v _ _ =>
    let sum := signedUnits s u + signedUnits t v
    if sum = 0 then signedZero (s && t) else nearest (sum < 0) sum.natAbs 1

/-- Multiplication: the exact product rounded. -/
def mul : Binary64 → Binary64 → Binary64
  | .nan, _ => .nan
  | _, .nan => .nan
  | .infinite s, .infinite t => .infinite (s ^^ t)
  | .infinite s, .finite t v _ _ => if v = 0 then .nan else .infinite (s ^^ t)
  | .finite s u _ _, .infinite t => if u = 0 then .nan else .infinite (s ^^ t)
  | .finite s u _ _, .finite t v _ _ => nearest (s ^^ t) (u * v) one

instance : Add Binary64 := ⟨add⟩
instance : Mul Binary64 := ⟨mul⟩

end Binary64

/-- A place on the number line closed at both ends, counted in units of `2^-1074`. -/
inductive Point where
  | low
  | mid (units : Int)
  | high
  deriving DecidableEq

namespace Point

/-- The order of the line. -/
def lt : Point → Point → Bool
  | .low, .low => false
  | .low, _ => true
  | .mid _, .low => false
  | .mid a, .mid b => a < b
  | .mid _, .high => true
  | .high, _ => false

end Point

/-- Where a double lies; NaN lies nowhere. -/
def Binary64.point? : Binary64 → Option Point
  | .nan => none
  | .infinite true => some .low
  | .infinite false => some .high
  | .finite s u _ _ => some (.mid (Binary64.signedUnits s u))

end QueryAdmission
