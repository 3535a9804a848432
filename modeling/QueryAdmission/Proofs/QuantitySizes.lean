import QueryAdmission.Proofs.Prices

/-! # How far out quantities lie

A quantity of at least zero lies a number of units out, or without end. This size gives the
order of quantities; the double that a quantity converts to has the same size once rounded,
and the product of finite quantities has the product of their sizes once rounded. Rounding
depends on the quotient alone and leaves whole numbers alone that are not too long. -/

namespace QueryAdmission

/-! ## Rounding -/

theorem halfEven_mul_right (num den : Nat) {k : Nat} (hk : 0 < k) :
    halfEven (num * k) (den * k) = halfEven num den := by
  have hlt : 2 * (num % den * k) < den * k ↔ 2 * (num % den) < den := by
    rw [← Nat.mul_assoc, Nat.mul_lt_mul_right hk]
  have heq : 2 * (num % den * k) = den * k ↔ 2 * (num % den) = den := by
    rw [← Nat.mul_assoc, Nat.mul_left_inj hk.ne']
  unfold halfEven
  rw [Nat.mul_mod_mul_right, Nat.mul_div_mul_right _ _ hk]
  simp only [hlt, heq]

/-- Rounding sees no common factor. -/
theorem roundUnits_mul_right (num den : Nat) {k : Nat} (hk : 0 < k) :
    roundUnits (num * k) (den * k) = roundUnits num den := by
  simp only [roundUnits, significand, excessBits, Nat.mul_div_mul_right _ _ hk, Nat.shiftLeft_eq]
  rw [Nat.mul_right_comm den k, halfEven_mul_right _ _ hk]

theorem short_of_le {m : Nat} (hm : m ≤ 2 ^ 53) (e : Nat) : Short (m * 2 ^ e) := by
  by_cases hlt : m < 2 ^ 53
  · have hlimit : m < significandLimit := by rwa [significandLimit, Nat.one_shiftLeft]
    exact ⟨m, e, hlimit, (Nat.shiftLeft_eq m e).symm⟩
  · have hm : m = 2 ^ 53 := by omega
    exact ⟨1, 53 + e, by decide, by rw [hm, Nat.shiftLeft_eq, Nat.one_mul, Nat.pow_add]⟩

namespace Binary64

theorem rounded_mul_right (num den : Nat) {k : Nat} (hk : 0 < k) :
    rounded (num * k) (den * k) = rounded num den := by
  simp only [rounded, roundUnits_mul_right num den hk]

/-- At most `2^53` steps of a width up to that of the number one are not rounded. -/
theorem rounded_of_le {m e : Nat} (hm : m ≤ 2 ^ 53) (he : e ≤ 1074) :
    rounded (m * 2 ^ e) 1 = (m * 2 ^ e : ℕ) := by
  have hsmall : m * 2 ^ e < unitsLimit := by
    rw [unitsLimit, widestBits, Nat.one_shiftLeft]
    calc m * 2 ^ e ≤ 2 ^ 53 * 2 ^ e := Nat.mul_le_mul_right _ hm
      _ = 2 ^ (53 + e) := (Nat.pow_add 2 53 e).symm
      _ < 2 ^ (1024 + 1074) := Nat.pow_lt_pow_right (by omega) (by omega)
  rw [rounded, roundUnits_of_short (short_of_le hm e), if_pos hsmall]

/-- Whole numbers up to `2^53` are not rounded. -/
theorem rounded_mul_one {m : Nat} (hm : m ≤ 2 ^ 53) : rounded (m * one) 1 = (m * one : ℕ) := by
  obtain ⟨e, he, hone⟩ : ∃ e, e ≤ 1074 ∧ one = 1 <<< e := ⟨1074, Nat.le_refl 1074, rfl⟩
  rw [hone, Nat.one_shiftLeft]
  exact rounded_of_le hm he

/-- Whole numbers up to `2^53` are doubles. -/
theorem exists_ofInt? {n : Nat} (hn : n ≤ 2 ^ 53) :
    ∃ x, ofInt? n = some x ∧ x.HasSize (n * one : ℕ) := by
  have hrounded := rounded_mul_one hn
  have hsmall : roundUnits ((n : Int).natAbs * one) 1 < unitsLimit := by
    rw [Int.natAbs_natCast]
    by_contra hlarge
    rw [rounded, if_neg hlarge] at hrounded
    exact ENat.top_ne_natCast _ hrounded
  obtain ⟨x, hx⟩ := exists_ofInt?_iff.mpr hsmall
  obtain ⟨units, hsize, hunits⟩ := hasSize_of_ofInt? hx
  rw [hrounded] at hunits
  exact ⟨x, hx, hunits ▸ hsize⟩

end Binary64

/-! ## Sizes -/

namespace Quantity

/-- A quantity of at least zero that lies `size` units out. -/
inductive HasSize : Quantity → ℕ∞ → Prop
  | whole (n : Nat) : HasSize (.int n) (n * Binary64.one : ℕ)
  | double {x : Binary64} {size : ℕ∞} (h : x.HasSize size) : HasSize (.float x) size

variable {p q r : Quantity} {a b : ℕ∞}

theorem exists_hasSize (h : q.isNonNegative = true) : ∃ size, q.HasSize size := by
  cases q with
  | int n =>
    rw [isNonNegative, int_le_int, decide_eq_true_eq] at h
    obtain ⟨m, rfl⟩ := Int.eq_ofNat_of_zero_le h
    exact ⟨_, .whole m⟩
  | float x =>
    obtain ⟨size, hsize⟩ := Binary64.hasSize_of_isNonNegative h
    exact ⟨size, .double hsize⟩

/-- The place that many units out. -/
def pointOut : ℕ∞ → Point
  | ⊤ => .high
  | (n : ℕ) => .mid n

@[simp] theorem pointOut_top : pointOut ⊤ = .high := rfl

@[simp] theorem pointOut_coe (n : ℕ) : pointOut n = .mid n := rfl

theorem pointOut_lt : (pointOut a).lt (pointOut b) = true ↔ a < b := by
  cases a <;> cases b <;> simp [Point.lt]

theorem HasSize.point?_eq (h : q.HasSize a) : q.point? = some (pointOut a) := by
  cases h with
  | whole n => rw [point?, pointOut_coe, Int.natCast_mul]
  | double h => cases h <;> rfl

/-- Quantities are ordered as their sizes are. -/
theorem HasSize.lt_iff (hp : p.HasSize a) (hq : q.HasSize b) : p.lt q = true ↔ a < b := by
  simp only [lt, hp.point?_eq, hq.point?_eq, pointOut_lt]

theorem HasSize.le_iff (hp : p.HasSize a) (hq : q.HasSize b) : p.le q = true ↔ a ≤ b := by
  simp only [le, hp.point?_eq, hq.point?_eq, Bool.not_eq_true', ← not_lt (a := b), ← pointOut_lt,
    Bool.not_eq_true]

theorem HasSize.isNonNegative (h : q.HasSize a) : q.isNonNegative = true :=
  ((HasSize.whole 0).le_iff h).mpr (by simp)

theorem HasSize.min {m n : ℕ} (hp : p.HasSize m) (hq : q.HasSize n) :
    (p.min q).HasSize (Min.min m n : ℕ) := by
  have hlt : q.lt p = true ↔ n < m := (hq.lt_iff hp).trans Nat.cast_lt
  unfold Quantity.min
  by_cases hless : n < m
  · rwa [if_pos (hlt.mpr hless), Nat.min_eq_right hless.le]
  · rwa [if_neg (mt hlt.mp hless), Nat.min_eq_left (Nat.not_lt.mp hless)]

/-! ## Conversion -/

theorem HasSize.toBinary64 {x : Binary64} (h : q.HasSize a) (hx : q.toBinary64? = some x) :
    x.HasSize (Binary64.roundedSum a) := by
  cases h with
  | whole n =>
    obtain ⟨units, hsize, hunits⟩ := Binary64.hasSize_of_ofInt? hx
    have hrounded : Binary64.roundedSum (n * Binary64.one : ℕ) = units := hunits
    rwa [hrounded]
  | double h =>
    obtain rfl := Option.some.inj hx
    rwa [h.roundedSum_eq]

/-- What converts and is finite is finite as a double. -/
theorem HasSize.exists_units {x : Binary64} {m : ℕ} (h : q.HasSize m)
    (hx : q.toBinary64? = some x) :
    ∃ units : ℕ, x.HasSize units ∧ Binary64.roundedSum m = units := by
  cases h with
  | whole n => exact Binary64.hasSize_of_ofInt? hx
  | double h =>
    obtain rfl := Option.some.inj hx
    exact ⟨m, h, h.roundedSum_eq⟩

/-- Quantities of at least zero keep their order as doubles. -/
theorem HasSize.atMost (hp : p.HasSize a) (hq : q.HasSize b) (h : a ≤ b) : p.AtMost q :=
  fun _ _ hx hy => ⟨_, _, hp.toBinary64 hx, hq.toBinary64 hy, Binary64.roundedSum_mono h⟩

/-! ## Products -/

theorem float_mul? (x : Binary64) (q : Quantity) :
    (float x).mul? q = q.toBinary64?.map fun y => float (x * y) := by
  cases q with
  | int n =>
    simp only [mul?, toBinary64?]
    cases Binary64.ofInt? n <;> rfl
  | float y => rfl

/-- A product of finite quantities of at least zero is at least zero. -/
theorem HasSize.mul_atMost {m n : ℕ} (hp : p.HasSize m) (hq : q.HasSize n)
    (h : p.mul? q = some r) : r.AtMost r := by
  cases hp with
  | whole j =>
    cases hq with
    | whole k =>
      obtain rfl := Option.some.inj h
      exact (HasSize.whole (j * k)).atMost (.whole (j * k)) le_rfl
    | double hy =>
      rw [int_mul?_float] at h
      obtain ⟨x, hx, rfl⟩ := Option.map_eq_some_iff.mp h
      obtain ⟨units, hsize, _⟩ := (HasSize.whole j).exists_units hx
      exact float_atMost ⟨_, _, hsize.mul hy, hsize.mul hy, le_rfl⟩
  | double hx =>
    rw [float_mul?] at h
    obtain ⟨y, hy, rfl⟩ := Option.map_eq_some_iff.mp h
    obtain ⟨units, hsize, _⟩ := hq.exists_units hy
    exact float_atMost ⟨_, _, hx.mul hsize, hx.mul hsize, le_rfl⟩

/-- The double of a product has the exact product as its size, rounded once, if the first
factor converts exactly, and the second one does where the first is a double. -/
theorem HasSize.mul {m n : ℕ} {z : Binary64} (hp : p.HasSize m) (hq : q.HasSize n)
    (hexact : Binary64.roundedSum m = m)
    (hexact' : (∃ k, p = .int k) ∨ Binary64.roundedSum n = n)
    (h : p.mul? q = some r) (hz : r.toBinary64? = some z) :
    z.HasSize (Binary64.rounded (m * n) Binary64.one) := by
  have hconvert : ∀ {x : Binary64}, p.toBinary64? = some x → x.HasSize m := fun hx => by
    have hsize := hp.toBinary64 hx
    rwa [hexact] at hsize
  cases hq with
  | double hy =>
    cases hp with
    | whole j =>
      rw [int_mul?_float] at h
      obtain ⟨x, hx, rfl⟩ := Option.map_eq_some_iff.mp h
      obtain rfl := Option.some.inj hz
      exact (hconvert hx).mul hy
    | double hx =>
      rw [float_mul?] at h
      obtain rfl := Option.some.inj h
      obtain rfl := Option.some.inj hz
      exact hx.mul hy
  | whole k =>
    cases hp with
    | whole j =>
      obtain rfl := Option.some.inj h
      have hunits : j * Binary64.one * (k * Binary64.one) =
          j * k * Binary64.one * Binary64.one := by
        rw [Nat.mul_mul_mul_comm, ← Nat.mul_assoc]
      have hcancel := Binary64.rounded_mul_right (j * k * Binary64.one) 1 Binary64.one_pos
      rw [Nat.one_mul] at hcancel
      rw [hunits, hcancel]
      exact (HasSize.whole (j * k)).toBinary64 hz
    | double hx =>
      rcases hexact' with ⟨_, hint⟩ | hexact'
      · cases hint
      · rw [float_mul?] at h
        obtain ⟨y, hy, rfl⟩ := Option.map_eq_some_iff.mp h
        obtain rfl := Option.some.inj hz
        have hsize := (HasSize.whole k).toBinary64 hy
        rw [hexact'] at hsize
        exact hx.mul hsize

end Quantity

end QueryAdmission
