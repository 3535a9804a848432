import Mathlib.Data.ENat.Basic
import QueryAdmission.Proofs.NumberOrder

/-! # Rounding keeps the order

Rounding to 53 significant bits is monotone and leaves alone what it can represent. On
doubles of at least zero, sums and products therefore keep the order of their operands,
and a sum is at least each of its operands. -/

namespace QueryAdmission

/-! ## Rounding whole numbers of units -/

theorem div_le_halfEven (num den : Nat) : num / den ≤ halfEven num den := by
  unfold halfEven
  split <;> omega

theorem halfEven_mono {a b : Nat} (h : a ≤ b) (den : Nat) : halfEven a den ≤ halfEven b den := by
  have hdiv : a / den ≤ b / den := Nat.div_le_div_right h
  by_cases hlt : a / den < b / den
  · have := halfEven_le a den
    have := div_le_halfEven b den
    omega
  · have heq : a / den = b / den := by omega
    have ha := Nat.div_add_mod a den
    have hb := Nat.div_add_mod b den
    rw [heq] at ha
    have hmod : a % den ≤ b % den := by omega
    unfold halfEven
    rw [heq]
    split <;> split <;> omega

theorem log2_mono {a b : Nat} (h : a ≤ b) : Nat.log2 a ≤ Nat.log2 b := by
  by_cases ha : a = 0
  · rw [ha, Nat.log2_zero]
    exact Nat.zero_le _
  · exact (Nat.le_log2 (by omega)).mpr (Nat.le_trans (Nat.log2_self_le ha) h)

theorem excessBits_mono {a b : Nat} (h : a ≤ b) (den : Nat) :
    excessBits a den ≤ excessBits b den := by
  have := log2_mono (Nat.div_le_div_right (c := den) h)
  unfold excessBits
  omega

/-- A significand with excess bits rounded away has all its 53 bits. -/
theorem le_significand {num den : Nat} (h : 0 < excessBits num den) :
    2 ^ 52 ≤ significand num den := by
  have hexcess : Nat.log2 (num / den) = 52 + excessBits num den := by
    unfold excessBits at h ⊢
    omega
  have hpos : num / den ≠ 0 := by
    intro hzero
    rw [hzero, Nat.log2_zero] at hexcess
    omega
  have hlow := Nat.log2_self_le hpos
  rw [hexcess, Nat.pow_add] at hlow
  calc 2 ^ 52 ≤ num / den / 2 ^ excessBits num den :=
        (Nat.le_div_iff_mul_le (Nat.two_pow_pos _)).mpr hlow
    _ = num / (den <<< excessBits num den) := by
        rw [Nat.shiftLeft_eq, Nat.div_div_eq_div_mul]
    _ ≤ significand num den := div_le_halfEven _ _

theorem roundUnits_mono {a b : Nat} (h : a ≤ b) (den : Nat) :
    roundUnits a den ≤ roundUnits b den := by
  have hexcess := excessBits_mono h den
  by_cases heq : excessBits a den = excessBits b den
  · simp only [roundUnits, significand, Nat.shiftLeft_eq, heq]
    exact Nat.mul_le_mul_right _ (halfEven_mono h _)
  · -- a larger binade starts where the smaller one can end at most
    have hlt : excessBits a den + 1 ≤ excessBits b den := by omega
    have hhigh : significand a den ≤ 2 ^ 53 := significand_le a den
    have hlow : 2 ^ 52 ≤ significand b den := le_significand (by omega)
    simp only [roundUnits, Nat.shiftLeft_eq]
    calc significand a den * 2 ^ excessBits a den ≤ 2 ^ 53 * 2 ^ excessBits a den :=
          Nat.mul_le_mul_right _ hhigh
      _ = 2 ^ 52 * 2 ^ (excessBits a den + 1) := by
          rw [Nat.pow_succ 2 52, Nat.pow_succ 2 (excessBits a den), Nat.mul_assoc,
            Nat.mul_comm 2 (2 ^ excessBits a den)]
      _ ≤ 2 ^ 52 * 2 ^ excessBits b den :=
          Nat.mul_le_mul_left _ (Nat.pow_le_pow_right (by omega) hlt)
      _ ≤ significand b den * 2 ^ excessBits b den := Nat.mul_le_mul_right _ hlow

theorem halfEven_of_dvd {num den : Nat} (hden : 0 < den) (h : den ∣ num) :
    halfEven num den = num / den := by
  have hmod : num % den = 0 := Nat.mod_eq_zero_of_dvd h
  unfold halfEven
  rw [if_pos (.inl (by omega))]

/-- What has at most 53 significant bits is not rounded. -/
theorem roundUnits_of_short {units : Nat} (h : Short units) : roundUnits units 1 = units := by
  obtain ⟨m, e, hm, rfl⟩ := h
  rw [significandLimit, Nat.one_shiftLeft] at hm
  rw [Nat.shiftLeft_eq]
  have hdvd : 2 ^ excessBits (m * 2 ^ e) 1 ∣ m * 2 ^ e := by
    by_cases hzero : m = 0
    · simp [hzero]
    · have hlt : m * 2 ^ e < 2 ^ (53 + e) := by
        rw [Nat.pow_add]
        exact Nat.mul_lt_mul_of_pos_right hm (Nat.two_pow_pos e)
      have hpos : m * 2 ^ e ≠ 0 := by
        have := Nat.two_pow_pos e
        simp [hzero]
      have hlog : Nat.log2 (m * 2 ^ e) < 53 + e := (Nat.log2_lt hpos).mpr hlt
      have hle : excessBits (m * 2 ^ e) 1 ≤ e := by
        unfold excessBits
        rw [Nat.div_one]
        omega
      exact Nat.dvd_mul_left_of_dvd (Nat.pow_dvd_pow 2 hle) m
  simp only [roundUnits, significand, Nat.shiftLeft_eq, Nat.one_mul]
  rw [halfEven_of_dvd (Nat.two_pow_pos _) hdvd, Nat.div_mul_cancel hdvd]

theorem roundUnits_zero (den : Nat) : roundUnits 0 den = 0 := by
  have hzero : ∀ d, halfEven 0 d = 0 := by
    intro d
    unfold halfEven
    rw [Nat.zero_mod, Nat.zero_div, if_pos (by omega)]
  rw [roundUnits, significand, hzero, Nat.zero_shiftLeft]

/-! ## Doubles of at least zero -/

namespace Binary64

/-- A double of at least zero that lies `size` units out. -/
inductive HasSize : Binary64 → ℕ∞ → Prop
  | finite {units : Nat} (short : Short units) (small : units < unitsLimit) :
      HasSize (.finite false units short small) units
  | negativeZero (short : Short 0) (small : 0 < unitsLimit) :
      HasSize (.finite true 0 short small) 0
  | infinite : HasSize (.infinite false) ⊤

/-- `num / den` units after rounding, or without end where they do not fit the format. -/
def rounded (num den : Nat) : ℕ∞ :=
  if roundUnits num den < unitsLimit then roundUnits num den else ⊤

/-- A sum of units after rounding. -/
def roundedSum : ℕ∞ → ℕ∞
  | ⊤ => ⊤
  | (n : ℕ) => rounded n 1

theorem rounded_mono {a b : Nat} (h : a ≤ b) (den : Nat) : rounded a den ≤ rounded b den := by
  have hle := roundUnits_mono h den
  unfold rounded
  split
  · split
    · exact_mod_cast hle
    · exact le_top
  · rw [if_neg (by omega)]

theorem roundedSum_mono {a b : ℕ∞} (h : a ≤ b) : roundedSum a ≤ roundedSum b := by
  cases b with
  | top => exact le_top
  | coe n =>
    cases a with
    | top => exact absurd h (by simp)
    | coe m => exact rounded_mono (by exact_mod_cast h) 1

theorem hasSize_nearest (num den : Nat) : (nearest false num den).HasSize (rounded num den) := by
  unfold nearest rounded
  split
  · exact .finite _ _
  · exact .infinite

theorem HasSize.roundedSum_eq {x : Binary64} {a : ℕ∞} (h : x.HasSize a) : roundedSum a = a := by
  cases h with
  | infinite => rfl
  | finite short small =>
    simp only [roundedSum, rounded, roundUnits_of_short short, if_pos small]
  | negativeZero short small =>
    have hzero : roundedSum 0 = rounded 0 1 := rfl
    simp only [hzero, rounded, roundUnits_of_short short, if_pos small, Nat.cast_zero]

theorem rounded_zero (den : Nat) : rounded 0 den = 0 := by
  rw [rounded, roundUnits_zero, if_pos unitsLimit_pos, Nat.cast_zero]

theorem hasSize_signedZero (negative : Bool) : (signedZero negative).HasSize 0 := by
  cases negative with
  | false => exact .finite _ _
  | true => exact .negativeZero _ _

theorem hasSize_nearest_zero (negative : Bool) (den : Nat) :
    (nearest negative 0 den).HasSize 0 := by
  unfold nearest
  simp only [roundUnits_zero, unitsLimit_pos, dite_true]
  cases negative with
  | false => exact .finite _ _
  | true => exact .negativeZero _ _

theorem hasSize_add_finite {s t : Bool} {u v : Nat} {hs : Short u} {hu : u < unitsLimit}
    {ht : Short v} {hv : v < unitsLimit} (hsu : signedUnits s u = u) (htv : signedUnits t v = v) :
    (Binary64.finite s u hs hu + Binary64.finite t v ht hv).HasSize (rounded (u + v) 1) := by
  show (add _ _).HasSize _
  simp only [add, hsu, htv]
  split
  · have hzero : u + v = 0 := by omega
    rw [hzero, rounded_zero]
    exact hasSize_signedZero _
  · have hpos : decide ((u : Int) + v < 0) = false := decide_eq_false (by omega)
    have habs : ((u : Int) + v).natAbs = u + v := by omega
    rw [hpos, habs]
    exact hasSize_nearest _ _

theorem HasSize.eq_infinite {x : Binary64} (h : x.HasSize ⊤) : x = .infinite false := by
  generalize hsize : (⊤ : ℕ∞) = size at h
  cases h with
  | infinite => rfl
  | finite => exact absurd hsize (ENat.top_ne_natCast _)
  | negativeZero => exact absurd hsize (ENat.top_ne_natCast 0)

theorem HasSize.eq_finite {x : Binary64} {n : Nat} (h : x.HasSize n) :
    ∃ s short small, x = .finite s n short small ∧ signedUnits s n = n := by
  generalize hsize : (n : ℕ∞) = size at h
  cases h with
  | infinite => exact absurd hsize (ENat.natCast_ne_top n)
  | finite short small =>
    obtain rfl := ENat.natCast_inj.mp hsize
    exact ⟨false, short, small, rfl, rfl⟩
  | negativeZero short small =>
    obtain rfl : n = 0 := by exact_mod_cast hsize
    exact ⟨true, short, small, rfl, rfl⟩

/-- The sum of doubles of at least zero is the exact sum, rounded. -/
theorem HasSize.add {x y : Binary64} {a b : ℕ∞} (hx : x.HasSize a) (hy : y.HasSize b) :
    (x + y).HasSize (roundedSum (a + b)) := by
  cases a with
  | top =>
    obtain rfl := hx.eq_infinite
    rw [top_add]
    cases hy <;> exact .infinite
  | coe m =>
    obtain ⟨s, hs, hu, rfl, hsigned⟩ := hx.eq_finite
    cases b with
    | top =>
      obtain rfl := hy.eq_infinite
      rw [add_top]
      exact .infinite
    | coe n =>
      obtain ⟨t, ht, hv, rfl, hsigned'⟩ := hy.eq_finite
      exact hasSize_add_finite hsigned hsigned'

/-- The product of finite doubles of at least zero is the exact product, rounded. -/
theorem HasSize.mul {x y : Binary64} {m n : Nat} (hx : x.HasSize m) (hy : y.HasSize n) :
    (x * y).HasSize (rounded (m * n) one) := by
  obtain ⟨s, hs, hu, rfl, hsigned⟩ := hx.eq_finite
  obtain ⟨t, ht, hv, rfl, hsigned'⟩ := hy.eq_finite
  show (nearest (s ^^ t) (m * n) one).HasSize _
  by_cases hzero : m * n = 0
  · rw [hzero, rounded_zero]
    exact hasSize_nearest_zero _ _
  · have hsign : ∀ {s : Bool} {n : Nat}, n ≠ 0 → signedUnits s n = n → s = false := by
      intro s n hn h
      cases s with
      | false => rfl
      | true =>
        have h : -(n : Int) = n := h
        omega
    rw [hsign (Nat.ne_zero_of_mul_ne_zero_left hzero) hsigned,
      hsign (Nat.ne_zero_of_mul_ne_zero_right hzero) hsigned']
    exact hasSize_nearest _ _

theorem hasSize_of_isNonNegative {x : Binary64}
    (h : (Quantity.float x).isNonNegative = true) : ∃ a, x.HasSize a := by
  cases x with
  | nan => cases h
  | infinite negative =>
    cases negative with
    | true => cases h
    | false => exact ⟨⊤, .infinite⟩
  | finite negative units short small =>
    cases negative with
    | false => exact ⟨units, .finite short small⟩
    | true =>
      have hzero : units = 0 := by
        simp only [Quantity.isNonNegative, Quantity.le, Quantity.point?, point?, Point.lt,
          signedUnits, if_true, Bool.not_eq_true', decide_eq_false_iff_not] at h
        omega
      subst hzero
      exact ⟨0, .negativeZero short small⟩

theorem le_of_hasSize {x y : Binary64} {a b : ℕ∞} (hx : x.HasSize a) (hy : y.HasSize b)
    (h : a ≤ b) : (Quantity.float x).le (.float y) = true := by
  cases b with
  | top =>
    obtain rfl := hy.eq_infinite
    cases hx <;> rfl
  | coe n =>
    cases a with
    | top => exact absurd h (by simp)
    | coe m =>
      obtain ⟨s, hs, hu, rfl, hsigned⟩ := hx.eq_finite
      obtain ⟨t, ht, hv, rfl, hsigned'⟩ := hy.eq_finite
      have hle : m ≤ n := by exact_mod_cast h
      simp only [Quantity.le, Quantity.point?, point?, Point.lt, hsigned, hsigned',
        Bool.not_eq_true', decide_eq_false_iff_not]
      omega

/-! ## The order of doubles of at least zero -/

/-- Both doubles are at least zero, and the first is at most the second. -/
def AtMost (x y : Binary64) : Prop := ∃ a b, x.HasSize a ∧ y.HasSize b ∧ a ≤ b

theorem HasSize.unique {x : Binary64} {a b : ℕ∞} (ha : x.HasSize a) (hb : x.HasSize b) : a = b := by
  cases ha <;> cases hb <;> rfl

theorem AtMost.trans {x y z : Binary64} (hxy : x.AtMost y) (hyz : y.AtMost z) : x.AtMost z := by
  obtain ⟨a, b, ha, hb, hab⟩ := hxy
  obtain ⟨b', c, hb', hc, hbc⟩ := hyz
  rw [← hb.unique hb'] at hbc
  exact ⟨a, c, ha, hc, hab.trans hbc⟩

theorem AtMost.right {x y : Binary64} (h : x.AtMost y) : y.AtMost y := by
  obtain ⟨_, b, _, hb, _⟩ := h
  exact ⟨b, b, hb, hb, le_refl b⟩

theorem atMost_zero : zero.AtMost zero :=
  ⟨0, 0, hasSize_signedZero false, hasSize_signedZero false, le_refl 0⟩

theorem AtMost.add {x x' y y' : Binary64} (hx : x.AtMost x') (hy : y.AtMost y') :
    (x + y).AtMost (x' + y') := by
  obtain ⟨a, a', ha, ha', hle⟩ := hx
  obtain ⟨b, b', hb, hb', hle'⟩ := hy
  exact ⟨_, _, ha.add hb, ha'.add hb', roundedSum_mono (add_le_add hle hle')⟩

/-- Adding a double of at least zero does not lower a double of at least zero. -/
theorem AtMost.add_right {x x' y y' : Binary64} (hx : x.AtMost x') (hy : y.AtMost y') :
    x.AtMost (x' + y') := by
  obtain ⟨a, a', ha, ha', hle⟩ := hx
  obtain ⟨_, b', _, hb', _⟩ := hy
  refine ⟨a, _, ha, ha'.add hb', ?_⟩
  rw [← ha.roundedSum_eq]
  exact roundedSum_mono (hle.trans le_self_add)

theorem AtMost.le {x y : Binary64} (h : x.AtMost y) :
    (Quantity.float x).le (.float y) = true := by
  obtain ⟨a, b, ha, hb, hab⟩ := h
  exact le_of_hasSize ha hb hab

end Binary64

end QueryAdmission
