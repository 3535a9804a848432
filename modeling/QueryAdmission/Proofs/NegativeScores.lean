import QueryAdmission.Proofs.Expansion
import QueryAdmission.Proofs.RaisedPrices

/-! # Scores below zero

A scorer is made without a look at its page cap and its page weight, so a page may take
something off a score. Whether one does shows at the smallest pages: no score is negative
exactly if pages of no entry and of one entry take nothing off. A cap and a weight of at
least zero are enough for this, if the weight is finite. -/

namespace QueryAdmission

/-! ## Doubles that are not negative -/

namespace Binary64

theorem add_comm (x y : Binary64) : x + y = y + x := by
  show add x y = add y x
  cases x with
  | nan => cases y <;> rfl
  | infinite s =>
    cases y with
    | infinite t => cases s <;> cases t <;> rfl
    | _ => rfl
  | finite s u hs hu =>
    cases y with
    | finite t v ht hv => simp only [add, Int.add_comm, Bool.and_comm]
    | _ => rfl

theorem zero_atMost_iff {x : Binary64} :
    zero.AtMost x ↔ (Quantity.float x).isNonNegative = true := by
  constructor
  · rintro ⟨_, _, _, hx, _⟩
    exact (Quantity.HasSize.double hx).isNonNegative
  · intro h
    obtain ⟨a, ha⟩ := hasSize_of_isNonNegative h
    exact ⟨0, a, hasSize_signedZero false, ha, zero_le⟩

theorem isNonNegative_of_zero_add {x : Binary64}
    (h : (Quantity.float (zero + x)).isNonNegative = true) :
    (Quantity.float x).isNonNegative = true := by
  by_cases hx : x = signedZero true
  · subst hx
    rfl
  · rwa [add_comm, add_zero hx] at h

theorem nonneg_of_ofInt? {n : Int} {x : Binary64} (hx : ofInt? n = some x)
    (h : (Quantity.float x).isNonNegative = true) : 0 ≤ n := by
  by_contra hneg
  obtain ⟨a, ha⟩ := hasSize_of_isNonNegative h
  obtain ⟨hx, s, u, hs, hu, rfl⟩ := ofInt?_eq_some hx
  unfold ofInt nearest at hx
  split at hx
  · obtain ⟨hsign, hunits⟩ := Binary64.finite.inj hx
    have hpos : 0 < roundUnits (n.natAbs * one) 1 :=
      roundUnits_pos (Nat.mul_pos (by omega) one_pos)
    cases ha with
    | finite =>
      simp only [decide_eq_false_iff_not] at hsign
      omega
    | negativeZero => omega
  · cases hx

/-- One times a finite double is that double. -/
theorem ofInt_one_mul (negative : Bool) {units : Nat} (short : Short units)
    (small : units < unitsLimit) :
    ofInt 1 * finite negative units short small = finite negative units short small := by
  have hone : ofInt 1 = finite false one ⟨1, 1074, by decide, rfl⟩ (by decide) := by
    decide +kernel
  have hround : roundUnits (one * units) one = units := by
    rw [Nat.mul_comm]
    have hcancel := roundUnits_mul_right units 1 one_pos
    rwa [Nat.one_mul, roundUnits_of_short short] at hcancel
  rw [hone]
  show nearest (false ^^ negative) (one * units) one = _
  simp only [nearest, hround, small, dite_true, Bool.false_xor]

end Binary64

/-! ## Weights that make no page negative -/

namespace Quantity

variable {p q r : Quantity}

theorem isNonNegative_of_accepted (hnan : q ≠ .float .nan) (h : q.isNegative = false) :
    q.isNonNegative = true := by
  cases q with
  | float x => exact isNonNegative_of_not_isNegative (fun hx => hnan (congrArg float hx)) h
  | int n =>
    rw [isNegative, int_lt_int, decide_eq_false_iff_not] at h
    rw [isNonNegative, int_le_int, decide_eq_true_eq]
    omega

theorem le_of_not_lt {n : Int} (hr : q.lt r = true) (h : q.lt (.int n) = false) :
    (int n).le q = true := by
  have hn : (int n).point? = some (.mid (n * Binary64.one)) := rfl
  unfold lt le at *
  cases hq : q.point? with
  | none => simp [hq] at hr
  | some point => simpa only [hq, hn, Bool.not_eq_true'] using h

theorem HasSize.atMost_self {a : ℕ∞} (h : q.HasSize a) : q.AtMost q := h.atMost h le_rfl

/-- A weight with which no product takes anything off a score: it is finite and at least zero,
or a whole number so far out that it cannot be added to a score at all. -/
inductive Harmless : Quantity → Prop
  | finite {q : Quantity} {m : ℕ} (h : q.HasSize m) : Harmless q
  | outOfRange {n : Int} (h : Binary64.ofInt? n = none) : Harmless (.int n)

theorem Harmless.mul_atMost {m : ℕ} (h : q.Harmless) (hp : p.HasSize m)
    (hr : p.mul? q = some r) : r.AtMost r := by
  cases h with
  | finite hq => exact hp.mul_atMost hq hr
  | @outOfRange n hnone =>
    cases hp with
    | whole j =>
      obtain rfl := Option.some.inj hr
      cases j with
      | zero =>
        rw [Int.natCast_zero, Int.zero_mul]
        exact (HasSize.whole 0).atMost_self
      | succ j =>
        have hfar : n.natAbs ≤ ((j + 1 : ℕ) * n : Int).natAbs := by
          rw [Int.natAbs_mul, Int.natAbs_natCast]
          exact Nat.le_mul_of_pos_left _ (Nat.succ_pos j)
        intro x _ hx
        obtain ⟨y, hy⟩ := Binary64.exists_ofInt?_of_le hfar hx
        rw [hnone] at hy
        cases hy
    | double hx =>
      rw [float_mul?, toBinary64?, hnone] at hr
      cases hr

/-- A weight that is harmless to pages of no entry and of one entry is harmless. -/
theorem harmless_of_products (hzero : ∀ r, (int 0).mul? q = some r → r.AtMost r)
    (hone : ∀ r, (int 1).mul? q = some r → r.AtMost r) : q.Harmless := by
  cases q with
  | int n =>
    cases hx : Binary64.ofInt? n with
    | none => exact .outOfRange hx
    | some x =>
      have hsize := hone (.int n) (by simp [mul?])
      obtain ⟨a, _, ha, _⟩ := hsize x x hx hx
      have hn := Binary64.nonneg_of_ofInt? hx (HasSize.double ha).isNonNegative
      obtain ⟨m, rfl⟩ := Int.eq_ofNat_of_zero_le hn
      exact .finite (.whole m)
  | float y =>
    have hproduct : ∀ {n : Int} {x : Binary64}, Binary64.ofInt? n = some x →
        (∀ r, (int n).mul? (.float y) = some r → r.AtMost r) → ∃ a, (x * y).HasSize a := by
      intro n x hx h
      have hself := h (.float (x * y)) (by rw [int_mul?_float, hx]; rfl)
      obtain ⟨a, _, ha, _⟩ := hself _ _ rfl rfl
      exact ⟨a, ha⟩
    obtain ⟨_, hsize⟩ := hproduct (x := .zero) (by decide) hzero
    obtain ⟨a, hself⟩ := hproduct (x := .ofInt 1) (by decide +kernel) hone
    cases y with
    | nan => cases hsize
    | infinite negative => cases hsize
    | finite negative units short small =>
      rw [Binary64.ofInt_one_mul] at hself
      obtain ⟨m, rfl⟩ := (HasSize.double hself).exists_nat (fun hinfinite => by cases hinfinite)
      exact .finite (.double hself)

end Quantity

theorem CostTable.make_standard : CostTable.make standardCosts standardFallback = .ok .standard :=
  eq_ok_of_toOption (by decide +kernel)

namespace Scorer

variable {s : Scorer}

/-- No set scores below zero, and no field has a surcharge below zero. -/
structure NeverNegative (s : Scorer) : Prop where
  score : ∀ fragments set level x, s.score fragments set level = .ok x →
    (Quantity.float x).isNonNegative = true
  surcharge : ∀ arguments x, s.surcharge arguments = .ok x →
    (Quantity.float x).isNonNegative = true

/-- A page of that size takes nothing off a score. -/
def PageCharges (s : Scorer) (limit : Int) : Prop :=
  ∀ price, s.pagePrice limit = .ok price → price.AtMost price

theorem ChargesUp.neverNegative (h : s.ChargesUp) : s.NeverNegative where
  score fragments set level x hx := by
    rw [score_eq_plainScore] at hx
    exact Binary64.zero_atMost_iff.mp (h.zero_atMost_plainScore level set x hx)
  surcharge arguments x hx := Binary64.zero_atMost_iff.mp (h.zero_atMost_surcharge hx)

/-! ## Pages -/

/-- The surcharge of a single page literal is its price. -/
theorem pageCharges_of_neverNegative (h : s.NeverNegative) (text : String) {limit : Int}
    (hread : WholeNumber.read text = .ok limit) : s.PageCharges limit := by
  intro price hprice x y hx hy
  obtain rfl : x = y := Option.some.inj (hx.symm.trans hy)
  have hcharge : s.surcharge [⟨s.pageArgument, .int text⟩] = .ok (.zero + x) := by
    simp [surcharge, addSurcharge, hread, hprice, addTo, Binary64.plus?, hx, bind, Except.bind,
      pure, Except.pure]
  have hx := Binary64.isNonNegative_of_zero_add (h.surcharge _ _ hcharge)
  exact (Binary64.zero_atMost_iff.mpr hx).right

theorem pageCharges_iff {limit : Int} :
    s.PageCharges limit ↔ ∀ price,
      ((Quantity.int (max limit 0)).min s.pageCap).mul? s.pageWeight = some price →
      price.AtMost price := by
  simp only [PageCharges, pagePrice_eq_ok_iff]

/-- Under a cap that is not negative, page sizes are finite. -/
theorem exists_hasSize_min {cap : Quantity} (hcap : cap.isNegative = false) {n : Int}
    (hn : 0 ≤ n) : ∃ m : ℕ, ((Quantity.int n).min cap).HasSize m := by
  obtain ⟨k, rfl⟩ := Int.eq_ofNat_of_zero_le hn
  unfold Quantity.min
  cases hlt : cap.lt (.int k) with
  | false => exact ⟨_, .whole k⟩
  | true =>
    obtain ⟨a, ha⟩ := Quantity.exists_hasSize (Quantity.le_of_not_lt hlt hcap)
    cases a with
    | coe m => exact ⟨m, ha⟩
    | top => exact absurd ((ha.lt_iff (.whole k)).mp hlt) not_top_lt

/-- If pages of no entry and of one entry take nothing off, no page does. -/
theorem pageCharges_of_smallest (hzero : s.PageCharges 0) (hone : s.PageCharges 1)
    (limit : Int) : s.PageCharges limit := by
  rw [pageCharges_iff] at *
  rcases (by omega : max limit 0 = 0 ∨ 1 ≤ max limit 0) with hnone | hsome
  · rwa [hnone]
  have hmin : ∀ n, (Quantity.int n).min s.pageCap =
      if s.pageCap.lt (.int n) then s.pageCap else .int n := fun _ => rfl
  have hle : (Quantity.int 1).le (.int (max limit 0)) = true := by
    rw [Quantity.int_le_int, decide_eq_true_eq]
    exact hsome
  cases hcap : s.pageCap.lt (.int 1) with
  | true =>
    -- a page of one entry costs as much as any larger one
    rw [hmin, Int.max_eq_left Int.one_nonneg, if_pos hcap] at hone
    rwa [hmin, if_pos (Quantity.lt_of_lt_of_le hcap hle)]
  | false =>
    have hnonneg : s.pageCap.isNegative = false := by
      rw [Bool.eq_false_iff]
      intro hneg
      rw [Quantity.lt_of_lt_of_le hneg (by decide)] at hcap
      cases hcap
    have hnegative : s.pageCap.lt (.int 0) = false := hnonneg
    rw [hmin, Int.max_self, hnegative, if_neg Bool.false_ne_true] at hzero
    rw [hmin, Int.max_eq_left Int.one_nonneg, hcap, if_neg Bool.false_ne_true] at hone
    obtain ⟨m, hm⟩ := exists_hasSize_min hnonneg (n := max limit 0) (by omega)
    exact fun price => (Quantity.harmless_of_products hzero hone).mul_atMost hm

/-- A cap and a finite weight of at least zero make no page negative. -/
theorem pageCharges_of_isNonNegative (hcap : s.pageCap.isNonNegative = true)
    (hweight : s.pageWeight.isNonNegative = true)
    (hfinite : s.pageWeight ≠ .float (.infinite false)) (limit : Int) : s.PageCharges limit := by
  rw [pageCharges_iff]
  obtain ⟨m, hm⟩ := exists_hasSize_min (Quantity.isNegative_of_isNonNegative hcap)
    (n := max limit 0) (by omega)
  obtain ⟨_, hsize⟩ := Quantity.exists_hasSize hweight
  obtain ⟨w, rfl⟩ := hsize.exists_nat hfinite
  exact fun price => hm.mul_atMost hsize

/-! ## Scorers that are made -/

section Made

variable {costs : List (String × Quantity)} {fallback pageCap pageWeight : Quantity}
  {table : CostTable} {cutoff : Int} {pageArgument : String}

/-- A scorer that is made charges nothing below zero if its pages do not: costs are checked. -/
theorem chargesUp_of_made (htable : CostTable.make costs fallback = .ok table)
    (hmake : Scorer.make table cutoff pageArgument pageCap pageWeight = .ok s)
    (hcosts : ∀ entry ∈ costs, entry.2 ≠ .float .nan) (hfallback : fallback ≠ .float .nan)
    (hpages : ∀ limit, s.PageCharges limit) : s.ChargesUp where
  cost name := by
    obtain ⟨rfl, hfallbackSign, hsigns⟩ := CostTable.make_eq_ok htable
    obtain ⟨_, rfl⟩ := Scorer.make_eq_ok hmake
    have hcost := CostTable.isNonNegative_costOf (t := ⟨costs, fallback⟩)
      (fun entry hentry => Quantity.isNonNegative_of_accepted (hcosts entry hentry)
        (hsigns entry hentry))
      (Quantity.isNonNegative_of_accepted hfallback hfallbackSign) name
    obtain ⟨_, hsize⟩ := Quantity.exists_hasSize hcost
    exact hsize.atMost_self
  page := hpages

/-- A scorer that is made, without NaN among its costs, never goes below zero exactly if its two
smallest pages take nothing off. With a cap and a finite weight of at least zero they do not,
but the constructor asks for neither. -/
theorem neverNegative_iff (htable : CostTable.make costs fallback = .ok table)
    (hmake : Scorer.make table cutoff pageArgument pageCap pageWeight = .ok s)
    (hcosts : ∀ entry ∈ costs, entry.2 ≠ .float .nan) (hfallback : fallback ≠ .float .nan) :
    (s.NeverNegative ↔ s.PageCharges 0 ∧ s.PageCharges 1) ∧
      (pageCap.isNonNegative = true → pageWeight.isNonNegative = true →
        pageWeight ≠ .float (.infinite false) → s.NeverNegative) := by
  have hnever : (∀ limit, s.PageCharges limit) → s.NeverNegative := fun hpages =>
    (chargesUp_of_made htable hmake hcosts hfallback hpages).neverNegative
  refine ⟨⟨?_, ?_⟩, ?_⟩
  · intro h
    exact ⟨pageCharges_of_neverNegative h "0" (by decide),
      pageCharges_of_neverNegative h "1" (by decide)⟩
  · rintro ⟨hzero, hone⟩
    exact hnever (pageCharges_of_smallest hzero hone)
  · intro hcap hweight hfinite
    obtain ⟨_, rfl⟩ := Scorer.make_eq_ok hmake
    exact hnever (pageCharges_of_isNonNegative hcap hweight hfinite)

end Made

/-- The parts of the standard scorer are accepted, and its scores are never negative. -/
theorem neverNegative_iff_standard :
    CostTable.make CostTable.standardCosts CostTable.standardFallback = .ok .standard ∧
      Scorer.make .standard standardCutoff standardPageArgument standardPageCap
        standardPageWeight = .ok standard ∧
      (∀ entry ∈ CostTable.standardCosts, entry.2 ≠ .float .nan) ∧
      CostTable.standardFallback ≠ .float .nan ∧
      standardPageCap.isNonNegative = true ∧ standardPageWeight.isNonNegative = true ∧
      standardPageWeight ≠ .float (.infinite false) ∧ standard.NeverNegative := by
  have htable : CostTable.make CostTable.standardCosts CostTable.standardFallback =
      .ok .standard := CostTable.make_standard
  have hmake : Scorer.make .standard standardCutoff standardPageArgument standardPageCap
      standardPageWeight = .ok standard := rfl
  have hcosts : ∀ entry ∈ CostTable.standardCosts, entry.2 ≠ .float .nan := by decide
  have hfallback : CostTable.standardFallback ≠ .float .nan := nofun
  have hcap : standardPageCap.isNonNegative = true := by decide
  have hweight : standardPageWeight.isNonNegative = true := by decide +kernel
  have hfinite : standardPageWeight ≠ .float (.infinite false) := by decide +kernel
  exact ⟨htable, hmake, hcosts, hfallback, hcap, hweight, hfinite,
    (neverNegative_iff htable hmake hcosts hfallback).2 hcap hweight hfinite⟩

/-- The standard scorer, but that each entry of a page takes off one. -/
def discounting : Scorer := { standard with pageWeight := .float (.ofInt (-1)) }

/-- The constructors accept the parts of a scorer that takes off one for each entry of a page:
five users score four below zero, and their surcharge is five below zero. -/
theorem score_negative_fiveUsers :
    CostTable.make CostTable.standardCosts CostTable.standardFallback = .ok .standard ∧
      Scorer.make .standard standardCutoff standardPageArgument standardPageCap
        (.float (.ofInt (-1))) = .ok discounting ∧
      (∀ entry ∈ CostTable.standardCosts, entry.2 ≠ .float .nan) ∧
      CostTable.standardFallback ≠ .float .nan ∧
      standardPageCap ≠ .float .nan ∧ Quantity.float (.ofInt (-1)) ≠ .float .nan ∧
      discounting.score none (some [pageOf "5"]) 0 = .ok (.ofInt (-4)) ∧
      discounting.surcharge [⟨standardPageArgument, .int "5"⟩] = .ok (.ofInt (-5)) ∧
      (Quantity.float (.ofInt (-4))).isNonNegative = false ∧
      (Quantity.float (.ofInt (-5))).isNonNegative = false :=
  ⟨CostTable.make_standard, rfl, by decide +kernel, nofun, nofun, by decide +kernel,
    eq_ok_of_toOption (by decide +kernel), eq_ok_of_toOption (by decide +kernel),
    by decide +kernel, by decide +kernel⟩

end Scorer

end QueryAdmission
