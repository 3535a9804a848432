import QueryAdmission.Proofs.Construction
import QueryAdmission.Proofs.Rounding

/-! # Prices of at least zero

A price counts in a score as the double it converts to, so prices are compared by their
doubles. A scorer is `NoDearer` than another if it looks no deeper and charges no more for
any field and any page. The scorers that settings describe charge nothing below zero, and
larger pages are no cheaper, unless a cost is NaN. -/

namespace QueryAdmission

namespace Quantity

/-- The doubles that the quantities convert to are at least zero and in this order. -/
def AtMost (p q : Quantity) : Prop :=
  ∀ x y, p.toBinary64? = some x → q.toBinary64? = some y → x.AtMost y

theorem float_atMost {x y : Binary64} (h : x.AtMost y) : (float x).AtMost (float y) := by
  intro x' y' hx hy
  cases hx
  cases hy
  exact h

theorem exists_point? {x : Binary64} (hnan : x ≠ .nan) : ∃ p, x.point? = some p := by
  cases x with
  | nan => exact absurd rfl hnan
  | infinite negative => cases negative <;> exact ⟨_, rfl⟩
  | finite negative units short small => exact ⟨_, rfl⟩

theorem isNonNegative_of_not_isNegative {x : Binary64} (hnan : x ≠ .nan)
    (h : (float x).isNegative = false) : (float x).isNonNegative = true := by
  obtain ⟨p, hp⟩ := exists_point? hnan
  simp only [isNegative, isNonNegative, lt, le, point?, hp] at h ⊢
  rw [h]
  rfl

theorem float_atMost_self {x : Binary64} (h : (float x).isNonNegative = true) :
    (float x).AtMost (float x) := by
  obtain ⟨a, ha⟩ := Binary64.hasSize_of_isNonNegative h
  exact float_atMost ⟨a, a, ha, ha, le_refl a⟩

theorem int_mul?_float (n : Int) (x : Binary64) :
    (int n).mul? (float x) = (Binary64.ofInt? n).map fun y => float (y * x) := by
  simp only [mul?, toBinary64?]
  cases Binary64.ofInt? n with
  | none => rfl
  | some y => simp only [bind, Option.bind_some, pure, Option.map_some]

end Quantity

namespace Binary64

theorem ofInt?_eq_some {n : Int} {x : Binary64} (h : ofInt? n = some x) :
    ofInt n = x ∧ ∃ s u hs hu, x = .finite s u hs hu := by
  -- unfolded as a function: at `n`, checking the match would run the rounding
  generalize hf : ofInt? = f at h
  delta ofInt? at hf
  subst hf
  beta_reduce at h
  generalize ofInt n = y at h ⊢
  cases y with
  | nan => cases h
  | infinite => cases h
  | finite s u hs hu =>
    obtain rfl := Option.some.inj h
    exact ⟨rfl, s, u, hs, hu, rfl⟩

theorem ofInt?_of_finite {n : Int} {negative : Bool} {units : Nat} {short : Short units}
    {small : units < unitsLimit} (h : ofInt n = .finite negative units short small) :
    ofInt? n = some (.finite negative units short small) := by
  -- unfolded as a function: at `n`, checking the match would run the rounding
  generalize hf : ofInt? = f
  delta ofInt? at hf
  subst hf
  beta_reduce
  rw [h]

/-- A whole number converts to a double if it fits the format once rounded. -/
theorem exists_ofInt?_iff {n : Int} :
    (∃ x, ofInt? n = some x) ↔ roundUnits (n.natAbs * one) 1 < unitsLimit := by
  constructor
  · rintro ⟨x, hx⟩
    obtain ⟨hx, s, u, hs, hu, rfl⟩ := ofInt?_eq_some hx
    unfold ofInt nearest at hx
    split at hx
    · assumption
    · cases hx
  · intro h
    have hx : ofInt n = .finite (n < 0) _ (short_roundUnits _ _) h := by
      unfold ofInt nearest
      rw [dif_pos h]
    exact ⟨_, ofInt?_of_finite hx⟩

/-- Whole numbers convert to doubles if one further out does. -/
theorem exists_ofInt?_of_le {m n : Int} (hmn : m.natAbs ≤ n.natAbs) {y : Binary64}
    (h : ofInt? n = some y) : ∃ x, ofInt? m = some x := by
  have hsmall := exists_ofInt?_iff.mp ⟨y, h⟩
  have hle := roundUnits_mono (Nat.mul_le_mul_right one hmn) 1
  exact exists_ofInt?_iff.mpr (hle.trans_lt hsmall)

theorem hasSize_ofInt (n : Nat) : (ofInt n).HasSize (rounded (n * one) 1) := by
  have hsign : decide ((n : Int) < 0) = false :=
    decide_eq_false (Int.not_lt.mpr (Int.natCast_nonneg n))
  unfold ofInt
  rw [hsign, Int.natAbs_natCast]
  exact hasSize_nearest _ _

/-- A whole number of at least zero converts to its units, rounded, if these fit. -/
theorem hasSize_of_ofInt? {n : Nat} {x : Binary64} (h : ofInt? n = some x) :
    ∃ units : Nat, x.HasSize units ∧ rounded (n * one) 1 = units := by
  have hsize := hasSize_ofInt n
  obtain ⟨hx, s, u, hs, hu, rfl⟩ := ofInt?_eq_some h
  rw [hx] at hsize
  cases hunits : rounded (n * one) 1 with
  | top =>
    rw [hunits] at hsize
    cases hsize.eq_infinite
  | coe units =>
    rw [hunits] at hsize
    exact ⟨units, hsize, rfl⟩

end Binary64

namespace Scorer

variable {s t : Scorer}

/-- What `s` scores, `t` scores too, at no lower price; and no price is below zero. -/
structure NoDearer (s t : Scorer) : Prop where
  cutoff : s.cutoff ≤ t.cutoff
  pageArgument : s.pageArgument = t.pageArgument
  cost : ∀ name, (s.table.costOf name).AtMost (t.table.costOf name)
  page : ∀ m n p q, m ≤ n → s.pagePrice m = .ok p → t.pagePrice n = .ok q → p.AtMost q

/-! ## Pages -/

/-- The price of a page is the page size within the cap, as a double, times the weight. -/
theorem pagePrice_eq_ok {cap : Nat} {weight : Binary64} (hcap : s.pageCap = .int cap)
    (hweight : s.pageWeight = .float weight) {limit : Int} {price : Quantity}
    (h : s.pagePrice limit = .ok price) :
    ∃ x, Binary64.ofInt? (min limit.toNat cap : Nat) = some x ∧ price = .float (x * weight) := by
  have hsize : min (max limit 0) (cap : Int) = (min limit.toNat cap : Nat) := by omega
  unfold pagePrice at h
  rw [hcap, hweight, Quantity.min_int, hsize, Quantity.int_mul?_float] at h
  cases hx : Binary64.ofInt? (min limit.toNat cap : Nat) with
  | none =>
    simp only [hx, Option.map_none, reduceCtorEq] at h
  | some x =>
    simp only [hx, Option.map_some, Except.ok.injEq] at h
    exact ⟨x, rfl, h.symm⟩

/-- Under one cap and one finite weight of at least zero, larger pages are no cheaper. -/
theorem pagePrice_mono {cap units : Nat} {weight : Binary64} (hcap : s.pageCap = .int cap)
    (hweight : s.pageWeight = .float weight) (hsize : weight.HasSize units) {m n : Int}
    (hmn : m ≤ n) {p q : Quantity} (hp : s.pagePrice m = .ok p) (hq : s.pagePrice n = .ok q) :
    p.AtMost q := by
  obtain ⟨x, hx, rfl⟩ := pagePrice_eq_ok hcap hweight hp
  obtain ⟨y, hy, rfl⟩ := pagePrice_eq_ok hcap hweight hq
  obtain ⟨a, ha, hsizea⟩ := Binary64.hasSize_of_ofInt? hx
  obtain ⟨b, hb, hsizeb⟩ := Binary64.hasSize_of_ofInt? hy
  have hle : min m.toNat cap ≤ min n.toNat cap := by omega
  have hab : a ≤ b := by
    have := Binary64.rounded_mono (Nat.mul_le_mul_right Binary64.one hle) 1
    rw [hsizea, hsizeb] at this
    exact_mod_cast this
  exact Quantity.float_atMost ⟨_, _, ha.mul hsize, hb.mul hsize,
    Binary64.rounded_mono (Nat.mul_le_mul_right units hab) Binary64.one⟩

/-- The usual weight, one half, is a finite double of at least zero. -/
theorem hasSize_standardPageWeight :
    ∃ weight, ∃ units : Nat, standardPageWeight = .float weight ∧ weight.HasSize units := by
  have hsmall : roundUnits Binary64.one 2 < unitsLimit := by decide +kernel
  refine ⟨_, roundUnits Binary64.one 2, rfl, ?_⟩
  have hsize := Binary64.hasSize_nearest Binary64.one 2
  rw [Binary64.rounded, if_pos hsmall] at hsize
  exact hsize

end Scorer

/-! ## Settings -/

/-- The price of a name is a listed one or the fallback. -/
theorem CostTable.costOf_cases (table : CostTable) (name : String) :
    (∃ entry ∈ table.costs, table.costOf name = entry.2) ∨
      table.costOf name = table.fallback := by
  unfold CostTable.costOf
  cases hfound : table.costs.lookup name with
  | none => exact .inr rfl
  | some cost =>
    obtain ⟨before, after, hcosts, _⟩ := List.lookup_eq_some_iff.mp hfound
    exact .inl ⟨(name, cost), by rw [hcosts]; simp, rfl⟩

namespace Settings

variable {settings : Settings} {scorer : Scorer}

/-- Without NaN among the costs, settings price no field below zero. -/
theorem costOf_atMost_self {table : CostTable} (h : settings.costTable = .ok table)
    (hnan : ∀ entry ∈ settings.fieldCosts, entry.2 ≠ .nan) (name : String) :
    (table.costOf name).AtMost (table.costOf name) := by
  obtain ⟨rfl, _, hcosts⟩ := CostTable.make_eq_ok h
  rcases CostTable.costOf_cases ⟨_, _⟩ name with ⟨entry, hentry, hcost⟩ | hcost
  · obtain ⟨listed, hlisted, rfl⟩ := List.mem_map.mp hentry
    rw [hcost]
    exact Quantity.float_atMost_self (Quantity.isNonNegative_of_not_isNegative
      (hnan listed hlisted) (hcosts _ hentry))
  · rw [hcost]
    exact Quantity.float_atMost_self settings.defaultFieldCost.property

/-- Without NaN among the costs, the scorer that settings describe has no price below zero,
and a larger page costs no less. -/
theorem noDearer_self (h : settings.scorer = .ok scorer)
    (hnan : ∀ entry ∈ settings.fieldCosts, entry.2 ≠ .nan) : scorer.NoDearer scorer := by
  obtain ⟨table, htable, rfl⟩ := scorer_eq_ok h
  obtain ⟨weight, units, hweight, hsize⟩ := Scorer.hasSize_standardPageWeight
  exact {
    cutoff := Nat.le_refl _
    pageArgument := rfl
    cost := costOf_atMost_self htable hnan
    page := fun _ _ _ _ hmn hp hq =>
      Scorer.pagePrice_mono rfl hweight hsize hmn hp hq }

end Settings

end QueryAdmission
