import QueryAdmission.Number.Quantity

/-! # How quantities compare

Whole numbers compare as whole numbers do, and a limit that is exceeded is exceeded by
all that is no less. -/

namespace QueryAdmission

theorem Binary64.one_pos : 0 < Binary64.one := by
  rw [Binary64.one, Nat.one_shiftLeft]
  exact Nat.two_pow_pos 1074

theorem Point.lt_of_lt_of_not_lt {p q r : Point} (h : p.lt q = true) (h' : r.lt q = false) :
    p.lt r = true := by
  cases p <;> cases q <;> cases r <;>
    simp only [Point.lt, decide_eq_true_eq, decide_eq_false_iff_not, Bool.false_eq_true,
      Bool.true_eq_false] at h h' ⊢
  omega

theorem Point.lt_of_not_lt_of_lt {p q r : Point} (h : q.lt p = false) (h' : q.lt r = true) :
    p.lt r = true := by
  cases p <;> cases q <;> cases r <;>
    simp only [Point.lt, decide_eq_true_eq, decide_eq_false_iff_not, Bool.false_eq_true,
      Bool.true_eq_false] at h h' ⊢
  omega

namespace Quantity

theorem point?_eq_none {a : Quantity} : a.point? = none ↔ a = .float .nan := by
  cases a with
  | int n => simp [point?]
  | float x =>
    cases x with
    | infinite negative => cases negative <;> simp [point?, Binary64.point?]
    | _ => simp [point?, Binary64.point?]

theorem lt_of_lt_of_le {a b c : Quantity} (h : a.lt b = true) (h' : b.le c = true) :
    a.lt c = true := by
  unfold lt le at *
  cases ha : a.point? with
  | none => simp only [ha, Bool.false_eq_true] at h
  | some p =>
    cases hb : b.point? with
    | none => simp only [ha, hb, Bool.false_eq_true] at h
    | some q =>
      cases hc : c.point? with
      | none => simp only [hb, hc, Bool.false_eq_true] at h'
      | some r =>
        simp only [ha, hb, hc, Bool.not_eq_true'] at h h' ⊢
        exact Point.lt_of_lt_of_not_lt h h'

theorem lt_of_le_of_lt {a b c : Quantity} (h : a.le b = true) (h' : b.lt c = true) :
    a.lt c = true := by
  unfold lt le at *
  cases ha : a.point? with
  | none => simp [ha] at h
  | some p =>
    cases hb : b.point? with
    | none => simp [hb] at h'
    | some q =>
      cases hc : c.point? with
      | none => simp [hb, hc] at h'
      | some r =>
        simp only [ha, hb, hc, Bool.not_eq_true'] at h h' ⊢
        exact Point.lt_of_not_lt_of_lt h h'

theorem isNegative_of_isNonNegative {a : Quantity} (h : a.isNonNegative = true) :
    a.isNegative = false := by
  unfold isNonNegative isNegative lt le at *
  have hzero : (int 0).point? = some (.mid (0 * Binary64.one)) := rfl
  cases ha : a.point? with
  | none => rfl
  | some p => simpa [hzero, ha] using h

theorem int_lt_int (m n : Int) : (int m).lt (int n) = decide (m < n) := by
  have hone : (0 : Int) < Binary64.one := by exact_mod_cast Binary64.one_pos
  simp only [lt, point?, Point.lt, decide_eq_decide]
  exact Int.mul_lt_mul_right hone

theorem int_le_int (m n : Int) : (int m).le (int n) = decide (m ≤ n) := by
  have h : (int m).le (int n) = !(int n).lt (int m) := rfl
  rw [h, int_lt_int, ← decide_not, decide_eq_decide]
  omega

theorem max_int (m n : Int) : (int m).max (int n) = int (Max.max m n) := by
  simp only [max, int_lt_int, decide_eq_true_eq]
  split <;> congr 1 <;> omega

theorem min_int (m n : Int) : (int m).min (int n) = int (Min.min m n) := by
  simp only [min, int_lt_int, decide_eq_true_eq]
  split <;> congr 1 <;> omega

end Quantity

end QueryAdmission
