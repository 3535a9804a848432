import Mathlib.Tactic.FieldSimp
import Mathlib.Tactic.Linarith
import QueryAdmission.Proofs.Expansion
import QueryAdmission.Proofs.RaisedPrices

/-! # Scores that are exact sums

If every cost is a multiple of one half, and an entry of a page costs one half under the usual
cap, then a score is the exact sum over the fields of the expansion, as long as this sum is at
most `2^52`: halves up to there are doubles, so no sum on the way is rounded. The order of
siblings, which is the order of the additions, then makes no difference. -/

namespace QueryAdmission

/-! ## Exact values -/

/-- The number that a double is, unless it is NaN or an infinity. -/
def Binary64.value? : Binary64 → Option ℚ
  | .finite negative units _ _ => some (signedUnits negative units / one)
  | _ => none

/-- The number that a quantity is, unless it is NaN or an infinity. -/
def Quantity.value? : Quantity → Option ℚ
  | .int n => some n
  | .float x => x.value?

namespace Binary64

/-- Units in one half. -/
def half : ℕ := 1 <<< 1073

theorem half_pos : 0 < half := by
  rw [half, Nat.one_shiftLeft]
  exact Nat.two_pow_pos 1073

theorem one_eq_halves : one = 2 * half := Nat.shiftLeft_succ 1 1073

theorem roundedSum_coe (n : ℕ) : roundedSum n = rounded n 1 := rfl

/-- Halves up to `2^52` are not rounded. -/
theorem rounded_halves {k : ℕ} (hk : k ≤ 2 ^ 53) : rounded (k * half) 1 = (k * half : ℕ) := by
  obtain ⟨e, he, hhalf⟩ : ∃ e, e ≤ 1074 ∧ half = 1 <<< e := ⟨1073, Nat.le_succ 1073, rfl⟩
  rw [hhalf, Nat.one_shiftLeft]
  exact rounded_of_le hk he

/-- A double that is so many halves, and no negative zero. -/
structure Holds (x : Binary64) (halves : ℕ) : Prop where
  size : x.HasSize (halves * half : ℕ)
  ne_negativeZero : x ≠ signedZero true

variable {x y : Binary64} {j k : ℕ}

theorem value?_finite (negative : Bool) {units : ℕ} (short : Short units)
    (small : units < unitsLimit) :
    (finite negative units short small).value? = some (signedUnits negative units / one : ℚ) := rfl

theorem holds_zero : zero.Holds 0 := by
  refine ⟨?_, zero_ne_negativeZero⟩
  rw [Nat.zero_mul]
  exact hasSize_signedZero false

theorem HasSize.add_exact {u v : ℕ} (hx : x.HasSize u) (hy : y.HasSize v)
    (h : rounded (u + v) 1 = (u + v : ℕ)) : (x + y).HasSize (u + v : ℕ) := by
  have hsum := hx.add hy
  rwa [← Nat.cast_add, roundedSum_coe, h] at hsum

/-- Sums up to `2^52` are exact. -/
theorem Holds.add (hx : x.Holds j) (hy : y.HasSize (k * half : ℕ)) (hle : j + k ≤ 2 ^ 53) :
    (x + y).Holds (j + k) := by
  have hexact := rounded_halves hle
  rw [Nat.add_mul] at hexact
  have hsum := hx.size.add_exact hy hexact
  rw [← Nat.add_mul] at hsum
  exact ⟨hsum, add_ne_negativeZero hx.ne_negativeZero y⟩

theorem HasSize.eq_of_ne_negativeZero {n : ℕ} (hx : x.HasSize n) (hy : y.HasSize n)
    (hx0 : x ≠ signedZero true) (hy0 : y ≠ signedZero true) : x = y := by
  have hsign : ∀ {z : Binary64}, z.HasSize n → z ≠ signedZero true →
      ∃ short small, z = .finite false n short small := by
    intro z hz hz0
    obtain ⟨s, short, small, rfl, hsigned⟩ := hz.eq_finite
    cases s with
    | false => exact ⟨short, small, rfl⟩
    | true =>
      have hsigned : -(n : Int) = n := hsigned
      obtain rfl : n = 0 := by omega
      exact absurd rfl hz0
  obtain ⟨_, _, rfl⟩ := hsign hx hx0
  obtain ⟨_, _, rfl⟩ := hsign hy hy0
  rfl

theorem Holds.unique (hx : x.Holds k) (hy : y.Holds k) : x = y :=
  hx.size.eq_of_ne_negativeZero hy.size hx.ne_negativeZero hy.ne_negativeZero

theorem Holds.value? (hx : x.Holds k) : x.value? = some (k / 2 : ℚ) := by
  obtain ⟨s, short, small, rfl, hsigned⟩ := hx.size.eq_finite
  have hhalf : (half : ℚ) ≠ 0 := by exact_mod_cast half_pos.ne'
  rw [value?_finite, hsigned, one_eq_halves]
  push_cast
  rw [mul_div_mul_right _ _ hhalf]

theorem hasSize_of_value? (h : x.value? = some (k / 2 : ℚ)) : x.HasSize (k * half : ℕ) := by
  cases x with
  | nan => cases h
  | infinite => cases h
  | finite s u hs hu =>
    have hunits : (signedUnits s u : ℚ) = (k * half : ℕ) := by
      have hhalf : (half : ℚ) ≠ 0 := by exact_mod_cast half_pos.ne'
      have hvalue : (signedUnits s u / one : ℚ) = k / 2 := Option.some.inj h
      rw [one_eq_halves] at hvalue
      push_cast at hvalue ⊢
      field_simp at hvalue
      linarith
    have hunits : signedUnits s u = (k * half : ℕ) := by exact_mod_cast hunits
    cases s with
    | false =>
      obtain rfl : u = k * half := Int.natCast_inj.mp hunits
      exact .finite hs _
    | true =>
      have hsigned : -(u : Int) = (k * half : ℕ) := hunits
      obtain rfl : u = 0 := by omega
      have hzero : k * half = 0 := by omega
      rw [hzero]
      exact .negativeZero hs hu

end Binary64

/-- A quantity of halves up to `2^52` converts exactly. -/
theorem Quantity.exists_halves {q : Quantity} {k : ℕ} (h : q.value? = some (k / 2 : ℚ))
    (hk : k ≤ 2 ^ 53) : ∃ y, q.toBinary64? = some y ∧ y.HasSize (k * Binary64.half : ℕ) := by
  cases q with
  | float y => exact ⟨y, rfl, Binary64.hasSize_of_value? h⟩
  | int n =>
    have hn : (n : ℚ) = k / 2 := Option.some.inj h
    have hdouble : 2 * n = k := by
      have : (2 * n : ℚ) = k := by linarith
      exact_mod_cast this
    obtain ⟨m, rfl⟩ := Int.eq_ofNat_of_zero_le (show 0 ≤ n by omega)
    obtain rfl : k = m * 2 := by omega
    obtain ⟨y, hy, hsize⟩ := Binary64.exists_ofInt? (n := m) (by omega)
    rw [Binary64.one_eq_halves, ← Nat.mul_assoc] at hsize
    exact ⟨y, hy, hsize⟩

/-! ## Fields of an expansion -/

/-- The fields of an expansion with their arguments, each as often as it occurs. -/
def Expansion.fields : Expansion → List (String × List Argument)
  | .done => []
  | .field name arguments inner rest => (name, arguments) :: (inner.fields ++ rest.fields)
  | .other inner rest => inner.fields ++ rest.fields

/-- The selection itself, if it is a field. -/
def Selection.asField : Selection → List (String × List Argument)
  | .field _ name arguments _ _ => [(name, arguments)]
  | _ => []

theorem Expansion.fields_cons (selection : Selection) (inner rest : Expansion) :
    (Expansion.cons selection inner rest).fields =
      selection.asField ++ inner.fields ++ rest.fields := by
  cases selection <;> simp [Expansion.cons, Expansion.fields, Selection.asField]

namespace Scorer

variable {s : Scorer} {fragments fragments' : Option (List Fragment)}

theorem fields_expansion (levels : ℕ) (selections : List Selection) :
    (expansion fragments (levels + 1) (some selections)).fields = selections.flatMap fun x =>
      x.asField ++ (expansion fragments levels (entered fragments x)).fields := by
  induction selections with
  | nil => rfl
  | cons x rest ih =>
    have hcons : expansion fragments (levels + 1) (some (x :: rest)) =
        .cons x (expansion fragments levels (entered fragments x))
          (expansion fragments (levels + 1) (some rest)) := rfl
    rw [hcons, Expansion.fields_cons, ih, List.flatMap_cons]

/-- At selections that are kept but for the order below them, sets in this relation are entered. -/
theorem entered_reordered (hfragments : FragmentsMatch SetReordered fragments fragments')
    {x y : Selection} (h : x.Keeps SelectionsReordered y) :
    SetReordered (entered fragments x) (entered fragments' y) := by
  cases h with
  | field h => exact h
  | inline h => exact h
  | other => exact .none
  | @spread name _ _ _ h =>
    cases h with
    | some h => exact .some h
    | none =>
      have hname := hfragments name
      simp only [entered, resolve?]
      generalize fragments.bind (Fragment.find? · name) = f at hname ⊢
      generalize fragments'.bind (Fragment.find? · name) = f' at hname ⊢
      cases hname with
      | none => exact .none
      | some h => exact h

/-- Reordering siblings anywhere reorders the fields of the expansion. -/
theorem fields_perm (hfragments : FragmentsMatch SetReordered fragments fragments')
    (levels : ℕ) : ∀ set set', SetReordered set set' →
      (expansion fragments levels set).fields.Perm (expansion fragments' levels set').fields := by
  induction levels with
  | zero => exact fun _ _ _ => .refl _
  | succ levels ih =>
    intro set set' h
    cases h with
    | none => exact .refl _
    | some h =>
      obtain ⟨keeps, order⟩ := h
      rw [fields_expansion, fields_expansion]
      refine .trans ?_ (order.flatMap_right _)
      clear order
      induction keeps with
      | nil => exact .refl _
      | @cons x z _ _ hxz _ ihrest =>
        have hfield : x.asField = z.asField := by cases hxz <;> rfl
        rw [List.flatMap_cons, List.flatMap_cons, hfield]
        exact ((ih _ _ (entered_reordered hfragments hxz)).append_left _).append ihrest

/-! ## Exact scores -/

/-- How many entries of a page an argument is charged for: as many as its whole-number literal
asks for, but none below zero and none beyond fifty. -/
def entries (s : Scorer) (argument : Argument) : ℕ :=
  if argument.name = s.pageArgument then
    match argument.value with
    | .int text => min ((WholeNumber.value? text).getD 0).toNat 50
    | _ => 0
  else 0

/-- What a field costs, exactly: its cost and one half for each entry of its pages. -/
def exactShare (s : Scorer) (field : String × List Argument) : ℚ :=
  (s.table.costOf field.1).value?.getD 0 + ((field.2.map s.entries).sum : ℕ) / 2

/-- The fields that count, each as often as it occurs: those of the expansion of a set that lies
at `level`, down to the cutoff. -/
def occurrences (s : Scorer) (fragments : Option (List Fragment)) (set : SelectionSet)
    (level : Int) : List (String × List Argument) :=
  (expansion fragments (s.room level) set).fields

/-- A field occurs with these arguments exactly if it is counted with them. -/
theorem mem_occurrences_iff {name : String} {arguments : List Argument} (level : Int) :
    ∀ set, (name, arguments) ∈ s.occurrences fragments set level ↔
      s.Counts fragments name arguments set level := by
  unfold occurrences
  induction level using s.level_induction with
  | below level h =>
    intro set
    rw [room_of_lt h]
    exact ⟨nofun, fun hcounts => absurd hcounts.level_le (by omega)⟩
  | within level h ih =>
    rw [room_of_le h]
    intro set
    cases set with
    | none => exact ⟨nofun, nofun⟩
    | some selections =>
      rw [fields_expansion, List.mem_flatMap]
      constructor
      · rintro ⟨x, hx, hmem⟩
        rcases List.mem_append.mp hmem with hown | hinside
        · cases x with
          | field label name' arguments' directives body =>
            obtain ⟨rfl, rfl⟩ := Prod.mk.inj (List.mem_singleton.mp hown)
            exact .here h hx
          | _ => cases hown
        · exact .inside h hx ((ih _).mp hinside)
      · intro hcounts
        cases hcounts with
        | here _ hx => exact ⟨_, hx, List.mem_append_left _ (List.mem_singleton.mpr rfl)⟩
        | inside _ hx hinside => exact ⟨_, hx, List.mem_append_right _ ((ih _).mpr hinside)⟩

/-- The sum of what all fields that count cost. -/
def exactScore (s : Scorer) (fragments : Option (List Fragment)) (set : SelectionSet)
    (level : Int) : ℚ :=
  ((s.occurrences fragments set level).map s.exactShare).sum

/-- Every cost is a number of halves, and pages have the usual cap and the usual weight. -/
structure PricesHalves (s : Scorer) : Prop where
  cost : ∀ name, ∃ k : ℕ, (s.table.costOf name).value? = some (k / 2 : ℚ)
  cap : s.pageCap = standardPageCap
  weight : s.pageWeight = standardPageWeight

/-- If the argument is a page literal, it is read. -/
def Readable (s : Scorer) (argument : Argument) : Prop :=
  ∀ text, argument = ⟨s.pageArgument, .int text⟩ → ∃ limit, WholeNumber.read text = .ok limit

theorem entries_page {text : String} {limit : Int} (hread : WholeNumber.read text = .ok limit) :
    s.entries ⟨s.pageArgument, .int text⟩ = min limit.toNat 50 := by
  simp only [entries, if_true, WholeNumber.value?_of_read hread, Option.getD_some]

theorem entries_of_ne {argument : Argument}
    (h : argument.name = s.pageArgument → ∀ text, argument.value ≠ .int text) :
    s.entries argument = 0 := by
  unfold entries
  split
  · rename_i hname
    split
    · rename_i text hvalue
      exact absurd hvalue (h hname text)
    · rfl
  · rfl

theorem hasSize_half {weight : Binary64} (h : standardPageWeight = .float weight) :
    weight.HasSize Binary64.half := by
  have hround : Binary64.rounded Binary64.one 2 = (1 * Binary64.half : ℕ) := by
    rw [← Binary64.rounded_halves (k := 1) (by decide), Nat.one_mul, Binary64.one_eq_halves,
      Nat.mul_comm, ← Binary64.rounded_mul_right Binary64.half 1 (k := 2) (by decide)]
  rw [← Quantity.float.inj h, ← Nat.one_mul Binary64.half, ← hround]
  exact Binary64.hasSize_nearest _ _

namespace PricesHalves

variable (h : s.PricesHalves)
include h

/-- An entry costs exactly one half. -/
theorem exists_pagePrice (limit : Int) : ∃ price, s.pagePrice limit = .ok (.float price) ∧
    price.HasSize (min limit.toNat 50 * Binary64.half : ℕ) := by
  obtain ⟨weight, _, hweight, _⟩ := hasSize_standardPageWeight
  have hhalf := hasSize_half hweight
  have hsize : min (max limit 0) 50 = ((min limit.toNat 50 : ℕ) : Int) := by omega
  generalize hn : min limit.toNat 50 = n at hsize
  obtain ⟨x, hx, hunits⟩ := Binary64.exists_ofInt? (n := n) (by omega)
  refine ⟨x * weight, pagePrice_eq_ok_iff.mpr ?_, ?_⟩
  · rw [h.cap, h.weight, hweight, standardPageCap, Quantity.min_int, hsize, Quantity.int_mul?_float,
      hx, Option.map_some]
  · have hproduct := hunits.mul hhalf
    have hcancel := Binary64.rounded_mul_right (n * Binary64.half) 1 Binary64.one_pos
    rw [Nat.one_mul] at hcancel
    rwa [Nat.mul_right_comm, hcancel, Binary64.rounded_halves (by omega)] at hproduct

theorem exists_addSurcharge {argument : Argument} (hread : s.Readable argument) {x : Binary64}
    {j : ℕ} (hx : x.Holds j) (hle : j + s.entries argument ≤ 2 ^ 53) :
    ∃ y, s.addSurcharge x argument = .ok y ∧ y.Holds (j + s.entries argument) := by
  by_cases hpage : ∃ text, argument = ⟨s.pageArgument, .int text⟩
  · obtain ⟨text, rfl⟩ := hpage
    obtain ⟨limit, hlimit⟩ := hread text rfl
    obtain ⟨price, hprice, hsize⟩ := h.exists_pagePrice limit
    rw [entries_page hlimit] at hle ⊢
    refine ⟨x + price, ?_, hx.add hsize hle⟩
    simp only [addSurcharge, if_true, hlimit, hprice, bind, Except.bind, addTo_float]
  · have hne : argument.name = s.pageArgument → ∀ text, argument.value ≠ .int text :=
      fun hname text hvalue => hpage ⟨text, by rw [← hname, ← hvalue]⟩
    rw [entries_of_ne hne, addSurcharge_of_ne hne]
    exact ⟨x, rfl, hx⟩

theorem exists_foldlM_addSurcharge (arguments : List Argument)
    (hread : ∀ argument ∈ arguments, s.Readable argument) :
    ∀ {x : Binary64} {j : ℕ}, x.Holds j → j + (arguments.map s.entries).sum ≤ 2 ^ 53 →
      ∃ y, arguments.foldlM s.addSurcharge x = .ok y ∧
        y.Holds (j + (arguments.map s.entries).sum) := by
  induction arguments with
  | nil => exact fun {x} _ hx _ => ⟨x, rfl, hx⟩
  | cons argument rest ih =>
    intro x j hx hle
    rw [List.map_cons, List.sum_cons, ← Nat.add_assoc] at hle ⊢
    obtain ⟨y, hy, hholds⟩ :=
      h.exists_addSurcharge (hread argument List.mem_cons_self) hx (by omega)
    rw [List.foldlM_cons, hy]
    exact ih (fun a ha => hread a (List.mem_cons_of_mem _ ha)) hholds hle

end PricesHalves

/-! ### In halves -/

/-- What a field costs in halves, given the costs of all names. -/
def halves (s : Scorer) (cost : String → ℕ) (field : String × List Argument) : ℕ :=
  cost field.1 + (field.2.map s.entries).sum

section Halves

variable (h : s.PricesHalves) {cost : String → ℕ}
  (hcost : ∀ name, (s.table.costOf name).value? = some (cost name / 2 : ℚ))

theorem exactScore_eq (hcost : ∀ name, (s.table.costOf name).value? = some (cost name / 2 : ℚ))
    (set : SelectionSet) (level : Int) : s.exactScore fragments set level =
      (((s.occurrences fragments set level).map (s.halves cost)).sum : ℕ) / 2 := by
  unfold exactScore
  induction s.occurrences fragments set level with
  | nil => simp
  | cons field rest ih =>
    rw [List.map_cons, List.sum_cons, ih, List.map_cons, List.sum_cons, exactShare, hcost, halves]
    push_cast
    rw [Option.getD_some, add_div, add_div]

include h hcost

theorem exists_addField (name : String) {arguments : List Argument}
    (hread : ∀ argument ∈ arguments, s.Readable argument) {x : Binary64} {j : ℕ} (hx : x.Holds j)
    (hle : j + s.halves cost (name, arguments) ≤ 2 ^ 53) :
    ∃ y, s.addField x name arguments = .ok y ∧
      y.Holds (j + s.halves cost (name, arguments)) := by
  have hhalves : s.halves cost (name, arguments) =
      cost name + (arguments.map s.entries).sum := rfl
  rw [hhalves] at hle ⊢
  obtain ⟨c, hc, hsize⟩ := Quantity.exists_halves (hcost name) (by omega)
  obtain ⟨page, hpage, hpages⟩ :=
    h.exists_foldlM_addSurcharge arguments hread Binary64.holds_zero (by omega)
  rw [Nat.zero_add] at hpages
  have hpriced := hx.add hsize (by omega)
  refine ⟨x + c + page, ?_, ?_⟩
  · simp only [addField, addTo, Binary64.plus?, hc, Option.map_some, surcharge, hpage, bind,
      Except.bind, pure, Except.pure]
  · rw [← Nat.add_assoc] at hle ⊢
    exact hpriced.add hpages.size hle

/-- Adding up an expansion whose page literals are read is exact up to `2^52`. -/
theorem exists_addExpansion (e : Expansion)
    (hread : ∀ field ∈ e.fields, ∀ argument ∈ field.2, s.Readable argument) :
    ∀ {x : Binary64} {j : ℕ}, x.Holds j → j + (e.fields.map (s.halves cost)).sum ≤ 2 ^ 53 →
      ∃ y, s.addExpansion x e = .ok y ∧ y.Holds (j + (e.fields.map (s.halves cost)).sum) := by
  -- no share is below zero, so every sum on the way is within the bound of the last one
  induction e with
  | done => exact fun {x} _ hx _ => ⟨x, rfl, hx⟩
  | field name arguments inner rest ihi ih =>
    intro x j hx hle
    simp only [Expansion.fields, List.map_cons, List.map_append, List.sum_cons,
      List.sum_append] at hle ⊢
    simp only [Expansion.fields, List.forall_mem_cons, List.forall_mem_append] at hread
    obtain ⟨hown, hinner, hrest⟩ := hread
    obtain ⟨own, heq, hholds⟩ := exists_addField h hcost name hown hx (by omega)
    obtain ⟨nested, heq', hnested⟩ := ihi hinner Binary64.holds_zero (by omega)
    rw [Nat.zero_add] at hnested
    have htotal := hholds.add hnested.size (by omega)
    obtain ⟨y, hy, hsum⟩ := ih hrest htotal (by omega)
    refine ⟨y, ?_, ?_⟩
    · simp only [addExpansion, heq, heq', bind, Except.bind, hy]
    · rwa [← Nat.add_assoc, ← Nat.add_assoc]
  | other inner rest ihi ih =>
    intro x j hx hle
    simp only [Expansion.fields, List.map_append, List.sum_append] at hle ⊢
    simp only [Expansion.fields, List.forall_mem_append] at hread
    obtain ⟨hinner, hrest⟩ := hread
    obtain ⟨nested, heq, hnested⟩ := ihi hinner Binary64.holds_zero (by omega)
    rw [Nat.zero_add] at hnested
    have htotal := hx.add hnested.size (by omega)
    obtain ⟨y, hy, hsum⟩ := ih hrest htotal (by omega)
    refine ⟨y, ?_, ?_⟩
    · simp only [addExpansion, heq, bind, Except.bind, hy]
    · rwa [← Nat.add_assoc]

end Halves

/-! ### Page literals that are read -/

theorem readable_of_addSurcharge {x y : Binary64} {argument : Argument}
    (h : s.addSurcharge x argument = .ok y) : s.Readable argument := by
  rintro text rfl
  obtain ⟨limit, _, hread, _⟩ := addSurcharge_eq_ok h
  exact ⟨limit, hread⟩

theorem readable_of_surcharge (arguments : List Argument) :
    ∀ {x y : Binary64}, arguments.foldlM s.addSurcharge x = .ok y →
      ∀ argument ∈ arguments, s.Readable argument := by
  induction arguments with
  | nil => exact fun _ _ ha => nomatch ha
  | cons argument rest ih =>
    intro x y h
    obtain ⟨z, hz, h⟩ := bind_eq_ok h
    exact List.forall_mem_cons.mpr ⟨readable_of_addSurcharge hz, ih h⟩

/-- All page literals are read in an expansion that adds up. -/
theorem readable_of_addExpansion (e : Expansion) :
    ∀ {x y : Binary64}, s.addExpansion x e = .ok y →
      ∀ field ∈ e.fields, ∀ argument ∈ field.2, s.Readable argument := by
  induction e with
  | done => exact fun _ _ hfield => nomatch hfield
  | field name arguments inner rest ihi ih =>
    intro x y h
    obtain ⟨own, hown, h⟩ := bind_eq_ok h
    obtain ⟨nested, hnested, h⟩ := bind_eq_ok h
    obtain ⟨_, _, _, hsurcharge, _⟩ := addField_eq_ok hown
    simp only [Expansion.fields, List.forall_mem_cons, List.forall_mem_append]
    exact ⟨readable_of_surcharge arguments hsurcharge, ihi hnested, ih h⟩
  | other inner rest ihi ih =>
    intro x y h
    obtain ⟨nested, hnested, h⟩ := bind_eq_ok h
    simp only [Expansion.fields, List.forall_mem_append]
    exact ⟨ihi hnested, ih h⟩

/-- A set scores if and only if the page literals of all fields that count are read, and it then
scores the sum of their halves, if this is at most `2^53`. -/
theorem score_eq_ok_iff (h : s.PricesHalves) {cost : String → ℕ}
    (hcost : ∀ name, (s.table.costOf name).value? = some (cost name / 2 : ℚ))
    {set : SelectionSet} {level : Int}
    (hle : ((s.occurrences fragments set level).map (s.halves cost)).sum ≤ 2 ^ 53)
    (x : Binary64) :
    s.score fragments set level = .ok x ↔
      (∀ field ∈ s.occurrences fragments set level, ∀ argument ∈ field.2,
        s.Readable argument) ∧
        x.Holds ((s.occurrences fragments set level).map (s.halves cost)).sum := by
  have hscore : (∀ field ∈ s.occurrences fragments set level, ∀ argument ∈ field.2,
      s.Readable argument) → ∃ y, s.score fragments set level = .ok y ∧
        y.Holds ((s.occurrences fragments set level).map (s.halves cost)).sum := by
    intro hread
    obtain ⟨y, hy, hholds⟩ := exists_addExpansion h hcost _ hread Binary64.holds_zero
      (by rwa [Nat.zero_add])
    rw [Nat.zero_add] at hholds
    exact ⟨y, by rw [score_eq_addExpansion, hy], hholds⟩
  constructor
  · intro hx
    have hadds := hx
    rw [score_eq_addExpansion] at hadds
    have hread := readable_of_addExpansion _ hadds
    obtain ⟨y, hy, hholds⟩ := hscore hread
    obtain rfl := Except.ok.inj (hx.symm.trans hy)
    exact ⟨hread, hholds⟩
  · rintro ⟨hread, hx⟩
    obtain ⟨y, hy, hholds⟩ := hscore hread
    rw [hy, hholds.unique hx]

/-- Where costs and pages are numbers of halves, what scores has as its score the exact sum over
the fields that count, if this is at most `2^52`. Reordering siblings, in the set or in
fragments, then changes neither whether it scores nor what it scores. -/
theorem score_exact (h : s.PricesHalves) (level : Int) :
    (∀ fragments set x, s.exactScore fragments set level ≤ 2 ^ 52 →
      s.score fragments set level = .ok x →
      x.value? = some (s.exactScore fragments set level)) ∧
    (∀ fragments fragments' set set', FragmentsMatch SetReordered fragments fragments' →
      SetReordered set set' → s.exactScore fragments set level ≤ 2 ^ 52 →
      ∀ x, s.score fragments set level = .ok x ↔ s.score fragments' set' level = .ok x) := by
  choose cost hcost using h.cost
  have hhalves : ∀ fragments set, s.exactScore fragments set level ≤ 2 ^ 52 →
      ((s.occurrences fragments set level).map (s.halves cost)).sum ≤ 2 ^ 53 := by
    intro fragments set hle
    rw [exactScore_eq hcost, div_le_iff₀ two_pos] at hle
    exact_mod_cast hle
  constructor
  · intro fragments set x hle hx
    obtain ⟨_, hholds⟩ := (score_eq_ok_iff h hcost (hhalves _ _ hle) x).mp hx
    rw [hholds.value?, exactScore_eq hcost]
  · intro fragments fragments' set set' hfragments hset hle x
    have hperm : (s.occurrences fragments set level).Perm (s.occurrences fragments' set' level) :=
      fields_perm hfragments (s.room level) set set' hset
    have hsum := (hperm.map (s.halves cost)).sum_eq
    have hle := hhalves _ _ hle
    rw [score_eq_ok_iff h hcost hle, score_eq_ok_iff h hcost (hsum ▸ hle), hsum]
    simp only [hperm.mem_iff]

/-! ### Siblings in two orders -/

theorem pricesHalves_standard : standard.PricesHalves where
  cost name := by
    have hlisted : ∀ entry ∈ CostTable.standardCosts, entry.2 = .int 10 ∨ entry.2 = .int 5 := by
      decide
    rcases CostTable.standard.costOf_cases name with ⟨entry, hentry, hcost⟩ | hcost
    · rcases hlisted entry hentry with hten | hfive
      · exact ⟨20, by norm_num [standard, hcost, hten, Quantity.value?]⟩
      · exact ⟨10, by norm_num [standard, hcost, hfive, Quantity.value?]⟩
    · have hone : standard.table.costOf name = .int 1 := hcost
      exact ⟨2, by norm_num [hone, Quantity.value?]⟩
  cap := rfl
  weight := rfl

/-- Two fields, one of which costs more. -/
def meAndOwner : List Selection := [leafOf "me", leafOf "owner"]

/-- A page of three users and a spread. -/
def usersAndRest : List Selection := [pageOf "3", .spread "rest" [] none]

def restOf (selections : List Selection) : List Fragment :=
  [⟨"rest", "Query", [], some selections⟩]

theorem keeps_leaf {label : Option String} {name : String} {arguments : List Argument}
    {directives : List Directive} {R : List Selection → List Selection → Prop} :
    (Selection.field label name arguments directives none).Keeps R
      (.field label name arguments directives none) := .field .none

theorem fragmentsMatch_restOf {R : SelectionSet → SelectionSet → Prop} {xs ys : List Selection}
    (h : R (some xs) (some ys)) : FragmentsMatch R (some (restOf xs)) (some (restOf ys)) := by
  intro name
  by_cases hname : "rest" = name
  · subst hname
    exact .some h
  · simp only [restOf, Fragment.find?, Option.bind_some, List.find?_cons,
      beq_eq_false_iff_ne.mpr hname, List.find?_nil]
    exact .none

/-- Siblings in reverse order, in the query and in the fragment: three users at two and a half,
and the fields of the fragment at six, are eight and a half in either order. -/
theorem score_exact_reversed :
    (standard.PricesHalves ∧
      FragmentsMatch SetReordered (some (restOf meAndOwner)) (some (restOf meAndOwner.reverse)) ∧
      SetReordered (some usersAndRest) (some usersAndRest.reverse) ∧
      standard.exactScore (some (restOf meAndOwner)) (some usersAndRest) 0 ≤ 2 ^ 52) ∧
    ∃ x, standard.score (some (restOf meAndOwner)) (some usersAndRest) 0 = .ok x ∧
      x.value? = some (17 / 2) ∧
      standard.score (some (restOf meAndOwner.reverse)) (some usersAndRest.reverse) 0 = .ok x := by
  have hrest : SetReordered (some meAndOwner) (some meAndOwner.reverse) :=
    .some ⟨.cons keeps_leaf (.cons keeps_leaf .nil), (List.reverse_perm _).symm⟩
  have hset : SetReordered (some usersAndRest) (some usersAndRest.reverse) :=
    .some ⟨.cons keeps_leaf (.cons (.spread .none) .nil), (List.reverse_perm _).symm⟩
  have hfragments := fragmentsMatch_restOf hrest
  have hexact : standard.exactScore (some (restOf meAndOwner)) (some usersAndRest) 0 = 17 / 2 := by
    decide +kernel
  have hle : standard.exactScore (some (restOf meAndOwner)) (some usersAndRest) 0 ≤ 2 ^ 52 := by
    rw [hexact]
    norm_num
  obtain ⟨x, hx⟩ := Option.isSome_iff_exists.mp
    (show (standard.score (some (restOf meAndOwner)) (some usersAndRest) 0).toOption.isSome = true
      by decide +kernel)
  have hx := eq_ok_of_toOption hx
  obtain ⟨hvalue, hreordered⟩ := score_exact pricesHalves_standard 0
  refine ⟨⟨pricesHalves_standard, hfragments, hset, hle⟩, x, hx, ?_, ?_⟩
  · rw [hvalue _ _ _ hle hx, hexact]
  · exact (hreordered _ _ _ _ hfragments hset hle x).mp hx

end Scorer

end QueryAdmission
