import QueryAdmission.Proofs.Padding
import QueryAdmission.Proofs.QuantitySizes
import QueryAdmission.Proofs.SiblingOrder

/-! # Raised prices

A scorer whose costs, cutoff, page cap and page weight are no less than those of another
scores no less, also of a set that has been enlarged: by selections anywhere, by fragments
for names that had none, by page literals, and by larger numbers in these. What carries
this is that a page costs the exact product of its size and the weight, rounded once. -/

namespace QueryAdmission

/-! ## Quantities that are doubles -/

namespace Quantity

variable {p q : Quantity} {a b : ℕ∞}

/-- Up to `2^53`, a quantity converts to a double without rounding. -/
theorem HasSize.roundedSum_eq {n : ℕ} (h : q.HasSize n) (hle : n ≤ 2 ^ 53 * Binary64.one) :
    Binary64.roundedSum n = n := by
  generalize hsize : (n : ℕ∞) = size at h
  cases h with
  | double h => exact h.roundedSum_eq
  | whole m =>
    obtain rfl : n = m * Binary64.one := by exact_mod_cast hsize
    have hm : m ≤ 2 ^ 53 := Nat.le_of_mul_le_mul_right hle Binary64.one_pos
    exact Binary64.rounded_mul_one hm

theorem HasSize.roundedSum_eq_of_float {x : Binary64} (h : (float x).HasSize a) :
    Binary64.roundedSum a = a := by
  cases h with
  | double h => exact h.roundedSum_eq

theorem HasSize.exists_nat (h : q.HasSize a) (hfinite : q ≠ .float (.infinite false)) :
    ∃ n : ℕ, a = n := by
  cases a with
  | coe n => exact ⟨n, rfl⟩
  | top =>
    generalize hsize : (⊤ : ℕ∞) = size at h
    cases h with
    | whole n => exact absurd hsize (ENat.top_ne_natCast _)
    | double h =>
      subst hsize
      exact absurd (congrArg float h.eq_infinite) hfinite

end Quantity

/-! ## Scorers -/

namespace Scorer

variable {s t : Scorer}

/-- No price is negative or NaN, and page sizes within the cap are doubles. A cap is meant to be a
whole number, which is what the first case of `kinds` says; one that is a double all the same needs
a weight that is a double, too, at least in value, for otherwise the weight is rounded before the
product is. -/
structure Regular (s : Scorer) : Prop where
  cost : ∀ name, (s.table.costOf name).isNonNegative = true
  cap : s.pageCap.isNonNegative = true
  cap_le : s.pageCap.le (.int (2 ^ 53)) = true
  weight : s.pageWeight.isNonNegative = true
  weight_finite : s.pageWeight ≠ .float (.infinite false)
  kinds : (∃ n, s.pageCap = .int n) ∨ (∃ x, s.pageWeight = .float x) ∨
    s.pageWeight.le (.int (2 ^ 53)) = true

/-- No parameter of the first scorer is greater than that of the second. -/
structure RaisedTo (s t : Scorer) : Prop where
  cost : ∀ name, (s.table.costOf name).le (t.table.costOf name) = true
  cutoff : s.cutoff ≤ t.cutoff
  pageArgument : s.pageArgument = t.pageArgument
  cap : s.pageCap.le t.pageCap = true
  weight : s.pageWeight.le t.pageWeight = true

theorem pagePrice_eq_ok_iff {limit : Int} {price : Quantity} :
    s.pagePrice limit = .ok price ↔
      ((Quantity.int (max limit 0)).min s.pageCap).mul? s.pageWeight = some price := by
  unfold pagePrice
  split <;> simp [*]

namespace Regular

theorem exists_sizes (h : s.Regular) :
    ∃ cap weight : ℕ, s.pageCap.HasSize cap ∧ cap ≤ 2 ^ 53 * Binary64.one ∧
      s.pageWeight.HasSize weight := by
  obtain ⟨c, hc⟩ := Quantity.exists_hasSize h.cap
  obtain ⟨w, hw⟩ := Quantity.exists_hasSize h.weight
  obtain ⟨weight, rfl⟩ := hw.exists_nat h.weight_finite
  have hle : c ≤ (2 ^ 53 * Binary64.one : ℕ) := (hc.le_iff (.whole (2 ^ 53))).mp h.cap_le
  cases c with
  | top => exact absurd (top_le_iff.mp hle) (ENat.natCast_ne_top _)
  | coe cap => exact ⟨cap, weight, hc, by exact_mod_cast hle, hw⟩

/-- A page costs its size, within the cap, times the weight, rounded once. -/
theorem pagePrice_hasSize (h : s.Regular) {cap weight : ℕ} (hcap : s.pageCap.HasSize cap)
    (hle : cap ≤ 2 ^ 53 * Binary64.one) (hweight : s.pageWeight.HasSize weight) {limit : Int}
    {price : Quantity} {z : Binary64} (hprice : s.pagePrice limit = .ok price)
    (hz : price.toBinary64? = some z) :
    z.HasSize (Binary64.rounded (min (limit.toNat * Binary64.one) cap * weight) Binary64.one) := by
  have hlimit : max limit 0 = limit.toNat := by omega
  have hmul := pagePrice_eq_ok_iff.mp hprice
  rw [hlimit] at hmul
  have hfactor : ((Quantity.int limit.toNat).min s.pageCap).HasSize
      (min (limit.toNat * Binary64.one) cap : ℕ) :=
    (Quantity.HasSize.whole limit.toNat).min hcap
  have hexact := hfactor.roundedSum_eq ((Nat.min_le_right _ cap).trans hle)
  refine hfactor.mul hweight hexact ?_ hmul hz
  rcases h.kinds with ⟨n, hn⟩ | ⟨x, hx⟩ | hlight
  · exact .inl ⟨_, by rw [hn, Quantity.min_int]⟩
  · rw [hx] at hweight
    exact .inr hweight.roundedSum_eq_of_float
  · have hle := (hweight.le_iff (.whole (2 ^ 53))).mp hlight
    exact .inr (hweight.roundedSum_eq (by exact_mod_cast hle))

/-- Scorers whose prices are raised are no cheaper. -/
theorem noDearer (hs : s.Regular) (ht : t.Regular) (h : s.RaisedTo t) : s.NoDearer t where
  cutoff := h.cutoff
  pageArgument := h.pageArgument
  cost name := by
    obtain ⟨a, ha⟩ := Quantity.exists_hasSize (hs.cost name)
    obtain ⟨b, hb⟩ := Quantity.exists_hasSize (ht.cost name)
    exact ha.atMost hb ((ha.le_iff hb).mp (h.cost name))
  page := by
    intro m n p q hmn hp hq x y hx hy
    obtain ⟨c, w, hc, hcle, hw⟩ := hs.exists_sizes
    obtain ⟨c', w', hc', hcle', hw'⟩ := ht.exists_sizes
    have hcap : c ≤ c' := by exact_mod_cast (hc.le_iff hc').mp h.cap
    have hweight : w ≤ w' := by exact_mod_cast (hw.le_iff hw').mp h.weight
    have hlimit : m.toNat * Binary64.one ≤ n.toNat * Binary64.one :=
      Nat.mul_le_mul_right _ (Int.toNat_le_toNat hmn)
    exact ⟨_, _, hs.pagePrice_hasSize hc hcle hw hp hx, ht.pagePrice_hasSize hc' hcle' hw' hq hy,
      Binary64.rounded_mono (Nat.mul_le_mul (min_le_min hlimit hcap) hweight) Binary64.one⟩

theorem raisedTo_self (h : s.Regular) : s.RaisedTo s := by
  have hle : ∀ {q : Quantity}, q.isNonNegative = true → q.le q = true := fun hq => by
    obtain ⟨a, ha⟩ := Quantity.exists_hasSize hq
    exact (ha.le_iff ha).mpr (le_refl a)
  exact ⟨fun name => hle (h.cost name), Nat.le_refl _, rfl, hle h.cap, hle h.weight⟩

end Regular

end Scorer

/-! ## Enlarged sets -/

/-- A page literal is added to the arguments, or the number in one is raised. -/
inductive LimitsRaised (page : String) : List Argument → List Argument → Prop
  | add (before after : List Argument) (text : String) :
      LimitsRaised page (before ++ after) (before ++ ⟨page, .int text⟩ :: after)
  | raise (before after : List Argument) {text text' : String} {m n : Int}
      (hm : WholeNumber.value? text = some m) (hn : WholeNumber.value? text' = some n)
      (hmn : m ≤ n) :
      LimitsRaised page (before ++ ⟨page, .int text⟩ :: after)
        (before ++ ⟨page, .int text'⟩ :: after)

/-- One step of enlarging a selection; the set that it carries is enlarged by `P`. -/
inductive Selection.Enlarged (page : String) (P : List Selection → List Selection → Prop) :
    Selection → Selection → Prop
  | limits {label : Option String} {name : String} {arguments arguments' : List Argument}
      {directives : List Directive} {body : SelectionSet}
      (h : LimitsRaised page arguments arguments') :
      Enlarged page P (.field label name arguments directives body)
        (.field label name arguments' directives body)
  | leaf {label : Option String} {name : String} {arguments : List Argument}
      {directives : List Directive} (set : List Selection) :
      Enlarged page P (.field label name arguments directives none)
        (.field label name arguments directives (some set))
  | within {x y : Selection} (h : x.Keeps P y) : Enlarged page P x y

/-- One step of enlarging a selection set: a selection is inserted, or one of those that are
there is enlarged, at any depth. -/
inductive SelectionsEnlarged (page : String) : List Selection → List Selection → Prop
  | insert (before after : List Selection) (selection : Selection) :
      SelectionsEnlarged page (before ++ after) (before ++ selection :: after)
  | change (before after : List Selection) {x y : Selection}
      (h : x.Enlarged page (SelectionsEnlarged page) y) :
      SelectionsEnlarged page (before ++ x :: after) (before ++ y :: after)

/-- One step of enlarging a set, where that of a leaf is none. -/
inductive SetEnlarged (page : String) : SelectionSet → SelectionSet → Prop
  | leaf (set : List Selection) : SetEnlarged page none (some set)
  | within {a b : List Selection} (h : SelectionsEnlarged page a b) :
      SetEnlarged page (some a) (some b)

/-- One step of enlarging the fragments: they are bound, a fragment is added whose name had
none, or the set of one is enlarged. -/
inductive FragmentsEnlarged (page : String) :
    Option (List Fragment) → Option (List Fragment) → Prop
  | bind : FragmentsEnlarged page none (some [])
  | define (before after : List Fragment) (f : Fragment)
      (hnew : ∀ g ∈ before ++ after, g.name ≠ f.name) :
      FragmentsEnlarged page (some (before ++ after)) (some (before ++ f :: after))
  | body (before after : List Fragment) (f : Fragment) {a b : List Selection}
      (ha : f.selections = some a) (h : SelectionsEnlarged page a b) :
      FragmentsEnlarged page (some (before ++ f :: after))
        (some (before ++ { f with selections := some b } :: after))

/-- Any number of steps on a set. -/
abbrev SetEnlargedTo (page : String) : SelectionSet → SelectionSet → Prop :=
  Relation.ReflTransGen (SetEnlarged page)

/-- Any number of steps on fragments. -/
abbrev FragmentsEnlargedTo (page : String) :
    Option (List Fragment) → Option (List Fragment) → Prop :=
  Relation.ReflTransGen (FragmentsEnlarged page)

section Enlarging

variable {page : String}

theorem Selection.Enlarged.grows {x y : Selection}
    (h : x.Enlarged page (SelectionsEnlarged page) y) : x.Grows (SetEnlargedTo page) y := by
  have hbody : ∀ {a b : SelectionSet}, Option.Rel (SelectionsEnlarged page) a b →
      SetEnlargedTo page a b := by
    intro a b hab
    cases hab with
    | none => exact .refl
    | some h => exact .single (.within h)
  cases h with
  | limits h =>
    cases h with
    | add before after text => exact .field (sublistForall₂_insert before after _) .refl
    | raise before after hm hn hmn =>
      exact .field (sublistForall₂_change before after (.literal hm hn hmn)) .refl
  | leaf set => exact .field (Std.Refl.refl _) (.single (.leaf set))
  | within h =>
    cases h with
    | field h => exact .field (Std.Refl.refl _) (hbody h)
    | inline h => exact .inline (hbody h)
    | spread h =>
      cases h with
      | none => exact .bare
      | some h => exact .spread (hbody (.some h))
    | other => exact .other

theorem SetEnlarged.grows {a b : SelectionSet} (h : SetEnlarged page a b) :
    SetGrows (SetEnlargedTo page) a b := by
  have : Std.Refl (Selection.Grows (SetEnlargedTo page)) := ⟨Selection.Grows.refl fun _ => .refl⟩
  cases h with
  | leaf set => exact .none _
  | within h =>
    cases h with
    | insert before after selection => exact .some (sublistForall₂_insert before after selection)
    | change before after h => exact .some (sublistForall₂_change before after h.grows)

theorem growing_setEnlargedTo : Growing (SetEnlargedTo page) :=
  growing_reflTransGen fun _ _ => SetEnlarged.grows

theorem FragmentsEnlarged.grow {fragments fragments' : Option (List Fragment)}
    (h : FragmentsEnlarged page fragments fragments') :
    FragmentsGrow (SetEnlargedTo page) fragments fragments' := by
  intro name f hf
  cases h with
  | bind => cases hf
  | define before after new hnew =>
    refine ⟨f, ?_, .refl⟩
    have hf : Fragment.find? (before ++ after) name = some f := hf
    have hname : f.name = name := by simpa using List.find?_some hf
    have hother : (new.name == name) = false :=
      beq_eq_false_iff_ne.mpr (hname ▸ (hnew f (List.mem_of_find?_eq_some hf)).symm)
    show Fragment.find? (before ++ new :: after) name = some f
    simpa only [Fragment.find?, List.find?_append, List.find?_cons, hother] using hf
  | @body before after g a b ha h =>
    have hf : Fragment.find? (before ++ g :: after) name = some f := hf
    show ∃ f', Fragment.find? (before ++ { g with selections := some b } :: after) name =
      some f' ∧ _
    simp only [Fragment.find?, List.find?_append, List.find?_cons] at hf ⊢
    cases hbefore : before.find? (·.name == name) with
    | some found =>
      rw [hbefore] at hf
      exact ⟨found, rfl, by rw [Option.some.inj hf]⟩
    | none =>
      rw [hbefore] at hf
      cases hg : g.name == name with
      | false =>
        rw [hg] at hf
        exact ⟨f, hf, .refl⟩
      | true =>
        rw [hg] at hf
        obtain rfl := Option.some.inj hf
        exact ⟨_, rfl, ha ▸ .single (.within h)⟩

theorem FragmentsGrow.of_enlargedTo {fragments fragments' : Option (List Fragment)}
    (h : FragmentsEnlargedTo page fragments fragments') :
    FragmentsGrow (SetEnlargedTo page) fragments fragments' := by
  induction h with
  | refl => exact fun _ f hf => ⟨f, hf, .refl⟩
  | tail _ hstep ih =>
    intro name f hf
    obtain ⟨g, hg, hfg⟩ := ih name f hf
    obtain ⟨g', hg', hgg'⟩ := hstep.grow name g hg
    exact ⟨g', hg', hfg.trans hgg'⟩

end Enlarging

/-- Raised prices and an enlarged set with enlarged fragments give no lower score. -/
theorem Scorer.score_le_of_raised {s t : Scorer} (hs : s.Regular) (ht : t.Regular)
    (hraised : s.RaisedTo t) {set set' : SelectionSet}
    {fragments fragments' : Option (List Fragment)}
    (hset : SetEnlargedTo s.pageArgument set set')
    (hfragments : FragmentsEnlargedTo s.pageArgument fragments fragments') {level : Int}
    {x y : Binary64} (hx : s.score fragments set level = .ok x)
    (hy : t.score fragments' set' level = .ok y) : (Quantity.float x).le (.float y) = true :=
  ((hs.noDearer ht hraised).score_atMost (ht.noDearer ht ht.raisedTo_self) growing_setEnlargedTo
    (FragmentsGrow.of_enlargedTo hfragments) hset hx hy).le

/-! ### A page that is raised beside a cycle that is added -/

theorem CostTable.isNonNegative_costOf {t : CostTable}
    (hcosts : ∀ entry ∈ t.costs, entry.2.isNonNegative = true)
    (hfallback : t.fallback.isNonNegative = true) (name : String) :
    (t.costOf name).isNonNegative = true := by
  rcases t.costOf_cases name with ⟨entry, hentry, hcost⟩ | hcost
  · rw [hcost]
    exact hcosts entry hentry
  · rw [hcost]
    exact hfallback

namespace Scorer

/-- The standard scorer with a higher cost of unlisted fields, one more level, a larger cap and
a whole number as its weight. -/
def raised : Scorer :=
  ⟨⟨CostTable.standardCosts, .int 2⟩, 8, standardPageArgument, .int 100, .int 1⟩

theorem regular_standard : standard.Regular where
  cost := CostTable.isNonNegative_costOf (by decide) (by decide)
  cap := by decide
  cap_le := by decide
  weight := by decide +kernel
  weight_finite := by decide +kernel
  kinds := .inl ⟨50, rfl⟩

theorem regular_raised : raised.Regular where
  cost := CostTable.isNonNegative_costOf (by decide) (by decide)
  cap := by decide
  cap_le := by decide
  weight := by decide
  weight_finite := by decide
  kinds := .inl ⟨100, rfl⟩

theorem standard_raisedTo_raised : standard.RaisedTo raised where
  cost name := by
    show ((CostTable.standardCosts.lookup name).getD (.int 1)).le
      ((CostTable.standardCosts.lookup name).getD (.int 2)) = true
    cases hfound : CostTable.standardCosts.lookup name with
    | none => decide
    | some cost =>
      obtain ⟨before, after, hcosts, _⟩ := List.lookup_eq_some_iff.mp hfound
      have hself : ∀ entry ∈ CostTable.standardCosts, entry.2.le entry.2 = true := by
        decide
      exact hself (name, cost) (by rw [hcosts]; simp)
  cutoff := by decide
  pageArgument := rfl
  cap := by decide
  weight := by decide +kernel

def pageOf (text : String) : Selection :=
  .field none "users" [⟨standardPageArgument, .int text⟩] [] none

/-- A fragment that spreads itself. -/
def selfSpreading : Fragment := ⟨"rest", "Query", [], some [leafOf "me", .spread "rest" [] none]⟩

/-- Thirty users instead of three, and a spread of a fragment that is new and spreads itself. -/
theorem score_le_of_raised_cyclic :
    ∃ x y, (standard.Regular ∧ raised.Regular ∧ standard.RaisedTo raised ∧
        SetEnlargedTo standard.pageArgument (some [pageOf "3"])
          (some [pageOf "30", .spread "rest" [] none]) ∧
        FragmentsEnlargedTo standard.pageArgument none (some [selfSpreading])) ∧
      standard.score none (some [pageOf "3"]) 0 = .ok x ∧
      raised.score (some [selfSpreading]) (some [pageOf "30", .spread "rest" [] none]) 0 = .ok y ∧
      (Quantity.float x).le (.float y) = true := by
  have hthree : WholeNumber.value? "3" = some 3 := by decide
  have hthirty : WholeNumber.value? "30" = some 30 := by decide
  have hset : SetEnlargedTo standard.pageArgument (some [pageOf "3"])
      (some [pageOf "30", .spread "rest" [] none]) :=
    .tail (.single (.within (.change [] [] (.limits (.raise [] [] hthree hthirty (by decide))))))
      (.within (.insert [pageOf "30"] [] (.spread "rest" [] none)))
  have hfragments : FragmentsEnlargedTo standard.pageArgument none (some [selfSpreading]) :=
    .tail (.single .bind) (.define [] [] selfSpreading (by simp))
  obtain ⟨x, hx⟩ := Option.isSome_iff_exists.mp
    (show (standard.score none (some [pageOf "3"]) 0).toOption.isSome = true by decide +kernel)
  obtain ⟨y, hy⟩ := Option.isSome_iff_exists.mp
    (show (raised.score (some [selfSpreading])
      (some [pageOf "30", .spread "rest" [] none]) 0).toOption.isSome = true by decide +kernel)
  have hx := eq_ok_of_toOption hx
  have hy := eq_ok_of_toOption hy
  exact ⟨x, y, ⟨regular_standard, regular_raised, standard_raisedTo_raised, hset, hfragments⟩,
    hx, hy,
    score_le_of_raised regular_standard regular_raised standard_raisedTo_raised hset hfragments
      hx hy⟩

end Scorer

end QueryAdmission
