import QueryAdmission.Proofs.CountedFields
import QueryAdmission.Proofs.Padding

/-! # What is allowed keeps the limits

An operation that a configured gate allows is within the depth limit, and within the
complexity limit unless its complexity is NaN. Limits and the default cost cannot be NaN,
but listed costs can: the complexity is NaN exactly if a field that is counted has such a
cost, and then no comparison rejects it. -/

namespace QueryAdmission

/-! ## Doubles that are not below zero -/

namespace Binary64

/-- The double is NaN, or at least zero. -/
def IsPrice (x : Binary64) : Prop := x = .nan ∨ ∃ size, x.HasSize size

theorem HasSize.ne_nan {x : Binary64} {size : ℕ∞} (h : x.HasSize size) : x ≠ .nan := by
  cases h <;> rintro ⟨⟩

theorem nan_add (x : Binary64) : Binary64.nan + x = .nan := rfl

theorem add_nan (x : Binary64) : x + Binary64.nan = .nan := by
  cases x <;> rfl

/-- A sum of prices is a price, and it is NaN exactly if one of them is. -/
theorem IsPrice.add {x y : Binary64} (hx : x.IsPrice) (hy : y.IsPrice) :
    (x + y).IsPrice ∧ (x + y = .nan ↔ x = .nan ∨ y = .nan) := by
  rcases hx with rfl | ⟨a, ha⟩
  · rw [nan_add]
    exact ⟨.inl rfl, by simp only [true_or]⟩
  · rcases hy with rfl | ⟨b, hb⟩
    · rw [add_nan]
      exact ⟨.inl rfl, by simp only [or_true]⟩
    · have hsum := ha.add hb
      refine ⟨.inr ⟨_, hsum⟩, ?_⟩
      simp only [hsum.ne_nan, ha.ne_nan, hb.ne_nan, or_self]

end Binary64

namespace Quantity

/-- What does not exceed a limit is within it, unless it is NaN. -/
theorem float_le_iff {x limit : Binary64} (hlimit : limit ≠ .nan)
    (h : (float limit).lt (float x) = false) : (float x).le (float limit) = true ↔ x ≠ .nan := by
  obtain ⟨p, hp⟩ := exists_point? hlimit
  constructor
  · rintro hle rfl
    cases hle
  · intro hx
    obtain ⟨q, hq⟩ := exists_point? hx
    simp only [lt, le, point?, hp, hq] at h ⊢
    rw [h]
    rfl

end Quantity

/-! ## Scores -/

/-- What the outcome yields is a price, and it is NaN exactly if there is a reason. -/
def NanFor (outcome : Except Failure Binary64) (reason : Prop) : Prop :=
  ∀ x, outcome = .ok x → x.IsPrice ∧ (x = .nan ↔ reason)

/-- What the step makes of a price as the total is a price, and it is NaN exactly if the total
is or there is a reason. -/
def Prices (step : Binary64 → Except Failure Binary64) (reason : Prop) : Prop :=
  ∀ total, total.IsPrice → NanFor (step total) (total = .nan ∨ reason)

namespace Prices

variable {step next : Binary64 → Except Failure Binary64} {reason reason' : Prop}

theorem stay (h : ¬reason) : Prices .ok reason := by
  rintro total htotal _ ⟨⟩
  exact ⟨htotal, by simp only [h, or_false]⟩

theorem congr (h : Prices step reason) (hiff : reason ↔ reason') : Prices step reason' := by
  rwa [← hiff]

theorem andThen (h : Prices step reason) (hnext : Prices next reason') :
    Prices (fun total => step total >>= next) (reason ∨ reason') := by
  intro total htotal sum hsum
  obtain ⟨middle, hmiddle, hsum⟩ := bind_eq_ok hsum
  obtain ⟨hprice, hnan⟩ := h total htotal middle hmiddle
  obtain ⟨hprice', hnan'⟩ := hnext middle hprice sum hsum
  exact ⟨hprice', by rw [hnan', hnan, or_assoc]⟩

/-- To add what an outcome yields. -/
theorem plus {outcome : Except Failure Binary64} (h : NanFor outcome reason) :
    Prices (fun total => do return total + (← outcome)) reason := by
  intro total htotal sum hsum
  obtain ⟨x, hx, rfl⟩ := map_eq_ok hsum
  obtain ⟨hprice, hnan⟩ := h x hx
  obtain ⟨hsum, hsumnan⟩ := htotal.add hprice
  exact ⟨hsum, by rw [hsumnan, hnan]⟩

theorem foldlM {α : Type} {f : Binary64 → α → Except Failure Binary64} {reasonOf : α → Prop}
    (h : ∀ a, Prices (f · a) (reasonOf a)) (items : List α) :
    Prices (fun total => items.foldlM f total) (∃ a ∈ items, reasonOf a) := by
  induction items with
  | nil => exact stay fun ⟨_, hmem, _⟩ => by cases hmem
  | cons a items ih =>
    simp only [List.foldlM_cons]
    exact ((h a).andThen ih).congr (by simp only [List.mem_cons, exists_eq_or_imp])

/-- From zero on, a price is NaN for the reason alone. -/
theorem from_zero (h : Prices step reason) : NanFor (step .zero) reason := by
  intro x hx
  have hzero : Binary64.zero.HasSize 0 := Binary64.hasSize_signedZero false
  obtain ⟨hprice, hnan⟩ := h .zero (.inr ⟨0, hzero⟩) x hx
  exact ⟨hprice, by rw [hnan, or_iff_right hzero.ne_nan]⟩

end Prices

namespace Scorer

variable {s : Scorer} {fragments : Option (List Fragment)}

/-- No field and no page has a price below zero, and no page costs NaN. -/
structure NoneBelowZero (s : Scorer) : Prop where
  cost : ∀ name, ∃ x, s.table.costOf name = .float x ∧ x.IsPrice
  page : ∀ limit price, s.pagePrice limit = .ok price →
    ∃ x size, price = .float x ∧ x.HasSize size

/-- A field costs NaN. -/
def NanField (s : Scorer) (name : String) (_ : List Argument) : Prop :=
  s.table.costOf name = .float .nan

theorem NoneBelowZero.addSurcharge_prices (h : s.NoneBelowZero) (argument : Argument) :
    Prices (s.addSurcharge · argument) False := by
  intro total htotal sum hsum
  rcases s.addSurcharge_cases argument with ⟨text, rfl⟩ | hstay
  · obtain ⟨limit, price, _, hprice, hsum⟩ := addSurcharge_eq_ok hsum
    obtain ⟨x, size, rfl, hsize⟩ := h.page limit price hprice
    obtain rfl := Except.ok.inj hsum
    obtain ⟨hsum, hnan⟩ := htotal.add (.inr ⟨size, hsize⟩)
    exact ⟨hsum, by simp only [hnan, hsize.ne_nan, or_false]⟩
  · exact Prices.stay id total htotal sum ((hstay total).symm.trans hsum)

theorem NoneBelowZero.surcharge_nanFor (h : s.NoneBelowZero) (arguments : List Argument) :
    NanFor (s.surcharge arguments) False :=
  ((Prices.foldlM h.addSurcharge_prices arguments).congr (by simp)).from_zero

theorem NoneBelowZero.addField_prices (h : s.NoneBelowZero) (name : String)
    (arguments : List Argument) :
    Prices (s.addField · name arguments) (s.NanField name arguments) := by
  obtain ⟨cost, hcost, hprice⟩ := h.cost name
  have hyield : NanFor (.ok cost) (s.NanField name arguments) := by
    rintro _ ⟨⟩
    exact ⟨hprice, by simp only [NanField, hcost, Quantity.float.injEq]⟩
  have hpriced : Prices (addTo · (s.table.costOf name)) (s.NanField name arguments) := by
    rw [hcost]
    exact .plus hyield
  exact (hpriced.andThen (.plus (h.surcharge_nanFor arguments))).congr (or_false _).to_iff

/-- What a selection makes of the total is a price, and for the selection it is NaN exactly if a
field is counted there that costs NaN. -/
theorem NoneBelowZero.addPlain_prices (h : s.NoneBelowZero) {level : Int}
    {inner : SelectionSet → Except Failure Binary64}
    (hinner : ∀ set, NanFor (inner set) (s.CountsSome fragments s.NanField set level))
    (selection : Selection) :
    Prices (s.addPlain fragments inner · selection)
      (s.CountsAt fragments s.NanField level selection) := by
  have hnested : ∀ set, Prices (fun total => do return total + (← inner set))
      (s.CountsSome fragments s.NanField set level) := fun set => .plus (hinner set)
  have hzero : NanFor (.ok .zero) (s.CountsSome fragments s.NanField none level) :=
    (Prices.stay not_countsSome_none).from_zero
  cases selection with
  | field label name arguments directives body =>
    refine .congr ?_ countsAt_field.symm
    cases body with
    | none =>
      exact (h.addField_prices name arguments).congr (by simp only [not_countsSome_none, or_false])
    | some selections =>
      exact (h.addField_prices name arguments).andThen (hnested (some selections))
  | inline on directives body =>
    refine .congr ?_ (countsAt_of_ne (by rintro _ _ _ _ _ ⟨⟩)).symm
    exact hnested body
  | spread name directives body =>
    refine .congr ?_ (countsAt_of_ne (by rintro _ _ _ _ _ ⟨⟩)).symm
    cases body with
    | some selections => exact hnested (some selections)
    | none =>
      simp only [addPlain, entered]
      cases resolve? fragments name with
      | none => exact .plus hzero
      | some body => exact hnested body
  | other =>
    refine .congr ?_ (countsAt_of_ne (by rintro _ _ _ _ _ ⟨⟩)).symm
    exact .stay not_countsSome_none

theorem NoneBelowZero.plainScore_nanFor (h : s.NoneBelowZero) (level : Int) :
    ∀ set, NanFor (s.plainScore fragments set level)
      (s.CountsSome fragments s.NanField set level) := by
  induction level using s.level_induction with
  | below level hlevel =>
    intro set
    rw [plainScore_above hlevel]
    exact (Prices.stay (not_countsSome_of_lt hlevel set)).from_zero
  | within level hlevel ih =>
    intro set
    cases set with
    | none =>
      rw [plainScore_none]
      exact (Prices.stay not_countsSome_none).from_zero
    | some selections =>
      rw [plainScore_some hlevel]
      exact ((Prices.foldlM (h.addPlain_prices ih) selections).congr
        (countsSome_some hlevel).symm).from_zero

/-- A score is NaN exactly if a field that it counts costs NaN. -/
theorem NoneBelowZero.score_eq_nan_iff (h : s.NoneBelowZero) {set : SelectionSet} {level : Int}
    {x : Binary64} (hx : s.score fragments set level = .ok x) :
    x = .nan ↔ s.CountsSome fragments s.NanField set level := by
  unfold score at hx
  rw [(s.scoreWithin_agree fragments level set [] memoSound_nil).1] at hx
  exact (h.plainScore_nanFor level set x hx).2

end Scorer

/-! ## Settings -/

theorem lookup_map {α β : Type} (f : α → β) (entries : List (String × α)) (name : String) :
    (entries.map fun (key, value) => (key, f value)).lookup name =
      (entries.lookup name).map f := by
  induction entries with
  | nil => rfl
  | cons entry entries ih =>
    obtain ⟨key, value⟩ := entry
    rw [List.map_cons, List.lookup_cons, List.lookup_cons, ih]
    cases name == key <;> rfl

namespace Settings

variable {settings : Settings} {scorer : Scorer}

/-- The scorer that settings describe has no price below zero; a listed cost can be NaN. -/
theorem noneBelowZero (h : settings.scorer = .ok scorer) : scorer.NoneBelowZero := by
  obtain ⟨table, htable, rfl⟩ := scorer_eq_ok h
  obtain ⟨weight, units, hweight, hsize⟩ := Scorer.hasSize_standardPageWeight
  constructor
  · intro name
    obtain ⟨htable, _, hcosts⟩ := CostTable.make_eq_ok htable
    rcases table.costOf_cases name with ⟨entry, hentry, hcost⟩ | hcost
    · rw [htable] at hentry
      obtain ⟨⟨key, cost⟩, _, rfl⟩ := List.mem_map.mp hentry
      refine ⟨cost, hcost, ?_⟩
      by_cases hnan : cost = .nan
      · exact .inl hnan
      · exact .inr (Binary64.hasSize_of_isNonNegative
          (Quantity.isNonNegative_of_not_isNegative hnan (hcosts _ hentry)))
    · rw [htable] at hcost
      exact ⟨_, by rw [htable, hcost], .inr
        (Binary64.hasSize_of_isNonNegative settings.defaultFieldCost.property)⟩
  · intro limit price hprice
    obtain ⟨x, hx, rfl⟩ := Scorer.pagePrice_eq_ok rfl hweight hprice
    obtain ⟨pages, hpages, _⟩ := Binary64.hasSize_of_ofInt? hx
    exact ⟨_, _, rfl, hpages.mul hsize⟩

/-- A field costs NaN exactly if the settings list NaN for it. -/
theorem nanField_iff (h : settings.scorer = .ok scorer) (name : String)
    (arguments : List Argument) :
    scorer.NanField name arguments ↔ settings.fieldCosts.lookup name = some .nan := by
  obtain ⟨table, htable, rfl⟩ := scorer_eq_ok h
  obtain ⟨rfl, _, _⟩ := CostTable.make_eq_ok htable
  obtain ⟨size, hdefault⟩ :=
    Binary64.hasSize_of_isNonNegative settings.defaultFieldCost.property
  simp only [Scorer.NanField, CostTable.costOf, lookup_map Quantity.float]
  cases settings.fieldCosts.lookup name with
  | none => simp [hdefault.ne_nan]
  | some cost => simp

end Settings

/-! ## Verdicts -/

namespace Gate

variable {gate : Gate}

/-- What a gate that settings describe allows is within the depth limit; it is within the
complexity limit exactly if no field is counted for which the settings list NaN. -/
theorem within_limits_of_allowed {settings : Settings} (hgate : settings.gate = .ok gate)
    {document : Document} {name : Option String} {evaluation : Evaluation}
    {logs : List LogRecord} (heval : gate.evaluate (some document) name = .ok (evaluation, logs))
    {operation : Operation} (hoperation : evaluation.operation = some operation)
    (hallowed : evaluation.decision = .allowed) :
    evaluation.depth.le (.int settings.maxDepth) = true ∧
      ((Quantity.float evaluation.complexity).le (.float settings.maxComplexity) = true ↔
        ¬gate.scorer.CountsSome (gate.bound document)
          (fun field _ => settings.fieldCosts.lookup field = some .nan)
          operation.selections 0) := by
  have hlimited := (Built.ofSettings hgate rfl).limited
  obtain ⟨hscorer, _, _, hpolicy, _⟩ := Settings.gate_eq_ok hgate
  rcases evaluate_eq_ok hlimited heval with ⟨_, rfl⟩ | ⟨o, complexity, _, hscore, rfl⟩
  · cases hoperation
  · obtain rfl := Option.some.inj hoperation
    obtain ⟨hcomplex, hheight, hsize⟩ := verdict_eq_allowed.mp hallowed
    constructor
    · rw [Quantity.int_le_int, decide_eq_true_eq, ← not_lt, limit_lt_reportedDepth]
      omega
    · obtain ⟨size, hlimit⟩ :=
        Binary64.hasSize_of_isNonNegative settings.maxComplexity.property
      rw [hpolicy] at hcomplex
      rw [Quantity.float_le_iff hlimit.ne_nan hcomplex, ne_eq,
        (Settings.noneBelowZero hscorer).score_eq_nan_iff hscore]
      simp only [Scorer.CountsSome, Settings.nanField_iff hscorer]

/-! ### A cost of NaN -/

/-- A query for the own user. -/
def ownUser : Document := ⟨[.operation ⟨.query, none, [], [], some [leafOf "me"]⟩]⟩

/-- The complexity at which the gate of the settings allows the query, if it does. -/
def allowedComplexity (settings : Settings) : Option Binary64 := do
  let gate ← settings.gate.toOption
  let (evaluation, _) ← (gate.evaluate (some ownUser) none).toOption
  if evaluation.operation.isSome && evaluation.decision.isAllowed then
    some evaluation.complexity
  else none

theorem exists_of_allowedComplexity {settings : Settings} {complexity : Binary64}
    (h : allowedComplexity settings = some complexity) :
    ∃ gate evaluation logs operation, settings.gate = .ok gate ∧
      gate.evaluate (some ownUser) none = .ok (evaluation, logs) ∧
      evaluation.operation = some operation ∧ evaluation.decision = .allowed ∧
      evaluation.complexity = complexity := by
  obtain ⟨gate, hgate, h⟩ := Option.bind_eq_some_iff.mp h
  obtain ⟨⟨evaluation, logs⟩, heval, h⟩ := Option.bind_eq_some_iff.mp h
  simp only at h
  split at h
  · rename_i hallowed
    rw [Bool.and_eq_true] at hallowed
    obtain ⟨operation, hoperation⟩ := Option.isSome_iff_exists.mp hallowed.1
    refine ⟨gate, evaluation, logs, operation, eq_ok_of_toOption hgate,
      eq_ok_of_toOption heval, hoperation, ?_, Option.some.inj h⟩
    cases hdecision : evaluation.decision with
    | allowed => rfl
    | rejected rejection =>
      rw [hdecision] at hallowed
      cases hallowed.2
  · cases h

/-- Where no cost is NaN, the query is allowed within both limits. -/
theorem within_limits_of_allowed_ownUser :
    ∃ gate evaluation logs operation, strictSettings.gate = .ok gate ∧
      gate.evaluate (some ownUser) none = .ok (evaluation, logs) ∧
      evaluation.operation = some operation ∧ evaluation.decision = .allowed ∧
      evaluation.depth.le (.int strictSettings.maxDepth) = true ∧
      (Quantity.float evaluation.complexity).le (.float strictSettings.maxComplexity) = true := by
  have hcomplexity : allowedComplexity strictSettings = some (.ofInt 1) := by decide +kernel
  obtain ⟨gate, evaluation, logs, operation, hgate, heval, hoperation, hallowed, _⟩ :=
    exists_of_allowedComplexity hcomplexity
  have hlookup : ∀ field, strictSettings.fieldCosts.lookup field ≠ some .nan := by
    intro field
    simp only [strictSettings, List.lookup_cons, List.lookup_nil]
    split <;> rintro ⟨⟩
  obtain ⟨hdepth, hcomplex⟩ := within_limits_of_allowed hgate heval hoperation hallowed
  refine ⟨gate, evaluation, logs, operation, hgate, heval, hoperation, hallowed, hdepth,
    hcomplex.mpr ?_⟩
  rintro ⟨field, _, _, hnan⟩
  exact hlookup field hnan

/-- Settings that list NaN as the cost of a field. -/
def nanSettings : Settings := { strictSettings with fieldCosts := [("me", .nan)] }

/-- Under a cost of NaN the query is allowed, and its complexity is not within the limit. -/
theorem allowed_beyond_limit_ownUser :
    ∃ gate evaluation logs operation, nanSettings.gate = .ok gate ∧
      gate.evaluate (some ownUser) none = .ok (evaluation, logs) ∧
      evaluation.operation = some operation ∧ evaluation.decision = .allowed ∧
      (Quantity.float evaluation.complexity).le (.float nanSettings.maxComplexity) = false := by
  have hcomplexity : allowedComplexity nanSettings = some .nan := by decide +kernel
  obtain ⟨gate, evaluation, logs, operation, hgate, heval, hoperation, hallowed, hnan⟩ :=
    exists_of_allowedComplexity hcomplexity
  refine ⟨gate, evaluation, logs, operation, hgate, heval, hoperation, hallowed, ?_⟩
  rw [hnan]
  rfl

end Gate

end QueryAdmission
