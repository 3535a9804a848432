import QueryAdmission.Proofs.NumberOrder
import QueryAdmission.Settings

/-! # What the constructors accept

A constructor that succeeds returns its arguments, and they have passed its checks. The
parts of a scorer or a gate that settings describe are therefore known from the settings. -/

namespace QueryAdmission

/-! ## Outcomes -/

theorem bind_eq_ok {ε α β : Type} {x : Except ε α} {f : α → Except ε β} {b : β}
    (h : x >>= f = .ok b) : ∃ a, x = .ok a ∧ f a = .ok b := by
  cases x with
  | error e => cases h
  | ok a => exact ⟨a, rfl, h⟩

theorem map_eq_ok {ε α β : Type} {x : Except ε α} {f : α → β} {b : β}
    (h : (do return f (← x)) = Except.ok b) : ∃ a, x = .ok a ∧ f a = b := by
  obtain ⟨a, ha, hb⟩ := bind_eq_ok h
  exact ⟨a, ha, Except.ok.inj hb⟩

theorem eq_ok_of_toOption {ε α : Type} {x : Except ε α} {a : α} (h : x.toOption = some a) :
    x = .ok a := by
  cases x with
  | error e => cases h
  | ok b => exact congrArg Except.ok (Option.some.inj h)

/-! ## Parts of a gate -/

/-- A cost table that is made has no negative cost, and no negative fallback. -/
theorem CostTable.make_eq_ok {costs : List (String × Quantity)} {fallback : Quantity}
    {table : CostTable} (h : CostTable.make costs fallback = .ok table) :
    table = ⟨costs, fallback⟩ ∧ fallback.isNegative = false ∧
      ∀ entry ∈ costs, entry.2.isNegative = false := by
  unfold CostTable.make at h
  split at h
  · cases h
  · rename_i hfallback
    split at h
    · rename_i hnames
      refine ⟨(Except.ok.inj h).symm, by simpa using hfallback, ?_⟩
      intro entry hentry
      rw [Bool.eq_false_iff]
      intro hnegative
      have hmem : entry.1 ∈ negativeNames costs := by
        rw [negativeNames, List.mem_mergeSort]
        exact List.mem_map_of_mem (List.mem_filter.mpr ⟨hentry, hnegative⟩)
      rw [hnames] at hmem
      cases hmem
    · cases h

theorem Scorer.make_eq_ok {table : CostTable} {cutoff : Int} {pageArgument : String}
    {pageCap pageWeight : Quantity} {scorer : Scorer}
    (h : Scorer.make table cutoff pageArgument pageCap pageWeight = .ok scorer) :
    0 ≤ cutoff ∧ scorer = ⟨table, cutoff.toNat, pageArgument, pageCap, pageWeight⟩ := by
  unfold Scorer.make at h
  split at h
  · cases h
  · exact ⟨by omega, (Except.ok.inj h).symm⟩

theorem Policy.make_eq_ok {maxComplexity maxDepth : Quantity} {policy : Policy}
    (h : Policy.make maxComplexity maxDepth = .ok policy) : policy = ⟨maxComplexity, maxDepth⟩ := by
  unfold Policy.make at h
  split at h
  · cases h
  · split at h
    · cases h
    · exact (Except.ok.inj h).symm

theorem DepthMeter.make_eq_ok {cap : Option Quantity} {budget : Int} {meter : DepthMeter}
    (h : DepthMeter.make cap budget = .ok meter) :
    meter.cap = cap ∧ (meter.budget : Int) = budget := by
  unfold DepthMeter.make at h
  split at h
  · obtain rfl := Except.ok.inj h
    refine ⟨rfl, ?_⟩
    simp only
    omega
  · cases h

theorem Gate.make_eq_ok {policy : Policy} {scorer : Scorer} {meter : Option DepthMeter}
    {resolveFragments logEvaluations : Bool} {logger : String} {gate : Gate}
    (h : Gate.make policy scorer meter resolveFragments logEvaluations logger = .ok gate) :
    gate = { policy, scorer, meter := meter.getD (.capped policy.maxDepth.succ)
             resolveFragments, logEvaluations, logger } := by
  unfold Gate.make at h
  split at h
  · exact (Except.ok.inj h).symm
  · cases h

/-! ## Settings -/

namespace Settings

variable {settings : Settings}

theorem scorer_eq_ok {scorer : Scorer} (h : settings.scorer = .ok scorer) :
    ∃ table, settings.costTable = .ok table ∧
      scorer = ⟨table, settings.complexityCutoff, Scorer.standardPageArgument,
        Scorer.standardPageCap, Scorer.standardPageWeight⟩ := by
  obtain ⟨table, htable, hmake⟩ := bind_eq_ok h
  exact ⟨table, htable, (Scorer.make_eq_ok hmake).2⟩

/-- The parts of the gate that settings describe. -/
theorem gate_eq_ok {gate : Gate} (h : settings.gate = .ok gate) :
    settings.scorer = .ok gate.scorer ∧
      gate.meter.cap = some (.int (settings.maxDepth + 1)) ∧
      gate.meter.budget = settings.depthNodeBudget ∧
      gate.policy = ⟨.float settings.maxComplexity, .int settings.maxDepth⟩ ∧
      gate.resolveFragments = settings.resolveFragments ∧
      gate.logEvaluations = settings.logEvaluations := by
  obtain ⟨scorer, hscorer, h⟩ := bind_eq_ok h
  obtain ⟨meter, hmeter, h⟩ := bind_eq_ok h
  obtain ⟨policy, hpolicy, h⟩ := bind_eq_ok h
  obtain rfl := Gate.make_eq_ok h
  obtain ⟨hcap, hbudget⟩ := DepthMeter.make_eq_ok hmeter
  refine ⟨hscorer, hcap, ?_, Policy.make_eq_ok hpolicy, rfl, rfl⟩
  simp only [Option.getD_some]
  omega

/-- The gate that settings describe around a scorer. -/
def gateWith (s : Settings) (scorer : Scorer) : Gate where
  policy := ⟨.float s.maxComplexity, .int s.maxDepth⟩
  scorer
  meter := ⟨some (.int (s.maxDepth + 1)), s.depthNodeBudget, s.budget_pos⟩
  resolveFragments := s.resolveFragments
  logEvaluations := s.logEvaluations
  logger := gateLogger

/-- Settings that describe a scorer describe a gate: no other part can be refused. -/
theorem gate_of_scorer {scorer : Scorer} (h : settings.scorer = .ok scorer) :
    settings.gate = .ok (settings.gateWith scorer) := by
  have hmeter : DepthMeter.make (some (.int (settings.maxDepth + 1))) settings.depthNodeBudget =
      .ok ⟨some (.int (settings.maxDepth + 1)), settings.depthNodeBudget, settings.budget_pos⟩ := by
    simp [DepthMeter.make, settings.budget_pos]
  have hpolicy : Policy.make (.float settings.maxComplexity) (.int settings.maxDepth) =
      .ok ⟨.float settings.maxComplexity, .int settings.maxDepth⟩ := by
    have hcomplexity := Quantity.isNegative_of_isNonNegative settings.maxComplexity.property
    have hdepth : (Quantity.int settings.maxDepth).isNegative = false := by
      simp [Quantity.isNegative, Quantity.int_lt_int]
    simp [Policy.make, hcomplexity, hdepth]
  have hfits : Gate.cutoffFits ⟨.float settings.maxComplexity, .int settings.maxDepth⟩ scorer =
      true := by
    obtain ⟨_, _, rfl⟩ := scorer_eq_ok h
    simp [Gate.cutoffFits, Quantity.int_lt_int, settings.cutoff_le]
  simp [gate, h, hmeter, hpolicy, Gate.make, hfits, bind, Except.bind, gateWith]

theorem exists_gateWith {gate : Gate} (h : settings.gate = .ok gate) :
    ∃ scorer, settings.scorer = .ok scorer ∧ gate = settings.gateWith scorer := by
  obtain ⟨hscorer, _⟩ := gate_eq_ok h
  rw [gate_of_scorer hscorer] at h
  exact ⟨gate.scorer, hscorer, (Except.ok.inj h).symm⟩

end Settings

end QueryAdmission
